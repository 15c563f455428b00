import UltraBacktest.Library.TruncDiv
import UltraBacktest.Verification.Portfolio.Equations
import Mathlib.Algebra.Order.Ring.Abs
import Mathlib.Tactic.LinearCombination

/-! The position of a symbol as a cash-flow ledger. Averaging loses exactly the
remainder of its truncated division; nothing else is lost by opens, adds, closes
or flips. -/

namespace UltraBacktest

/-! ## The fills of a run and the positions they meet -/

/-- A fill together with the position it was applied to. -/
structure Booking where
  before : Position
  rpt : ExecutionReport

/-- What a step books on a symbol. -/
def booking? (s : Slot) (pos : Position) (st : Step) : Option Booking :=
  (st.fill?.filter (fun rpt => rpt.symbol = s)).map (Booking.mk pos)

/-- The fills of a run on one symbol, each with the position before it. -/
def bookings (p : Portfolio) (s : Slot) (steps : List Step) : List Booking :=
  (Run.trail Portfolio.step p steps).filterMap (fun q => booking? s (q.1.positions s) q.2)

namespace Booking

/-- The fill opens or adds to a long position. -/
def AddsToLong (b : Booking) : Prop := b.rpt.side = .buy ∧ 0 ≤ b.before.netQty

/-- The fill opens or adds to a short position. -/
def AddsToShort (b : Booking) : Prop := b.rpt.side = .sell ∧ b.before.netQty ≤ 0

instance : DecidablePred AddsToLong := fun b =>
  inferInstanceAs (Decidable (b.rpt.side = .buy ∧ 0 ≤ b.before.netQty))

instance : DecidablePred AddsToShort := fun b =>
  inferInstanceAs (Decidable (b.rpt.side = .sell ∧ b.before.netQty ≤ 0))

def netAfter (b : Booking) : ℤ := (b.before.fill b.rpt).netQty

def totalCost (b : Booking) : ℤ :=
  b.before.avgEntryPrice * b.before.netQty + b.rpt.execPrice * b.rpt.execQty

def totalValue (b : Booking) : ℤ :=
  b.before.avgEntryPrice * -b.before.netQty + b.rpt.execPrice * b.rpt.execQty

/-- Every average computed by the fill divides evenly. -/
def Even (b : Booking) : Prop :=
  (b.AddsToLong → b.netAfter ∣ b.totalCost) ∧ (b.AddsToShort → |b.netAfter| ∣ b.totalValue)

end Booking

/-- Remainders lost on the long side minus remainders lost on the short side. -/
def rounding (bs : List Booking) : ℤ :=
  ((bs.filter (fun b => b.AddsToLong)).map (fun b => b.totalCost.tmod b.netAfter)).sum -
    ((bs.filter (fun b => b.AddsToShort)).map (fun b => b.totalValue.tmod |b.netAfter|)).sum

/-- The largest rounding that position-increasing fills can accumulate. -/
def roundingBound (bs : List Booking) : ℤ :=
  ((bs.filter (fun b => b.AddsToLong ∨ b.AddsToShort)).map (fun b => |b.netAfter| - 1)).sum

/-- The notional traded on one side. -/
def notional (side : Side) (rpts : List ExecutionReport) : ℤ :=
  ((rpts.filter (fun rpt => rpt.side = side)).map
    (fun rpt => rpt.execPrice * (rpt.execQty : ℤ))).sum

/-- The true profit of a symbol: cash received, less cash paid, plus the value of the
open position at the last price. -/
def cashFlowPnl (pos : Position) (rpts : List ExecutionReport) : ℤ :=
  notional .sell rpts - notional .buy rpts + pos.netQty * pos.lastPrice

/-! ## One fill -/

/-- The rounding term contributed by a single fill. -/
def Booking.rounding (b : Booking) : ℤ :=
  if 0 ≤ b.before.exposure b.rpt.side then
    b.rpt.side.sign *
      (b.before.avgEntryPrice * b.before.exposure b.rpt.side +
        b.rpt.execPrice * b.rpt.execQty).tmod (b.before.exposure b.rpt.side + b.rpt.execQty)
  else 0

/-- The cost ledger of one position: realized profit minus the cost of the open lots
moves by the cash flow of the fill and its rounding. -/
theorem Position.fill_cost (pos : Position) (rpt : ExecutionReport) :
    (pos.fill rpt).realizedPnl - (pos.fill rpt).avgEntryPrice * (pos.fill rpt).netQty =
      pos.realizedPnl - pos.avgEntryPrice * pos.netQty +
        (Booking.rounding ⟨pos, rpt⟩ - rpt.side.sign * (rpt.execPrice * rpt.execQty)) := by
  have hnet := pos.sign_mul_exposure rpt.side
  rw [fill_realizedPnl, fill_avgEntryPrice, fill_netQty, Booking.rounding, ← hnet]
  dsimp only
  rcases lt_or_ge (pos.exposure rpt.side) 0 with h | h
  · rw [realizedBy_of_exposure_neg h, book_of_exposure_neg _ _ h, if_neg (not_le.mpr h)]
    dsimp only
    split_ifs with hflip hflat
    · rw [min_eq_right (by omega)]
      ring
    · rw [min_eq_left (by omega), show (rpt.execQty : ℤ) = -pos.exposure rpt.side by omega]
      ring
    · rw [min_eq_left (by omega)]
      ring
  · rw [realizedBy_of_exposure_nonneg h, book_of_exposure_nonneg _ _ h, if_pos h]
    dsimp only
    have hdiv := Int.tdiv_mul_add_tmod
      (pos.avgEntryPrice * pos.exposure rpt.side + rpt.execPrice * rpt.execQty)
      (pos.exposure rpt.side + rpt.execQty)
    linear_combination -rpt.side.sign * hdiv

theorem Booking.exposure_nonneg_iff (b : Booking) :
    0 ≤ b.before.exposure b.rpt.side ↔ b.AddsToLong ∨ b.AddsToShort := by
  unfold Position.exposure AddsToLong AddsToShort
  cases b.rpt.side <;> simp [Side.sign]

theorem Booking.netAfter_eq (b : Booking) :
    b.netAfter = b.rpt.side.sign * (b.before.exposure b.rpt.side + b.rpt.execQty) := by
  rw [netAfter, Position.fill_netQty, mul_add, Position.sign_mul_exposure]

theorem Booking.rounding_of_addsToLong {b : Booking} (h : b.AddsToLong) :
    b.rounding = b.totalCost.tmod b.netAfter := by
  have hexp := b.exposure_nonneg_iff.mpr (Or.inl h)
  rw [rounding, if_pos hexp, netAfter_eq]
  simp [h.1, Side.sign, Position.exposure, totalCost]

theorem Booking.rounding_of_addsToShort {b : Booking} (h : b.AddsToShort) :
    b.rounding = -b.totalValue.tmod |b.netAfter| := by
  have hexp := b.exposure_nonneg_iff.mpr (Or.inr h)
  have habs : |b.netAfter| = b.before.exposure b.rpt.side + b.rpt.execQty := by
    rw [netAfter_eq, h.1, Side.sign, neg_one_mul, abs_neg, ← h.1]
    exact abs_of_nonneg (by omega)
  rw [rounding, if_pos hexp, habs]
  simp [h.1, Side.sign, Position.exposure, totalValue]

theorem Booking.not_addsToShort_of_addsToLong {b : Booking} (h : b.AddsToLong) :
    ¬ b.AddsToShort := by
  intro hs
  exact absurd (h.1.symm.trans hs.1) (by decide)

theorem Booking.rounding_of_not {b : Booking} (hl : ¬ b.AddsToLong) (hs : ¬ b.AddsToShort) :
    b.rounding = 0 := by
  rw [rounding, if_neg]
  intro h
  exact (b.exposure_nonneg_iff.mp h).elim hl hs

/-- The two-sided sum of remainders is the sum of the per-fill rounding terms. -/
theorem rounding_eq_sum (bs : List Booking) :
    rounding bs = (bs.map Booking.rounding).sum := by
  unfold rounding
  induction bs with
  | nil => rfl
  | cons b bs ih =>
      by_cases hl : b.AddsToLong
      · have hs := Booking.not_addsToShort_of_addsToLong hl
        simp only [List.filter_cons, hl, hs, decide_true, decide_false, if_true,
          Bool.false_eq_true, if_false, List.map_cons, List.sum_cons, ← ih,
          Booking.rounding_of_addsToLong hl]
        ring
      · by_cases hs : b.AddsToShort
        · simp only [List.filter_cons, hl, hs, decide_true, decide_false, if_true,
            Bool.false_eq_true, if_false, List.map_cons, List.sum_cons, ← ih,
            Booking.rounding_of_addsToShort hs]
          ring
        · simp only [List.filter_cons, hl, hs, decide_false, Bool.false_eq_true, if_false,
            List.map_cons, List.sum_cons, ← ih, Booking.rounding_of_not hl hs]
          ring

/-- A single fill loses less than one unit of price per unit of open quantity. -/
theorem Booking.abs_rounding_le {b : Booking} (hq : 1 ≤ b.rpt.execQty) :
    |b.rounding| ≤ if b.AddsToLong ∨ b.AddsToShort then |b.netAfter| - 1 else 0 := by
  by_cases hexp : 0 ≤ b.before.exposure b.rpt.side
  · rw [if_pos (b.exposure_nonneg_iff.mp hexp), rounding, if_pos hexp, netAfter_eq, abs_mul,
      abs_mul]
    have hpos : 0 < b.before.exposure b.rpt.side + b.rpt.execQty := by omega
    have hsign : |b.rpt.side.sign| = 1 := by cases b.rpt.side <;> rfl
    rw [hsign, one_mul, one_mul, abs_of_pos hpos]
    exact TruncDiv.abs_tmod_le _ hpos
  · rw [if_neg (fun h => hexp (b.exposure_nonneg_iff.mpr h)), rounding, if_neg hexp, abs_zero]

theorem Booking.rounding_of_even {b : Booking} (h : b.Even) : b.rounding = 0 := by
  by_cases hl : b.AddsToLong
  · rw [rounding_of_addsToLong hl]
    exact Int.tmod_eq_zero_of_dvd (h.1 hl)
  · by_cases hs : b.AddsToShort
    · rw [rounding_of_addsToShort hs, Int.tmod_eq_zero_of_dvd (h.2 hs), neg_zero]
    · exact rounding_of_not hl hs

/-! ## Whole runs -/

theorem abs_rounding_le_roundingBound {bs : List Booking}
    (h : ∀ b ∈ bs, 1 ≤ b.rpt.execQty) : |rounding bs| ≤ roundingBound bs := by
  rw [rounding_eq_sum]
  unfold roundingBound
  induction bs with
  | nil => simp
  | cons b bs ih =>
      have htail := ih (fun c hc => h c (by simp [hc]))
      have hhead := Booking.abs_rounding_le (h b (by simp))
      have htriangle := abs_add_le b.rounding (bs.map Booking.rounding).sum
      rw [List.map_cons, List.sum_cons, List.filter_cons]
      by_cases hadd : b.AddsToLong ∨ b.AddsToShort
      · rw [if_pos hadd] at hhead
        rw [if_pos (decide_eq_true hadd), List.map_cons, List.sum_cons]
        linarith
      · rw [if_neg hadd] at hhead
        rw [if_neg (by simpa using hadd)]
        linarith

theorem rounding_eq_zero_of_even {bs : List Booking} (h : ∀ b ∈ bs, b.Even) :
    rounding bs = 0 := by
  rw [rounding_eq_sum]
  apply List.sum_eq_zero
  intro x hx
  obtain ⟨b, hb, rfl⟩ := List.mem_map.mp hx
  exact Booking.rounding_of_even (h b hb)

theorem signed_notional (rpts : List ExecutionReport) :
    (rpts.map (fun rpt => -(rpt.side.sign * (rpt.execPrice * (rpt.execQty : ℤ))))).sum =
      notional .sell rpts - notional .buy rpts := by
  unfold notional
  induction rpts with
  | nil => rfl
  | cons rpt rpts ih =>
      rw [List.map_cons, List.sum_cons, ih]
      cases hside : rpt.side <;> simp [hside, Side.sign] <;> ring

theorem bookings_map_rpt (p : Portfolio) (s : Slot) (steps : List Step) :
    (bookings p s steps).map Booking.rpt = fillsOn s steps := by
  unfold bookings fillsOn fills
  induction steps generalizing p with
  | nil => rfl
  | cons st steps ih =>
      rw [Run.trail_cons, List.filterMap_cons, List.filterMap_cons]
      cases hfill : st.fill? with
      | none => simpa [booking?, hfill] using ih (p.step st)
      | some rpt =>
          by_cases hs : rpt.symbol = s
          · simpa [booking?, hfill, hs, Option.filter] using ih (p.step st)
          · simpa [booking?, hfill, hs, Option.filter] using ih (p.step st)

theorem one_le_execQty_of_mem_fillsOn {s : Slot} {steps : List Step}
    (h : ∀ st ∈ steps, st.Positive) : ∀ rpt ∈ fillsOn s steps, 1 ≤ rpt.execQty := by
  intro rpt hrpt
  obtain ⟨st, hst, hfill⟩ := List.mem_filterMap.mp (List.mem_filter.mp hrpt).1
  exact h st hst rpt hfill

/-- The cost ledger of a symbol over a whole run. -/
theorem run_cost (p : Portfolio) (s : Slot) (steps : List Step) :
    ((p.run steps).positions s).realizedPnl -
        ((p.run steps).positions s).avgEntryPrice * ((p.run steps).positions s).netQty =
      (p.positions s).realizedPnl - (p.positions s).avgEntryPrice * (p.positions s).netQty +
        (rounding (bookings p s steps) + (notional .sell (fillsOn s steps) -
          notional .buy (fillsOn s steps))) := by
  have hstep : ∀ (pos : Position) (st : Step),
      (pos.step s st).realizedPnl - (pos.step s st).avgEntryPrice * (pos.step s st).netQty =
        pos.realizedPnl - pos.avgEntryPrice * pos.netQty +
          (booking? s pos st).elim 0 (fun b => b.rounding -
            b.rpt.side.sign * (b.rpt.execPrice * (b.rpt.execQty : ℤ))) := by
    intro pos st
    obtain ⟨hnone, hstep | ⟨lastPrice, hstep⟩⟩ | ⟨rpt, hsome, -, -, hstep⟩ :=
      Position.step_cases s pos st
    · simp [booking?, hnone, hstep]
    · simp [booking?, hnone, hstep]
    · simpa [booking?, hsome, hstep] using pos.fill_cost rpt
  have hrun := Run.measure_eq_sum
    (fun pos : Position => pos.realizedPnl - pos.avgEntryPrice * pos.netQty)
    (booking? s) _ hstep (p.positions s) steps
  rw [p.trail_positions, List.filterMap_map] at hrun
  rw [p.run_positions, hrun, rounding_eq_sum, ← signed_notional, ← bookings_map_rpt p,
    List.map_map, ← List.sum_map_add]
  simp only [sub_eq_add_neg]
  rfl

/-- Unrealized profit is always the mark of the open position at the last price. -/
def Position.Marked (pos : Position) : Prop :=
  pos.unrealizedPnl = (pos.lastPrice - pos.avgEntryPrice) * pos.netQty

theorem Position.marked_step {s : Slot} {pos : Position} (h : pos.Marked) (st : Step) :
    (pos.step s st).Marked := by
  obtain ⟨-, hstep | ⟨lastPrice, hstep⟩⟩ | ⟨rpt, -, -, -, hstep⟩ := step_cases s pos st
  · rw [hstep]
    exact h
  · rw [hstep]
    exact mark_unrealizedPnl pos lastPrice
  · rw [hstep]
    exact fill_unrealizedPnl pos rpt

theorem Position.marked_run {p : Portfolio} {s : Slot} (h : (p.positions s).Marked)
    (steps : List Step) : ((p.run steps).positions s).Marked := by
  rw [p.run_positions]
  exact List.foldlRecOn steps _ h (fun _ hb st _ => marked_step hb st)

/-- Reported profit is the cash-flow profit plus the accumulated rounding. -/
theorem pnl_eq_cashFlowPnl_add_rounding (config : BacktestConfig) (s : Slot)
    (steps : List Step) :
    (((Portfolio.init config).run steps).positions s).realizedPnl +
        (((Portfolio.init config).run steps).positions s).unrealizedPnl =
      cashFlowPnl (((Portfolio.init config).run steps).positions s) (fillsOn s steps) +
        rounding (bookings (Portfolio.init config) s steps) := by
  have hmarked : (((Portfolio.init config).run steps).positions s).Marked :=
    Position.marked_run (by simp [Position.Marked, Portfolio.init]) steps
  have hcost := run_cost (Portfolio.init config) s steps
  have hinit : ((Portfolio.init config).positions s).realizedPnl -
      ((Portfolio.init config).positions s).avgEntryPrice *
        ((Portfolio.init config).positions s).netQty = 0 := by
    simp [Portfolio.init]
  rw [hmarked, cashFlowPnl]
  linear_combination hcost + hinit

theorem ledger_identity (config : BacktestConfig) (s : Slot) (steps : List Step)
    (h : ∀ st ∈ steps, st.Positive) :
    let pos := ((Portfolio.init config).run steps).positions s
    let bs := bookings (Portfolio.init config) s steps
    let truePnl := cashFlowPnl pos (fillsOn s steps)
    pos.realizedPnl + pos.unrealizedPnl = truePnl + rounding bs ∧
      |pos.realizedPnl + pos.unrealizedPnl - truePnl| ≤ roundingBound bs ∧
      ((∀ b ∈ bs, b.Even) → pos.realizedPnl + pos.unrealizedPnl = truePnl) := by
  intro pos bs truePnl
  have hpnl : pos.realizedPnl + pos.unrealizedPnl = truePnl + rounding bs :=
    pnl_eq_cashFlowPnl_add_rounding config s steps
  refine ⟨hpnl, ?_, ?_⟩
  · rw [hpnl, add_sub_cancel_left]
    apply abs_rounding_le_roundingBound
    intro b hb
    apply one_le_execQty_of_mem_fillsOn h
    rw [← bookings_map_rpt (Portfolio.init config)]
    exact List.mem_map_of_mem hb
  · intro heven
    rw [hpnl, rounding_eq_zero_of_even heven, add_zero]

/-- Averaging 3 units at 10 with one at 11 loses a remainder of one, within the bound. -/
theorem ledger_identity_uneven_average :
    let steps := [Step.report ⟨1, .buy, 3, 10, true⟩, .report ⟨1, .buy, 1, 11, true⟩,
      .mark 1 12]
    let pos := ((Portfolio.init ⟨0, 0, {}, 1000⟩).run steps).positions 1
    pos.realizedPnl + pos.unrealizedPnl = cashFlowPnl pos (fillsOn 1 steps) + 1 := by
  intro steps pos
  refine (ledger_identity ⟨0, 0, {}, 1000⟩ 1 steps (by decide)).1.trans ?_
  decide

end UltraBacktest
