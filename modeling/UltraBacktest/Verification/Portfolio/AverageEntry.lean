import UltraBacktest.Verification.Portfolio.Equity
import Mathlib.Algebra.BigOperators.Ring.List
import Mathlib.Algebra.Order.Field.Basic
import Mathlib.Algebra.Order.Field.Rat
import Mathlib.Data.List.Infix
import Mathlib.Tactic.FieldSimp

/-! The average entry price against the fills it averages. It stays between the prices of
the open lots, but it is recomputed from an average that is already rounded, so that it
need not stay close to the volume-weighted price. -/

namespace UltraBacktest

theorem bookings_append (p : Portfolio) (s : Slot) (xs ys : List Step) :
    bookings p s (xs ++ ys) = bookings p s xs ++ bookings (p.run xs) s ys := by
  rw [bookings, Run.trail_append, List.filterMap_append]
  rfl

theorem bookings_singleton (p : Portfolio) (s : Slot) (st : Step) :
    bookings p s [st] = (booking? s (p.positions s) st).toList := by
  rw [bookings, Run.trail_cons, Run.trail_nil, List.filterMap_cons]
  cases booking? s (p.positions s) st <;> rfl

/-! ## The open lots -/

/-- The fill takes the position from flat or across zero. -/
def Booking.Opens (b : Booking) : Prop := b.netAfter ≠ 0 ∧ b.before.netQty * b.netAfter ≤ 0

/-- The price lies between two prices paid on the given side since the last fill that
opened the position. -/
def WithinOpenLots (bs : List Booking) (side : Side) (price : ℤ) : Prop :=
  ∃ front b rest, bs = front ++ b :: rest ∧ b.Opens ∧ (∀ c ∈ rest, ¬ c.Opens) ∧
    ∃ lo ∈ b :: rest, ∃ hi ∈ b :: rest, lo.rpt.side = side ∧ hi.rpt.side = side ∧
      lo.rpt.execPrice ≤ price ∧ price ≤ hi.rpt.execPrice

/-- Seen from the side of the fill, an opening fill ends above zero and starts at zero or
below. -/
theorem Booking.opens_iff {b : Booking} (hq : 1 ≤ b.rpt.execQty) :
    b.Opens ↔ b.before.exposure b.rpt.side ≤ 0 ∧
      0 < b.before.exposure b.rpt.side + b.rpt.execQty := by
  have hsign : b.rpt.side.sign ≠ 0 := by cases b.rpt.side <;> decide
  have hprod : b.before.netQty * b.netAfter = b.before.exposure b.rpt.side *
      (b.before.exposure b.rpt.side + b.rpt.execQty) := by
    rw [b.netAfter_eq, ← b.before.sign_mul_exposure b.rpt.side, mul_mul_mul_comm,
      Side.sign_mul_sign, one_mul]
  rw [Opens, hprod, b.netAfter_eq, mul_ne_zero_iff, and_iff_right hsign]
  generalize b.before.exposure b.rpt.side = x
  constructor
  · rintro ⟨hne, hle⟩
    rcases mul_nonpos_iff.mp hle with h | h <;> omega
  · rintro ⟨hle, hlt⟩
    exact ⟨hlt.ne', mul_nonpos_of_nonpos_of_nonneg hle hlt.le⟩

theorem withinOpenLots_of_opens {b : Booking} (h : b.Opens) (bs : List Booking) :
    WithinOpenLots (bs ++ [b]) b.rpt.side b.rpt.execPrice := by
  refine ⟨bs, b, [], rfl, h, ?_, b, by simp, b, by simp, rfl, rfl, le_refl _, le_refl _⟩
  intro c hc
  cases hc

/-- A further fill keeps the window open. The price may move as far as the price of the
fill, if that is on the same side. -/
theorem WithinOpenLots.extend {bs : List Booking} {side : Side} {price price' : ℤ}
    (h : WithinOpenLots bs side price) {b : Booking} (hb : ¬ b.Opens)
    (hlo : price ≤ price' ∨ (b.rpt.side = side ∧ b.rpt.execPrice ≤ price'))
    (hhi : price' ≤ price ∨ (b.rpt.side = side ∧ price' ≤ b.rpt.execPrice)) :
    WithinOpenLots (bs ++ [b]) side price' := by
  obtain ⟨front, first, rest, rfl, hopens, hrest, lo, hlomem, hi, himem, hloside, hiside,
    hlole, hile⟩ := h
  have hkeep : ∀ c ∈ first :: rest, c ∈ first :: (rest ++ [b]) := by
    intro c hc
    rw [← List.cons_append]
    exact List.mem_append_left _ hc
  have hlast : b ∈ first :: (rest ++ [b]) := by simp
  refine ⟨front, first, rest ++ [b], by simp, hopens, ?_, ?_⟩
  · intro c hc
    rcases List.mem_append.mp hc with hc | hc
    · exact hrest c hc
    · rw [List.mem_singleton.mp hc]
      exact hb
  · obtain ⟨lo', hlo'mem, hlo'side, hlo'le⟩ : ∃ c ∈ first :: (rest ++ [b]),
        c.rpt.side = side ∧ c.rpt.execPrice ≤ price' := by
      rcases hlo with hle | ⟨hside, hle⟩
      · exact ⟨lo, hkeep lo hlomem, hloside, hlole.trans hle⟩
      · exact ⟨b, hlast, hside, hle⟩
    obtain ⟨hi', hi'mem, hi'side, hi'le⟩ : ∃ c ∈ first :: (rest ++ [b]),
        c.rpt.side = side ∧ price' ≤ c.rpt.execPrice := by
      rcases hhi with hle | ⟨hside, hle⟩
      · exact ⟨hi, hkeep hi himem, hiside, hle.trans hile⟩
      · exact ⟨b, hlast, hside, hle⟩
    exact ⟨lo', hlo'mem, hi', hi'mem, hlo'side, hi'side, hlo'le, hi'le⟩

/-! ## The average stays inside -/

/-- The invariant: a flat position has average zero, and an open one an average within its
open lots. -/
structure AveragesLots (pos : Position) (bs : List Booking) : Prop where
  flat : pos.netQty = 0 → pos.avgEntryPrice = 0
  held : ∀ side, 0 < pos.exposure side → WithinOpenLots bs side pos.avgEntryPrice

/-- A weighted average lies between the two prices it averages. -/
theorem weighted_tdiv_between {a price n q : ℤ} (hn : 0 ≤ n) (hq : 0 < q) :
    min a price ≤ (a * n + price * q).tdiv (n + q) ∧
      (a * n + price * q).tdiv (n + q) ≤ max a price := by
  apply TruncDiv.tdiv_mem_Icc (by omega)
  · have ha := mul_le_mul_of_nonneg_right (min_le_left a price) hn
    have hp := mul_le_mul_of_nonneg_right (min_le_right a price) hq.le
    rw [mul_add]
    exact add_le_add ha hp
  · have ha := mul_le_mul_of_nonneg_right (le_max_left a price) hn
    have hp := mul_le_mul_of_nonneg_right (le_max_right a price) hq.le
    rw [mul_add]
    exact add_le_add ha hp

/-- From the other side a position looks negated. -/
theorem Side.eq_or_exposure_neg (side side' : Side) :
    side = side' ∨ ∀ pos : Position, pos.exposure side' = -pos.exposure side := by
  unfold Position.exposure
  cases side <;> cases side' <;> simp [Side.sign]

theorem AveragesLots.fill {pos : Position} {bs : List Booking} (h : AveragesLots pos bs)
    {rpt : ExecutionReport} (hq : 1 ≤ rpt.execQty) :
    AveragesLots (pos.fill rpt) (bs ++ [⟨pos, rpt⟩]) := by
  have hexposure := pos.exposure_fill rpt
  have hopens := @Booking.opens_iff ⟨pos, rpt⟩ hq
  dsimp only at hopens
  refine ⟨?_, ?_⟩
  · intro hflat
    have hzero : pos.exposure rpt.side + rpt.execQty = 0 := by
      rw [← hexposure, Position.exposure, hflat, mul_zero]
    rw [Position.fill_avgEntryPrice_of_exposure_neg (by omega), if_neg (by omega), if_pos hzero]
  · intro side hside
    rcases Side.eq_or_exposure_neg rpt.side side with rfl | hother
    · rw [hexposure] at hside
      rcases lt_trichotomy (pos.exposure rpt.side) 0 with hx | hx | hx
      · rw [Position.fill_avgEntryPrice_of_exposure_neg hx, if_pos hside]
        exact withinOpenLots_of_opens (hopens.mpr ⟨hx.le, hside⟩) bs
      · rw [Position.fill_avgEntryPrice_of_flat hq hx]
        exact withinOpenLots_of_opens (hopens.mpr ⟨hx.le, hside⟩) bs
      · have hnot : ¬ Booking.Opens ⟨pos, rpt⟩ := fun ho => absurd (hopens.mp ho).1 (by omega)
        rw [Position.fill_avgEntryPrice_of_exposure_nonneg hx.le]
        obtain ⟨hlo, hhi⟩ := @weighted_tdiv_between pos.avgEntryPrice rpt.execPrice _
          rpt.execQty hx.le (by omega)
        refine (h.held rpt.side hx).extend hnot ?_ ?_
        · exact (min_le_iff.mp hlo).imp_right (fun hle => ⟨rfl, hle⟩)
        · exact (le_max_iff.mp hhi).imp_right (fun hle => ⟨rfl, hle⟩)
    · -- The fill was against the position and has only reduced it.
      rw [hother, hexposure] at hside
      have hnot : ¬ Booking.Opens ⟨pos, rpt⟩ := fun ho => absurd (hopens.mp ho).2 (by omega)
      have hbefore : 0 < pos.exposure side := by
        rw [hother]
        omega
      rw [Position.fill_avgEntryPrice_of_exposure_neg (by omega), if_neg (by omega),
        if_neg (by omega)]
      exact (h.held side hbefore).extend hnot (Or.inl (le_refl _)) (Or.inl (le_refl _))

theorem AveragesLots.step {s : Slot} {pos : Position} {bs : List Booking}
    (h : AveragesLots pos bs) {st : Step} (hpos : st.Positive) :
    AveragesLots (pos.step s st) (bs ++ (booking? s pos st).toList) := by
  rw [booking?]
  obtain ⟨hnone, hstep | ⟨lastPrice, hstep⟩⟩ | ⟨rpt, hsome, hmem, -, hstep⟩ :=
    Position.step_cases s pos st
  · rw [hnone, hstep, Option.map_none, Option.toList_none, List.append_nil]
    exact h
  · rw [hnone, hstep, Option.map_none, Option.toList_none, List.append_nil]
    exact ⟨h.flat, h.held⟩
  · rw [hsome, hstep, Option.map_some, Option.toList_some]
    exact h.fill (hpos rpt hmem)

theorem averagesLots_run (config : BacktestConfig) (s : Slot) {steps : List Step}
    (hpos : ∀ st ∈ steps, st.Positive) :
    AveragesLots (((Portfolio.init config).run steps).positions s)
      (bookings (Portfolio.init config) s steps) := by
  induction steps using List.reverseRecOn with
  | nil =>
      refine ⟨fun _ => rfl, fun side hside => ?_⟩
      simp [Position.exposure, Portfolio.init] at hside
  | append_singleton steps st ih =>
      rw [bookings_append, bookings_singleton, Portfolio.run_append, Portfolio.run_cons,
        Portfolio.run_nil, Portfolio.step_positions]
      refine (ih fun st' hst' => hpos st' (List.mem_append_left _ hst')).step ?_
      exact hpos st (by simp)

/-- An open position has an average between the prices of the fills on its side since it was
opened, and a flat one has none. -/
theorem average_within_open_lots (config : BacktestConfig) (s : Slot) (steps : List Step)
    (hpos : ∀ st ∈ steps, st.Positive) :
    let pos := ((Portfolio.init config).run steps).positions s
    let bs := bookings (Portfolio.init config) s steps
    (0 < pos.netQty → WithinOpenLots bs .buy pos.avgEntryPrice) ∧
      (pos.netQty < 0 → WithinOpenLots bs .sell pos.avgEntryPrice) ∧
      (pos.netQty = 0 → pos.avgEntryPrice = 0) := by
  intro pos bs
  have h : AveragesLots pos bs := averagesLots_run config s hpos
  refine ⟨fun hlong => h.held .buy ?_, fun hshort => h.held .sell ?_, h.flat⟩
  · rw [Position.exposure, Side.sign, one_mul]
    exact hlong
  · rw [Position.exposure, Side.sign, neg_one_mul]
    exact neg_pos.mpr hshort

/-- Two units at 100 and one at 103, after a mark. -/
theorem average_within_open_lots_two_buys :
    WithinOpenLots (bookings (Portfolio.init ⟨0, 0, {}, 1000⟩) 1
      [.report ⟨1, .buy, 2, 100, true⟩, .mark 1 90, .report ⟨1, .buy, 1, 103, true⟩]) .buy 101 :=
  (average_within_open_lots ⟨0, 0, {}, 1000⟩ 1
    [.report ⟨1, .buy, 2, 100, true⟩, .mark 1 90, .report ⟨1, .buy, 1, 103, true⟩]
    (by decide)).1 (by decide)

/-! ## The volume-weighted average -/

/-- The quantity filled. -/
def quantity (rpts : List ExecutionReport) : ℕ := (rpts.map ExecutionReport.execQty).sum

/-- The sum of price times quantity. -/
def cost (rpts : List ExecutionReport) : ℤ :=
  (rpts.map (fun rpt => rpt.execPrice * (rpt.execQty : ℤ))).sum

/-- The exact volume-weighted average price. -/
def vwap (rpts : List ExecutionReport) : ℚ := (cost rpts : ℚ) / quantity rpts

/-- The volume-weighted average price is a whole number of price units. -/
def WholeAverage (rpts : List ExecutionReport) : Prop := (quantity rpts : ℤ) ∣ cost rpts

instance (rpts : List ExecutionReport) : Decidable (WholeAverage rpts) :=
  inferInstanceAs (Decidable ((quantity rpts : ℤ) ∣ cost rpts))

/-- A fill of at least one unit on this symbol and side. -/
structure ExecutionReport.AddsTo (s : Slot) (side : Side) (rpt : ExecutionReport) : Prop where
  isFill : rpt.isFill = true
  symbol_eq : rpt.symbol = s
  side_eq : rpt.side = side
  one_le : 1 ≤ rpt.execQty

/-- After these steps the average of a symbol is within one unit of the volume-weighted average
of its fills. -/
def WithinUnit (p : Portfolio) (s : Slot) (steps : List Step) : Prop :=
  |(((p.run steps).positions s).avgEntryPrice : ℚ) - vwap (fillsOn s steps)| < 1

/-! ## What the average leaves out -/

theorem quantity_concat (rpts : List ExecutionReport) (rpt : ExecutionReport) :
    quantity (rpts ++ [rpt]) = quantity rpts + rpt.execQty := by simp [quantity]

theorem cost_concat (rpts : List ExecutionReport) (rpt : ExecutionReport) :
    cost (rpts ++ [rpt]) = cost rpts + rpt.execPrice * rpt.execQty := by simp [cost]

/-- The part of the cost of these fills that the average of the position does not show. -/
def shortfall (pos : Position) (rpts : List ExecutionReport) : ℤ :=
  cost rpts - pos.avgEntryPrice * quantity rpts

/-- A fill adds the remainder of its division to what the average leaves out. -/
theorem shortfall_fill {pos : Position} {rpt : ExecutionReport} {rpts : List ExecutionReport}
    (h : pos.exposure rpt.side = quantity rpts) :
    shortfall (pos.fill rpt) (rpts ++ [rpt]) =
      shortfall pos rpts + (pos.avgEntryPrice * quantity rpts + rpt.execPrice * rpt.execQty).tmod
        (quantity rpts + rpt.execQty) := by
  have hdivision := Int.tdiv_mul_add_tmod
    (pos.avgEntryPrice * quantity rpts + rpt.execPrice * rpt.execQty)
    (quantity rpts + rpt.execQty)
  rw [shortfall, shortfall, quantity_concat, cost_concat,
    Position.fill_avgEntryPrice_of_exposure_nonneg (by omega), h]
  push_cast
  linarith

theorem abs_sub_vwap_lt_one_iff {pos : Position} {rpts : List ExecutionReport}
    (h : 0 < quantity rpts) :
    |(pos.avgEntryPrice : ℚ) - vwap rpts| < 1 ↔ |shortfall pos rpts| < quantity rpts := by
  have hquantity : (0 : ℚ) < quantity rpts := by exact_mod_cast h
  have hdiff : (pos.avgEntryPrice : ℚ) - vwap rpts =
      -(shortfall pos rpts : ℚ) / quantity rpts := by
    rw [vwap, shortfall]
    push_cast
    field_simp
    ring
  rw [hdiff, abs_div, abs_neg, abs_of_pos hquantity, div_lt_one hquantity]
  exact_mod_cast Iff.rfl

/-- With nothing left out, one more division leaves out less than a unit for each share. -/
theorem abs_shortfall_fill_lt {pos : Position} {rpt : ExecutionReport}
    {rpts : List ExecutionReport} (h : pos.exposure rpt.side = quantity rpts)
    (hq : 1 ≤ rpt.execQty) (hzero : shortfall pos rpts = 0) :
    |shortfall (pos.fill rpt) (rpts ++ [rpt])| < quantity (rpts ++ [rpt]) := by
  have hremainder := TruncDiv.abs_tmod_le
    (pos.avgEntryPrice * quantity rpts + rpt.execPrice * rpt.execQty)
    (show 0 < (quantity rpts : ℤ) + rpt.execQty by omega)
  rw [shortfall_fill h, hzero, zero_add, quantity_concat]
  push_cast
  omega

/-- Once something is left out, a single share at the right price takes the average a whole
unit away. -/
theorem exists_drifting_price {pos : Position} {rpts : List ExecutionReport}
    (hne : shortfall pos rpts ≠ 0) :
    ∃ price : ℤ, (quantity rpts : ℤ) + 1 ≤ |shortfall pos rpts +
      (pos.avgEntryPrice * quantity rpts + price * (1 : ℕ)).tmod (quantity rpts + (1 : ℕ))| := by
  have hheld : (0 : ℤ) ≤ quantity rpts := by omega
  have hmod : (quantity rpts : ℤ).tmod (quantity rpts + (1 : ℕ)) = quantity rpts :=
    Int.tmod_eq_of_lt hheld (by omega)
  rcases lt_or_gt_of_ne hne with hneg | hpos
  · refine ⟨-(quantity rpts : ℤ) - pos.avgEntryPrice * quantity rpts, ?_⟩
    have htotal : pos.avgEntryPrice * quantity rpts +
        (-(quantity rpts : ℤ) - pos.avgEntryPrice * quantity rpts) * (1 : ℕ) =
          -(quantity rpts : ℤ) := by
      push_cast
      ring
    rw [htotal, Int.neg_tmod, hmod, abs_of_neg (by omega)]
    omega
  · refine ⟨(quantity rpts : ℤ) - pos.avgEntryPrice * quantity rpts, ?_⟩
    have htotal : pos.avgEntryPrice * quantity rpts +
        ((quantity rpts : ℤ) - pos.avgEntryPrice * quantity rpts) * (1 : ℕ) = quantity rpts := by
      push_cast
      ring
    rw [htotal, hmod, abs_of_pos (by omega)]
    omega

/-! ## Runs -/

theorem fillsOn_append (s : Slot) (xs ys : List Step) :
    fillsOn s (xs ++ ys) = fillsOn s xs ++ fillsOn s ys := by
  rw [fillsOn, fills, List.filterMap_append, List.filter_append]
  rfl

theorem prefix_fillsOn (s : Slot) {front steps : List Step} (h : front <+: steps) :
    fillsOn s front <+: fillsOn s steps := (h.filterMap Step.fill?).filter _

/-- What one more step does to a symbol: it is the next fill, or it changes neither the fills
nor anything but the mark. -/
theorem Portfolio.run_concat_cases (p : Portfolio) (s : Slot) (steps : List Step) (st : Step) :
    (fillsOn s (steps ++ [st]) = fillsOn s steps ∧
      ((p.run (steps ++ [st])).positions s = (p.run steps).positions s ∨
        ∃ lastPrice, (p.run (steps ++ [st])).positions s =
          ((p.run steps).positions s).mark lastPrice)) ∨
    ∃ rpt ∈ st.fill?, fillsOn s (steps ++ [st]) = fillsOn s steps ++ [rpt] ∧
      (p.run (steps ++ [st])).positions s = ((p.run steps).positions s).fill rpt := by
  rw [fillsOn_append, fillsOn_cons, run_append, run_cons, run_nil, step_positions]
  obtain ⟨hnone, hstep⟩ | ⟨rpt, hsome, hmem, -, hstep⟩ :=
    Position.step_cases s ((p.run steps).positions s) st
  · rw [hnone]
    exact Or.inl ⟨List.append_nil _, hstep⟩
  · rw [hsome]
    exact Or.inr ⟨rpt, hmem, rfl, hstep⟩

section Averages

variable {p : Portfolio} {s : Slot} {side : Side} (hflat : (p.positions s).netQty = 0)
  {steps : List Step}

include hflat

/-- Fills on one side add up to the position. -/
theorem exposure_run (hside : ∀ rpt ∈ fillsOn s steps, rpt.side = side) :
    ((p.run steps).positions s).exposure side = quantity (fillsOn s steps) := by
  induction steps using List.reverseRecOn with
  | nil =>
      change side.sign * (p.positions s).netQty = 0
      rw [hflat, mul_zero]
  | append_singleton steps st ih =>
      obtain ⟨hfills, hkept⟩ | ⟨rpt, -, hfills, hfill⟩ := p.run_concat_cases s steps st
      · rw [hfills] at hside ⊢
        rw [← ih hside]
        rcases hkept with hkept | ⟨lastPrice, hkept⟩
        · rw [hkept]
        · rw [hkept]
          rfl
      · rw [hfills] at hside ⊢
        obtain ⟨hbefore, hrpt⟩ := List.forall_mem_append.mp hside
        obtain rfl : rpt.side = side := hrpt rpt List.mem_cons_self
        rw [hfill, Position.exposure_fill, ih hbefore, quantity_concat]
        push_cast
        rfl

/-- As long as every exact average is whole, no division leaves a remainder. -/
theorem shortfall_run_eq_zero (hpos : ∀ st ∈ steps, st.Positive)
    (hside : ∀ rpt ∈ fillsOn s steps, rpt.side = side)
    (hwhole : ∀ front, front <+: steps → WholeAverage (fillsOn s front)) :
    shortfall ((p.run steps).positions s) (fillsOn s steps) = 0 := by
  induction steps using List.reverseRecOn with
  | nil => exact (congrArg (0 - ·) (mul_zero _)).trans (sub_zero 0)
  | append_singleton steps st ih =>
      have hfirst : steps <+: steps ++ [st] := List.prefix_append _ _
      have hbefore := ih (fun st hst => hpos st (hfirst.subset hst))
        (fun rpt hrpt => hside rpt ((prefix_fillsOn s hfirst).subset hrpt))
        (fun front hfront => hwhole front (hfront.trans hfirst))
      obtain ⟨hfills, hkept⟩ | ⟨rpt, hmem, hfills, hfill⟩ := p.run_concat_cases s steps st
      · rw [hfills, ← hbefore]
        rcases hkept with hkept | ⟨lastPrice, hkept⟩
        · rw [hkept]
        · rw [hkept]
          rfl
      · have hdvd := hwhole _ (List.prefix_refl (steps ++ [st]))
        rw [hfills] at hside hdvd ⊢
        obtain ⟨hsides, hrpt⟩ := List.forall_mem_append.mp hside
        obtain rfl : rpt.side = side := hrpt rpt List.mem_cons_self
        have hq : 1 ≤ rpt.execQty := hpos st (by simp) rpt hmem
        rw [hfill]
        have hsmall := abs_shortfall_fill_lt (exposure_run hflat hsides) hq hbefore
        -- The quantity divides the cost and the part of it in the average, hence the rest.
        exact Int.eq_zero_of_abs_lt_dvd (hdvd.sub (Dvd.intro_left _ rfl)) hsmall

/-- What a fill on the side of the position is compared with. -/
theorem withinUnit_concat_iff (hside : ∀ rpt ∈ fillsOn s steps, rpt.side = side)
    {rpt : ExecutionReport} (hrpt : rpt.AddsTo s side) :
    WithinUnit p s (steps ++ [.report rpt]) ↔
      |shortfall ((p.run steps).positions s) (fillsOn s steps) +
          (((p.run steps).positions s).avgEntryPrice * quantity (fillsOn s steps) +
            rpt.execPrice * rpt.execQty).tmod (quantity (fillsOn s steps) + rpt.execQty)| <
        quantity (fillsOn s steps) + rpt.execQty := by
  obtain ⟨hfill, rfl, rfl, hq⟩ := hrpt
  have hfills : fillsOn rpt.symbol (steps ++ [.report rpt]) =
      fillsOn rpt.symbol steps ++ [rpt] := by
    rw [fillsOn_append]
    simp [fillsOn, fills, Step.fill?, hfill]
  have hrun : (p.run (steps ++ [.report rpt])).positions rpt.symbol =
      ((p.run steps).positions rpt.symbol).fill rpt := by
    rw [Portfolio.run_append, Portfolio.run_cons, Portfolio.run_nil, Portfolio.step_positions]
    exact Position.step_of_mem_fill? _ (by simp [Step.fill?, hfill])
  rw [WithinUnit, hfills, hrun, abs_sub_vwap_lt_one_iff (by rw [quantity_concat]; omega),
    shortfall_fill (exposure_run hflat hside), quantity_concat]
  push_cast
  rfl

end Averages

/-- Along same-side fills from a flat position, every next fill keeps the average within one
unit of the volume-weighted average, exactly when that average has been whole at every point:
a remainder that is cut off once can grow to a whole unit. -/
theorem average_without_drift_iff (p : Portfolio) (s : Slot) (side : Side) (steps : List Step)
    (hpos : ∀ st ∈ steps, st.Positive) (hside : ∀ rpt ∈ fillsOn s steps, rpt.side = side)
    (hflat : (p.positions s).netQty = 0) :
    (∀ front, front <+: steps → ∀ rpt : ExecutionReport, rpt.AddsTo s side →
        WithinUnit p s (front ++ [.report rpt])) ↔
      ∀ front, front <+: steps → WholeAverage (fillsOn s front) := by
  have hsides : ∀ front, front <+: steps → ∀ rpt ∈ fillsOn s front, rpt.side = side :=
    fun front hfront rpt hrpt => hside rpt ((prefix_fillsOn s hfront).subset hrpt)
  constructor
  · intro h front hfront
    have hzero : shortfall ((p.run front).positions s) (fillsOn s front) = 0 := by
      by_contra hne
      obtain ⟨price, hprice⟩ := exists_drifting_price hne
      have hrpt : (⟨s, side, 1, price, true⟩ : ExecutionReport).AddsTo s side :=
        ⟨rfl, rfl, rfl, le_rfl⟩
      have hlt := (withinUnit_concat_iff hflat (hsides front hfront) hrpt).mp
        (h front hfront _ hrpt)
      exact absurd hlt (not_lt.mpr hprice)
    exact Dvd.intro_left _ (sub_eq_zero.mp hzero).symm
  · intro h front hfront rpt hrpt
    have hzero := shortfall_run_eq_zero hflat (fun st hst => hpos st (hfront.subset hst))
      (hsides front hfront) (fun front' hfront' => h front' (hfront'.trans hfront))
    have hremainder := TruncDiv.abs_tmod_le
      (((p.run front).positions s).avgEntryPrice * quantity (fillsOn s front) +
        rpt.execPrice * rpt.execQty)
      (show 0 < (quantity (fillsOn s front) : ℤ) + rpt.execQty by have := hrpt.one_le; omega)
    rw [withinUnit_concat_iff hflat (hsides front hfront) hrpt, hzero, zero_add]
    omega

/-- Two units at 100 and one at 103 have the average 101, and a unit at 102 may follow. -/
theorem average_without_drift_three_buys :
    WithinUnit (Portfolio.init ⟨0, 0, {}, 1000⟩) 1
      [.report ⟨1, .buy, 2, 100, true⟩, .report ⟨1, .buy, 1, 103, true⟩,
        .report ⟨1, .buy, 1, 102, true⟩] := by
  have hwhole : ∀ front ∈ [Step.report ⟨1, .buy, 2, 100, true⟩,
      .report ⟨1, .buy, 1, 103, true⟩].inits, WholeAverage (fillsOn 1 front) := by
    decide
  exact (average_without_drift_iff (Portfolio.init ⟨0, 0, {}, 1000⟩) 1 .buy
    [.report ⟨1, .buy, 2, 100, true⟩, .report ⟨1, .buy, 1, 103, true⟩] (by decide) (by decide)
    rfl).mpr (fun front hfront => hwhole front ((List.mem_inits _ _).mpr hfront)) _
      (List.prefix_refl _) ⟨1, .buy, 1, 102, true⟩ ⟨rfl, rfl, rfl, by decide⟩

/-- Two units at 100 and three single ones at 102: the average stays at 100, while the
volume-weighted average is 101.2. -/
theorem average_stuck_at_first_price :
    let steps : List Step := [.report ⟨1, .buy, 2, 100, true⟩, .report ⟨1, .buy, 1, 102, true⟩,
      .report ⟨1, .buy, 1, 102, true⟩, .report ⟨1, .buy, 1, 102, true⟩]
    (∀ st ∈ steps, st.Positive) ∧ (∀ rpt ∈ fillsOn 1 steps, rpt.side = .buy) ∧
      ((Portfolio.init ⟨0, 0, {}, 1000⟩).positions 1).netQty = 0 ∧
      (((Portfolio.init ⟨0, 0, {}, 1000⟩).run steps).positions 1).avgEntryPrice = 100 ∧
      vwap (fillsOn 1 steps) = 506 / 5 ∧
      ¬ |((((Portfolio.init ⟨0, 0, {}, 1000⟩).run steps).positions 1).avgEntryPrice : ℚ) -
        vwap (fillsOn 1 steps)| < 1 := by
  intro steps
  have haverage : (((Portfolio.init ⟨0, 0, {}, 1000⟩).run steps).positions 1).avgEntryPrice =
      100 := by
    decide
  have hvwap : vwap (fillsOn 1 steps) = 506 / 5 := by
    have hcost : cost (fillsOn 1 steps) = 506 := by decide
    have hquantity : quantity (fillsOn 1 steps) = 5 := by decide
    rw [vwap, hcost, hquantity]
    norm_num
  refine ⟨by decide, by decide, rfl, haverage, hvwap, ?_⟩
  rw [haverage, hvwap]
  norm_num [abs_lt]

end UltraBacktest
