import UltraBacktest.Library.Run
import UltraBacktest.Model.Portfolio
import Mathlib.Algebra.BigOperators.Fin
import Mathlib.Algebra.Order.Ring.Int
import Mathlib.Tactic.Linarith
import Mathlib.Tactic.Ring

/-! Computation rules for the portfolio. The buy and sell branches of the source are
mirror images; both are instances of one rule that reads the position in the direction
of the fill. -/

namespace UltraBacktest

/-! ## Direction of a fill -/

def Side.sign : Side → ℤ
  | .buy => 1
  | .sell => -1

@[simp] theorem Side.sign_mul_sign (side : Side) : side.sign * side.sign = 1 := by
  cases side <;> rfl

theorem Side.abs_sign_mul (side : Side) (x : ℤ) : |side.sign * x| = |x| := by
  cases side <;> simp [Side.sign]

namespace Position

/-- The position seen from the side of a fill: negative exactly when the fill closes. -/
def exposure (pos : Position) (side : Side) : ℤ := side.sign * pos.netQty

theorem sign_mul_exposure (pos : Position) (side : Side) :
    side.sign * pos.exposure side = pos.netQty := by
  unfold exposure
  rw [← mul_assoc, Side.sign_mul_sign, one_mul]

/-- A fill in the direction of the position averages the entry price. -/
theorem book_of_exposure_nonneg {pos : Position} {side : Side} (qty : ℤ)
    (execPrice : ℤ) (h : 0 ≤ pos.exposure side) :
    pos.book side qty execPrice =
      ({ pos with
          netQty := pos.netQty + side.sign * qty
          avgEntryPrice :=
            (pos.avgEntryPrice * pos.exposure side + execPrice * qty).tdiv
              (pos.exposure side + qty) }, 0) := by
  cases side with
  | buy =>
      simp only [exposure, Side.sign, one_mul] at h ⊢
      simp [book, increaseLong, h]
  | sell =>
      simp only [exposure, Side.sign, neg_one_mul] at h ⊢
      have hn : pos.netQty ≤ 0 := by omega
      have hd : -(pos.netQty - qty) = -pos.netQty + qty := by omega
      simp only [book, increaseShort, hn, if_true, hd]
      simp only [sub_eq_add_neg]

/-- A fill against the position realizes the closed part. -/
theorem book_of_exposure_neg {pos : Position} {side : Side} (qty : ℤ)
    (execPrice : ℤ) (h : pos.exposure side < 0) :
    pos.book side qty execPrice =
      ({ pos with
          realizedPnl := pos.realizedPnl +
            side.sign * ((pos.avgEntryPrice - execPrice) * min qty (-pos.exposure side))
          netQty := pos.netQty + side.sign * qty
          avgEntryPrice :=
            if pos.exposure side + qty > 0 then execPrice
            else if pos.exposure side + qty = 0 then 0
            else pos.avgEntryPrice },
        side.sign * ((pos.avgEntryPrice - execPrice) * min qty (-pos.exposure side))) := by
  cases side with
  | buy =>
      simp only [exposure, Side.sign, one_mul] at h ⊢
      have hn : ¬ pos.netQty ≥ 0 := by omega
      simp [book, closeShort, hn]
  | sell =>
      simp only [exposure, Side.sign, neg_one_mul, neg_neg] at h ⊢
      have hn : ¬ pos.netQty ≤ 0 := by omega
      have hr : (execPrice - pos.avgEntryPrice) * min qty pos.netQty =
          -((pos.avgEntryPrice - execPrice) * min qty pos.netQty) := by ring
      have hflip : pos.netQty - qty < 0 ↔ -pos.netQty + qty > 0 := by omega
      have hflat : pos.netQty - qty = 0 ↔ -pos.netQty + qty = 0 := by omega
      simp only [book, closeLong, hn, if_false, hr, hflip, hflat]
      simp only [sub_eq_add_neg]

/-! ## Fields after a booking, a fill and a mark -/

@[simp] theorem book_netQty (pos : Position) (side : Side) (qty : ℤ) (execPrice : ℤ) :
    (pos.book side qty execPrice).1.netQty = pos.netQty + side.sign * qty := by
  rcases lt_or_ge (pos.exposure side) 0 with h | h
  · rw [book_of_exposure_neg qty execPrice h]
  · rw [book_of_exposure_nonneg qty execPrice h]

/-- Cash receives exactly what the position books as realized. -/
@[simp] theorem book_realizedPnl (pos : Position) (side : Side) (qty : ℤ)
    (execPrice : ℤ) :
    (pos.book side qty execPrice).1.realizedPnl =
      pos.realizedPnl + (pos.book side qty execPrice).2 := by
  rcases lt_or_ge (pos.exposure side) 0 with h | h
  · rw [book_of_exposure_neg qty execPrice h]
  · rw [book_of_exposure_nonneg qty execPrice h]
    simp

@[simp] theorem book_numTrades (pos : Position) (side : Side) (qty : ℤ)
    (execPrice : ℤ) : (pos.book side qty execPrice).1.numTrades = pos.numTrades := by
  rcases lt_or_ge (pos.exposure side) 0 with h | h
  · rw [book_of_exposure_neg qty execPrice h]
  · rw [book_of_exposure_nonneg qty execPrice h]

@[simp] theorem book_totalTraded (pos : Position) (side : Side) (qty : ℤ)
    (execPrice : ℤ) : (pos.book side qty execPrice).1.totalTraded = pos.totalTraded := by
  rcases lt_or_ge (pos.exposure side) 0 with h | h
  · rw [book_of_exposure_neg qty execPrice h]
  · rw [book_of_exposure_nonneg qty execPrice h]

@[simp] theorem mark_netQty (pos : Position) (lastPrice : ℤ) :
    (pos.mark lastPrice).netQty = pos.netQty := rfl

@[simp] theorem mark_avgEntryPrice (pos : Position) (lastPrice : ℤ) :
    (pos.mark lastPrice).avgEntryPrice = pos.avgEntryPrice := rfl

@[simp] theorem mark_realizedPnl (pos : Position) (lastPrice : ℤ) :
    (pos.mark lastPrice).realizedPnl = pos.realizedPnl := rfl

@[simp] theorem mark_numTrades (pos : Position) (lastPrice : ℤ) :
    (pos.mark lastPrice).numTrades = pos.numTrades := rfl

@[simp] theorem mark_totalTraded (pos : Position) (lastPrice : ℤ) :
    (pos.mark lastPrice).totalTraded = pos.totalTraded := rfl

@[simp] theorem mark_lastPrice (pos : Position) (lastPrice : ℤ) :
    (pos.mark lastPrice).lastPrice = lastPrice := rfl

/-- The three sign cases of the mark are one product. -/
@[simp] theorem mark_unrealizedPnl (pos : Position) (lastPrice : ℤ) :
    (pos.mark lastPrice).unrealizedPnl = (lastPrice - pos.avgEntryPrice) * pos.netQty := by
  unfold mark
  dsimp only
  split_ifs with hpos hneg
  · rfl
  · ring
  · have hzero : pos.netQty = 0 := by omega
    rw [hzero, mul_zero]

@[simp] theorem fill_netQty (pos : Position) (rpt : ExecutionReport) :
    (pos.fill rpt).netQty = pos.netQty + rpt.side.sign * rpt.execQty := by
  simp [fill, countFill]

@[simp] theorem fill_realizedPnl (pos : Position) (rpt : ExecutionReport) :
    (pos.fill rpt).realizedPnl = pos.realizedPnl + pos.realizedBy rpt := by
  simp [fill, countFill, realizedBy]

theorem fill_avgEntryPrice (pos : Position) (rpt : ExecutionReport) :
    (pos.fill rpt).avgEntryPrice =
      (pos.book rpt.side rpt.execQty rpt.execPrice).1.avgEntryPrice := rfl

@[simp] theorem fill_numTrades (pos : Position) (rpt : ExecutionReport) :
    (pos.fill rpt).numTrades = pos.numTrades + 1 := by
  simp [fill, countFill]

@[simp] theorem fill_totalTraded (pos : Position) (rpt : ExecutionReport) :
    (pos.fill rpt).totalTraded = pos.totalTraded + rpt.execQty := by
  simp [fill, countFill]

@[simp] theorem fill_lastPrice (pos : Position) (rpt : ExecutionReport) :
    (pos.fill rpt).lastPrice = rpt.execPrice := rfl

@[simp] theorem fill_unrealizedPnl (pos : Position) (rpt : ExecutionReport) :
    (pos.fill rpt).unrealizedPnl =
      (rpt.execPrice - (pos.fill rpt).avgEntryPrice) * (pos.fill rpt).netQty :=
  mark_unrealizedPnl _ _

/-- A fill in the direction of the position realizes nothing. -/
theorem realizedBy_of_exposure_nonneg {pos : Position} {rpt : ExecutionReport}
    (h : 0 ≤ pos.exposure rpt.side) : pos.realizedBy rpt = 0 := by
  unfold realizedBy
  rw [book_of_exposure_nonneg _ _ h]

theorem realizedBy_of_exposure_neg {pos : Position} {rpt : ExecutionReport}
    (h : pos.exposure rpt.side < 0) :
    pos.realizedBy rpt = rpt.side.sign *
      ((pos.avgEntryPrice - rpt.execPrice) * min (rpt.execQty : ℤ) (-pos.exposure rpt.side)) := by
  unfold realizedBy
  rw [book_of_exposure_neg _ _ h]

/-! ## The average after a fill -/

theorem exposure_fill (pos : Position) (rpt : ExecutionReport) :
    (pos.fill rpt).exposure rpt.side = pos.exposure rpt.side + rpt.execQty := by
  rw [exposure, fill_netQty, mul_add, ← mul_assoc, Side.sign_mul_sign, one_mul]
  rfl

/-- The average of an opened or enlarged position. -/
theorem fill_avgEntryPrice_of_exposure_nonneg {pos : Position} {rpt : ExecutionReport}
    (h : 0 ≤ pos.exposure rpt.side) :
    (pos.fill rpt).avgEntryPrice =
      (pos.avgEntryPrice * pos.exposure rpt.side + rpt.execPrice * rpt.execQty).tdiv
        (pos.exposure rpt.side + rpt.execQty) := by
  rw [fill_avgEntryPrice, book_of_exposure_nonneg _ _ h]

/-- The average of a reduced, closed or flipped position. -/
theorem fill_avgEntryPrice_of_exposure_neg {pos : Position} {rpt : ExecutionReport}
    (h : pos.exposure rpt.side < 0) :
    (pos.fill rpt).avgEntryPrice =
      if pos.exposure rpt.side + rpt.execQty > 0 then rpt.execPrice
      else if pos.exposure rpt.side + rpt.execQty = 0 then 0
      else pos.avgEntryPrice := by
  rw [fill_avgEntryPrice, book_of_exposure_neg _ _ h]

/-- A position that is opened has the price of the fill as its average. -/
theorem fill_avgEntryPrice_of_flat {pos : Position} {rpt : ExecutionReport} (hq : 1 ≤ rpt.execQty)
    (h : pos.exposure rpt.side = 0) : (pos.fill rpt).avgEntryPrice = rpt.execPrice := by
  rw [fill_avgEntryPrice_of_exposure_nonneg h.ge, h, mul_zero, zero_add, zero_add]
  exact Int.mul_tdiv_cancel _ (by omega)

/-- Adding at the average keeps it. -/
theorem fill_avgEntryPrice_of_same {pos : Position} {rpt : ExecutionReport} (hq : 1 ≤ rpt.execQty)
    (h : 0 ≤ pos.exposure rpt.side) (hprice : pos.avgEntryPrice = rpt.execPrice) :
    (pos.fill rpt).avgEntryPrice = rpt.execPrice := by
  rw [fill_avgEntryPrice_of_exposure_nonneg h, hprice, ← mul_add]
  exact Int.mul_tdiv_cancel _ (by omega)

/-! ## One symbol of a run -/

/-- The effect of a step on the position of one symbol. -/
def step (s : Slot) (pos : Position) (st : Step) : Position :=
  match st with
  | .report rpt => if rpt.isFill ∧ rpt.symbol = s then pos.fill rpt else pos
  | .mark sym lastPrice => if sym = s then pos.mark lastPrice else pos

/-- A step that is a fill books it on its own symbol. -/
theorem step_of_mem_fill? (pos : Position) {st : Step} {rpt : ExecutionReport}
    (h : rpt ∈ st.fill?) : pos.step rpt.symbol st = pos.fill rpt := by
  cases st with
  | mark sym lastPrice => cases h
  | report rpt' =>
      cases hfill : rpt'.isFill with
      | false => simp [Step.fill?, hfill] at h
      | true =>
          obtain rfl : rpt' = rpt := by simpa [Step.fill?, hfill] using h
          rw [step, if_pos ⟨hfill, rfl⟩]

/-- What a step can do to the position of a symbol: a fill on the symbol books it, and
anything else leaves it or marks it. -/
theorem step_cases (s : Slot) (pos : Position) (st : Step) :
    (st.fill?.filter (fun rpt => rpt.symbol = s) = none ∧
      (pos.step s st = pos ∨ ∃ lastPrice, pos.step s st = pos.mark lastPrice)) ∨
    ∃ rpt, st.fill?.filter (fun rpt => rpt.symbol = s) = some rpt ∧ rpt ∈ st.fill? ∧
      rpt.symbol = s ∧ pos.step s st = pos.fill rpt := by
  cases st with
  | mark sym lastPrice =>
      refine Or.inl ⟨rfl, ?_⟩
      by_cases hs : sym = s
      · exact Or.inr ⟨lastPrice, if_pos hs⟩
      · exact Or.inl (if_neg hs)
  | report rpt =>
      by_cases hf : rpt.isFill ∧ rpt.symbol = s
      · refine Or.inr ⟨rpt, ?_, ?_, hf.2, if_pos hf⟩
        · simp [Step.fill?, hf.1, hf.2, Option.filter]
        · simp [Step.fill?, hf.1]
      · refine Or.inl ⟨?_, Or.inl (if_neg hf)⟩
        rw [not_and] at hf
        cases hfill : rpt.isFill with
        | false => simp [Step.fill?, hfill]
        | true => simp [Step.fill?, hfill, Option.filter, hf hfill]

end Position

namespace Portfolio

theorem onExecution_of_not_isFill (p : Portfolio) {rpt : ExecutionReport}
    (h : rpt.isFill = false) : p.onExecution rpt = p := by
  simp [onExecution, h]

theorem onExecution_of_isFill (p : Portfolio) {rpt : ExecutionReport}
    (h : rpt.isFill = true) :
    p.onExecution rpt =
      { p with
        cash := p.cash - p.config.feeModel.compute rpt.execQty false +
          (p.positions rpt.symbol).realizedBy rpt
        positions := Function.update p.positions rpt.symbol
          ((p.positions rpt.symbol).fill rpt) } := by
  simp [onExecution, h, updateM2m, Position.fill, Position.realizedBy]

@[simp] theorem step_config (p : Portfolio) (st : Step) : (p.step st).config = p.config := by
  cases st with
  | mark sym lastPrice => rfl
  | report rpt =>
      cases h : rpt.isFill with
      | false => simp [step, p.onExecution_of_not_isFill h]
      | true => simp [step, p.onExecution_of_isFill h]

/-- A step touches only the position of its own symbol. -/
theorem step_positions (p : Portfolio) (s : Slot) (st : Step) :
    (p.step st).positions s = (p.positions s).step s st := by
  cases st with
  | mark sym lastPrice =>
      by_cases hs : sym = s
      · subst hs
        simp [step, updateM2m, Position.step]
      · simp [step, updateM2m, Position.step, hs, Function.update_of_ne (Ne.symm hs)]
  | report rpt =>
      cases h : rpt.isFill with
      | false => simp [step, p.onExecution_of_not_isFill h, Position.step, h]
      | true =>
          by_cases hs : rpt.symbol = s
          · subst hs
            simp [step, p.onExecution_of_isFill h, Position.step, h]
          · simp [step, p.onExecution_of_isFill h, Position.step, h, hs,
              Function.update_of_ne (Ne.symm hs)]

theorem onExecution_netQty {p : Portfolio} {rpt : ExecutionReport} (h : rpt.isFill = true)
    (s : Slot) :
    ((p.onExecution rpt).positions s).netQty =
      (p.positions s).netQty + if rpt.symbol = s then rpt.side.sign * rpt.execQty else 0 := by
  refine (congrArg Position.netQty (p.step_positions s (.report rpt))).trans ?_
  by_cases hs : rpt.symbol = s <;> simp [Position.step, h, hs]

@[simp] theorem updateM2m_netQty (p : Portfolio) (sym : Slot) (lastPrice : ℤ) (s : Slot) :
    ((p.updateM2m sym lastPrice).positions s).netQty = (p.positions s).netQty := by
  refine (congrArg Position.netQty (p.step_positions s (.mark sym lastPrice))).trans ?_
  by_cases hs : sym = s <;> simp [Position.step, hs]

@[simp] theorem run_nil (p : Portfolio) : p.run [] = p := rfl

@[simp] theorem run_cons (p : Portfolio) (st : Step) (steps : List Step) :
    p.run (st :: steps) = (p.step st).run steps := rfl

theorem run_append (p : Portfolio) (xs ys : List Step) :
    p.run (xs ++ ys) = (p.run xs).run ys := List.foldl_append

@[simp] theorem run_config (p : Portfolio) (steps : List Step) :
    (p.run steps).config = p.config := by
  induction steps generalizing p with
  | nil => rfl
  | cons st steps ih => rw [run_cons, ih, step_config]

/-- The position of a symbol evolves on its own. -/
theorem run_positions (p : Portfolio) (s : Slot) (steps : List Step) :
    (p.run steps).positions s = steps.foldl (Position.step s) (p.positions s) :=
  (List.foldl_hom (fun q : Portfolio => q.positions s)
    (fun q st => (step_positions q s st).symm)).symm

/-- The trail of one symbol is read off the trail of the portfolio. -/
theorem trail_positions (p : Portfolio) (s : Slot) (steps : List Step) :
    Run.trail (Position.step s) (p.positions s) steps =
      (Run.trail Portfolio.step p steps).map (fun q => (q.1.positions s, q.2)) :=
  Run.trail_map (fun q : Portfolio => q.positions s)
    (fun q st => (step_positions q s st).symm) p steps

end Portfolio

/-! ## Sums over all symbols -/

/-- Replacing one entry changes a sum by the difference at that entry. -/
theorem sum_update {α : Type*} (f : Slot → α) (g : α → ℤ) (s : Slot) (v : α) :
    ∑ i, g (Function.update f s v i) = (∑ i, g (f i)) + (g v - g (f s)) := by
  have hsplit : ∀ h : Slot → ℤ, ∑ i, h i = h s + ∑ i ∈ Finset.univ.erase s, h i :=
    fun h => (Finset.add_sum_erase _ h (Finset.mem_univ s)).symm
  have hrest : ∑ i ∈ Finset.univ.erase s, g (Function.update f s v i) =
      ∑ i ∈ Finset.univ.erase s, g (f i) := by
    refine Finset.sum_congr rfl (fun i hi => ?_)
    rw [Function.update_of_ne (Finset.ne_of_mem_erase hi)]
  rw [hsplit, hsplit (fun i => g (f i)), hrest, Function.update_self]
  ring

/-- A total that marks leave alone moves with the position of a fill. -/
theorem Portfolio.sum_step {g : Position → ℤ}
    (hmark : ∀ pos lastPrice, g (pos.mark lastPrice) = g pos) (p : Portfolio) (st : Step) :
    ∑ s, g ((p.step st).positions s) =
      (∑ s, g (p.positions s)) + st.fill?.elim 0 (fun rpt =>
        g ((p.positions rpt.symbol).fill rpt) - g (p.positions rpt.symbol)) := by
  cases st with
  | mark sym lastPrice =>
      rw [step, updateM2m]
      dsimp only
      rw [sum_update, hmark, sub_self]
      rfl
  | report rpt =>
      cases h : rpt.isFill with
      | false => simp [step, p.onExecution_of_not_isFill h, Step.fill?, h]
      | true =>
          rw [step, p.onExecution_of_isFill h]
          dsimp only
          rw [sum_update]
          simp [Step.fill?, h]

end UltraBacktest
