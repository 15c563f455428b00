import UltraBacktest.Verification.Portfolio.Equity

/-! Marks do not interfere with the books. No branch of a fill reads what a mark writes,
and the next fill or mark of the symbol writes it anew. -/

namespace UltraBacktest

/-! ## What a mark does not touch -/

/-- The position without what a mark writes. -/
def Position.unmarked (pos : Position) : Position :=
  { pos with unrealizedPnl := 0, lastPrice := 0 }

/-- The step writes the mark of the symbol: it marks it, or it is a fill on it. -/
def Step.Remarks (s : Slot) : Step → Prop
  | .report rpt => rpt.isFill = true ∧ rpt.symbol = s
  | .mark sym _ => sym = s

namespace Position

theorem unmarked_mark (pos : Position) (lastPrice : ℤ) :
    (pos.mark lastPrice).unmarked = pos.unmarked := rfl

theorem mark_unmarked (pos : Position) (lastPrice : ℤ) :
    pos.unmarked.mark lastPrice = pos.mark lastPrice := rfl

/-- A booking carries the mark along and reads nothing of it. -/
theorem book_unmarked (pos : Position) (side : Side) (qty execPrice : ℤ) :
    pos.unmarked.book side qty execPrice =
      ((pos.book side qty execPrice).1.unmarked, (pos.book side qty execPrice).2) := by
  have hexposure : pos.unmarked.exposure side = pos.exposure side := rfl
  rcases lt_or_ge (pos.exposure side) 0 with h | h
  · rw [book_of_exposure_neg _ _ h, book_of_exposure_neg _ _ (hexposure ▸ h)]
    rfl
  · rw [book_of_exposure_nonneg _ _ h, book_of_exposure_nonneg _ _ (hexposure ▸ h)]
    rfl

theorem fill_unmarked (pos : Position) (rpt : ExecutionReport) :
    pos.unmarked.fill rpt = pos.fill rpt := by
  rw [fill, fill, book_unmarked]
  rfl

/-- A step that writes the mark forgets the one before. -/
theorem step_of_remarks {s : Slot} {st : Step} (h : st.Remarks s) {pos pos' : Position}
    (hsame : pos.unmarked = pos'.unmarked) : pos.step s st = pos'.step s st := by
  cases st with
  | report rpt =>
      rw [Step.Remarks] at h
      rw [step, step, if_pos h, if_pos h, ← fill_unmarked pos, ← fill_unmarked pos', hsame]
  | mark sym lastPrice =>
      rw [Step.Remarks] at h
      rw [step, step, if_pos h, if_pos h, ← mark_unmarked pos, ← mark_unmarked pos', hsame]

theorem step_of_not_remarks {s : Slot} {st : Step} (h : ¬ st.Remarks s) (pos : Position) :
    pos.step s st = pos := by
  cases st with
  | report rpt => exact if_neg h
  | mark sym lastPrice => exact if_neg h

theorem unmarked_step {s : Slot} (st : Step) {pos pos' : Position}
    (hsame : pos.unmarked = pos'.unmarked) :
    (pos.step s st).unmarked = (pos'.step s st).unmarked := by
  by_cases h : st.Remarks s
  · rw [step_of_remarks h hsame]
  · rw [step_of_not_remarks h, step_of_not_remarks h, hsame]

theorem unmarked_foldl {s : Slot} (steps : List Step) {pos pos' : Position}
    (hsame : pos.unmarked = pos'.unmarked) :
    (steps.foldl (step s) pos).unmarked = (steps.foldl (step s) pos').unmarked := by
  induction steps generalizing pos pos' with
  | nil => exact hsame
  | cons st steps ih => exact ih (unmarked_step st hsame)

/-- After a step that writes the mark the two positions are one. -/
theorem foldl_of_remarks {s : Slot} {steps : List Step} (h : ∃ st ∈ steps, st.Remarks s)
    {pos pos' : Position} (hsame : pos.unmarked = pos'.unmarked) :
    steps.foldl (step s) pos = steps.foldl (step s) pos' := by
  induction steps generalizing pos pos' with
  | nil =>
      obtain ⟨st, hst, -⟩ := h
      cases hst
  | cons st steps ih =>
      rw [List.foldl_cons, List.foldl_cons]
      by_cases hst : st.Remarks s
      · rw [step_of_remarks hst hsame]
      · apply ih _ (unmarked_step st hsame)
        obtain ⟨later, hlater, hremarks⟩ := h
        rcases List.mem_cons.mp hlater with rfl | hlater
        · exact absurd hremarks hst
        · exact ⟨later, hlater, hremarks⟩

end Position

/-! ## Whole runs -/

namespace Portfolio

theorem updateM2m_unmarked (p : Portfolio) (s : Slot) (lastPrice : ℤ) (i : Slot) :
    ((p.updateM2m s lastPrice).positions i).unmarked = (p.positions i).unmarked := by
  rw [updateM2m]
  dsimp only
  by_cases hi : i = s
  · rw [hi, Function.update_self, Position.unmarked_mark]
  · rw [Function.update_of_ne hi]

section Unmarked

variable {p q : Portfolio}
variable (hsame : ∀ s, (p.positions s).unmarked = (q.positions s).unmarked)

include hsame

theorem run_unmarked (steps : List Step) (s : Slot) :
    ((p.run steps).positions s).unmarked = ((q.run steps).positions s).unmarked := by
  rw [run_positions, run_positions]
  exact Position.unmarked_foldl steps (hsame s)

theorem totalRealized_of_unmarked : p.totalRealized = q.totalRealized := by
  refine Finset.sum_congr rfl (fun s _ => ?_)
  have hrealized := congrArg Position.realizedPnl (hsame s)
  exact hrealized

/-- Portfolios that differ in their marks only charge and book the same cash. -/
theorem run_cash_of_unmarked (hconfig : p.config = q.config) (hcash : p.cash = q.cash)
    (steps : List Step) : (p.run steps).cash = (q.run steps).cash := by
  have hp := p.run_cash steps
  have hq := q.run_cash steps
  rw [totalRealized_of_unmarked (run_unmarked hsame steps), totalRealized_of_unmarked hsame,
    hcash, hconfig] at hp
  linarith

end Unmarked

end Portfolio

/-- A mark that is followed by another mark or a fill of its symbol may be left out; and no
mark at all moves cash or the books. -/
theorem mark_leaves_no_trace (p : Portfolio) (front rest : List Step) (s : Slot)
    (lastPrice : ℤ) :
    let marked := p.run (front ++ .mark s lastPrice :: rest)
    let plain := p.run (front ++ rest)
    ((∃ st ∈ rest, st.Remarks s) →
        marked.positions = plain.positions ∧ marked.cash = plain.cash) ∧
      marked.cash = plain.cash ∧
      ∀ i, (marked.positions i).netQty = (plain.positions i).netQty ∧
        (marked.positions i).avgEntryPrice = (plain.positions i).avgEntryPrice ∧
        (marked.positions i).realizedPnl = (plain.positions i).realizedPnl := by
  intro marked plain
  have hmarked : marked = ((p.run front).updateM2m s lastPrice).run rest := p.run_append _ _
  have hplain : plain = (p.run front).run rest := p.run_append _ _
  rw [hmarked, hplain]
  generalize p.run front = q
  have hsame := q.updateM2m_unmarked s lastPrice
  have hconfig : (q.updateM2m s lastPrice).config = q.config := rfl
  have hcash := Portfolio.run_cash_of_unmarked hsame hconfig rfl rest
  refine ⟨fun hremarks => ⟨?_, hcash⟩, hcash, fun i => ?_⟩
  · funext i
    rw [Portfolio.run_positions, Portfolio.run_positions]
    by_cases hi : i = s
    · rw [hi]
      exact Position.foldl_of_remarks hremarks (hsame s)
    · have hother : (q.updateM2m s lastPrice).positions i = q.positions i :=
        Function.update_of_ne hi _ _
      rw [hother]
  · have hbooks := Portfolio.run_unmarked hsame rest i
    have hnet := congrArg Position.netQty hbooks
    have havg := congrArg Position.avgEntryPrice hbooks
    have hrealized := congrArg Position.realizedPnl hbooks
    exact ⟨hnet, havg, hrealized⟩

/-- A mark between a purchase and a sale. -/
theorem mark_leaves_no_trace_before_sale :
    ((Portfolio.init ⟨0, 0, {}, 1000⟩).run
        ([.report ⟨1, .buy, 2, 100, true⟩] ++ .mark 1 50 ::
          [.report ⟨1, .sell, 1, 110, true⟩])).positions =
      ((Portfolio.init ⟨0, 0, {}, 1000⟩).run
        ([.report ⟨1, .buy, 2, 100, true⟩] ++ [.report ⟨1, .sell, 1, 110, true⟩])).positions :=
  ((mark_leaves_no_trace (Portfolio.init ⟨0, 0, {}, 1000⟩) _ _ 1 50).1
    ⟨.report ⟨1, .sell, 1, 110, true⟩, List.mem_singleton_self _, And.intro rfl rfl⟩).1

end UltraBacktest
