import UltraBacktest.Verification.Portfolio.Equity

/-! Two runs that treat every symbol alike. The steps on one symbol never read or write the
position of another, and the cash they share only adds up what each of them contributes. -/

namespace UltraBacktest

/-- The symbol a step is about. -/
def Step.symbol : Step → Slot
  | .report rpt => rpt.symbol
  | .mark sym _ => sym

/-- The steps of a run on one symbol, in order. -/
def stepsOn (s : Slot) (steps : List Step) : List Step :=
  steps.filter (fun st => st.symbol = s)

/-- Steps on other symbols leave a position alone. -/
theorem Position.step_of_ne {s : Slot} {st : Step} (h : st.symbol ≠ s) (pos : Position) :
    pos.step s st = pos := by
  cases st with
  | report rpt =>
      rw [step, if_neg]
      rintro ⟨-, hs⟩
      exact h hs
  | mark sym lastPrice => exact if_neg h

/-- The position of a symbol is determined by the steps on it. -/
theorem Portfolio.run_positions_stepsOn (p : Portfolio) (s : Slot) (steps : List Step) :
    (p.run steps).positions s = (stepsOn s steps).foldl (Position.step s) (p.positions s) := by
  rw [p.run_positions, stepsOn]
  generalize p.positions s = pos
  induction steps generalizing pos with
  | nil => rfl
  | cons st steps ih =>
      by_cases hs : st.symbol = s
      · rw [List.filter_cons_of_pos (by simpa using hs), List.foldl_cons, List.foldl_cons, ih]
      · rw [List.filter_cons_of_neg (by simpa using hs), List.foldl_cons,
          Position.step_of_ne hs, ih]

/-- Runs that agree on every symbol consist of the same steps. -/
theorem perm_of_stepsOn_eq {xs ys : List Step} (h : ∀ s, stepsOn s xs = stepsOn s ys) :
    xs.Perm ys := by
  rw [List.perm_iff_count]
  intro st
  have hcount : ∀ steps : List Step, steps.count st = (stepsOn st.symbol steps).count st := by
    intro steps
    rw [stepsOn, List.count_filter (by simp)]
  rw [hcount xs, hcount ys, h]

theorem feesCharged_perm (fm : FeeModel) {xs ys : List Step} (h : xs.Perm ys) :
    feesCharged fm xs = feesCharged fm ys :=
  ((h.filterMap Step.fill?).map _).sum_eq

/-- However the symbols are interleaved, the run ends in the same portfolio. -/
theorem interleaving_independent (p : Portfolio) {xs ys : List Step}
    (h : ∀ s, stepsOn s xs = stepsOn s ys) : p.run xs = p.run ys := by
  have hpositions : (p.run xs).positions = (p.run ys).positions := by
    funext s
    rw [p.run_positions_stepsOn, p.run_positions_stepsOn, h]
  have hcash : (p.run xs).cash = (p.run ys).cash := by
    have hx := p.run_cash xs
    have hy := p.run_cash ys
    rw [Portfolio.totalRealized, hpositions, feesCharged_perm _ (perm_of_stepsOn_eq h),
      ← hy] at hx
    exact sub_left_inj.mp hx
  have hconfig : (p.run xs).config = (p.run ys).config := by
    rw [p.run_config, p.run_config]
  generalize p.run xs = q at *
  generalize p.run ys = q' at *
  cases q
  cases q'
  cases hpositions
  cases hcash
  cases hconfig
  rfl

/-- A round trip in one symbol around a purchase of another. -/
theorem interleaving_independent_two_symbols :
    (Portfolio.init ⟨0, 0, { perShareFee := 2 }, 1000⟩).run
        [.report ⟨1, .buy, 2, 100, true⟩, .report ⟨2, .sell, 3, 50, true⟩,
          .report ⟨1, .sell, 2, 110, true⟩, .mark 2 40] =
      (Portfolio.init ⟨0, 0, { perShareFee := 2 }, 1000⟩).run
        [.report ⟨2, .sell, 3, 50, true⟩, .mark 2 40, .report ⟨1, .buy, 2, 100, true⟩,
          .report ⟨1, .sell, 2, 110, true⟩] := by
  apply interleaving_independent
  intro s
  by_cases h1 : (1 : Slot) = s
  · subst h1
    decide
  · by_cases h2 : (2 : Slot) = s
    · subst h2
      decide
    · simp [stepsOn, Step.symbol, h1, h2]

end UltraBacktest
