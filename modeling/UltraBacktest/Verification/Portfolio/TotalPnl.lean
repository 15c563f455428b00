import UltraBacktest.Verification.Portfolio.Equity

/-! The shortcut of the total over runs of any length. A position is skipped when it is
flat and its 32-bit trade counter stands at zero, which it does again after every
`2 ^ 32` fills. -/

namespace UltraBacktest

/-! ## Skipped positions -/

/-- The summation loop passes over the position. -/
def Position.Skipped (pos : Position) : Prop := ¬ (pos.numTrades > 0 ∨ pos.netQty ≠ 0)

/-- The total is the sum over all symbols, and what it skips contributes nothing. -/
def Portfolio.CountsEverySymbol (p : Portfolio) : Prop :=
  p.totalPnl = ∑ s, ((p.positions s).realizedPnl + (p.positions s).unrealizedPnl) ∧
    ∀ s, (p.positions s).Skipped →
      (p.positions s).realizedPnl + (p.positions s).unrealizedPnl = 0

/-- The fill turns the trade counter over and leaves the position flat, with something
realized so far. -/
def Position.DroppedBy (pos : Position) (rpt : ExecutionReport) : Prop :=
  pos.numTrades = 4294967295 ∧ pos.netQty + rpt.side.sign * rpt.execQty = 0 ∧
    pos.realizedPnl + (rpt.execPrice - pos.avgEntryPrice) * pos.netQty ≠ 0

def DropsSymbol (p : Portfolio) (st : Step) : Prop :=
  ∃ rpt ∈ st.fill?, (p.positions rpt.symbol).DroppedBy rpt

instance (pos : Position) (rpt : ExecutionReport) : Decidable (pos.DroppedBy rpt) :=
  inferInstanceAs (Decidable (_ ∧ _ ∧ _))

instance (p : Portfolio) (st : Step) : Decidable (DropsSymbol p st) :=
  inferInstanceAs (Decidable (∃ rpt ∈ st.fill?, _))

namespace Position

theorem skipped_iff (pos : Position) : pos.Skipped ↔ pos.numTrades = 0 ∧ pos.netQty = 0 := by
  rw [Skipped, not_or, not_not, gt_iff_lt, UInt32.pos_iff_ne_zero, not_not]

/-- A fill that flattens the position realizes all of it. -/
theorem fill_realizedPnl_of_flat {pos : Position} {rpt : ExecutionReport}
    (hq : 1 ≤ rpt.execQty) (hflat : (pos.fill rpt).netQty = 0) :
    (pos.fill rpt).realizedPnl =
      pos.realizedPnl + (rpt.execPrice - pos.avgEntryPrice) * pos.netQty := by
  rw [fill_netQty, ← pos.sign_mul_exposure rpt.side, ← mul_add] at hflat
  have hsign : rpt.side.sign ≠ 0 := by cases rpt.side <;> decide
  have hexposure : pos.exposure rpt.side + rpt.execQty = 0 :=
    (mul_eq_zero.mp hflat).resolve_left hsign
  have hneg : pos.exposure rpt.side < 0 := by omega
  rw [fill_realizedPnl, realizedBy_of_exposure_neg hneg, min_eq_left (by omega),
    ← pos.sign_mul_exposure rpt.side,
    show (rpt.execQty : ℤ) = -pos.exposure rpt.side by omega]
  ring

/-- What a fill realizes is dropped exactly when the fill makes the position one that is
skipped with a profit or a loss. -/
theorem droppedBy_iff {pos : Position} {rpt : ExecutionReport} (hq : 1 ≤ rpt.execQty) :
    pos.DroppedBy rpt ↔ (pos.fill rpt).Skipped ∧ (pos.fill rpt).realizedPnl ≠ 0 := by
  have hcounter : pos.numTrades = 4294967295 ↔ (pos.fill rpt).numTrades = 0 := by
    rw [fill_numTrades]
    constructor
    · intro h
      rw [h]
      rfl
    · intro h
      rw [← UInt32.add_sub_cancel pos.numTrades 1, h]
      rfl
  rw [DroppedBy, skipped_iff, hcounter, ← fill_netQty, and_assoc]
  refine and_congr_right (fun _ => and_congr_right (fun hflat => ?_))
  rw [fill_realizedPnl_of_flat hq hflat]

/-- The invariant of a symbol: its mark is up to date, and nothing is realized while it is
skipped. -/
structure Counted (pos : Position) : Prop where
  marked : pos.Marked
  realized_of_skipped : pos.Skipped → pos.realizedPnl = 0

theorem Counted.contributes_zero {pos : Position} (h : pos.Counted) (hskip : pos.Skipped) :
    pos.realizedPnl + pos.unrealizedPnl = 0 := by
  rw [h.realized_of_skipped hskip, h.marked, (pos.skipped_iff.mp hskip).2, mul_zero, add_zero]

theorem counted_step {s : Slot} {pos : Position} (h : pos.Counted) {st : Step}
    (hpos : st.Positive) (hkeeps : ∀ rpt ∈ st.fill?, rpt.symbol = s → ¬ pos.DroppedBy rpt) :
    (pos.step s st).Counted := by
  refine ⟨marked_step h.marked st, ?_⟩
  obtain ⟨-, hstep | ⟨lastPrice, hstep⟩⟩ | ⟨rpt, -, hfill, hs, hstep⟩ := step_cases s pos st
  · rw [hstep]
    exact h.realized_of_skipped
  · rw [hstep]
    exact h.realized_of_skipped
  · rw [hstep]
    intro hskip
    by_contra hne
    exact hkeeps rpt hfill hs ((droppedBy_iff (hpos rpt hfill)).mpr ⟨hskip, hne⟩)

end Position

/-! ## Whole runs -/

theorem Portfolio.countsEverySymbol_of_counted {p : Portfolio}
    (h : ∀ s, (p.positions s).Counted) : p.CountsEverySymbol := by
  have hzero := fun s => (h s).contributes_zero
  exact ⟨totalPnl_eq_sum_of_skipped hzero, hzero⟩

theorem Portfolio.counted_run {p : Portfolio} (h : ∀ s, (p.positions s).Counted)
    {steps : List Step} (hpos : ∀ st ∈ steps, st.Positive)
    (hkeeps : ∀ q ∈ Run.trail Portfolio.step p steps, ¬ DropsSymbol q.1 q.2) (s : Slot) :
    ((p.run steps).positions s).Counted := by
  induction steps generalizing p with
  | nil => exact h s
  | cons st steps ih =>
      rw [Run.trail_cons, List.forall_mem_cons] at hkeeps
      rw [List.forall_mem_cons] at hpos
      refine ih (fun i => ?_) hpos.2 hkeeps.2
      rw [step_positions]
      apply Position.counted_step (h i) hpos.1
      rintro rpt hfill rfl hdrop
      exact hkeeps.1 ⟨rpt, hfill, hdrop⟩

theorem Portfolio.counted_init (config : BacktestConfig) (s : Slot) :
    ((init config).positions s).Counted :=
  ⟨by simp [Position.Marked, init], fun _ => rfl⟩

/-- In every state of a run the total counts every symbol, exactly when no fill turns a
trade counter over on a position that it flattens with a realized profit or loss. -/
theorem total_counts_every_symbol_iff (config : BacktestConfig) (steps : List Step)
    (hpos : ∀ st ∈ steps, st.Positive) :
    (∀ front, front <+: steps → ((Portfolio.init config).run front).CountsEverySymbol) ↔
      ∀ q ∈ Run.trail Portfolio.step (Portfolio.init config) steps, ¬ DropsSymbol q.1 q.2 := by
  constructor
  · rintro h q hq ⟨rpt, hfill, hdrop⟩
    obtain ⟨front, rest, hsplit, hstate⟩ := (Run.mem_trail_iff _ _ _ _).mp hq
    have hq1 : 1 ≤ rpt.execQty := hpos q.2 (by simp [hsplit]) rpt hfill
    obtain ⟨hskip, hrealized⟩ := (Position.droppedBy_iff hq1).mp hdrop
    have hafter : ((Portfolio.init config).run (front ++ [q.2])).positions rpt.symbol =
        (q.1.positions rpt.symbol).fill rpt := by
      rw [Portfolio.run_append, Portfolio.run_cons, Portfolio.run_nil, Portfolio.step_positions,
        Portfolio.run, ← hstate]
      exact Position.step_of_mem_fill? _ hfill
    have hzero := (h (front ++ [q.2]) ⟨rest, by simp [hsplit]⟩).2 rpt.symbol
    rw [hafter, Position.fill_unrealizedPnl, (Position.skipped_iff _).mp hskip |>.2] at hzero
    exact hrealized (by simpa using hzero hskip)
  · rintro h front ⟨rest, rfl⟩
    apply Portfolio.countsEverySymbol_of_counted
    apply Portfolio.counted_run (Portfolio.counted_init config)
    · intro st hst
      exact hpos st (List.mem_append_left _ hst)
    · intro q hq
      apply h
      rw [Run.trail_append]
      exact List.mem_append_left _ hq

/-! ## A counter that turns over -/

/-- One unit bought at 100 and sold at 110, again and again. -/
def roundTrips (n : ℕ) : List Step :=
  (List.replicate n [.report ⟨1, .buy, 1, 100, true⟩, .report ⟨1, .sell, 1, 110, true⟩]).flatten

theorem roundTrips_succ (n : ℕ) :
    roundTrips (n + 1) = .report ⟨1, .buy, 1, 100, true⟩ :: .report ⟨1, .sell, 1, 110, true⟩ ::
      roundTrips n := rfl

theorem positive_roundTrips (n : ℕ) : ∀ st ∈ roundTrips n, st.Positive := by
  have htrip : ∀ st ∈ [Step.report ⟨1, .buy, 1, 100, true⟩, .report ⟨1, .sell, 1, 110, true⟩],
      st.Positive := by decide
  intro st hst
  obtain ⟨trip, hmem, hst⟩ := List.mem_flatten.mp hst
  rw [(List.mem_replicate.mp hmem).2] at hst
  exact htrip st hst

theorem length_fillsOn_roundTrips (n : ℕ) : (fillsOn 1 (roundTrips n)).length = 2 * n := by
  induction n with
  | zero => rfl
  | succ n ih =>
      rw [roundTrips_succ, fillsOn_cons, fillsOn_cons, List.length_append, List.length_append, ih]
      simp [Step.fill?, Option.filter]
      omega

/-- A round trip from a flat position realizes the difference of the prices. -/
theorem Portfolio.run_roundTrips {p : Portfolio} (h : (p.positions 1).netQty = 0) (n : ℕ) :
    ((p.run (roundTrips n)).positions 1).netQty = 0 ∧
      ((p.run (roundTrips n)).positions 1).realizedPnl = (p.positions 1).realizedPnl + 10 * n := by
  induction n generalizing p with
  | zero => simpa [roundTrips] using h
  | succ n ih =>
      have hbuy : (p.positions 1).step 1 (.report ⟨1, .buy, 1, 100, true⟩) =
          (p.positions 1).fill ⟨1, .buy, 1, 100, true⟩ := rfl
      obtain ⟨bought, hbought⟩ : ∃ q, q = p.step (.report ⟨1, .buy, 1, 100, true⟩) := ⟨_, rfl⟩
      have hposition : bought.positions 1 = (p.positions 1).fill ⟨1, .buy, 1, 100, true⟩ := by
        rw [hbought, step_positions, hbuy]
      have hlong : (bought.positions 1).netQty = 1 := by
        rw [hposition, Position.fill_netQty, h]
        rfl
      have hcost : (bought.positions 1).avgEntryPrice = 100 := by
        rw [hposition, Position.fill_avgEntryPrice, Position.book_of_exposure_nonneg]
        · simp [Position.exposure, h]
        · simp [Position.exposure, h]
      have hsold : (bought.step (.report ⟨1, .sell, 1, 110, true⟩)).positions 1 =
          (bought.positions 1).fill ⟨1, .sell, 1, 110, true⟩ := bought.step_positions 1 _
      have hflat : ((bought.positions 1).fill ⟨1, .sell, 1, 110, true⟩).netQty = 0 := by
        rw [Position.fill_netQty, hlong]
        rfl
      rw [roundTrips_succ, run_cons, run_cons, ← hbought]
      obtain ⟨hnet, hrealized⟩ := ih (hsold.symm ▸ hflat)
      refine ⟨hnet, ?_⟩
      rw [hrealized, hsold, Position.fill_realizedPnl_of_flat (by decide) hflat, hlong, hcost,
        hposition, Position.fill_realizedPnl,
        Position.realizedBy_of_exposure_nonneg (by simp [Position.exposure, h])]
      push_cast
      ring

/-- Three round trips stay far from the turn of the counter. -/
theorem total_counts_every_symbol_three_trips :
    ((Portfolio.init ⟨0, 0, {}, 0⟩).run (roundTrips 3)).CountsEverySymbol :=
  (total_counts_every_symbol_iff ⟨0, 0, {}, 0⟩ _ (positive_roundTrips 3)).mpr (by decide) _
    List.prefix_rfl

/-- The other positions stay as they were. -/
theorem Portfolio.run_roundTrips_of_ne {s : Slot} (hs : s ≠ 1) (p : Portfolio) (n : ℕ) :
    (p.run (roundTrips n)).positions s = p.positions s := by
  have hother : ∀ (q : Portfolio) (rpt : ExecutionReport), rpt.symbol = 1 →
      (q.step (.report rpt)).positions s = q.positions s := by
    intro q rpt hrpt
    rw [step_positions, Position.step, if_neg]
    rintro ⟨-, hsymbol⟩
    exact hs (hsymbol.symm.trans hrpt)
  induction n generalizing p with
  | zero => rfl
  | succ n ih => rw [roundTrips_succ, run_cons, run_cons, ih, hother _ _ rfl, hother _ _ rfl]

/-- After `2 ^ 31` round trips the counter stands at zero again and the position is flat,
so that the total leaves out all that was realized. -/
theorem counter_turnover_drops_symbol :
    (∀ st ∈ roundTrips (2 ^ 31), st.Positive) ∧
      ((Portfolio.init ⟨0, 0, {}, 0⟩).run (roundTrips (2 ^ 31))).totalPnl = 0 ∧
      ∑ s, ((((Portfolio.init ⟨0, 0, {}, 0⟩).run (roundTrips (2 ^ 31))).positions s).realizedPnl +
        (((Portfolio.init ⟨0, 0, {}, 0⟩).run (roundTrips (2 ^ 31))).positions s).unrealizedPnl) =
          10 * 2 ^ 31 := by
  have hflat : ((Portfolio.init ⟨0, 0, {}, 0⟩).positions 1).netQty = 0 := rfl
  obtain ⟨hnet, hrealized⟩ := Portfolio.run_roundTrips hflat (2 ^ 31)
  have hcounter := Portfolio.run_init_numTrades ⟨0, 0, {}, 0⟩ 1 (roundTrips (2 ^ 31))
  have hmarked : (((Portfolio.init ⟨0, 0, {}, 0⟩).run (roundTrips (2 ^ 31))).positions
      1).Marked := Position.marked_run (Portfolio.counted_init _ 1).marked _
  have hothers : ∀ s : Slot, s ≠ 1 →
      ((Portfolio.init ⟨0, 0, {}, 0⟩).run (roundTrips (2 ^ 31))).positions s =
        (Portfolio.init ⟨0, 0, {}, 0⟩).positions s :=
    fun s hs => Portfolio.run_roundTrips_of_ne hs _ _
  rw [length_fillsOn_roundTrips] at hcounter
  generalize (Portfolio.init ⟨0, 0, {}, 0⟩).run (roundTrips (2 ^ 31)) = p at *
  refine ⟨positive_roundTrips _, ?_, ?_⟩
  · rw [Portfolio.totalPnl_eq_sum]
    refine Finset.sum_eq_zero (fun s _ => if_neg ?_)
    by_cases hs : s = 1
    · subst hs
      exact (Position.skipped_iff _).mpr ⟨hcounter, hnet⟩
    · rw [hothers s hs]
      exact (Position.skipped_iff _).mpr ⟨rfl, rfl⟩
  · rw [Finset.sum_eq_single 1]
    · rw [hmarked, hnet, hrealized]
      norm_num [Portfolio.init]
    · intro s _ hs
      rw [hothers s hs]
      rfl
    · intro h
      exact absurd (Finset.mem_univ _) h

end UltraBacktest
