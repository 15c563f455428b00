import UltraBacktest.Verification.Portfolio.Ledger

/-! Cash, total profit and equity over a run. Cash already contains the realized profit
of every closed lot, so adding the total profit to it counts realized profit twice. -/

namespace UltraBacktest

/-! ## The cash account -/

/-- The fees charged by the fills of a run. -/
def feesCharged (fm : FeeModel) (steps : List Step) : ℤ :=
  ((fills steps).map (fun rpt => fm.compute rpt.execQty false)).sum

/-- Realized profit over all symbols. -/
def Portfolio.totalRealized (p : Portfolio) : ℤ := ∑ s, (p.positions s).realizedPnl

theorem fills_cons (st : Step) (steps : List Step) :
    fills (st :: steps) = st.fill?.toList ++ fills steps := by
  unfold fills
  cases h : st.fill? <;> simp [h]

theorem feesCharged_cons (fm : FeeModel) (st : Step) (steps : List Step) :
    feesCharged fm (st :: steps) =
      st.fill?.elim 0 (fun rpt => fm.compute rpt.execQty false) + feesCharged fm steps := by
  rw [feesCharged, fills_cons]
  cases st.fill? <;> simp [feesCharged]

/-- What a step adds to realized profit. -/
def Portfolio.stepRealized (p : Portfolio) (st : Step) : ℤ :=
  st.fill?.elim 0 (fun rpt => (p.positions rpt.symbol).realizedBy rpt)

theorem Portfolio.step_totalRealized (p : Portfolio) (st : Step) :
    (p.step st).totalRealized = p.totalRealized + p.stepRealized st := by
  rw [totalRealized, sum_step (fun _ _ => rfl), totalRealized, stepRealized]
  simp only [Position.fill_realizedPnl, add_sub_cancel_left]

theorem Portfolio.step_cash (p : Portfolio) (st : Step) :
    (p.step st).cash = p.cash -
      st.fill?.elim 0 (fun rpt => p.config.feeModel.compute rpt.execQty false) +
        p.stepRealized st := by
  cases st with
  | mark sym lastPrice => simp [step, updateM2m, stepRealized, Step.fill?]
  | report rpt =>
      cases h : rpt.isFill with
      | false => simp [step, p.onExecution_of_not_isFill h, stepRealized, Step.fill?, h]
      | true => simp [step, p.onExecution_of_isFill h, stepRealized, Step.fill?, h]

/-- Cash moves with realized profit and pays the fees. -/
theorem Portfolio.run_cash (p : Portfolio) (steps : List Step) :
    (p.run steps).cash - (p.run steps).totalRealized =
      p.cash - p.totalRealized - feesCharged p.config.feeModel steps := by
  induction steps generalizing p with
  | nil => simp [feesCharged, fills]
  | cons st steps ih =>
      rw [run_cons, ih, step_cash, step_totalRealized, step_config, feesCharged_cons]
      ring

theorem Portfolio.init_totalRealized (config : BacktestConfig) :
    (init config).totalRealized = 0 := by
  simp [totalRealized, init]

theorem Portfolio.run_init_cash (config : BacktestConfig) (steps : List Step) :
    ((init config).run steps).cash = config.initialCash - feesCharged config.feeModel steps +
      ((init config).run steps).totalRealized := by
  have hcash := (init config).run_cash steps
  rw [init_totalRealized] at hcash
  change _ = config.initialCash - 0 - feesCharged config.feeModel steps at hcash
  linarith

/-- A step that is not a fill charges nothing. -/
theorem feesCharged_concat_of_not_fill (fm : FeeModel) (steps : List Step) {st : Step}
    (h : st.fill? = none) : feesCharged fm (steps ++ [st]) = feesCharged fm steps := by
  unfold feesCharged fills
  rw [List.filterMap_append, List.filterMap_cons_none h, List.filterMap_nil, List.append_nil]

/-- Cash is the initial cash less the fees plus the realized profit of all symbols. Marks
and reports that are not fills move neither side. -/
theorem cash_ledger (config : BacktestConfig) (steps : List Step) :
    ((Portfolio.init config).run steps).cash =
        config.initialCash - feesCharged config.feeModel steps +
          ∑ s, (((Portfolio.init config).run steps).positions s).realizedPnl ∧
      ∀ st : Step, st.fill? = none →
        ((Portfolio.init config).run (steps ++ [st])).cash =
            ((Portfolio.init config).run steps).cash ∧
          feesCharged config.feeModel (steps ++ [st]) = feesCharged config.feeModel steps ∧
          ∑ s, (((Portfolio.init config).run (steps ++ [st])).positions s).realizedPnl =
            ∑ s, (((Portfolio.init config).run steps).positions s).realizedPnl := by
  refine ⟨Portfolio.run_init_cash config steps, fun st hst => ?_⟩
  have hrealized : ((Portfolio.init config).run (steps ++ [st])).totalRealized =
      ((Portfolio.init config).run steps).totalRealized := by
    rw [Portfolio.run_append, Portfolio.run_cons, Portfolio.run_nil,
      Portfolio.step_totalRealized, Portfolio.stepRealized, hst]
    exact add_zero _
  have hfees := feesCharged_concat_of_not_fill config.feeModel steps hst
  refine ⟨?_, hfees, hrealized⟩
  rw [Portfolio.run_init_cash, Portfolio.run_init_cash, hfees, hrealized]

/-- A mark behind a closed lot leaves the cash where the lot has put it. -/
theorem cash_ledger_mark_after_close :
    ((Portfolio.init ⟨0, 0, { perTradeFee := 1 }, 1000⟩).run
        ([.report ⟨1, .buy, 1, 100, true⟩, .report ⟨1, .sell, 1, 110, true⟩] ++
          [.mark 1 90])).cash =
      ((Portfolio.init ⟨0, 0, { perTradeFee := 1 }, 1000⟩).run
        [.report ⟨1, .buy, 1, 100, true⟩, .report ⟨1, .sell, 1, 110, true⟩]).cash :=
  ((cash_ledger ⟨0, 0, { perTradeFee := 1 }, 1000⟩ _).2 (.mark 1 90) rfl).1

/-! ## The summation shortcut -/

theorem Portfolio.totalPnl_eq_sum (p : Portfolio) :
    p.totalPnl = ∑ s, if (p.positions s).numTrades > 0 ∨ (p.positions s).netQty ≠ 0 then
      (p.positions s).realizedPnl + (p.positions s).unrealizedPnl else 0 := by
  have hfold : ∀ (f : Slot → ℤ) (c : Slot → Prop) [DecidablePred c] (l : List Slot) (a : ℤ),
      l.foldl (fun total i => if c i then total + f i else total) a =
        a + (l.map (fun i => if c i then f i else 0)).sum := by
    intro f c _ l
    induction l with
    | nil => simp
    | cons i l ih =>
        intro a
        rw [List.foldl_cons, ih, List.map_cons, List.sum_cons]
        split_ifs <;> ring
  rw [totalPnl, hfold, zero_add, Fin.sum_univ_def]

/-- The shortcut is sound where everything it skips contributes nothing. -/
theorem Portfolio.totalPnl_eq_sum_of_skipped {p : Portfolio}
    (h : ∀ s, ¬ ((p.positions s).numTrades > 0 ∨ (p.positions s).netQty ≠ 0) →
      (p.positions s).realizedPnl + (p.positions s).unrealizedPnl = 0) :
    p.totalPnl = ∑ s, ((p.positions s).realizedPnl + (p.positions s).unrealizedPnl) := by
  rw [totalPnl_eq_sum]
  refine Finset.sum_congr rfl (fun s _ => ?_)
  split_ifs with hseen
  · rfl
  · exact (h s hseen).symm

theorem fillsOn_cons (s : Slot) (st : Step) (steps : List Step) :
    fillsOn s (st :: steps) =
      (st.fill?.filter (fun rpt => rpt.symbol = s)).toList ++ fillsOn s steps := by
  rw [fillsOn, fills_cons, List.filter_append, ← fillsOn]
  cases h : st.fill? with
  | none => rfl
  | some rpt => by_cases hs : rpt.symbol = s <;> simp [Option.filter, hs]

/-- The trade counter is the number of fills modulo `2 ^ 32`. -/
theorem Portfolio.run_numTrades (p : Portfolio) (s : Slot) (steps : List Step) :
    ((p.run steps).positions s).numTrades =
      (p.positions s).numTrades + UInt32.ofNat (fillsOn s steps).length := by
  induction steps generalizing p with
  | nil => simp [fillsOn, fills]
  | cons st steps ih =>
      rw [run_cons, ih, step_positions, fillsOn_cons]
      obtain ⟨hnone, hstep | ⟨lastPrice, hstep⟩⟩ | ⟨rpt, hsome, -, -, hstep⟩ :=
        Position.step_cases s (p.positions s) st
      · simp [hnone, hstep]
      · simp [hnone, hstep]
      · rw [hsome, hstep, Option.toList_some, List.singleton_append, List.length_cons,
          Position.fill_numTrades, UInt32.ofNat_add, UInt32.add_assoc, UInt32.add_comm 1]
        rfl

theorem Portfolio.run_init_numTrades (config : BacktestConfig) (s : Slot) (steps : List Step) :
    (((init config).run steps).positions s).numTrades =
      UInt32.ofNat (fillsOn s steps).length :=
  ((init config).run_numTrades s steps).trans (UInt32.zero_add _)

/-- A symbol without fills keeps its quantity and its realized profit. -/
theorem Portfolio.run_of_fillsOn_eq_nil (p : Portfolio) {s : Slot} {steps : List Step}
    (h : fillsOn s steps = []) :
    ((p.run steps).positions s).netQty = (p.positions s).netQty ∧
      ((p.run steps).positions s).realizedPnl = (p.positions s).realizedPnl := by
  induction steps generalizing p with
  | nil => exact ⟨rfl, rfl⟩
  | cons st steps ih =>
      rw [fillsOn_cons, List.append_eq_nil_iff] at h
      rw [run_cons]
      obtain ⟨hnet, hreal⟩ := ih (p.step st) h.2
      rw [hnet, hreal, step_positions]
      obtain ⟨-, hstep | ⟨lastPrice, hstep⟩⟩ | ⟨rpt, hsome, -⟩ :=
        Position.step_cases s (p.positions s) st
      · simp [hstep]
      · simp [hstep]
      · simp [hsome] at h

/-- Below `2 ^ 32` fills per symbol, the shortcut drops nothing. -/
theorem totalPnl_run_init (config : BacktestConfig) (steps : List Step)
    (hcount : ∀ s, (fillsOn s steps).length < 2 ^ 32) :
    ((Portfolio.init config).run steps).totalPnl =
      ∑ s, ((((Portfolio.init config).run steps).positions s).realizedPnl +
        (((Portfolio.init config).run steps).positions s).unrealizedPnl) := by
  apply Portfolio.totalPnl_eq_sum_of_skipped
  intro s hskipped
  have hmarked : (((Portfolio.init config).run steps).positions s).Marked :=
    Position.marked_run (by simp [Position.Marked, Portfolio.init]) steps
  simp only [not_or, not_not] at hskipped
  have hnil : fillsOn s steps = [] := by
    have hzero : UInt32.ofNat (fillsOn s steps).length = 0 := by
      have hle := hskipped.1
      rw [Portfolio.run_init_numTrades] at hle
      simpa using hle
    have hnat := congrArg UInt32.toNat hzero
    rw [UInt32.toNat_ofNat_of_lt' (hcount s)] at hnat
    exact List.length_eq_zero_iff.mp hnat
  have hreal := ((Portfolio.init config).run_of_fillsOn_eq_nil hnil).2
  rw [hmarked, hskipped.2, hreal]
  simp [Portfolio.init]

/-! ## Equity -/

/-- Every unit of profit enters the portfolio value once. -/
def EquityConserved (config : BacktestConfig) (steps : List Step) : Prop :=
  ((Portfolio.init config).run steps).totalEquity =
    config.initialCash - feesCharged config.feeModel steps +
      ∑ s, ((((Portfolio.init config).run steps).positions s).realizedPnl +
        (((Portfolio.init config).run steps).positions s).unrealizedPnl)

/-- A fill on the given side reduces, closes or flips the position. -/
def Position.ClosedBy (pos : Position) (side : Side) : Prop :=
  (side = .buy ∧ pos.netQty < 0) ∨ (side = .sell ∧ 0 < pos.netQty)

instance (pos : Position) (side : Side) : Decidable (pos.ClosedBy side) :=
  inferInstanceAs (Decidable ((side = .buy ∧ pos.netQty < 0) ∨ (side = .sell ∧ 0 < pos.netQty)))

/-- If the step is a fill that closes, its price is the average entry price. -/
def ClosesAtCost (p : Portfolio) (st : Step) : Prop :=
  ∀ rpt ∈ st.fill?, (p.positions rpt.symbol).ClosedBy rpt.side →
    rpt.execPrice = (p.positions rpt.symbol).avgEntryPrice

instance (p : Portfolio) (st : Step) : Decidable (ClosesAtCost p st) :=
  inferInstanceAs (Decidable (∀ rpt ∈ st.fill?, _ → _))

theorem Position.closedBy_iff (pos : Position) (side : Side) :
    pos.ClosedBy side ↔ pos.exposure side < 0 := by
  unfold ClosedBy exposure
  cases side <;> simp [Side.sign]

theorem Position.realizedBy_eq_zero_iff (pos : Position) {rpt : ExecutionReport}
    (hq : 1 ≤ rpt.execQty) :
    pos.realizedBy rpt = 0 ↔
      (pos.ClosedBy rpt.side → rpt.execPrice = pos.avgEntryPrice) := by
  rw [closedBy_iff]
  rcases lt_or_ge (pos.exposure rpt.side) 0 with h | h
  · have hclosing : min (rpt.execQty : ℤ) (-pos.exposure rpt.side) ≠ 0 := by omega
    have hsign : rpt.side.sign ≠ 0 := by cases rpt.side <;> decide
    rw [realizedBy_of_exposure_neg h]
    simp only [mul_eq_zero, hsign, hclosing, false_or, or_false, h, true_imp_iff]
    omega
  · simp [realizedBy_of_exposure_nonneg h, not_lt.mpr h]

theorem Portfolio.stepRealized_eq_zero_iff (p : Portfolio) {st : Step} (h : st.Positive) :
    p.stepRealized st = 0 ↔ ClosesAtCost p st := by
  unfold stepRealized ClosesAtCost
  cases hfill : st.fill? with
  | none => simp
  | some rpt =>
      simpa using (p.positions rpt.symbol).realizedBy_eq_zero_iff (h rpt hfill)

theorem fillsOn_length_mono {front steps : List Step} (h : front <+: steps) (s : Slot) :
    (fillsOn s front).length ≤ (fillsOn s steps).length := by
  obtain ⟨rest, rfl⟩ := h
  simp [fillsOn, fills]

theorem fillsOn_length_le (s : Slot) (steps : List Step) :
    (fillsOn s steps).length ≤ steps.length :=
  (List.length_filter_le _ _).trans (List.length_filterMap_le _ _)

/-- The reported equity exceeds the conserved one by the realized profit. -/
theorem equityConserved_iff_totalRealized (config : BacktestConfig) (steps : List Step)
    (hcount : ∀ s, (fillsOn s steps).length < 2 ^ 32) :
    EquityConserved config steps ↔ ((Portfolio.init config).run steps).totalRealized = 0 := by
  have hcash := Portfolio.run_init_cash config steps
  unfold EquityConserved Portfolio.totalEquity
  rw [totalPnl_run_init config steps hcount]
  constructor <;> intro h <;> linarith

theorem equity_conserved_iff (config : BacktestConfig) (steps : List Step)
    (hpos : ∀ st ∈ steps, st.Positive) (hcount : ∀ s, (fillsOn s steps).length < 2 ^ 32) :
    (∀ front, front <+: steps → EquityConserved config front) ↔
      ∀ q ∈ Run.trail Portfolio.step (Portfolio.init config) steps, ClosesAtCost q.1 q.2 := by
  have hconserved : ∀ front, front <+: steps → (EquityConserved config front ↔
      ((Portfolio.init config).run front).totalRealized = 0) := fun front hfront =>
    equityConserved_iff_totalRealized config front
      (fun s => (fillsOn_length_mono hfront s).trans_lt (hcount s))
  constructor
  · intro h q hq
    obtain ⟨front, rest, hsplit, hstate⟩ := (Run.mem_trail_iff _ _ _ _).mp hq
    have hfront : front <+: steps := ⟨q.2 :: rest, hsplit.symm⟩
    have hnext : front ++ [q.2] <+: steps := ⟨rest, by simp [hsplit]⟩
    have hbefore := (hconserved _ hfront).mp (h _ hfront)
    have hafter := (hconserved _ hnext).mp (h _ hnext)
    rw [Portfolio.run_append, Portfolio.run_cons, Portfolio.run_nil,
      Portfolio.step_totalRealized, hbefore, zero_add] at hafter
    rw [hstate]
    exact (Portfolio.stepRealized_eq_zero_iff _ (hpos q.2 (by simp [hsplit]))).mp hafter
  · intro h front hfront
    rw [hconserved front hfront]
    have hsum := Run.measure_eq_sum Portfolio.totalRealized
      (fun p st => some (p.stepRealized st)) id (fun p st => p.step_totalRealized st)
      (Portfolio.init config) front
    rw [Portfolio.init_totalRealized, zero_add] at hsum
    refine hsum.trans (List.sum_eq_zero (fun x hx => ?_))
    obtain ⟨rest, rfl⟩ := hfront
    simp only [List.map_id, List.mem_filterMap, Option.some.injEq] at hx
    obtain ⟨q, hq, rfl⟩ := hx
    have hmem : q ∈ Run.trail Portfolio.step (Portfolio.init config) (front ++ rest) := by
      rw [Run.trail_append]
      exact List.mem_append_left _ hq
    obtain ⟨before, after, hsplit, -⟩ := (Run.mem_trail_iff _ _ _ _).mp hmem
    exact (q.1.stepRealized_eq_zero_iff (hpos q.2 (by simp [hsplit]))).mpr (h q hmem)

/-- A lot closed at its average entry price keeps the equity conserved. -/
theorem equity_conserved_close_at_cost :
    EquityConserved ⟨0, 0, {}, 1000⟩
      [.report ⟨1, .buy, 2, 100, true⟩, .report ⟨1, .sell, 1, 100, true⟩] :=
  (equity_conserved_iff ⟨0, 0, {}, 1000⟩ _ (by decide)
    (fun s => (fillsOn_length_le s _).trans_lt (by decide))).mpr (by decide) _ List.prefix_rfl

/-- Buying one unit at 100 and selling it at 110 reports the profit of 10 twice. -/
theorem equity_counts_realized_twice :
    ¬ ∀ (config : BacktestConfig) (steps : List Step), (∀ st ∈ steps, st.Positive) →
      (∀ s, (fillsOn s steps).length < 2 ^ 32) → EquityConserved config steps := by
  intro h
  have hcount : ∀ s, (fillsOn s [.report ⟨1, .buy, 1, 100, true⟩,
      .report ⟨1, .sell, 1, 110, true⟩]).length < 2 ^ 32 :=
    fun s => (fillsOn_length_le s _).trans_lt (by decide)
  have hrun := h ⟨0, 0, {}, 1000⟩ _ (by decide) hcount
  rw [equityConserved_iff_totalRealized _ _ hcount] at hrun
  simp only [Portfolio.run_cons, Portfolio.run_nil, Portfolio.step_totalRealized,
    Portfolio.init_totalRealized] at hrun
  exact absurd hrun (by decide)

end UltraBacktest
