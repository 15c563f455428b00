import UltraBacktest.Verification.Portfolio.Equity
import UltraBacktest.Verification.Risk.Equations

/-! When a loss seen by a pre-trade check stops all later orders. The size check comes
before the loss check, so an oversized order hides a breach from the kill switch. -/

namespace UltraBacktest

/-- The calls made on a risk engine and on the portfolio it watches. -/
inductive Action where
  | check (req : OrderRequest)
  | step (st : Step)
  | triggerKillSwitch
  deriving DecidableEq, Repr

structure Desk where
  portfolio : Portfolio
  engine : RiskEngine

namespace Desk

/-- `none` is an access outside the position array. -/
def act (d : Desk) : Action → Option Desk
  | .check req =>
      (d.engine.checkPreTrade (some d.portfolio) req).map (fun r => { d with engine := r.2 })
  | .step st => some { d with portfolio := d.portfolio.step st }
  | .triggerKillSwitch => some { d with engine := d.engine.triggerKillSwitch }

def exec (d : Desk) (actions : List Action) : Option Desk := actions.foldlM act d

/-- The check of an order is answered, and not by `None`. -/
def Rejects (d : Desk) (req : OrderRequest) : Prop :=
  ∃ reason engine, d.engine.checkPreTrade (some d.portfolio) req = some (reason, engine) ∧
    reason ≠ .none

/-- The loss exceeds the limit. -/
def Breached (d : Desk) : Prop := d.portfolio.totalPnl < -d.engine.limits.maxLoss

instance (d : Desk) : Decidable d.Breached :=
  inferInstanceAs (Decidable (d.portfolio.totalPnl < -d.engine.limits.maxLoss))

/-- The check reaches the comparison of the loss, or the switch is already tripped. -/
def LooksAtLoss (d : Desk) (req : OrderRequest) : Prop :=
  d.engine.killed = true ∨ d.engine.limits.maxOrderSize = 0 ∨
    req.qty ≤ d.engine.limits.maxOrderSize

/-- A property of every check of a run that is made during a breach. -/
def AtBreaches (P : Desk → OrderRequest → Prop) (d : Desk) (actions : List Action) : Prop :=
  ∀ front req rest, actions = front ++ .check req :: rest →
    ∀ d', d.exec front = some d' → d'.Breached → P d' req

/-- The check is rejected, and so is every later one, whatever happens in between. -/
def Latches (d : Desk) (req : OrderRequest) : Prop :=
  d.Rejects req ∧
    ∀ later req', ∃ d', d.exec (.check req :: later) = some d' ∧ d'.Rejects req'

theorem exec_cons (d : Desk) (a : Action) (actions : List Action) :
    d.exec (a :: actions) = (d.act a).bind (fun d' => d'.exec actions) := rfl

theorem exec_steps (d : Desk) (steps : List Step) :
    d.exec (steps.map .step) = some { d with portfolio := d.portfolio.run steps } := by
  induction steps generalizing d with
  | nil => rfl
  | cons st steps ih => exact ih _

theorem act_limits {d d' : Desk} {a : Action} (h : d.act a = some d') :
    d'.engine.limits = d.engine.limits := by
  cases a with
  | check req =>
      obtain ⟨⟨reason, engine⟩, hcheck, rfl⟩ := Option.map_eq_some_iff.mp h
      exact RiskEngine.checkPreTrade_limits hcheck
  | step st =>
      cases h
      rfl
  | triggerKillSwitch =>
      cases h
      rfl

theorem exec_limits {d d' : Desk} {actions : List Action} (h : d.exec actions = some d') :
    d'.engine.limits = d.engine.limits := by
  induction actions generalizing d with
  | nil =>
      cases h
      rfl
  | cons a actions ih =>
      rw [exec_cons] at h
      obtain ⟨d₁, hact, hexec⟩ := Option.bind_eq_some_iff.mp h
      exact (ih hexec).trans (act_limits hact)

/-! ## A tripped switch stays tripped -/

theorem rejects_of_killed {d : Desk} (h : d.engine.killed = true) (req : OrderRequest) :
    d.Rejects req :=
  ⟨.killSwitch, d.engine, RiskEngine.checkPreTrade_of_killed h _ req, by decide⟩

/-- An order is rejected exactly when it fails one of the four checks. -/
theorem rejects_iff (d : Desk) (req : OrderRequest) :
    d.Rejects req ↔ d.engine.killed = true ∨ d.engine.Oversized req ∨
      d.engine.Breached d.portfolio ∨ d.engine.FailsPosition d.portfolio req := by
  rcases Bool.eq_false_or_eq_true d.engine.killed with hk | hk
  · exact ⟨fun _ => Or.inl hk, fun _ => rejects_of_killed hk req⟩
  by_cases ho : d.engine.Oversized req
  · exact ⟨fun _ => Or.inr (Or.inl ho), fun _ =>
      ⟨_, _, RiskEngine.checkPreTrade_of_oversized hk ho _, by decide⟩⟩
  by_cases hb : d.engine.Breached d.portfolio
  · exact ⟨fun _ => Or.inr (Or.inr (Or.inl hb)), fun _ =>
      ⟨_, _, RiskEngine.checkPreTrade_of_breached hk ho hb, by decide⟩⟩
  have hcheck := RiskEngine.checkPreTrade_position hk ho hb
  constructor
  · rintro ⟨reason, engine, hanswer, hreason⟩
    rw [hcheck] at hanswer
    split at hanswer
    · rename_i hlimit
      obtain ⟨pos, hpos, heq⟩ := Option.map_eq_some_iff.mp hanswer
      refine Or.inr (Or.inr (Or.inr ⟨hlimit, pos, hpos, ?_⟩))
      by_contra hwithin
      rw [if_neg hwithin] at heq
      exact hreason (congrArg Prod.fst heq).symm
    · exact absurd (congrArg Prod.fst (Option.some.inj hanswer)).symm hreason
  · rintro (h | h | h | ⟨hlimit, pos, hpos, hexceeds⟩)
    · rw [hk] at h
      cases h
    · exact absurd h ho
    · exact absurd h hb
    · refine ⟨.maxPosition, d.engine, ?_, by decide⟩
      rw [hcheck, if_pos hlimit, hpos, Option.map_some, if_pos hexceeds]

theorem act_of_killed {d : Desk} (h : d.engine.killed = true) (a : Action) :
    ∃ d', d.act a = some d' ∧ d'.engine.killed = true := by
  cases a with
  | check req =>
      refine ⟨d, ?_, h⟩
      rw [act, RiskEngine.checkPreTrade_of_killed h]
      rfl
  | step st => exact ⟨_, rfl, h⟩
  | triggerKillSwitch => exact ⟨_, rfl, rfl⟩

theorem exec_of_killed {d : Desk} (h : d.engine.killed = true) (actions : List Action) :
    ∃ d', d.exec actions = some d' ∧ d'.engine.killed = true := by
  induction actions generalizing d with
  | nil => exact ⟨d, rfl, h⟩
  | cons a actions ih =>
      obtain ⟨d', hact, hkilled⟩ := act_of_killed h a
      rw [exec_cons, hact]
      exact ih hkilled

/-- A check that looks at the loss during a breach trips the switch. -/
theorem act_check_of_breached {d : Desk} (hloss : 0 < d.engine.limits.maxLoss)
    (hb : d.Breached) {req : OrderRequest} (h : d.LooksAtLoss req) :
    d.Rejects req ∧ ∃ d', d.act (.check req) = some d' ∧ d'.engine.killed = true := by
  rcases Bool.eq_false_or_eq_true d.engine.killed with hk | hk
  · exact ⟨rejects_of_killed hk req, act_of_killed hk _⟩
  · have hsize : ¬ d.engine.Oversized req := by
      rintro ⟨hpos, hlt⟩
      rcases h with h | h | h
      · rw [hk] at h
        cases h
      · omega
      · omega
    have hcheck := RiskEngine.checkPreTrade_of_breached hk hsize ⟨hloss, hb⟩
    refine ⟨⟨_, _, hcheck, by decide⟩, ?_⟩
    rw [act, hcheck]
    exact ⟨_, rfl, rfl⟩

theorem latches_of_looksAtLoss {d : Desk} (hloss : 0 < d.engine.limits.maxLoss)
    (hb : d.Breached) {req : OrderRequest} (h : d.LooksAtLoss req) : d.Latches req := by
  obtain ⟨hrejects, d', hact, hkilled⟩ := act_check_of_breached hloss hb h
  refine ⟨hrejects, fun later req' => ?_⟩
  obtain ⟨d'', hexec, hkilled'⟩ := exec_of_killed hkilled later
  refine ⟨d'', ?_, rejects_of_killed hkilled' req'⟩
  rw [exec_cons, hact]
  exact hexec

end Desk

/-! ## Every loss can recover -/

namespace Portfolio

/-- Marking an open position moves the total by the change of its unrealized profit. -/
theorem totalPnl_updateM2m {p : Portfolio} {s : Slot} (h : (p.positions s).netQty ≠ 0)
    (lastPrice : ℤ) :
    (p.updateM2m s lastPrice).totalPnl = p.totalPnl +
      ((lastPrice - (p.positions s).avgEntryPrice) * (p.positions s).netQty -
        (p.positions s).unrealizedPnl) := by
  rw [totalPnl_eq_sum, totalPnl_eq_sum, updateM2m]
  dsimp only
  rw [sum_update p.positions (fun pos : Position =>
    if pos.numTrades > 0 ∨ pos.netQty ≠ 0 then pos.realizedPnl + pos.unrealizedPnl else 0)]
  simp only [Position.mark_numTrades, Position.mark_netQty, Position.mark_realizedPnl,
    Position.mark_unrealizedPnl, if_pos (Or.inr h)]
  ring

/-- One fill at most brings the position of a symbol to one unit. -/
theorem exists_run_netQty_eq_one (p : Portfolio) (s : Slot) :
    ∃ steps : List Step, (∀ st ∈ steps, st.Positive) ∧
      ((p.run steps).positions s).netQty = 1 := by
  have hfill : ∀ (side : Side) (qty : ℕ), 1 ≤ qty →
      (p.positions s).netQty + side.sign * qty = 1 →
      ∃ steps : List Step, (∀ st ∈ steps, st.Positive) ∧
        ((p.run steps).positions s).netQty = 1 := by
    intro side qty hqty hnet
    refine ⟨[.report ⟨s, side, qty, 0, true⟩], ?_, ?_⟩
    · simpa [Step.Positive, Step.fill?] using hqty
    · exact (@onExecution_netQty p ⟨s, side, qty, 0, true⟩ rfl s).trans (by simpa using hnet)
  rcases lt_trichotomy (p.positions s).netQty 1 with h | h | h
  · refine hfill .buy (1 - (p.positions s).netQty).toNat (by omega) ?_
    rw [Side.sign]
    omega
  · exact ⟨[], by simp, h⟩
  · refine hfill .sell ((p.positions s).netQty - 1).toNat (by omega) ?_
    rw [Side.sign]
    omega

/-- Some fill and mark bring the total back to zero. -/
theorem exists_run_totalPnl_eq_zero (p : Portfolio) (s : Slot) :
    ∃ steps : List Step, (∀ st ∈ steps, st.Positive) ∧
      ((p.run steps).positions s).netQty = 1 ∧ (p.run steps).totalPnl = 0 := by
  obtain ⟨steps, hpos, hnet⟩ := p.exists_run_netQty_eq_one s
  obtain ⟨q, hq⟩ : ∃ q, q = p.run steps := ⟨_, rfl⟩
  rw [← hq] at hnet
  let price := (q.positions s).avgEntryPrice + (q.positions s).unrealizedPnl - q.totalPnl
  refine ⟨steps ++ [.mark s price], ?_, ?_, ?_⟩
  · intro st hst
    rcases List.mem_append.mp hst with hst | hst
    · exact hpos st hst
    · rw [List.mem_singleton.mp hst]
      simp [Step.Positive, Step.fill?]
  · rw [run_append, ← hq]
    exact (q.updateM2m_netQty s price s).trans hnet
  · rw [run_append, ← hq]
    refine (totalPnl_updateM2m (by omega) price).trans ?_
    rw [hnet]
    ring

end Portfolio

namespace Desk

/-- An oversized order leaves a breach unlatched: once the loss has recovered, an order
that reduces the position is approved. -/
theorem not_latches_of_oversized {d : Desk} (hk : d.engine.killed = false) {req : OrderRequest}
    (ho : d.engine.Oversized req) (hloss : 0 < d.engine.limits.maxLoss) : ¬ d.Latches req := by
  rintro ⟨-, hlater⟩
  obtain ⟨steps, -, hnet, hpnl⟩ := d.portfolio.exists_run_totalPnl_eq_zero 0
  obtain ⟨d', hexec, hrejects⟩ := hlater (steps.map .step) ⟨0, .sell, 1⟩
  have hact : d.act (.check req) = some d := by
    rw [act, RiskEngine.checkPreTrade_of_oversized hk ho]
    rfl
  rw [exec_cons, hact, Option.bind_some, exec_steps, Option.some_inj] at hexec
  subst hexec
  have hsmall : ¬ d.engine.Oversized ⟨0, .sell, 1⟩ := by
    rintro ⟨hpos, hlt⟩
    exact absurd hlt (not_lt.mpr hpos)
  have hcalm : ¬ d.engine.Breached (d.portfolio.run steps) := by
    rintro ⟨-, hlt⟩
    omega
  have hwithin : RiskEngine.exceedsPosition d.engine.limits
      ((d.portfolio.run steps).positions 0).netQty ⟨0, .sell, 1⟩ = false := by
    rw [hnet, Bool.eq_false_iff]
    intro hx
    have hlt := (RiskEngine.exceedsPosition_iff (by norm_num) (by norm_num)).mp hx
    exact absurd hlt (by simp [Side.sign])
  obtain ⟨reason, engine, hcheck, hreason⟩ := hrejects
  rw [RiskEngine.checkPreTrade_eq_none hk hsmall hcalm rfl hwithin] at hcheck
  cases hcheck
  exact hreason rfl

/-- Every breach observed in a run is latched, for every continuation, exactly when every
check made during a breach looks at the loss. -/
theorem kill_switch_latches_iff {d : Desk} (hloss : 0 < d.engine.limits.maxLoss)
    (actions : List Action) :
    AtBreaches Latches d actions ↔ AtBreaches LooksAtLoss d actions := by
  constructor
  · intro h front req rest hactions d' hexec hb
    have hloss' : 0 < d'.engine.limits.maxLoss := exec_limits hexec ▸ hloss
    by_contra hlooks
    rw [LooksAtLoss, not_or, not_or] at hlooks
    obtain ⟨hk, hzero, hlt⟩ := hlooks
    apply not_latches_of_oversized (Bool.eq_false_iff.mpr hk)
      ⟨Nat.pos_of_ne_zero hzero, not_le.mp hlt⟩ hloss'
    exact h front req rest hactions d' hexec hb
  · intro h front req rest hactions d' hexec hb
    have hloss' : 0 < d'.engine.limits.maxLoss := exec_limits hexec ▸ hloss
    exact latches_of_looksAtLoss hloss' hb (h front req rest hactions d' hexec hb)

/-- A desk that is long 100 at 100 under a loss limit of 1000. -/
def longHundred : Desk where
  portfolio := (Portfolio.init { initialCash := 0 }).onExecution
    { symbol := 1, side := .buy, execQty := 100, execPrice := 100, isFill := true }
  engine := { limits := { maxLoss := 1000, maxOrderSize := 100 } }

/-- At 80 the loss is 2000. An order of 150 is rejected for its size, the price returns to
100, and the next order is approved. -/
theorem oversized_order_hides_breach :
    ¬ AtBreaches Latches longHundred
      [.step (.mark 1 80), .check { symbol := 1, side := .buy, qty := 150 }] := by
  intro h
  have hbreach : Desk.Breached
      ⟨longHundred.portfolio.step (.mark 1 80), longHundred.engine⟩ := by decide +kernel
  obtain ⟨-, hlater⟩ := h [.step (.mark 1 80)] ⟨1, .buy, 150⟩ [] rfl _ rfl hbreach
  obtain ⟨d', hexec, reason, engine, hcheck, hreason⟩ :=
    hlater [.step (.mark 1 100)] ⟨1, .buy, 10⟩
  cases hexec
  have hnone : longHundred.engine.checkPreTrade
      (some ((longHundred.portfolio.step (.mark 1 80)).step (.mark 1 100))) ⟨1, .buy, 10⟩ =
        some (.none, longHundred.engine) := by
    decide +kernel
  have hpair := Option.some_inj.mp (hcheck.symm.trans hnone)
  exact hreason (congrArg Prod.fst hpair)

/-- An order of 10 looks at the same loss, and nothing is approved after it. -/
theorem kill_switch_latches_small_order :
    AtBreaches Latches longHundred
      [.step (.mark 1 80), .check { symbol := 1, side := .buy, qty := 10 }] := by
  rw [kill_switch_latches_iff (by decide)]
  intro front req rest hactions d' hexec hb
  have hmem : Action.check req ∈
      [Action.step (.mark 1 80), .check { symbol := 1, side := .buy, qty := 10 }] := by
    rw [hactions]
    simp
  have hreq : req = { symbol := 1, side := .buy, qty := 10 } := by simpa using hmem
  refine Or.inr (Or.inr ?_)
  rw [hreq, exec_limits hexec]
  decide

end Desk

end UltraBacktest
