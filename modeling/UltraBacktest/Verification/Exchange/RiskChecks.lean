import UltraBacktest.Model.RiskChecked
import UltraBacktest.Verification.Exchange.Settlement
import UltraBacktest.Verification.Risk.PositionCheck

/-! Risk checks over whole backtests, for a strategy that sends no order past its risk engine.
The matching engine receives exactly the orders that a check has approved, each of them within
the limits against the books of that moment, and none once the kill switch has tripped. -/

namespace UltraBacktest

open Interaction Stream

variable {ε τ μ : Type} {ρ σ : Type*} [Source ρ Event]

/-! ## One check -/

namespace RiskEngine

/-- What every check keeps, whether there is a portfolio or not. -/
theorem checkPreTrade_keeps {r r' : RiskEngine} {p : Option Portfolio} {req : OrderRequest}
    {reason : RiskRejectReason} (h : r.checkPreTrade p req = some (reason, r')) :
    r'.limits = r.limits ∧ (r.killed = true → reason = .killSwitch ∧ r' = r) ∧
      (reason = .maxLoss ∨ reason = .killSwitch → r'.killed = true) := by
  cases hk : r.killed with
  | true =>
      rw [checkPreTrade_of_killed hk] at h
      cases h
      exact ⟨rfl, fun _ => ⟨rfl, rfl⟩, fun _ => hk⟩
  | false =>
      refine ⟨?_, fun hkilled => (by cases hkilled), ?_⟩
      · cases p with
        | some p => exact checkPreTrade_limits h
        | none =>
            rw [checkPreTrade] at h
            split_ifs at h <;> cases h <;> rfl
      · cases p with
        | some p =>
            obtain ⟨hkilled, -, rfl⟩ | ⟨-, -, rfl, rfl⟩ | ⟨-, -, -, rfl, rfl⟩ |
              ⟨-, -, -, rfl, rfl⟩ | ⟨-, -, -, rfl, rfl, -⟩ := checkPreTrade_cases h
            · exact fun _ => hkilled
            · rintro (hreason | hreason) <;> cases hreason
            · exact fun _ => rfl
            · rintro (hreason | hreason) <;> cases hreason
            · rintro (hreason | hreason) <;> cases hreason
        | none =>
            rw [checkPreTrade, if_neg (by simp [hk])] at h
            split_ifs at h <;> cases h <;> rintro (hreason | hreason) <;> cases hreason

/-- An order within the limits: its size, the loss of the books before fees, and the position
that it leads to, in exact integers, from a position that the array can hold. -/
structure WithinLimits (limits : RiskLimits) (p : Option Portfolio) (req : OrderRequest) :
    Prop where
  size : req.qty ≤ limits.maxOrderSize
  loss : 0 < limits.maxLoss → ∀ q ∈ p, -limits.maxLoss ≤ q.totalPnl
  position : ∀ q ∈ p, ∃ pos, q.getPosition req.symbol = some pos ∧
    (Word64.Fits pos.netQty →
      |pos.netQty + req.side.sign * req.qty| ≤ limits.maxPositionPerSymbol)

/-- An order of moderate size leads no position a whole turn away. -/
theorem not_turnsOver {limits : RiskLimits} {netQty : ℤ} {req : OrderRequest}
    (hnet : Word64.Fits netQty) (hqty : req.qty ≤ 2 ^ 61)
    (hmax : limits.maxPositionPerSymbol ≤ 2 ^ 61) : ¬ TurnsOver limits netQty req := by
  rintro ⟨hlow, -⟩
  have hsum := abs_add_le netQty (req.side.sign * req.qty)
  have habs : |netQty| ≤ 2 ^ 63 := abs_le.mpr ⟨hnet.1, hnet.2.le⟩
  rw [Side.abs_sign_mul, Nat.abs_cast] at hsum
  omega

/-- What an approval says about the order, whatever the switch and the books. -/
theorem withinLimits_of_checkPreTrade {r r' : RiskEngine} {p : Option Portfolio}
    {req : OrderRequest} (hpos : 1 ≤ r.limits.maxPositionPerSymbol)
    (hmax : r.limits.maxPositionPerSymbol ≤ 2 ^ 61) (hsize : 1 ≤ r.limits.maxOrderSize)
    (horder : r.limits.maxOrderSize ≤ 2 ^ 61)
    (h : r.checkPreTrade p req = some (.none, r')) : WithinLimits r.limits p req := by
  have hqty : req.qty ≤ r.limits.maxOrderSize := by
    by_contra hover
    cases hk : r.killed with
    | true => cases (checkPreTrade_of_killed hk _ _).symm.trans h
    | false =>
        cases (checkPreTrade_of_oversized hk ⟨hsize, not_le.mp hover⟩ _).symm.trans h
  cases p with
  | none => exact ⟨hqty, by simp, by simp⟩
  | some p =>
      have happroved : (r.checkPreTrade (some p) req).map Prod.fst = some .none := by
        rw [h]
        rfl
      obtain ⟨-, -, hloss, hpasses⟩ := (checkPreTrade_approves_iff r p req).mp happroved
      obtain ⟨pos, hget, hexceeds⟩ := hpasses hpos
      refine ⟨hqty, ?_, ?_⟩
      · rintro hlimit q ⟨⟩
        by_contra hbreach
        exact hloss ⟨hlimit, not_le.mp hbreach⟩
      · rintro q ⟨⟩
        refine ⟨pos, hget, fun hnet => ?_⟩
        have hwithin := (exceedsPosition_eq_false_iff hnet (by omega) (by omega)).mp hexceeds
        exact hwithin.resolve_right (not_turnsOver hnet (by omega) hmax)

end RiskEngine

/-! ## One request -/

/-- The call on the engine that an order with this answer has made. -/
def routed (config : ExchangeConfig) (currentTime : ℤ) (req : LobOrder τ) :
    RiskRejectReason → Option (EngineCall τ μ)
  | .none => some (.submit (ExchangeSimulator.adjustedReq config currentTime req))
  | _ => none

/-- The call on the engine that a request with this answer has made. -/
def RiskRequest.engineCall? (config : ExchangeConfig) (currentTime : ℤ) :
    (riskInterface ε τ μ).Event → Option (EngineCall τ μ)
  | ⟨.sendOrder req, reason⟩ => routed config currentTime req reason
  | ⟨.cancelOrder sym id, _⟩ => some (.cancel sym id)
  | ⟨.modifyOrder sym req, _⟩ => some (.modify sym req)
  | ⟨_, _⟩ => none

def RiskRejectReason.Trips (reason : RiskRejectReason) : Prop :=
  reason = .maxLoss ∨ reason = .killSwitch

/-- The exchange shows that the kill switch is on. -/
def RiskRequest.Trips : (riskInterface ε τ μ).Event → Prop
  | ⟨.sendOrder _, reason⟩ => RiskRejectReason.Trips reason
  | ⟨.checkPreTrade _, reason⟩ => RiskRejectReason.Trips reason
  | ⟨.triggerKillSwitch, _⟩ => True
  | ⟨.isKilled, killed⟩ => killed = true
  | ⟨_, _⟩ => False

/-- What a request does to the risk engine. -/
structure RiskEngine.Follows (r r' : RiskEngine) (trips : Prop) : Prop where
  limits_eq : r'.limits = r.limits
  latched : r.killed = true → r'.killed = true
  tripped : trips → r'.killed = true

theorem RiskEngine.follows_of_checkPreTrade {r r' : RiskEngine} {p : Option Portfolio}
    {req : OrderRequest} {reason : RiskRejectReason}
    (h : r.checkPreTrade p req = some (reason, r')) : r.Follows r' reason.Trips := by
  obtain ⟨hlimits, hlatched, htripped⟩ := checkPreTrade_keeps h
  refine ⟨hlimits, ?_, htripped⟩
  intro hkilled
  rw [(hlatched hkilled).2, hkilled]

theorem RiskEngine.follows_refl (r : RiskEngine) {trips : Prop} (h : trips → r.killed = true) :
    r.Follows r trips := ⟨rfl, id, h⟩

/-- The inversion of an order: it was checked, and sent on if it was approved. -/
theorem RiskEngine.sendChecked_cases {lob : MatchingEngine ε τ μ} {config : ExchangeConfig}
    {req : LobOrder τ} {risk risk' : RiskEngine} {sim sim' : ExchangeSimulator ε}
    {reason : RiskRejectReason}
    (h : risk.sendChecked lob config req sim = some (reason, risk', sim')) :
    risk.checkPreTrade sim.portfolio req.toOrderRequest = some (reason, risk') ∧
      ((routed config sim.currentTime req reason : Option (EngineCall τ μ)) = none ∧ sim' = sim ∨
        ∃ call b, routed config sim.currentTime req reason = some call ∧
          sim.callEngine lob call = some (b, sim')) := by
  obtain ⟨⟨reason₁, risk₁⟩, hcheck, hrest⟩ := Option.bind_eq_some_iff.mp h
  dsimp only at hrest
  split_ifs at hrest with hnone
  · subst hnone
    obtain ⟨sim₁, hsubmit, heq⟩ := Option.map_eq_some_iff.mp hrest
    cases heq
    obtain ⟨q, hcall, rfl⟩ := Option.map_eq_some_iff.mp hsubmit
    exact ⟨hcheck, Or.inr ⟨_, q.1, rfl, hcall⟩⟩
  · cases hrest
    refine ⟨hcheck, Or.inl ⟨?_, rfl⟩⟩
    cases reason with
    | none => exact absurd rfl hnone
    | _ => rfl

/-- The inversion of a request. -/
theorem RiskEngine.answer_cases {lob : MatchingEngine ε τ μ} {config : ExchangeConfig}
    {c : RiskRequest τ μ} {risk risk' : RiskEngine} {sim sim' : ExchangeSimulator ε}
    {answer : (riskInterface ε τ μ).Answer c}
    (h : RiskEngine.answer lob config c (risk, sim) = some (answer, risk', sim')) :
    risk.Follows risk' (RiskRequest.Trips ⟨c, answer⟩) ∧
      (RiskRequest.engineCall? config sim.currentTime ⟨c, answer⟩ = none ∧ sim' = sim ∨
        ∃ call b, RiskRequest.engineCall? config sim.currentTime ⟨c, answer⟩ = some call ∧
          sim.callEngine lob call = some (b, sim')) := by
  cases c with
  | sendOrder req =>
      obtain ⟨hcheck, hrouted⟩ := RiskEngine.sendChecked_cases h
      exact ⟨RiskEngine.follows_of_checkPreTrade hcheck, hrouted⟩
  | checkPreTrade req =>
      obtain ⟨q, hcheck, heq⟩ := Option.map_eq_some_iff.mp h
      cases heq
      exact ⟨RiskEngine.follows_of_checkPreTrade hcheck, Or.inl ⟨rfl, rfl⟩⟩
  | triggerKillSwitch =>
      cases h
      exact ⟨⟨rfl, fun _ => rfl, fun _ => rfl⟩, Or.inl ⟨rfl, rfl⟩⟩
  | isKilled =>
      cases h
      exact ⟨risk.follows_refl id, Or.inl ⟨rfl, rfl⟩⟩
  | cancelOrder sym id =>
      obtain ⟨q, hcall, heq⟩ := Option.map_eq_some_iff.mp h
      cases heq
      exact ⟨risk.follows_refl False.elim, Or.inr ⟨_, q.1, rfl, hcall⟩⟩
  | modifyOrder sym req =>
      obtain ⟨q, hcall, heq⟩ := Option.map_eq_some_iff.mp h
      cases heq
      exact ⟨risk.follows_refl False.elim, Or.inr ⟨_, q.1, rfl, hcall⟩⟩
  | portfolio =>
      cases h
      exact ⟨risk.follows_refl False.elim, Or.inl ⟨rfl, rfl⟩⟩
  | engine =>
      cases h
      exact ⟨risk.follows_refl False.elim, Or.inl ⟨rfl, rfl⟩⟩

/-! ## Histories -/

/-- The calls on the engine behind this record: the registrations, and then what has been let
through. -/
def riskCheckedCalls (config : ExchangeConfig) (sim : ExchangeSimulator ε)
    (log : List (riskInterface ε τ μ).Event) : List (EngineCall τ μ) :=
  config.symbols.map .addSymbol ++
    log.filterMap (RiskRequest.engineCall? config sim.currentTime)

/-- The risk engine and the simulator behind a record, from where they started. -/
structure Checked (lob : MatchingEngine ε τ μ) (config : ExchangeConfig) (risk : RiskEngine)
    (sim : ExchangeSimulator ε) (log : List (riskInterface ε τ μ).Event)
    (w : RiskEngine × ExchangeSimulator ε) : Prop where
  settled : Settled lob sim (riskCheckedCalls config sim log) w.2
  limits_eq : w.1.limits = risk.limits
  killed : risk.killed = true ∨ (∃ x ∈ log, RiskRequest.Trips x) → w.1.killed = true

theorem Checked.answer {lob : MatchingEngine ε τ μ} {config : ExchangeConfig}
    {risk : RiskEngine} {sim : ExchangeSimulator ε} {log : List (riskInterface ε τ μ).Event}
    {w w' : RiskEngine × ExchangeSimulator ε} (h : Checked lob config risk sim log w)
    {c : RiskRequest τ μ} {answer : (riskInterface ε τ μ).Answer c}
    (hanswer : RiskEngine.answer lob config c w = some (answer, w')) :
    Checked lob config risk sim (log ++ [⟨c, answer⟩]) w' := by
  obtain ⟨hfollows, hcall⟩ := RiskEngine.answer_cases hanswer
  constructor
  · rw [riskCheckedCalls, List.filterMap_append, ← List.append_assoc, ← riskCheckedCalls]
    rw [h.settled.currentTime_eq] at hcall
    obtain ⟨hnone, heq⟩ | ⟨call, b, hsome, hcall⟩ := hcall
    · rw [heq]
      simpa [hnone] using h.settled
    · simpa [hsome] using h.settled.callEngine hcall
  · exact hfollows.limits_eq.trans h.limits_eq
  · rintro (hkilled | ⟨x, hx, htrips⟩)
    · exact hfollows.latched (h.killed (Or.inl hkilled))
    · rcases List.mem_append.mp hx with hx | hx
      · exact hfollows.latched (h.killed (Or.inr ⟨x, hx, htrips⟩))
      · cases List.mem_singleton.mp hx
        exact hfollows.tripped htrips

theorem checked_of_exchanges {lob : MatchingEngine ε τ μ} {config : ExchangeConfig}
    {risk : RiskEngine} {sim sim₁ : ExchangeSimulator ε}
    {log : List (riskInterface ε τ μ).Event} {w : RiskEngine × ExchangeSimulator ε}
    (hinit : sim.initializeEngine lob config = some sim₁)
    (hlog : Program.Exchanges (RiskEngine.answer lob config) (risk, sim₁) log w) :
    Checked lob config risk sim log w := by
  refine hlog.history (R := fun log w => Checked lob config risk sim log w) ?_ (s := []) ?_
  · intro s w c answer w' hs hanswer
    exact hs.answer hanswer
  · refine ⟨?_, rfl, ?_⟩
    · rw [riskCheckedCalls, List.filterMap_nil, List.append_nil]
      exact (settled_nil lob sim).registers hinit
    · rintro (hkilled | ⟨x, hx, -⟩)
      · exact hkilled
      · cases hx

/-- The engine has received the orders that were approved; each of these was within the limits
against the books of the fills before it, and after the kill switch has shown no order is
approved any more. -/
theorem orders_reach_engine_within_limits (lob : MatchingEngine ε τ μ) (config : ExchangeConfig)
    (strategy : TradingStrategy (riskInterface ε τ μ) σ) (s : σ) (risk : RiskEngine)
    (sim : ExchangeSimulator ε) (hpos : 1 ≤ risk.limits.maxPositionPerSymbol)
    (hmax : risk.limits.maxPositionPerSymbol ≤ 2 ^ 61) (hsize : 1 ≤ risk.limits.maxOrderSize)
    (horder : risk.limits.maxOrderSize ≤ 2 ^ 61) {reader : ρ} {es : List Event}
    (hes : Delivers reader es) {fuel : ℕ} (hfuel : es.length < fuel) :
    ∃ after, riskCheckedBacktest lob config strategy fuel reader s risk sim = some after ∧
      ∀ s' risk' sim' log, after.strategy = some (s', (risk', sim'), log) →
        Settled lob sim (riskCheckedCalls config sim log) sim' ∧
        ∀ front req reason rest, log = front ++ ⟨.sendOrder req, reason⟩ :: rest →
          (reason = RiskRejectReason.none → RiskEngine.WithinLimits risk.limits
            (settledPortfolio lob sim (riskCheckedCalls config sim front)) req.toOrderRequest) ∧
          (risk.killed = true ∨ (∃ x ∈ front, RiskRequest.Trips x) →
            reason = RiskRejectReason.killSwitch) := by
  obtain ⟨after, hrun, hlog⟩ := strategy.run_recorded_exchanges (RiskEngine.answer lob config)
    config.toBacktestConfig s ((sim.initializeEngine lob config).map (fun sim => (risk, sim)))
    hes hfuel
  rw [Option.map_map] at hrun
  refine ⟨after, hrun, ?_⟩
  intro s' risk' sim' log hafter
  obtain ⟨w, hw, hexchanges⟩ := hlog s' (risk', sim') log hafter
  obtain ⟨sim₁, hinit, rfl⟩ := Option.map_eq_some_iff.mp hw
  refine ⟨(checked_of_exchanges hinit hexchanges).settled, ?_⟩
  rintro front req reason rest rfl
  obtain ⟨⟨risk₁, sim₂⟩, hfront, hsend⟩ := Program.exchanges_append.mp hexchanges
  have hchecked := checked_of_exchanges hinit hfront
  cases hsend with
  | @cons _ w _ _ _ _ hcall _ =>
      obtain ⟨risk₂, sim₃⟩ := w
      obtain ⟨hcheck, -⟩ := RiskEngine.sendChecked_cases hcall
      constructor
      · rintro rfl
        rw [← hchecked.limits_eq] at hpos hmax hsize horder ⊢
        rw [← hchecked.settled.portfolio_eq]
        exact RiskEngine.withinLimits_of_checkPreTrade hpos hmax hsize horder hcheck
      · intro htripped
        exact ((RiskEngine.checkPreTrade_keeps hcheck).2.1 (hchecked.killed htripped)).1

/-- A strategy that buys what it sees traded, trips the kill switch and tries to sell. -/
def trippingTrader : TradingStrategy (riskInterface CrossingBook (ℕ × ℤ) Unit) Unit where
  onTrade ts sym trade _ :=
    .call (.sendOrder ⟨⟨sym, .buy, trade.qty⟩, ts, 1, trade.price⟩) (fun _ =>
      .call .triggerKillSwitch (fun _ =>
        .call (.sendOrder ⟨⟨sym, .sell, trade.qty⟩, ts, 2, trade.price⟩) (fun _ => .done ())))

/-- One trade seen: the purchase reaches the engine, and the sale is answered by the switch. -/
theorem orders_reach_engine_until_tripped :
    ∃ after s' risk' sim' reason, riskCheckedBacktest crossingBook selfTradeConfig
        trippingTrader 2 (⟨[Event.makeTrade 5 1 100 2 .buy], 0⟩ : MemoryReader) () ⟨{}, false⟩
        selfTradeStart = some after ∧
      after.strategy = some (s', (risk', sim'),
        [⟨.sendOrder ⟨⟨1, .buy, 2⟩, 5, 1, 100⟩, RiskRejectReason.none⟩] ++
          [⟨.triggerKillSwitch, ()⟩] ++ [⟨.sendOrder ⟨⟨1, .sell, 2⟩, 5, 2, 100⟩, reason⟩]) ∧
      reason = RiskRejectReason.killSwitch ∧
      Settled crossingBook selfTradeStart
        [.addSymbol 1, .submit ⟨⟨1, .buy, 2⟩, 12, 1, 100⟩] sim' := by
  obtain ⟨after, hrun, hlimits⟩ := orders_reach_engine_within_limits crossingBook
    selfTradeConfig trippingTrader () ⟨{}, false⟩ selfTradeStart (by decide) (by decide)
    (by decide) (by decide) (MemoryReader.delivers [Event.makeTrade 5 1 100 2 .buy] 0)
    (by decide : _ < 2)
  have hdefined : ∃ s' risk' sim' reason, after.strategy = some (s', (risk', sim'),
      [⟨.sendOrder ⟨⟨1, .buy, 2⟩, 5, 1, 100⟩, RiskRejectReason.none⟩] ++
        [⟨.triggerKillSwitch, ()⟩] ++ [⟨.sendOrder ⟨⟨1, .sell, 2⟩, 5, 2, 100⟩, reason⟩]) := by
    obtain rfl := Option.some.inj hrun
    exact ⟨_, _, _, _, rfl⟩
  obtain ⟨s', risk', sim', reason, hafter⟩ := hdefined
  obtain ⟨hsettled, hanswers⟩ := hlimits s' risk' sim' _ hafter
  have hkilled : reason = RiskRejectReason.killSwitch :=
    (hanswers _ _ reason [] rfl).2 (Or.inr ⟨⟨.triggerKillSwitch, ()⟩, by simp, trivial⟩)
  subst hkilled
  exact ⟨after, s', risk', sim', _, hrun, hafter, rfl, hsettled⟩

end UltraBacktest
