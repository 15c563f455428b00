import UltraBacktest.Model.MachineBacktest
import UltraBacktest.Verification.Exchange.Settlement

/-! The clock of the simulator, over arbitrary sequences of its calls. An order that is not
stamped takes the time that `advance_to` has set last, so a clock that only moves forward
lets the orders reach the engine in time order. The stamp is a sum of 64-bit values, so the
calls are those of the machine. -/

namespace UltraBacktest

open Word64

variable {ε τ μ : Type}

/-- A call on the simulator. -/
inductive SimulatorCall (τ μ : Type) where
  | advanceTo (timestamp : ℤ)
  | submitOrder (req : LobOrder τ)
  | cancelOrder (sym : Symbol) (id : ℕ)
  | modifyOrder (sym : Symbol) (req : μ)

namespace Machine

def perform (lob : MatchingEngine ε τ μ) (config : ExchangeConfig) (sim : ExchangeSimulator ε) :
    SimulatorCall τ μ → Option (ExchangeSimulator ε)
  | .advanceTo timestamp => some (sim.advanceTo timestamp)
  | .submitOrder req => submitOrder lob config sim req
  | .cancelOrder sym id => (callEngine lob sim (.cancel sym id)).map Prod.snd
  | .modifyOrder sym req => (callEngine lob sim (.modify sym req)).map Prod.snd

def performAll (lob : MatchingEngine ε τ μ) (config : ExchangeConfig)
    (sim : ExchangeSimulator ε) (calls : List (SimulatorCall τ μ)) :
    Option (ExchangeSimulator ε) :=
  calls.foldlM (perform lob config) sim

end Machine

namespace SimulatorCall

/-- The clock after a call. -/
def clock (currentTime : ℤ) : SimulatorCall τ μ → ℤ
  | .advanceTo timestamp => timestamp
  | _ => currentTime

/-- The call on the engine that a call on the simulator makes at a time. -/
def engineCall? (config : ExchangeConfig) (currentTime : ℤ) :
    SimulatorCall τ μ → Option (EngineCall τ μ)
  | .advanceTo _ => none
  | .submitOrder req => some (.submit (ExchangeSimulator.adjustedReq config currentTime req))
  | .cancelOrder sym id => some (.cancel sym id)
  | .modifyOrder sym req => some (.modify sym req)

/-- The calls on the engine that a sequence of calls on the simulator makes. -/
def engineCalls (config : ExchangeConfig) (currentTime : ℤ)
    (calls : List (SimulatorCall τ μ)) : List (EngineCall τ μ) :=
  (Run.trail clock currentTime calls).filterMap (fun q => q.2.engineCall? config q.1)

theorem engineCalls_cons (config : ExchangeConfig) (currentTime : ℤ) (c : SimulatorCall τ μ)
    (calls : List (SimulatorCall τ μ)) :
    engineCalls config currentTime (c :: calls) =
      (c.engineCall? config currentTime).toList ++
        engineCalls config (c.clock currentTime) calls := by
  rw [engineCalls, Run.trail_cons, List.filterMap_cons]
  cases c.engineCall? config currentTime <;> rfl

/-- The times that the clock is set to. -/
def advanceTimes (calls : List (SimulatorCall τ μ)) : List ℤ :=
  calls.filterMap (fun
    | .advanceTo timestamp => some timestamp
    | _ => none)

end SimulatorCall

/-- The times that the engine sees on the orders submitted to it. -/
def orderTimes (calls : List (EngineCall τ μ)) : List ℤ :=
  calls.filterMap (fun
    | .submit req => some req.timestamp
    | _ => none)

theorem orderTimes_append (xs ys : List (EngineCall τ μ)) :
    orderTimes (xs ++ ys) = orderTimes xs ++ orderTimes ys := List.filterMap_append

/-! ## Calls on the engine -/

namespace Machine

theorem run_append (p : Portfolio) (xs ys : List Step) :
    run p (xs ++ ys) = (run p xs).bind (fun q => run q ys) := List.foldlM_append

/-- What the machine makes of the portfolio behind the pointer when it books these reports. -/
def bookReports (rpts : List LobReport) : Option Portfolio → Option (Option Portfolio)
  | none => some none
  | some p => (run p ((booked rpts).map Step.report)).map some

theorem bookReports_nil (p : Option Portfolio) : bookReports [] p = some p := by
  cases p <;> rfl

theorem bookReports_append (xs ys : List LobReport) (p : Option Portfolio) :
    bookReports (xs ++ ys) p = (bookReports xs p).bind (bookReports ys) := by
  cases p with
  | none => rfl
  | some p =>
      rw [bookReports, bookReports, booked_append, List.map_append, run_append, Option.bind_map,
        Option.map_bind]
      rfl

/-- The inversion of a report that the machine has handled. -/
theorem handleExecution_cases {sim sim' : ExchangeSimulator ε} {rpt : LobReport}
    (h : handleExecution sim rpt = some sim') :
    sim'.engine = sim.engine ∧ bookReports [rpt] sim.portfolio = some sim'.portfolio ∧
      sim'.currentTime = sim.currentTime := by
  obtain ⟨engine, portfolio, currentTime⟩ := sim
  cases portfolio with
  | none =>
      cases h
      exact ⟨rfl, rfl, rfl⟩
  | some p =>
      obtain ⟨q, hq, rfl⟩ := Option.map_eq_some_iff.mp h
      refine ⟨rfl, ?_, rfl⟩
      rw [onReport] at hq
      cases hfill : rpt.isFill with
      | false =>
          rw [hfill] at hq
          cases hq
          simp [bookReports, booked, hfill, run]
      | true =>
          rw [hfill] at hq
          obtain ⟨s, hs, hbooks⟩ := Option.bind_eq_some_iff.mp hq
          simp [bookReports, booked, hfill, hs, run, step, hbooks]

theorem foldlM_handleExecution_cases {sim sim' : ExchangeSimulator ε} {rpts : List LobReport}
    (h : rpts.foldlM handleExecution sim = some sim') :
    sim'.engine = sim.engine ∧ bookReports rpts sim.portfolio = some sim'.portfolio ∧
      sim'.currentTime = sim.currentTime := by
  induction rpts generalizing sim with
  | nil =>
      cases h
      exact ⟨rfl, bookReports_nil _, rfl⟩
  | cons rpt rpts ih =>
      rw [List.foldlM_cons] at h
      obtain ⟨sim₁, hfirst, hrest⟩ := Option.bind_eq_some_iff.mp h
      obtain ⟨hengine, hbook, htime⟩ := handleExecution_cases hfirst
      obtain ⟨hengine', hbook', htime'⟩ := ih hrest
      refine ⟨hengine'.trans hengine, ?_, htime'.trans htime⟩
      rw [← List.singleton_append, bookReports_append, hbook]
      exact hbook'

/-- The inversion of a call on the engine that the machine has carried out. -/
theorem callEngine_cases {lob : MatchingEngine ε τ μ} {sim sim' : ExchangeSimulator ε}
    {c : EngineCall τ μ} {answer : Bool} (h : callEngine lob sim c = some (answer, sim')) :
    sim'.engine = (lob.call c sim.engine).engine ∧
      bookReports (lob.call c sim.engine).reports sim.portfolio = some sim'.portfolio ∧
      sim'.currentTime = sim.currentTime := by
  obtain ⟨sim₁, hhandled, heq⟩ := Option.map_eq_some_iff.mp h
  obtain ⟨-, rfl⟩ := Prod.mk.inj heq
  exact foldlM_handleExecution_cases hhandled

/-- The machine stamps an order as exact arithmetic does, or not at all. -/
theorem adjustedReq_cases {config : ExchangeConfig} {currentTime : ℤ} {req adjusted : LobOrder τ}
    (h : adjustedReq config currentTime req = some adjusted) :
    adjusted = ExchangeSimulator.adjustedReq config currentTime req ∧
      Fits adjusted.timestamp := by
  obtain ⟨timestamp, hadd, heq⟩ := Option.bind_eq_some_iff.mp h
  obtain ⟨hfits, rfl⟩ := add?_eq_some_iff.mp hadd
  cases heq
  exact ⟨rfl, hfits⟩

/-- The inversion of a call on the simulator. -/
theorem perform_cases {lob : MatchingEngine ε τ μ} {config : ExchangeConfig}
    {sim sim' : ExchangeSimulator ε} {c : SimulatorCall τ μ}
    (h : perform lob config sim c = some sim') :
    (c.engineCall? config sim.currentTime = none ∧
        sim' = { sim with currentTime := c.clock sim.currentTime }) ∨
      ∃ call b, c.engineCall? config sim.currentTime = some call ∧
        c.clock sim.currentTime = sim.currentTime ∧
        callEngine lob sim call = some (b, sim') ∧ ∀ t ∈ orderTimes [call], Fits t := by
  cases c with
  | advanceTo timestamp => exact Or.inl ⟨rfl, (Option.some.inj h).symm⟩
  | submitOrder req =>
      obtain ⟨adjusted, hstamp, hsubmit⟩ := Option.bind_eq_some_iff.mp h
      obtain ⟨r, hcall, heq⟩ := Option.bind_eq_some_iff.mp hsubmit
      obtain ⟨rfl, hfits⟩ := adjustedReq_cases hstamp
      cases heq
      exact Or.inr ⟨_, r.1, rfl, rfl, hcall, List.forall_mem_singleton.mpr hfits⟩
  | cancelOrder sym id =>
      obtain ⟨r, hcall, rfl⟩ := Option.map_eq_some_iff.mp h
      exact Or.inr ⟨_, r.1, rfl, rfl, hcall, List.forall_mem_nil _⟩
  | modifyOrder sym req =>
      obtain ⟨r, hcall, rfl⟩ := Option.map_eq_some_iff.mp h
      exact Or.inr ⟨_, r.1, rfl, rfl, hcall, List.forall_mem_nil _⟩

/-! ## Sequences of calls -/

/-- The engine has gone through the calls, the portfolio has their fills booked, and the
clock is where the calls have put it. -/
theorem performAll_cases {lob : MatchingEngine ε τ μ} {config : ExchangeConfig}
    {sim sim' : ExchangeSimulator ε} {calls : List (SimulatorCall τ μ)}
    (h : performAll lob config sim calls = some sim') :
    let passed := SimulatorCall.engineCalls config sim.currentTime calls
    sim'.engine = lob.after sim.engine passed ∧
      bookReports (lob.reports sim.engine passed) sim.portfolio = some sim'.portfolio ∧
      sim'.currentTime = calls.foldl SimulatorCall.clock sim.currentTime ∧
      ∀ t ∈ orderTimes passed, Fits t := by
  induction calls generalizing sim with
  | nil =>
      cases h
      exact ⟨rfl, bookReports_nil _, rfl, List.forall_mem_nil _⟩
  | cons c calls ih =>
      rw [performAll, List.foldlM_cons] at h
      obtain ⟨sim₁, hfirst, hrest⟩ := Option.bind_eq_some_iff.mp h
      rw [SimulatorCall.engineCalls_cons, List.foldl_cons]
      obtain ⟨hnone, rfl⟩ | ⟨call, b, hsome, hclock, hcall, hstamp⟩ := perform_cases hfirst
      · rw [hnone]
        exact ih hrest
      · obtain ⟨hengine, hbook, htime⟩ := callEngine_cases hcall
        obtain ⟨hafter, hbooks, hlast, htimes⟩ := ih hrest
        rw [hengine, htime] at hafter
        rw [hengine, htime] at hbooks
        rw [htime] at hlast htimes
        rw [hsome, hclock]
        refine ⟨hafter, ?_, hlast, ?_⟩
        · rw [lob.reports_append, bookReports_append]
          have hone : lob.reports sim.engine [call] = (lob.call call sim.engine).reports :=
            List.append_nil _
          rw [Option.toList_some, hone, hbook]
          exact hbooks
        · rw [Option.toList_some, orderTimes_append]
          exact List.forall_mem_append.mpr ⟨hstamp, htimes⟩

end Machine

/-! ## Time order -/

/-- Every order reaches the engine no earlier than the clock and the orders before it. -/
theorem orderTimes_sorted (config : ExchangeConfig) {calls : List (SimulatorCall τ μ)}
    {currentTime : ℤ}
    (hclock : (currentTime :: SimulatorCall.advanceTimes calls).Pairwise (· ≤ ·))
    (hunstamped : ∀ req, SimulatorCall.submitOrder req ∈ calls → req.timestamp = 0) :
    (orderTimes (SimulatorCall.engineCalls config currentTime calls)).Pairwise (· ≤ ·) ∧
      ∀ t ∈ orderTimes (SimulatorCall.engineCalls config currentTime calls),
        currentTime + config.simulatedLatency ≤ t := by
  induction calls generalizing currentTime with
  | nil => simp [SimulatorCall.engineCalls, orderTimes]
  | cons c calls ih =>
      have hrest : ∀ req, SimulatorCall.submitOrder req ∈ calls → req.timestamp = 0 :=
        fun req hreq => hunstamped req (List.mem_cons_of_mem c hreq)
      rw [SimulatorCall.engineCalls_cons]
      cases c with
      | advanceTo timestamp =>
          obtain ⟨hlater, hclock⟩ := List.pairwise_cons.mp hclock
          obtain ⟨hsorted, hbound⟩ := ih hclock hrest
          refine ⟨hsorted, fun t ht => le_trans ?_ (hbound t ht)⟩
          have hforward := hlater timestamp (List.mem_cons_self ..)
          exact Int.add_le_add_right hforward _
      | submitOrder req =>
          obtain ⟨hsorted, hbound⟩ := ih hclock hrest
          have hstamp : (ExchangeSimulator.adjustedReq config currentTime req).timestamp =
              currentTime + config.simulatedLatency := by
            rw [ExchangeSimulator.adjustedReq, if_pos (hunstamped req (List.mem_cons_self ..))]
          have htimes : orderTimes (τ := τ) (μ := μ)
              ((SimulatorCall.engineCall? config currentTime (.submitOrder req)).toList ++
                SimulatorCall.engineCalls config currentTime calls) =
              (currentTime + config.simulatedLatency) ::
                orderTimes (SimulatorCall.engineCalls config currentTime calls) := by
            rw [← hstamp]
            rfl
          have hkept : SimulatorCall.clock (μ := μ) currentTime (.submitOrder req) =
              currentTime := rfl
          rw [hkept, htimes]
          refine ⟨List.pairwise_cons.mpr ⟨hbound, hsorted⟩, ?_⟩
          intro t ht
          rcases List.mem_cons.mp ht with rfl | ht
          · exact le_rfl
          · exact hbound t ht
      | cancelOrder sym id => exact ih hclock hrest
      | modifyOrder sym req => exact ih hclock hrest

/-- With a clock that does not go back and orders that are not stamped, the simulator leads
the engine through its calls with the orders in time order, and books the fills of these
calls; the stamps, the clock and the latency added, have not overflowed. -/
theorem orders_reach_engine_in_time_order {lob : MatchingEngine ε τ μ}
    {config : ExchangeConfig} {sim sim' : ExchangeSimulator ε} {calls : List (SimulatorCall τ μ)}
    (hclock : (sim.currentTime :: SimulatorCall.advanceTimes calls).Pairwise (· ≤ ·))
    (hunstamped : ∀ req, SimulatorCall.submitOrder req ∈ calls → req.timestamp = 0)
    (h : Machine.performAll lob config sim calls = some sim') :
    let passed := SimulatorCall.engineCalls config sim.currentTime calls
    sim'.engine = lob.after sim.engine passed ∧
      Machine.bookReports (lob.reports sim.engine passed) sim.portfolio = some sim'.portfolio ∧
      sim'.currentTime = calls.foldl SimulatorCall.clock sim.currentTime ∧
      (∀ t ∈ orderTimes passed, Fits t) ∧ (orderTimes passed).Pairwise (· ≤ ·) := by
  obtain ⟨hengine, hbooks, htime, htimes⟩ := Machine.performAll_cases h
  exact ⟨hengine, hbooks, htime, htimes, (orderTimes_sorted config hclock hunstamped).1⟩

/-- Two orders around an advance of the clock. -/
theorem orders_in_time_order_around_advance :
    ∃ sim', Machine.performAll crossingBook selfTradeConfig selfTradeStart
        [.submitOrder ⟨⟨1, .buy, 2⟩, 0, 1, 100⟩, .advanceTo 50,
          .submitOrder ⟨⟨1, .sell, 2⟩, 0, 2, 100⟩] = some sim' ∧
      sim'.engine = crossingBook.after {} [.submit ⟨⟨1, .buy, 2⟩, 7, 1, 100⟩,
        .submit ⟨⟨1, .sell, 2⟩, 57, 2, 100⟩] := by
  have hdefined : ∃ sim', Machine.performAll crossingBook selfTradeConfig selfTradeStart
      [.submitOrder ⟨⟨1, .buy, 2⟩, 0, 1, 100⟩, .advanceTo 50,
        .submitOrder ⟨⟨1, .sell, 2⟩, 0, 2, 100⟩] = some sim' := ⟨_, rfl⟩
  obtain ⟨sim', hrun⟩ := hdefined
  refine ⟨sim', hrun, ?_⟩
  obtain ⟨hengine, -⟩ := orders_reach_engine_in_time_order (by decide) (by simp) hrun
  exact hengine

end UltraBacktest
