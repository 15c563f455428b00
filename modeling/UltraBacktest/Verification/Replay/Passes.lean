import UltraBacktest.Library.Run
import UltraBacktest.Verification.Binary.Layout
import UltraBacktest.Verification.Readers.Reset
import UltraBacktest.Verification.Replay.Window

/-! Several passes of one engine. A run leaves its reader two events behind the stop and
nothing rewinds it but a reset, so that calls of `run` and `reset` in any order amount to a
cursor that moves over the stream. -/

namespace UltraBacktest

open Stream Relation

/-! ## Readers -/

section Readers

variable {ρ ε : Type*} [DataReader ρ ε]

theorem uses_of_reads {r r' : ρ} {es : List ε} (h : Reads r es r') : ReflTransGen Uses r r' := by
  induction h with
  | nil => exact .refl
  | cons hread _ ih => exact .head (.read hread) ih

/-- Converting the items does not keep a reader from replaying them. -/
theorem ReplaysFile.mapped {ε' : Type*} {items : ρ → List UInt8 → List ε}
    (h : ReplaysFile items) (f : ε → ε') :
    ReplaysFile (fun (r : Mapped ρ f) content => (items r.source content).map f) := by
  intro r content
  obtain ⟨r', hopen, hes, hagain⟩ := h r.source content
  refine ⟨⟨r'⟩, ?_, hes.mapped f, ?_⟩
  · dsimp only
    rw [List.isEmpty_map]
    exact congrArg (Option.map _) hopen
  intro r'' hcalls
  have hsource : ReflTransGen Uses r' r''.source := by
    refine hcalls.lift Mapped.source ?_
    intro a b hcall
    cases hcall with
    | read hnext =>
        obtain ⟨q, hq, heq⟩ := Option.map_eq_some_iff.mp hnext
        obtain ⟨-, rfl⟩ := Prod.mk.inj heq
        exact .read hq
    | reset hback =>
        obtain ⟨q, hq, rfl⟩ := Option.map_eq_some_iff.mp hback
        exact .reset hq
  obtain ⟨again, hreset, hdelivers⟩ := hagain r''.source hsource
  exact ⟨⟨again⟩, congrArg (Option.map _) hreset, hdelivers.mapped f⟩

end Readers

/-! ## The cursor -/

/-- A call on the engine or on its reader. -/
inductive Pass where
  | run
  | reset
  deriving DecidableEq, Repr

namespace Pass

open ReplayEngine

/-- What is left of the stream after a call. -/
def rest (config : BacktestConfig) (es ahead : List Event) : Pass → List Event
  | .run => ahead.drop (stopIndex config ahead + 2)
  | .reset => es

/-- What a call dispatches. -/
def window (config : BacktestConfig) (ahead : List Event) : Pass → List Event
  | .run => dispatched config ahead
  | .reset => []

/-- What a sequence of calls dispatches. -/
def windows (config : BacktestConfig) (es ahead : List Event) (calls : List Pass) :
    List Event :=
  (Run.trail (rest config es) ahead calls).flatMap (fun q => q.2.window config q.1)

theorem windows_cons (config : BacktestConfig) (es ahead : List Event) (c : Pass)
    (calls : List Pass) : windows config es ahead (c :: calls) =
      c.window config ahead ++ windows config es (c.rest config es ahead) calls := by
  rw [windows, Run.trail_cons, List.flatMap_cons]
  rfl

/-- What a run dispatches and what it leaves come one after the other in the stream. -/
theorem dispatched_append_rest_sublist (config : BacktestConfig) (es ahead : List Event) :
    (dispatched config ahead ++ rest config es ahead .run).Sublist ahead := by
  have hbefore : (dispatched config ahead).Sublist (ahead.take (stopIndex config ahead)) :=
    List.filter_sublist
  have hafter : (rest config es ahead .run).Sublist (ahead.drop (stopIndex config ahead)) :=
    List.drop_sublist_drop_left ahead (Nat.le_add_right ..)
  have hboth := hbefore.append hafter
  rwa [List.take_append_drop] at hboth

/-- Without a reset no event is dispatched twice or out of order. -/
theorem windows_sublist (config : BacktestConfig) (es ahead : List Event) {calls : List Pass}
    (h : Pass.reset ∉ calls) : (windows config es ahead calls).Sublist ahead := by
  induction calls generalizing ahead with
  | nil => exact List.nil_sublist ahead
  | cons c calls ih =>
      have hcalls : Pass.reset ∉ calls := fun hmem => h (List.mem_cons_of_mem _ hmem)
      rw [windows_cons]
      cases c with
      | reset => exact absurd (List.mem_cons_self ..) h
      | run =>
          have hrest := ih (rest config es ahead .run) hcalls
          exact ((List.Sublist.refl _).append hrest).trans
            (dispatched_append_rest_sublist config es ahead)

/-- Only a reset lets an event be dispatched once more. -/
theorem count_windows_le (config : BacktestConfig) (es ahead : List Event) (calls : List Pass)
    (e : Event) : (windows config es ahead calls).count e ≤
      ahead.count e + calls.count .reset * es.count e := by
  induction calls generalizing ahead with
  | nil => simp [windows]
  | cons c calls ih =>
      rw [windows_cons, List.count_append]
      have hrest := ih (c.rest config es ahead)
      cases c with
      | run =>
          have hsub := (dispatched_append_rest_sublist config es ahead).count_le e
          rw [List.count_append] at hsub
          rw [List.count_cons_of_ne (by decide)]
          exact (Nat.add_le_add_left hrest _).trans (by
            rw [← Nat.add_assoc]
            exact Nat.add_le_add_right hsub _)
      | reset =>
          rw [List.count_cons_self, Nat.add_mul, Nat.one_mul]
          have hnone : List.count e (window config ahead .reset) = 0 := rfl
          have hback : rest config es ahead .reset = es := rfl
          rw [hback] at hrest ⊢
          omega

/-- A reset before every run shows the window again each time. -/
theorem windows_reset_run (config : BacktestConfig) (es ahead : List Event) (k : ℕ) :
    windows config es ahead (List.replicate k [Pass.reset, .run]).flatten =
      (List.replicate k (dispatched config es)).flatten := by
  induction k generalizing ahead with
  | zero => rfl
  | succ k ih =>
      rw [List.replicate_succ, List.flatten_cons, List.replicate_succ, List.flatten_cons,
        List.cons_append, windows_cons, List.singleton_append, windows_cons, ih]
      rfl

/-- On an ordered stream the events behind a stop are all past the end. -/
theorem dispatched_rest_of_sorted (config : BacktestConfig) {es ahead : List Event}
    (hsorted : ahead.Pairwise (fun a b => a.timestamp ≤ b.timestamp)) :
    dispatched config (rest config es ahead .run) = [] := by
  induction ahead with
  | nil => rfl
  | cons e ahead ih =>
      obtain ⟨hhead, htail⟩ := List.pairwise_cons.mp hsorted
      cases hstops : stops config e with
      | false =>
          rw [rest, stopIndex_cons_of_not_stops hstops]
          exact ih htail
      | true =>
          have hlate : config.endTime ≠ 0 ∧ e.timestamp > config.endTime := by
            simpa [afterEnd] using (Bool.and_eq_true_iff.mp hstops).2
          rw [rest, stopIndex_cons_of_stops hstops,
            dispatched_of_sorted (hsorted.sublist (List.drop_sublist ..)),
            List.filter_eq_nil_iff]
          intro a ha
          have hle := hhead a (List.mem_of_mem_drop (i := 1) ha)
          rw [inWindow, decide_eq_true_iff]
          omega

/-- On an ordered stream the first run has dispatched all there is. -/
theorem windows_run_of_sorted (config : BacktestConfig) {es ahead : List Event}
    (hsorted : ahead.Pairwise (fun a b => a.timestamp ≤ b.timestamp)) {calls : List Pass}
    (h : Pass.reset ∉ calls) :
    windows config es ahead (.run :: calls) = ahead.filter (inWindow config) := by
  induction calls generalizing ahead with
  | nil =>
      rw [windows_cons, ← dispatched_of_sorted hsorted]
      exact List.append_nil _
  | cons c calls ih =>
      have hcalls : Pass.reset ∉ calls := fun hmem => h (List.mem_cons_of_mem _ hmem)
      cases c with
      | reset => exact absurd (List.mem_cons_self ..) h
      | run =>
          have hrest : (rest config es ahead .run).Pairwise
              (fun a b => a.timestamp ≤ b.timestamp) :=
            hsorted.sublist (List.drop_sublist ..)
          rw [windows_cons, ih hrest hcalls, ← dispatched_of_sorted hrest,
            dispatched_rest_of_sorted config hsorted, List.append_nil,
            ← dispatched_of_sorted hsorted]
          rfl

end Pass

/-! ## The engine follows the cursor -/

namespace ReplayEngine

variable {ρ σ : Type*} [DataReader ρ Event]

def pass (config : BacktestConfig) (dispatch : Event → σ → σ) (fuel : ℕ)
    (engine : ReplayEngine ρ σ) : Pass → Option (ReplayEngine ρ σ)
  | .run => run config dispatch fuel engine
  | .reset => (reset engine.reader).map (fun reader => { engine with reader })

def passes (config : BacktestConfig) (dispatch : Event → σ → σ) (fuel : ℕ)
    (engine : ReplayEngine ρ σ) (calls : List Pass) : Option (ReplayEngine ρ σ) :=
  calls.foldlM (pass config dispatch fuel) engine

end ReplayEngine

/-- The reader delivers the rest of the stream, and the whole of it after a reset. -/
structure Rewindable {ρ : Type*} [DataReader ρ Event] (es ahead : List Event) (r : ρ) :
    Prop where
  delivers : Delivers r ahead
  rewinds : ∀ r', ReflTransGen Uses r r' → ∃ again, reset r' = some again ∧ Delivers again es

namespace ReplayEngine

variable {ρ σ : Type*} [DataReader ρ Event] (config : BacktestConfig)
  (dispatch : Event → σ → σ)

theorem pass_follows {es ahead : List Event} {engine : ReplayEngine ρ σ}
    (h : Rewindable es ahead engine.reader) {fuel : ℕ} (hfuel : ahead.length < fuel)
    (c : Pass) :
    ∃ after, pass config dispatch fuel engine c = some after ∧
      after.strategy =
        (c.window config ahead).foldl (fun s e => dispatch e s) engine.strategy ∧
      after.eventsProcessed = engine.eventsProcessed + (c.window config ahead).length ∧
      Rewindable es (c.rest config es ahead) after.reader := by
  cases c with
  | run =>
      obtain ⟨after, hrun, hafter⟩ := run_replayed config dispatch engine h.delivers hfuel
      refine ⟨after, hrun, hafter.strategy_eq, hafter.eventsProcessed_eq, ?_, ?_⟩
      · obtain ⟨ys, hsplit, hys⟩ := hafter.reader_reads.delivers h.delivers
        have hdrop : ys = Pass.rest config es ahead .run :=
          List.append_cancel_left (hsplit.symm.trans (List.take_append_drop ..).symm)
        rwa [← hdrop]
      · intro r' hcalls
        exact h.rewinds r' ((uses_of_reads hafter.reader_reads).trans hcalls)
  | reset =>
      obtain ⟨again, hreset, hagain⟩ := h.rewinds engine.reader .refl
      refine ⟨{ engine with reader := again }, congrArg (Option.map _) hreset, rfl, rfl,
        hagain, ?_⟩
      intro r' hcalls
      exact h.rewinds r' (.head (.reset hreset) hcalls)

theorem passes_follow {es ahead : List Event} {engine : ReplayEngine ρ σ}
    (h : Rewindable es ahead engine.reader) {fuel : ℕ} (hahead : ahead.length < fuel)
    (hes : es.length < fuel) (calls : List Pass) :
    ∃ after, passes config dispatch fuel engine calls = some after ∧
      after.strategy =
        (Pass.windows config es ahead calls).foldl (fun s e => dispatch e s) engine.strategy ∧
      after.eventsProcessed =
        engine.eventsProcessed + (Pass.windows config es ahead calls).length ∧
      Delivers after.reader (calls.foldl (Pass.rest config es) ahead) := by
  induction calls generalizing engine ahead with
  | nil => exact ⟨engine, rfl, rfl, (Nat.add_zero _).symm, h.delivers⟩
  | cons c calls ih =>
      obtain ⟨engine₁, hpass, hstrategy, hcount, h₁⟩ :=
        pass_follows config dispatch h hahead c
      have hrest : (c.rest config es ahead).length < fuel := by
        cases c with
        | run => exact lt_of_le_of_lt (by simp [Pass.rest]) hahead
        | reset => exact hes
      obtain ⟨after, hpasses, hlast, hlastcount, hdelivers⟩ := ih h₁ hrest
      refine ⟨after, ?_, ?_, ?_, hdelivers⟩
      · rw [passes, List.foldlM_cons, hpass]
        exact hpasses
      · rw [hlast, hstrategy, Pass.windows_cons, List.foldl_append]
      · rw [hlastcount, hcount, Pass.windows_cons, List.length_append, Nat.add_assoc]

end ReplayEngine

/-! ## Both readers -/

/-- The events of a binary file: those of its complete records. -/
def recordEvents (sides : SideCode) (content : List UInt8) : List Event :=
  (Blocks.blocks recordSize content).map (EventLayout.eventOf sides)

/-- Once the reader has found a file, calls of `run` and `reset` in any order do what the
cursor over these events of the file says. -/
def FollowsCursor {ρ : Type*} [DataReader ρ Event] (events : ρ → List UInt8 → List Event)
    (σ : Type*) : Prop :=
  ∀ (r : ρ) (content : List UInt8),
    let es := events r content
    ∃ r', openPath r (some content) = some (!es.isEmpty, r') ∧
      ∀ (config : BacktestConfig) (dispatch : Event → σ → σ) (s : σ) (n fuel : ℕ)
        (calls : List Pass), es.length < fuel →
          ∃ after, ReplayEngine.passes config dispatch fuel ⟨r', s, n⟩ calls = some after ∧
            after.strategy =
              (Pass.windows config es es calls).foldl (fun s e => dispatch e s) s ∧
            after.eventsProcessed = n + (Pass.windows config es es calls).length ∧
            Delivers after.reader (calls.foldl (Pass.rest config es) es)

theorem ReplaysFile.followsCursor {ρ : Type*} [DataReader ρ Event]
    {events : ρ → List UInt8 → List Event} (h : ReplaysFile events) (σ : Type*) :
    FollowsCursor events σ := by
  intro r content es
  obtain ⟨r', hopen, hes, hagain⟩ := h r content
  refine ⟨r', hopen, ?_⟩
  intro config dispatch s n fuel calls hfuel
  have hstart : Rewindable es es (⟨r', s, n⟩ : ReplayEngine ρ σ).reader := ⟨hes, hagain⟩
  exact ReplayEngine.passes_follow config dispatch hstart hfuel hfuel calls

theorem EventReader.replaysFile (sides : SideCode) {eventsPerRead : ℕ}
    (hcap : 1 ≤ eventsPerRead) :
    ReplaysFile (fun (_ : EventReader sides eventsPerRead) content =>
      recordEvents sides content) :=
  (BinaryReader.replaysFile hcap).mapped (EventLayout.eventOf sides)

/-- The engine over either reader follows the cursor over the records or rows of the file. -/
theorem passes_follow_cursor (σ : Type*) :
    (∀ sides eventsPerRead, 1 ≤ eventsPerRead →
        FollowsCursor (fun (_ : EventReader sides eventsPerRead) content =>
          recordEvents sides content) σ) ∧
      ∀ num io bufferSize, 1 ≤ bufferSize →
        FollowsCursor (fun (r : CsvReader num io bufferSize) content =>
          decodeAll num r.decoder (dataRows content)) σ :=
  ⟨fun sides _ hcap => (EventReader.replaysFile sides hcap).followsCursor σ,
    fun _ _ _ hcap => (CsvReader.replaysFile hcap).followsCursor σ⟩

theorem passes_follow_cursor_compiled_capacities :
    FollowsCursor (fun (_ : EventReader EventLayout.twoSides 65536) content =>
        recordEvents EventLayout.twoSides content) (List Event) ∧
      FollowsCursor (fun (r : CsvReader .wholePrices .byteByByte (256 * 1024)) content =>
        decodeAll .wholePrices r.decoder (dataRows content)) (List Event) :=
  ⟨(passes_follow_cursor (List Event)).1 EventLayout.twoSides 65536 (by decide),
    (passes_follow_cursor (List Event)).2 .wholePrices .byteByByte (256 * 1024) (by decide)⟩

/-- The engine with a strategy that records the events it is given. -/
def recordedPasses {ρ : Type*} [DataReader ρ Event] (config : BacktestConfig) (fuel : ℕ)
    (reader : ρ) (calls : List Pass) : Option (ReplayEngine ρ (List Event)) :=
  ReplayEngine.passes config (fun e seen => seen ++ [e]) fuel ⟨reader, [], 0⟩ calls

/-- What is dispatched again, and when. -/
structure DispatchedByPasses (config : BacktestConfig) (es : List Event) (calls : List Pass)
    (seen : List Event) : Prop where
  count_le : ∀ e, seen.count e ≤ (calls.count .reset + 1) * es.count e
  sublist : Pass.reset ∉ calls → seen.Sublist es
  once : Pass.reset ∉ calls → Pass.run ∈ calls →
    es.Pairwise (fun a b => a.timestamp ≤ b.timestamp) →
      seen = es.filter (ReplayEngine.inWindow config)
  again : ∀ k, calls = .run :: (List.replicate k [Pass.reset, .run]).flatten →
    seen = (List.replicate (k + 1) (ReplayEngine.dispatched config es)).flatten

theorem dispatchedByPasses_windows (config : BacktestConfig) (es : List Event)
    (calls : List Pass) :
    DispatchedByPasses config es calls (Pass.windows config es es calls) := by
  constructor
  · intro e
    have hle := Pass.count_windows_le config es es calls e
    rwa [Nat.add_mul, Nat.one_mul, Nat.add_comm]
  · exact fun hreset => Pass.windows_sublist config es es hreset
  · intro hreset hrun hsorted
    cases calls with
    | nil => cases hrun
    | cons c calls =>
        cases c with
        | reset => exact absurd (List.mem_cons_self ..) hreset
        | run =>
            exact Pass.windows_run_of_sorted config hsorted
              (fun hmem => hreset (List.mem_cons_of_mem _ hmem))
  · rintro k rfl
    rw [Pass.windows_cons, Pass.windows_reset_run, List.replicate_succ, List.flatten_cons]
    rfl

/-- Once the reader has found a file, calls of `run` and `reset` dispatch these events of the
file so. -/
def ReplaysOncePerReset {ρ : Type*} [DataReader ρ Event]
    (events : ρ → List UInt8 → List Event) : Prop :=
  ∀ (r : ρ) (content : List UInt8),
    let es := events r content
    ∃ r', openPath r (some content) = some (!es.isEmpty, r') ∧
      ∀ (config : BacktestConfig) (fuel : ℕ) (calls : List Pass), es.length < fuel →
        ∃ after, recordedPasses config fuel r' calls = some after ∧
          DispatchedByPasses config es calls after.strategy

theorem FollowsCursor.replaysOncePerReset {ρ : Type*} [DataReader ρ Event]
    {events : ρ → List UInt8 → List Event} (h : FollowsCursor events (List Event)) :
    ReplaysOncePerReset events := by
  intro r content es
  obtain ⟨r', hopen, hfollows⟩ := h r content
  refine ⟨r', hopen, ?_⟩
  intro config fuel calls hfuel
  obtain ⟨after, hpasses, hstrategy, -⟩ :=
    hfollows config (fun e seen => seen ++ [e]) [] 0 fuel calls hfuel
  refine ⟨after, hpasses, ?_⟩
  have hseen : after.strategy = Pass.windows config es es calls := by
    rw [hstrategy, List.foldl_append_eq_append, ← List.flatMap_def, List.flatMap_singleton',
      List.nil_append]
  rw [hseen]
  exact dispatchedByPasses_windows config es calls

/-- Between two resets an event of the file is dispatched at most once, in the order of the
file; a reset before each further run shows the whole window again. -/
theorem only_resets_replay_events :
    (∀ sides eventsPerRead, 1 ≤ eventsPerRead →
        ReplaysOncePerReset (fun (_ : EventReader sides eventsPerRead) content =>
          recordEvents sides content)) ∧
      ∀ num io bufferSize, 1 ≤ bufferSize →
        ReplaysOncePerReset (fun (r : CsvReader num io bufferSize) content =>
          decodeAll num r.decoder (dataRows content)) := by
  constructor
  · intro sides eventsPerRead hcap
    exact ((EventReader.replaysFile sides hcap).followsCursor (List Event)).replaysOncePerReset
  · intro num io bufferSize hcap
    exact ((CsvReader.replaysFile hcap).followsCursor (List Event)).replaysOncePerReset

theorem only_resets_replay_events_compiled_capacities :
    ReplaysOncePerReset (fun (_ : EventReader EventLayout.twoSides 65536) content =>
        recordEvents EventLayout.twoSides content) ∧
      ReplaysOncePerReset (fun (r : CsvReader .wholePrices .byteByByte (256 * 1024)) content =>
        decodeAll .wholePrices r.decoder (dataRows content)) :=
  ⟨only_resets_replay_events.1 EventLayout.twoSides 65536 (by decide),
    only_resets_replay_events.2 .wholePrices .byteByByte (256 * 1024) (by decide)⟩

end UltraBacktest
