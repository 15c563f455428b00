import Mathlib.Data.List.Basic

/-! Programs that send requests to a world and continue with its answers. A program fixes
what it does for every answer, so a statement about all programs is one about all clients of
an interface. A request may be undefined, which is `none`. -/

namespace Interaction

universe u

/-- The requests of an interface and the answer that each of them expects. -/
structure Interface where
  Request : Type u
  Answer : Request → Type u

inductive Program (F : Interface.{u}) (α : Type*)
  | done (a : α)
  | call (c : F.Request) (next : F.Answer c → Program F α)

/-- How a world answers a request. -/
abbrev Handler (F : Interface.{u}) (ω : Type*) :=
  (c : F.Request) → ω → Option (F.Answer c × ω)

/-- A request with its answer. -/
abbrev Interface.Event (F : Interface.{u}) := Sigma F.Answer

namespace Program

variable {F : Interface.{u}} {α β ε ω ω' : Type*}

def bind : Program F α → (α → Program F β) → Program F β
  | done a, f => f a
  | call c next, f => call c (fun answer => (next answer).bind f)

def run (handle : Handler F ω) : Program F α → ω → Option (α × ω)
  | done a, w => some (a, w)
  | call c next, w => (handle c w).bind (fun r => (next r.1).run handle r.2)

/-- The requests of a run with their answers, as far as the run is defined. -/
def trace (handle : Handler F ω) : Program F α → ω → List F.Event
  | done _, _ => []
  | call c next, w =>
      (handle c w).elim [] (fun r => ⟨c, r.1⟩ :: (next r.1).trace handle r.2)

/-- The world together with what has been asked of it. -/
def recorded (handle : Handler F ω) : Handler F (ω × List F.Event) :=
  fun c w => (handle c w.1).map (fun r => (r.1, r.2, w.2 ++ [⟨c, r.1⟩]))

/-- One program for each item, in order, with the result handed on. -/
def each (step : ε → α → Program F α) : List ε → α → Program F α
  | [], a => done a
  | e :: es, a => (step e a).bind (each step es)

/-- Every request that the program can make satisfies `P`, whatever the answers. -/
def Makes (P : F.Request → Prop) : Program F α → Prop
  | done _ => True
  | call c next => P c ∧ ∀ answer, (next answer).Makes P

/-! ## Sequences -/

theorem bind_assoc {γ : Type*} (p : Program F α) (f : α → Program F β) (g : β → Program F γ) :
    (p.bind f).bind g = p.bind (fun a => (f a).bind g) := by
  induction p with
  | done a => rfl
  | call c next ih => exact congrArg (call c) (funext ih)

theorem run_bind (handle : Handler F ω) (p : Program F α) (f : α → Program F β) (w : ω) :
    (p.bind f).run handle w = (p.run handle w).bind (fun r => (f r.1).run handle r.2) := by
  induction p generalizing w with
  | done a => rfl
  | call c next ih =>
      rw [bind, run, run]
      cases handle c w with
      | none => rfl
      | some r => exact ih r.1 r.2

theorem trace_bind (handle : Handler F ω) (p : Program F α) (f : α → Program F β) (w : ω) :
    (p.bind f).trace handle w =
      p.trace handle w ++ (p.run handle w).elim [] (fun r => (f r.1).trace handle r.2) := by
  induction p generalizing w with
  | done a => rfl
  | call c next ih =>
      rw [bind, trace, trace, run]
      cases handle c w with
      | none => rfl
      | some r => exact congrArg (List.cons _) (ih r.1 r.2)

theorem Makes.bind {P : F.Request → Prop} {p : Program F α} {f : α → Program F β}
    (hp : p.Makes P) (hf : ∀ a, (f a).Makes P) : (p.bind f).Makes P := by
  induction p with
  | done a => exact hf a
  | call c next ih => exact ⟨hp.1, fun answer => ih answer (hp.2 answer)⟩

theorem makes_of_forall {P : F.Request → Prop} (h : ∀ c, P c) (p : Program F α) :
    p.Makes P := by
  induction p with
  | done a => trivial
  | call c next ih => exact ⟨h c, ih⟩

theorem each_append (step : ε → α → Program F α) (xs ys : List ε) (a : α) :
    each step (xs ++ ys) a = (each step xs a).bind (each step ys) := by
  induction xs generalizing a with
  | nil => rfl
  | cons e xs ih =>
      rw [List.cons_append, each, each, bind_assoc]
      exact congrArg _ (funext ih)

theorem makes_each {P : F.Request → Prop} {step : ε → α → Program F α}
    (h : ∀ e a, (step e a).Makes P) (es : List ε) (a : α) : (each step es a).Makes P := by
  induction es generalizing a with
  | nil => trivial
  | cons e es ih => exact (h e a).bind ih

/-- Running item by item on a result that may be undefined is running the sequence. -/
theorem foldl_run (handle : Handler F ω) (step : ε → α → Program F α) (es : List ε)
    (r : Option (α × ω)) :
    es.foldl (fun r e => r.bind (fun q => (step e q.1).run handle q.2)) r =
      r.bind (fun q => (each step es q.1).run handle q.2) := by
  induction es generalizing r with
  | nil => exact (Option.bind_fun_some r).symm
  | cons e es ih =>
      rw [List.foldl_cons, ih, Option.bind_assoc]
      simp only [each, run_bind]

/-- Recording adds the trace to the record and changes nothing else. -/
theorem run_recorded (handle : Handler F ω) (p : Program F α) (w : ω) (log : List F.Event) :
    p.run (recorded handle) (w, log) =
      (p.run handle w).map (fun r => (r.1, r.2, log ++ p.trace handle w)) := by
  induction p generalizing w log with
  | done a => exact congrArg (fun l => some (a, w, l)) (List.append_nil log).symm
  | call c next ih =>
      rw [run, run, trace, recorded]
      cases handle c w with
      | none => rfl
      | some r =>
          have hrest := ih r.1 r.2 (log ++ [⟨c, r.1⟩])
          rw [← List.append_cons] at hrest
          exact hrest

/-! ## Histories -/

/-- The world `w` answers these requests so and ends as the second world. -/
inductive Exchanges (handle : Handler F ω) : ω → List F.Event → ω → Prop
  | nil {w : ω} : Exchanges handle w [] w
  | cons {w w' w'' : ω} {c : F.Request} {answer : F.Answer c} {t : List F.Event}
      (hcall : handle c w = some (answer, w')) (hrest : Exchanges handle w' t w'') :
      Exchanges handle w (⟨c, answer⟩ :: t) w''

/-- A trace is a history of the world, and a defined run leaves the world it leads to. -/
theorem exchanges_trace (handle : Handler F ω) (p : Program F α) (w : ω) :
    ∃ w', Exchanges handle w (p.trace handle w) w' ∧
      ∀ r, p.run handle w = some r → r.2 = w' := by
  induction p generalizing w with
  | done a =>
      refine ⟨w, Exchanges.nil, ?_⟩
      intro r hr
      exact congrArg Prod.snd (Option.some.inj hr).symm
  | call c next ih =>
      rw [trace, run]
      cases hcall : handle c w with
      | none =>
          refine ⟨w, Exchanges.nil, ?_⟩
          intro r hr
          cases hr
      | some r =>
          obtain ⟨w', hrest, hend⟩ := ih r.1 r.2
          exact ⟨w', Exchanges.cons hcall hrest, hend⟩

theorem exchanges_append {handle : Handler F ω} {w w'' : ω} {s t : List F.Event} :
    Exchanges handle w (s ++ t) w'' ↔
      ∃ w', Exchanges handle w s w' ∧ Exchanges handle w' t w'' := by
  induction s generalizing w with
  | nil =>
      constructor
      · intro h
        exact ⟨w, Exchanges.nil, h⟩
      · rintro ⟨w', hs, ht⟩
        cases hs
        exact ht
  | cons x s ih =>
      constructor
      · intro h
        cases h with
        | cons hcall hrest =>
            obtain ⟨w', hs, ht⟩ := ih.mp hrest
            exact ⟨w', Exchanges.cons hcall hs, ht⟩
      · rintro ⟨w', hs, ht⟩
        cases hs with
        | cons hcall hrest => exact Exchanges.cons hcall (ih.mpr ⟨w', hrest, ht⟩)

/-- A second world that gives the answers of the first takes the program the same way. -/
theorem run_of_exchanges {handle : Handler F ω} {handle' : Handler F ω'} {p : Program F α}
    {w w₁ : ω} {w' w₁' : ω'} {a : α} (hrun : p.run handle w = some (a, w₁))
    (h : Exchanges handle' w' (p.trace handle w) w₁') :
    p.run handle' w' = some (a, w₁') ∧ p.trace handle' w' = p.trace handle w := by
  induction p generalizing w w' with
  | done b =>
      cases hrun
      cases h
      exact ⟨rfl, rfl⟩
  | call c next ih =>
      obtain ⟨r, hcall, hrest⟩ := Option.bind_eq_some_iff.mp hrun
      have htrace : (call c next).trace handle w = ⟨c, r.1⟩ :: (next r.1).trace handle r.2 := by
        rw [trace, hcall, Option.elim_some]
      rw [htrace] at h ⊢
      cases h with
      | cons hcall' hrest' =>
          obtain ⟨hnext, hsame⟩ := ih r.1 hrest hrest'
          rw [run, trace, hcall', Option.elim_some, hsame]
          exact ⟨hnext, rfl⟩

/-- A relation between a history and the world it has led to, kept by every request. -/
theorem Exchanges.history {handle : Handler F ω} {R : List F.Event → ω → Prop}
    (hstep : ∀ s w c answer w', R s w → handle c w = some (answer, w') →
      R (s ++ [⟨c, answer⟩]) w')
    {w w' : ω} {t : List F.Event} (h : Exchanges handle w t w') {s : List F.Event} (hs : R s w) :
    R (s ++ t) w' := by
  induction h generalizing s with
  | nil => rwa [List.append_nil]
  | cons hcall _ ih =>
      rw [List.append_cons]
      exact ih (hstep _ _ _ _ _ hs hcall)

/-! ## Definedness and simulation -/

/-- An invariant under which the requests of a program are defined. -/
theorem Makes.run_defined {P : F.Request → Prop} {I : ω → Prop} {handle : Handler F ω}
    (hstep : ∀ c w, P c → I w → ∃ answer w', handle c w = some (answer, w') ∧ I w')
    {p : Program F α} (h : p.Makes P) {w : ω} (hw : I w) :
    ∃ a w', p.run handle w = some (a, w') ∧ I w' := by
  induction p generalizing w with
  | done a => exact ⟨a, w, rfl, hw⟩
  | call c next ih =>
      obtain ⟨answer, w₁, hcall, hw₁⟩ := hstep c w h.1 hw
      obtain ⟨a, w', hrun, hw'⟩ := ih answer (h.2 answer) hw₁
      refine ⟨a, w', ?_, hw'⟩
      rw [run, hcall]
      exact hrun

/-- If a second world answers every request of the program as the first does, the program
does the same in both. -/
theorem Makes.simulates {P : F.Request → Prop} {handle : Handler F ω} {handle' : Handler F ω'}
    {R : ω → ω' → Prop}
    (hstep : ∀ c w w' answer w₁, P c → R w w' → handle c w = some (answer, w₁) →
      ∃ w₁', handle' c w' = some (answer, w₁') ∧ R w₁ w₁')
    {p : Program F α} (h : p.Makes P) {w w₁ : ω} {w' : ω'} {a : α} (hw : R w w')
    (hrun : p.run handle w = some (a, w₁)) :
    ∃ w₁', p.run handle' w' = some (a, w₁') ∧ R w₁ w₁' ∧
      p.trace handle' w' = p.trace handle w := by
  induction p generalizing w w' with
  | done b =>
      obtain ⟨rfl, rfl⟩ := Prod.mk.inj (Option.some.inj hrun)
      exact ⟨w', rfl, hw, rfl⟩
  | call c next ih =>
      obtain ⟨r, hcall, hrest⟩ := Option.bind_eq_some_iff.mp hrun
      obtain ⟨r', hcall', hr⟩ := hstep c w w' r.1 r.2 h.1 hw hcall
      obtain ⟨w₁', hrun', hw₁, htrace⟩ := ih r.1 (h.2 r.1) hr hrest
      refine ⟨w₁', ?_, hw₁, ?_⟩
      · rw [run, hcall']
        exact hrun'
      · rw [trace, trace, hcall, hcall', Option.elim_some, Option.elim_some]
        exact congrArg (List.cons _) htrace

end Program

end Interaction
