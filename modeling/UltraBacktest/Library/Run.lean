import Mathlib.Algebra.BigOperators.Group.List.Basic

/-! Runs of a deterministic step function over a list of inputs. The trail of a run
pairs every input with the state it was applied to, so that sums and conditions over
the history of a run can be stated without instrumenting the state. -/

namespace Run

variable {σ τ α : Type*}

/-- The inputs of a run, each with the state before it. -/
def trail (step : σ → α → σ) (s : σ) : List α → List (σ × α)
  | [] => []
  | x :: xs => (s, x) :: trail step (step s x) xs

@[simp] theorem trail_nil (step : σ → α → σ) (s : σ) : trail step s [] = [] := rfl

@[simp] theorem trail_cons (step : σ → α → σ) (s : σ) (x : α) (xs : List α) :
    trail step s (x :: xs) = (s, x) :: trail step (step s x) xs := rfl

theorem trail_append (step : σ → α → σ) (s : σ) (xs ys : List α) :
    trail step s (xs ++ ys) = trail step s xs ++ trail step (xs.foldl step s) ys := by
  induction xs generalizing s with
  | nil => rfl
  | cons x xs ih => simp [ih]

/-- A trail consists of the splittings of its input list. -/
theorem mem_trail_iff (step : σ → α → σ) (s : σ) (xs : List α) (q : σ × α) :
    q ∈ trail step s xs ↔
      ∃ front rest, xs = front ++ q.2 :: rest ∧ q.1 = front.foldl step s := by
  induction xs generalizing s with
  | nil => simp
  | cons x xs ih =>
      rw [trail_cons, List.mem_cons, ih]
      constructor
      · rintro (rfl | ⟨front, rest, rfl, hq⟩)
        · exact ⟨[], xs, rfl, rfl⟩
        · exact ⟨x :: front, rest, rfl, hq⟩
      · rintro ⟨front, rest, hx, hq⟩
        cases front with
        | nil =>
            obtain ⟨rfl, rfl⟩ := List.cons.inj hx
            exact Or.inl (Prod.ext hq rfl)
        | cons y front =>
            obtain ⟨rfl, rfl⟩ := List.cons.inj hx
            exact Or.inr ⟨front, rest, rfl, hq⟩

/-- A map that commutes with the steps carries one trail to the other. -/
theorem trail_map (f : σ → τ) {step : σ → α → σ} {step' : τ → α → τ}
    (h : ∀ s x, step' (f s) x = f (step s x)) (s : σ) (xs : List α) :
    trail step' (f s) xs = (trail step s xs).map (fun q => (f q.1, q.2)) := by
  induction xs generalizing s with
  | nil => rfl
  | cons x xs ih => simp [h, ih]

/-- Telescoping: if every step changes a quantity by the weight of what is observed at
that step, the quantity ends at its initial value plus the weights along the trail. -/
theorem measure_eq_sum {M β : Type*} [AddCommMonoid M] {step : σ → α → σ}
    (m : σ → M) (obs : σ → α → Option β) (g : β → M)
    (hm : ∀ s x, m (step s x) = m s + (obs s x).elim 0 g) (s : σ) (xs : List α) :
    m (xs.foldl step s) =
      m s + (((trail step s xs).filterMap (fun q => obs q.1 q.2)).map g).sum := by
  induction xs generalizing s with
  | nil => simp
  | cons x xs ih =>
      rw [List.foldl_cons, ih, hm]
      cases hobs : obs s x <;> simp [hobs, add_assoc]

end Run
