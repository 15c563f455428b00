import Mathlib.Algebra.Order.BigOperators.Group.List
import Mathlib.Algebra.Order.Ring.Int
import Mathlib.Tactic.Linarith

/-! Signed 64-bit arithmetic on integers. An operation whose exact result leaves the
range is undefined in C++, so the checked operations return `none` there; conversions
between signed and unsigned words wrap modulo `2 ^ 64`. -/

namespace Word64

/-- The value is representable as a signed 64-bit integer. -/
def Fits (x : ℤ) : Prop := -2 ^ 63 ≤ x ∧ x < 2 ^ 63

instance (x : ℤ) : Decidable (Fits x) :=
  inferInstanceAs (Decidable (-2 ^ 63 ≤ x ∧ x < 2 ^ 63))

/-- Conversion of a word to a signed 64-bit integer. -/
def wrap (x : ℤ) : ℤ := x.bmod (2 ^ 64)

/-- Conversion of a signed 64-bit integer to an unsigned word. -/
def toWord (x : ℤ) : ℕ := (x % 2 ^ 64).toNat

def checked (x : ℤ) : Option ℤ := if Fits x then some x else none

def add? (a b : ℤ) : Option ℤ := checked (a + b)

def sub? (a b : ℤ) : Option ℤ := checked (a - b)

def mul? (a b : ℤ) : Option ℤ := checked (a * b)

def neg? (a : ℤ) : Option ℤ := checked (-a)

/-- Division truncates toward zero; division by zero is undefined. -/
def div? (a b : ℤ) : Option ℤ := if b = 0 then none else checked (a.tdiv b)

theorem fits_of_abs_le {x b : ℤ} (h : |x| ≤ b) (hb : b < 2 ^ 63) : Fits x := by
  obtain ⟨hlo, hhi⟩ := abs_le.mp h
  constructor <;> linarith

theorem wrap_of_fits {x : ℤ} (h : Fits x) : wrap x = x := by
  obtain ⟨hlo, hhi⟩ := h
  apply Int.bmod_eq_of_le <;> norm_num at * <;> omega

theorem toWord_of_nonneg {x : ℤ} (h : 0 ≤ x) (hx : Fits x) : toWord x = x.toNat := by
  rw [toWord, Int.emod_eq_of_lt h (hx.2.trans (by norm_num))]

/-- Conversion adds a multiple of `2 ^ 64`. -/
theorem exists_wrap_eq (x : ℤ) : Fits (wrap x) ∧ ∃ k, wrap x = x + 2 ^ 64 * k := by
  have hlo := @Int.le_bmod x (2 ^ 64) (by decide)
  have hhi := @Int.bmod_lt x (2 ^ 64) (by decide)
  have heq := Int.bmod_eq_self_sub_mul_bdiv x (2 ^ 64)
  refine ⟨⟨?_, ?_⟩, -x.bdiv (2 ^ 64), ?_⟩
  · exact hlo
  · exact hhi
  · rw [wrap, heq]
    push_cast
    omega

theorem toWord_wrap (x : ℤ) : toWord (wrap x) = toWord x := by
  obtain ⟨-, k, hk⟩ := exists_wrap_eq x
  rw [toWord, toWord, hk, Int.add_mul_emod_self_left]

/-- The magnitude of a converted value, read as a word. -/
theorem toWord_wrap_abs {x : ℤ} (h : Fits x) : (toWord (wrap |x|) : ℤ) = |x| := by
  obtain ⟨hlo, hhi⟩ := h
  have hlt : |x| < 2 ^ 64 := by
    rw [abs_lt]
    omega
  rw [toWord_wrap, toWord, Int.emod_eq_of_lt (abs_nonneg x) hlt]
  exact Int.toNat_of_nonneg (abs_nonneg x)

/-- A converted value is small where the value is, and once more one turn away. -/
theorem abs_wrap_le_iff {x : ℤ} {m : ℕ} (hx : |x| < 3 * 2 ^ 63) (hm : m < 2 ^ 63) :
    |wrap x| ≤ m ↔ |x| ≤ m ∨ (2 ^ 64 - (m : ℤ) ≤ |x| ∧ |x| ≤ 2 ^ 64 + m) := by
  obtain ⟨⟨hlo, hhi⟩, k, hk⟩ := exists_wrap_eq x
  rw [abs_lt] at hx
  rw [abs_le, abs_le, le_abs, abs_le, hk]
  rw [hk] at hlo hhi
  have hk1 : -1 ≤ k := by omega
  have hk2 : k ≤ 1 := by omega
  omega

theorem checked_of_fits {x : ℤ} (h : Fits x) : checked x = some x := if_pos h

theorem add?_eq_some_iff {a b c : ℤ} : add? a b = some c ↔ Fits c ∧ a + b = c := by
  rw [add?, checked]
  split_ifs with h
  · constructor
    · intro heq
      obtain rfl := Option.some.inj heq
      exact ⟨h, rfl⟩
    · rintro ⟨-, rfl⟩
      rfl
  · constructor
    · intro heq
      cases heq
    · rintro ⟨hc, rfl⟩
      exact absurd hc h

theorem add?_of_fits {a b : ℤ} (h : Fits (a + b)) : add? a b = some (a + b) :=
  checked_of_fits h

theorem sub?_of_fits {a b : ℤ} (h : Fits (a - b)) : sub? a b = some (a - b) :=
  checked_of_fits h

theorem mul?_of_fits {a b : ℤ} (h : Fits (a * b)) : mul? a b = some (a * b) :=
  checked_of_fits h

theorem neg?_of_fits {a : ℤ} (h : Fits (-a)) : neg? a = some (-a) := checked_of_fits h

theorem div?_of_fits {a b : ℤ} (hb : b ≠ 0) (h : Fits (a.tdiv b)) :
    div? a b = some (a.tdiv b) := by
  rw [div?, if_neg hb, checked_of_fits h]

/-- A conditional summation loop stays in range while the bounds of its terms leave
room, and its partial sums obey the same bounds. -/
theorem foldlM_add? {ι : Type*} (c : ι → Prop) [DecidablePred c] {term? : ι → Option ℤ}
    {term bound : ι → ℤ} (hbound : ∀ i, |term i| ≤ bound i)
    (hterm : ∀ i, bound i < 2 ^ 63 → term? i = some (term i)) (l : List ι) (total : ℤ)
    (hroom : |total| + (l.map bound).sum < 2 ^ 63) :
    l.foldlM (fun total i => if c i then (term? i).bind (add? total) else some total) total =
        some (l.foldl (fun total i => if c i then total + term i else total) total) ∧
      |l.foldl (fun total i => if c i then total + term i else total) total| ≤
        |total| + (l.map bound).sum := by
  induction l generalizing total with
  | nil => simp
  | cons i l ih =>
      rw [List.map_cons, List.sum_cons] at hroom ⊢
      have hrest : 0 ≤ (l.map bound).sum := by
        apply List.sum_nonneg
        intro x hx
        obtain ⟨j, -, rfl⟩ := List.mem_map.mp hx
        exact (abs_nonneg _).trans (hbound j)
      have hhead := (abs_nonneg _).trans (hbound i)
      have hsum : |total + term i| ≤ |total| + bound i :=
        (abs_add_le _ _).trans (by linarith [hbound i])
      rw [List.foldlM_cons, List.foldl_cons]
      by_cases hc : c i
      · have hadd : add? total (term i) = some (total + term i) :=
          add?_of_fits (fits_of_abs_le hsum (by linarith))
        obtain ⟨heq, hle⟩ := ih (total + term i) (by linarith)
        rw [if_pos hc, if_pos hc, hterm i (by linarith [abs_nonneg total]), Option.bind_some,
          hadd]
        exact ⟨heq, by linarith⟩
      · obtain ⟨heq, hle⟩ := ih total (by linarith)
        rw [if_neg hc, if_neg hc]
        exact ⟨heq, by linarith⟩

end Word64
