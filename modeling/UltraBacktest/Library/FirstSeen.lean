import Mathlib.Data.List.Basic
import Mathlib.Data.List.Induction
import Mathlib.Data.List.Nodup

/-! Numbering things by the order in which they are first seen. The list of what has been
seen grows at its end, so that a position, once given, never changes. -/

namespace FirstSeen

variable {α : Type*} [BEq α] [LawfulBEq α]

/-- Note an item at the end unless it is already there. -/
def note (seen : List α) (x : α) : List α := if x ∈ seen then seen else seen ++ [x]

/-- What has been seen after some more items. -/
def order (seen xs : List α) : List α := xs.foldl note seen

theorem note_of_mem {seen : List α} {x : α} (h : x ∈ seen) : note seen x = seen := if_pos h

theorem note_of_not_mem {seen : List α} {x : α} (h : x ∉ seen) : note seen x = seen ++ [x] :=
  if_neg h

@[simp] theorem mem_note {seen : List α} {x y : α} : y ∈ note seen x ↔ y ∈ seen ∨ y = x := by
  by_cases h : x ∈ seen
  · rw [note_of_mem h]
    constructor
    · exact Or.inl
    · rintro (hy | rfl)
      · exact hy
      · exact h
  · rw [note_of_not_mem h, List.mem_append, List.mem_singleton]

theorem prefix_note (seen : List α) (x : α) : seen <+: note seen x := by
  by_cases h : x ∈ seen
  · exact (note_of_mem h).symm ▸ List.prefix_rfl
  · rw [note_of_not_mem h]
    exact List.prefix_append _ _

@[simp] theorem order_nil (seen : List α) : order seen [] = seen := rfl

@[simp] theorem order_cons (seen : List α) (x : α) (xs : List α) :
    order seen (x :: xs) = order (note seen x) xs := rfl

theorem order_append (seen xs ys : List α) :
    order seen (xs ++ ys) = order (order seen xs) ys := List.foldl_append

theorem prefix_order (seen xs : List α) : seen <+: order seen xs := by
  induction xs generalizing seen with
  | nil => exact List.prefix_rfl
  | cons x xs ih => exact (prefix_note seen x).trans (ih _)

theorem mem_order {seen xs : List α} {y : α} : y ∈ order seen xs ↔ y ∈ seen ∨ y ∈ xs := by
  induction xs generalizing seen with
  | nil => simp
  | cons x xs ih => rw [order_cons, ih, mem_note, List.mem_cons, or_assoc]

/-- The position of what has been seen does not change. -/
theorem idxOf_order {seen : List α} {y : α} (h : y ∈ seen) (xs : List α) :
    (order seen xs).idxOf y = seen.idxOf y := by
  obtain ⟨more, hmore⟩ := prefix_order seen xs
  rw [← hmore, List.idxOf_append_of_mem h]

/-- Different items are seen in the order in which they come. -/
theorem order_of_nodup {seen xs : List α} (h : (seen ++ xs).Nodup) :
    order seen xs = seen ++ xs := by
  induction xs generalizing seen with
  | nil => simp
  | cons x xs ih =>
      have hx : x ∉ seen := by
        intro hmem
        exact (List.nodup_append.mp h).2.2 x hmem x List.mem_cons_self rfl
      rw [order_cons, note_of_not_mem hx, ih (by simpa using h), List.append_assoc]
      rfl

/-- What some items add at the end. -/
def added (seen xs : List α) : List α := (order seen xs).drop seen.length

theorem order_eq_append (seen xs : List α) : order seen xs = seen ++ added seen xs := by
  obtain ⟨more, hmore⟩ := prefix_order seen xs
  rw [added, ← hmore, List.drop_left]

/-- Seeing a new item earlier moves it to the front of what is added. -/
theorem order_of_earlier {seen : List α} {n : α} (hn : n ∉ seen) (xs : List α) :
    order (seen ++ [n]) xs = seen ++ n :: (added seen xs).erase n := by
  induction xs using List.reverseRecOn with
  | nil => simp [added]
  | append_singleton xs x ih =>
      have hadded : added seen (xs ++ [x]) =
          (note (seen ++ added seen xs) x).drop seen.length := by
        rw [added, order_append, order_eq_append seen xs]
        rfl
      rw [order_append, ih, order_cons, order_nil, hadded]
      by_cases hx : x ∈ seen ++ added seen xs
      · rw [note_of_mem hx, List.drop_left, note_of_mem]
        grind
      · rw [note_of_not_mem hx, List.append_assoc, List.drop_left]
        by_cases hxn : x = n
        · subst hxn
          rw [note_of_mem (by simp)]
          grind
        · have herase : (added seen xs ++ [x]).erase n = (added seen xs).erase n ++ [x] := by
            rw [List.erase_append]
            split_ifs with hmem
            · rfl
            · rw [List.erase_of_not_mem hmem, List.erase_of_not_mem (by simpa using Ne.symm hxn)]
          rw [note_of_not_mem (by grind), herase, List.append_assoc, List.cons_append]

omit [LawfulBEq α] in
theorem idxOf_erase_of_lt {l : List α} {x n : α} (h : l.idxOf x < l.idxOf n) :
    (l.erase n).idxOf x = l.idxOf x := by
  induction l with
  | nil => rfl
  | cons a l ih => grind

omit [LawfulBEq α] in
theorem idxOf_erase_of_gt {l : List α} {x n : α} (h : l.idxOf n < l.idxOf x) :
    (l.erase n).idxOf x + 1 = l.idxOf x := by
  induction l with
  | nil => cases h
  | cons a l ih => grind

end FirstSeen
