import Mathlib.Data.List.Basic
import Mathlib.Data.List.Range

/-! The complete blocks of a fixed size in a sequence. A shorter rest at the end belongs
to no block. -/

namespace Blocks

variable {α : Type*}

def blockAt (size : ℕ) (l : List α) (i : ℕ) : List α := (l.drop (size * i)).take size

def blocks (size : ℕ) (l : List α) : List (List α) :=
  (List.range (l.length / size)).map (blockAt size l)

theorem blockAt_drop (size k : ℕ) (l : List α) (i : ℕ) :
    blockAt size (l.drop (size * k)) i = blockAt size l (k + i) := by
  rw [blockAt, blockAt, List.drop_drop, Nat.mul_add]

/-- The blocks of a sequence are some first blocks and the blocks of what follows. -/
theorem blocks_eq_append {size k : ℕ} {l : List α} (h : k ≤ l.length / size) :
    blocks size l =
      (List.range k).map (blockAt size l) ++ blocks size (l.drop (size * k)) := by
  have hcount : (l.drop (size * k)).length / size = l.length / size - k := by
    rw [List.length_drop, Nat.sub_mul_div]
  have hrest : blocks size (l.drop (size * k)) =
      ((List.range (l.length / size - k)).map (k + ·)).map (blockAt size l) := by
    rw [blocks, hcount, List.map_map]
    exact List.map_congr_left (fun i _ => blockAt_drop size k l i)
  rw [hrest, ← List.map_append, ← List.range_add, Nat.add_sub_cancel' h, blocks]

theorem isEmpty_blocks {size : ℕ} (hsize : 0 < size) (l : List α) :
    (blocks size l).isEmpty = !decide (size ≤ l.length) := by
  rw [Bool.eq_iff_iff, List.isEmpty_iff_length_eq_zero, blocks, List.length_map,
    List.length_range, Bool.not_eq_true', decide_eq_false_iff_not, not_le,
    Nat.div_eq_zero_iff_lt hsize]

theorem blocks_append {size : ℕ} (hsize : 0 < size) {b l : List α} (hb : b.length = size) :
    blocks size (b ++ l) = b :: blocks size l := by
  have hone : 1 ≤ (b ++ l).length / size := by
    rw [Nat.le_div_iff_mul_le hsize, List.length_append]
    omega
  have hfirst : blockAt size (b ++ l) 0 = b := by
    rw [blockAt, Nat.mul_zero, List.drop_zero, ← hb, List.take_left]
  have hrest : (b ++ l).drop (size * 1) = l := by
    rw [Nat.mul_one, ← hb, List.drop_left]
  rw [blocks_eq_append hone, hrest, List.range_one, List.map_singleton, hfirst]
  rfl

/-- The blocks of a sequence of blocks are these blocks, whatever shorter rest follows. -/
theorem blocks_flatten {size : ℕ} (hsize : 0 < size) {bs : List (List α)}
    (h : ∀ b ∈ bs, b.length = size) {rest : List α} (hrest : rest.length < size) :
    blocks size (bs.flatten ++ rest) = bs := by
  induction bs with
  | nil =>
      have hnone := isEmpty_blocks hsize rest
      rw [decide_eq_false (not_le.mpr hrest)] at hnone
      exact List.isEmpty_iff.mp hnone
  | cons b bs ih =>
      obtain ⟨hb, hbs⟩ := List.forall_mem_cons.mp h
      rw [List.flatten_cons, List.append_assoc, blocks_append hsize hb, ih hbs]

end Blocks
