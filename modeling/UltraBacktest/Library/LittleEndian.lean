import UltraBacktest.Library.Word64

/-! Numbers in memory: the least significant byte comes first, and a signed 64-bit number is
the word that it converts to. A field is read at an offset of a record. -/

namespace LittleEndian

def bytes : ℕ → ℕ → List UInt8
  | 0, _ => []
  | width + 1, v => UInt8.ofNat v :: bytes width (v / 256)

def value : List UInt8 → ℕ
  | [] => 0
  | b :: bs => b.toNat + 256 * value bs

@[simp] theorem length_bytes (width v : ℕ) : (bytes width v).length = width := by
  induction width generalizing v with
  | zero => rfl
  | succ width ih => rw [bytes, List.length_cons, ih]

theorem value_lt (bs : List UInt8) : value bs < 256 ^ bs.length := by
  induction bs with
  | nil => exact Nat.one_pos
  | cons b bs ih =>
      have hb := b.toNat_lt
      rw [value, List.length_cons, Nat.pow_succ]
      omega

theorem value_bytes {width v : ℕ} (h : v < 256 ^ width) : value (bytes width v) = v := by
  induction width generalizing v with
  | zero =>
      rw [Nat.pow_zero, Nat.lt_one_iff] at h
      rw [h]
      rfl
  | succ width ih =>
      rw [Nat.pow_succ] at h
      have hrest : v / 256 < 256 ^ width := Nat.div_lt_of_lt_mul (by omega)
      rw [bytes, value, ih hrest, UInt8.toNat_ofNat']
      omega

/-- The value is representable as an unsigned 64-bit word. -/
def IsWord (v : ℕ) : Prop := v < 2 ^ 64

instance (v : ℕ) : Decidable (IsWord v) := inferInstanceAs (Decidable (v < 2 ^ 64))

theorem value_bytes_of_isWord {v : ℕ} (h : IsWord v) : value (bytes 8 v) = v :=
  value_bytes (h.trans_eq (by norm_num))

theorem isWord_value {bs : List UInt8} (h : bs.length ≤ 8) : IsWord (value bs) :=
  calc value bs < 256 ^ bs.length := value_lt bs
    _ ≤ 256 ^ 8 := Nat.pow_le_pow_right (by norm_num) h
    _ = 2 ^ 64 := by norm_num

/-- The representation of a signed 64-bit number. -/
def signedBytes (x : ℤ) : List UInt8 := bytes 8 (Word64.toWord x)

@[simp] theorem length_signedBytes (x : ℤ) : (signedBytes x).length = 8 := length_bytes _ _

theorem wrap_toWord {x : ℤ} (h : Word64.Fits x) : Word64.wrap (Word64.toWord x) = x := by
  have hnonneg : 0 ≤ x % 2 ^ 64 := Int.emod_nonneg _ (by norm_num)
  have hwrap : Word64.wrap (x % 2 ^ 64) = Word64.wrap x := by
    rw [Word64.wrap, Word64.wrap]
    exact Int.emod_bmod x (2 ^ 64)
  rw [Word64.toWord, Int.toNat_of_nonneg hnonneg, hwrap, Word64.wrap_of_fits h]

theorem isWord_toWord (x : ℤ) : IsWord (Word64.toWord x) := by
  have hlt : x % 2 ^ 64 < 2 ^ 64 := Int.emod_lt_of_pos _ (by norm_num)
  rw [IsWord, Word64.toWord]
  omega

theorem wrap_value_signedBytes {x : ℤ} (h : Word64.Fits x) :
    Word64.wrap (value (signedBytes x)) = x := by
  rw [signedBytes, value_bytes_of_isWord (isWord_toWord x), wrap_toWord h]

/-! ## Fields -/

section Fields

variable {α : Type*}

/-- The field of a width at an offset. -/
def field (offset width : ℕ) (r : List α) : List α := (r.drop offset).take width

theorem length_field_le (offset width : ℕ) (r : List α) : (field offset width r).length ≤ width :=
  List.length_take_le _ _

/-- A field behind the first part is a field of the rest. -/
theorem field_append {xs ys : List α} {offset width : ℕ} (h : xs.length ≤ offset) :
    field offset width (xs ++ ys) = field (offset - xs.length) width ys := by
  rw [field, List.drop_append, List.drop_eq_nil_of_le h, List.nil_append]
  rfl

/-- The first part is the field at its place. -/
theorem field_zero_append {xs ys : List α} {width : ℕ} (h : xs.length = width) :
    field 0 width (xs ++ ys) = xs := by
  rw [field, List.drop_zero, ← h, List.take_left]

end Fields

end LittleEndian
