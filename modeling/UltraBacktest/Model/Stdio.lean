import UltraBacktest.Library.Blocks

/-! The part of C standard input that the readers use, on an error-free file. -/

namespace UltraBacktest

/-- An open stream: the bytes of the file, the position, and the number of reads made. -/
structure File where
  content : List UInt8
  offset : ℕ := 0
  calls : ℕ := 0
  deriving DecidableEq, Repr

namespace File

/-- The bytes not yet read. -/
def rest (f : File) : List UInt8 := f.content.drop f.offset

/-- How many bytes a read returns. A read may stop short, but returns at least one byte
while there is one and there is room for it. -/
structure Chunking where
  /-- The number of the call, the room in the destination, and the bytes left. -/
  count : ℕ → ℕ → ℕ → ℕ
  le_room : ∀ call room left, count call room left ≤ room
  le_left : ∀ call room left, count call room left ≤ left
  pos : ∀ call room left, 0 < room → 0 < left → 0 < count call room left

/-- `fread` of single bytes. -/
def fread (io : Chunking) (f : File) (room : ℕ) : List UInt8 × File :=
  let n := io.count f.calls room f.rest.length
  (f.rest.take n, { f with offset := f.offset + n, calls := f.calls + 1 })

/-- A read takes its bytes from the front of what is left. -/
theorem fread_append_rest (io : Chunking) (f : File) (room : ℕ) :
    (f.fread io room).1 ++ (f.fread io room).2.rest = f.rest := by
  have hrest : (f.fread io room).2.rest =
      f.rest.drop (io.count f.calls room f.rest.length) := by
    rw [rest, rest, List.drop_drop]
    rfl
  rw [hrest]
  exact List.take_append_drop _ _

/-- `fread` of items of a given size: whole items until the end of the file. A read that
stops short has consumed the incomplete item as well. -/
def freadItems (f : File) (size count : ℕ) : List (List UInt8) × File :=
  let n := min count (f.rest.length / size)
  ((List.range n).map (Blocks.blockAt size f.rest),
    { f with
      offset := if n < count then f.content.length else f.offset + size * n
      calls := f.calls + 1 })

def rewind (f : File) : File := { f with offset := 0 }

end File

/-- `vector::resize`. -/
def resize {α : Type*} (buffer : List α) (size : ℕ) (fill : α) : List α :=
  buffer.take size ++ List.replicate (size - buffer.length) fill

/-- A write of consecutive items into a buffer. -/
def overwrite {α : Type*} (buffer : List α) (pos : ℕ) (items : List α) : List α :=
  buffer.take pos ++ items ++ buffer.drop (pos + items.length)

end UltraBacktest
