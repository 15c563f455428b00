import UltraBacktest.Verification.Binary.Refinement

/-! Several passes over one binary file. Loading moves the position in the file and nothing
else about it, so that a reset finds the records that the first pass has found. -/

namespace UltraBacktest

open Stream

namespace BinaryReader

variable {eventsPerRead : ℕ}

theorem fetch_file {r r' : BinaryReader eventsPerRead} {loaded : Bool}
    (h : r.fetch = some (loaded, r')) : r'.file = r.file := by
  obtain ⟨e, -, heq⟩ := Option.map_eq_some_iff.mp h
  cases heq
  rfl

theorem advance_content {r r' : BinaryReader eventsPerRead} {loaded : Bool}
    (h : r.advance = some (loaded, r')) :
    r'.file.map File.content = r.file.map File.content := by
  rw [advance] at h
  split_ifs at h with hidx heof
  · cases h
    rfl
  · obtain ⟨f, hf, hchunk⟩ := Option.bind_eq_some_iff.mp h
    have hcontent : (r.readChunk f).file.map File.content = r.file.map File.content := by
      rw [hf]
      rfl
    rw [← hcontent]
    dsimp only at hchunk
    split_ifs at hchunk
    · cases hchunk
      rfl
    · rw [fetch_file hchunk]
    · rw [fetch_file hchunk]
  · rw [fetch_file h]

/-- The start of a pass over an open file. -/
theorem start_ready (hcap : 1 ≤ eventsPerRead) (r : BinaryReader eventsPerRead) {f : File}
    (hoffset : f.offset = 0) :
    ∃ r', advance ({ r with
        file := some f, bufferIdx := 0, bufferCount := 0, isEof := false } :
        BinaryReader eventsPerRead) = some (!(Blocks.blocks recordSize f.content).isEmpty, r') ∧
      r'.Ready (Blocks.blocks recordSize f.content) := by
  apply advance_ready hcap
  refine ⟨rfl, Nat.zero_le _, ?_⟩
  rw [buffered_eq_nil (le_refl 0), List.nil_append, unread, if_neg Bool.false_ne_true,
    Option.elim_some, File.rest, hoffset, List.drop_zero]

theorem doOpen_content (hcap : 1 ≤ eventsPerRead) (r : BinaryReader eventsPerRead)
    (content : List UInt8) :
    ∃ r', r.doOpen (some content) =
        some (!(Blocks.blocks recordSize content).isEmpty, r') ∧
      r'.Ready (Blocks.blocks recordSize content) ∧
      r'.file.map File.content = some content := by
  obtain ⟨r', hadvance, hready⟩ := start_ready hcap
    { r with buffer := resize r.buffer eventsPerRead defaultRecord } (f := { content := content })
    rfl
  exact ⟨r', hadvance, hready, advance_content hadvance⟩

theorem doReset_content (hcap : 1 ≤ eventsPerRead) {r : BinaryReader eventsPerRead}
    {content : List UInt8} (h : r.file.map File.content = some content) :
    ∃ r', r.doReset = some r' ∧ r'.Ready (Blocks.blocks recordSize content) ∧
      r'.file.map File.content = some content := by
  obtain ⟨f, hf, rfl⟩ := Option.map_eq_some_iff.mp h
  obtain ⟨r', hadvance, hready⟩ := start_ready hcap r (f := f.rewind) rfl
  refine ⟨r', ?_, hready, advance_content hadvance⟩
  rw [doReset, hf]
  dsimp only
  rw [hadvance]
  rfl

theorem doReadNext_content {r r' : BinaryReader eventsPerRead} {item : Option (List UInt8)}
    (h : r.doReadNext = some (item, r')) :
    r'.file.map File.content = r.file.map File.content := by
  cases hnext : r.hasNext with
  | false =>
      cases (readLookahead_of_not_ready hnext).symm.trans h
      rfl
  | true =>
      obtain ⟨a, hadvance, heq⟩ :=
        Option.map_eq_some_iff.mp ((readLookahead_of_ready hnext).symm.trans h)
      cases heq
      exact advance_content hadvance

end BinaryReader

end UltraBacktest
