import UltraBacktest.Model.BinaryReader

/-! The binary reader delivers the complete records of its file, whatever the chunk
capacity. -/

namespace UltraBacktest

open Stream

namespace BinaryReader

variable {eventsPerRead : ℕ}

/-! ## Reading a chunk -/

theorem length_freadItems (f : File) (size count : ℕ) :
    (f.freadItems size count).1.length = min count (f.rest.length / size) := by
  rw [File.freadItems, List.length_map, List.length_range]

/-- A full chunk leaves the records after it. -/
theorem blocks_of_full_chunk {f : File} {size count : ℕ}
    (h : (f.freadItems size count).1.length = count) :
    Blocks.blocks size f.rest =
      (f.freadItems size count).1 ++ Blocks.blocks size (f.freadItems size count).2.rest := by
  rw [length_freadItems] at h
  have hrest : (f.freadItems size count).2.rest = f.rest.drop (size * count) := by
    have hoffset : (f.freadItems size count).2.offset = f.offset + size * count := by
      rw [File.freadItems]
      dsimp only
      rw [h, if_neg (Nat.lt_irrefl _)]
    rw [File.rest, hoffset, ← List.drop_drop]
    rfl
  rw [hrest, File.freadItems, h]
  exact Blocks.blocks_eq_append (by omega)

/-- A chunk that is not full holds all records that were left. -/
theorem blocks_of_short_chunk {f : File} {size count : ℕ}
    (h : (f.freadItems size count).1.length < count) :
    Blocks.blocks size f.rest = (f.freadItems size count).1 := by
  rw [length_freadItems] at h
  have hmin : min count (f.rest.length / size) = f.rest.length / size := by omega
  rw [File.freadItems, hmin, Blocks.blocks]

/-! ## Loading the lookahead -/

/-- The records of the current chunk that are not yet loaded. -/
def buffered (r : BinaryReader eventsPerRead) : List (List UInt8) :=
  (r.buffer.take r.bufferCount).drop r.bufferIdx

/-- The records that later chunks will bring. -/
def unread (r : BinaryReader eventsPerRead) : List (List UInt8) :=
  if r.isEof then [] else r.file.elim [] (fun f => Blocks.blocks recordSize f.rest)

/-- The file is open, the chunk lies inside the buffer, and these records follow the
lookahead. -/
structure Pending (r : BinaryReader eventsPerRead) (es : List (List UInt8)) : Prop where
  file_isSome : r.file.isSome
  count_le : r.bufferCount ≤ r.buffer.length
  eq : r.buffered ++ r.unread = es

/-- The state after a load, as the stream library sees it. -/
abbrev Ready (r : BinaryReader eventsPerRead) (es : List (List UInt8)) : Prop :=
  Loaded nextEvent Pending r es

theorem buffered_eq_nil {r : BinaryReader eventsPerRead} (h : r.bufferCount ≤ r.bufferIdx) :
    r.buffered = [] := by
  rw [buffered, List.drop_eq_nil_iff, List.length_take]
  omega

/-- After a chunk is read, the whole of it is buffered. -/
theorem buffered_readChunk (r : BinaryReader eventsPerRead) (f : File) :
    (r.readChunk f).buffered = (f.freadItems recordSize eventsPerRead).1 := by
  simp [buffered, readChunk, overwrite]

theorem count_readChunk_le (r : BinaryReader eventsPerRead) (f : File) :
    (r.readChunk f).bufferCount ≤ (r.readChunk f).buffer.length := by
  simp [readChunk, overwrite]

theorem fetch_ready {r : BinaryReader eventsPerRead} {es : List (List UInt8)}
    (h : r.Pending es) (hidx : r.bufferIdx < r.bufferCount) :
    ∃ r', r.fetch = some (!es.isEmpty, r') ∧ r'.Ready es := by
  have hlt : r.bufferIdx < r.buffer.length := lt_of_lt_of_le hidx h.count_le
  have hhead : r.buffered = r.buffer[r.bufferIdx] ::
      (r.buffer.take r.bufferCount).drop (r.bufferIdx + 1) := by
    rw [buffered, List.drop_eq_getElem_cons (by rw [List.length_take]; omega),
      List.getElem_take]
  have hes := h.eq
  rw [hhead, List.cons_append] at hes
  subst hes
  refine ⟨{ r with
    nextEvent := r.buffer[r.bufferIdx], bufferIdx := r.bufferIdx + 1, hasNext := true },
    ?_, rfl, rfl, ⟨h.file_isSome, h.count_le, rfl⟩⟩
  rw [fetch, List.getElem?_eq_getElem hlt, Option.map_some]
  rfl

/-- The records left in the file are pending after a short chunk, now seen as the last. -/
theorem pending_of_short_chunk (r : BinaryReader eventsPerRead) {f : File}
    (hshort : (f.freadItems recordSize eventsPerRead).1.length < eventsPerRead) :
    Pending ({ r.readChunk f with isEof := true } : BinaryReader eventsPerRead)
      (Blocks.blocks recordSize f.rest) := by
  refine ⟨rfl, count_readChunk_le r f, (List.append_nil _).trans ?_⟩
  rw [blocks_of_short_chunk hshort]
  exact buffered_readChunk r f

/-- The records left in the file are pending after a full chunk. -/
theorem pending_of_full_chunk {r : BinaryReader eventsPerRead} (heof : r.isEof = false)
    {f : File} (hfull : (f.freadItems recordSize eventsPerRead).1.length = eventsPerRead) :
    Pending (r.readChunk f) (Blocks.blocks recordSize f.rest) := by
  refine ⟨rfl, count_readChunk_le r f, ?_⟩
  have hunread : (r.readChunk f).unread =
      Blocks.blocks recordSize (f.freadItems recordSize eventsPerRead).2.rest :=
    if_neg (by simp [readChunk, heof])
  rw [buffered_readChunk, hunread, ← blocks_of_full_chunk hfull]

/-- Loading from the file brings the first record left in it into the lookahead. -/
theorem advance_ready_of_chunk (hcap : 1 ≤ eventsPerRead) {r : BinaryReader eventsPerRead}
    (hidx : r.bufferIdx ≥ r.bufferCount) (heof : r.isEof = false) {f : File}
    (hf : r.file = some f) :
    ∃ r', r.advance = some (!(Blocks.blocks recordSize f.rest).isEmpty, r') ∧
      r'.Ready (Blocks.blocks recordSize f.rest) := by
  have hlen := length_freadItems f recordSize eventsPerRead
  rw [advance, if_pos hidx, if_neg (by simp [heof]), hf, Option.bind_some]
  dsimp only
  split_ifs with hzero hshort
  · have hempty : (f.freadItems recordSize eventsPerRead).1.length = 0 := hzero
    have hshort : (f.freadItems recordSize eventsPerRead).1.length < eventsPerRead := by omega
    rw [blocks_of_short_chunk hshort, List.length_eq_zero_iff.mp hempty]
    exact ⟨_, rfl, rfl⟩
  · exact fetch_ready (pending_of_short_chunk r hshort) (Nat.pos_of_ne_zero hzero)
  · have hle : ¬ (f.freadItems recordSize eventsPerRead).1.length < eventsPerRead := hshort
    exact fetch_ready (pending_of_full_chunk heof (by omega)) (Nat.pos_of_ne_zero hzero)

/-- Loading brings the first pending record into the lookahead. -/
theorem advance_ready (hcap : 1 ≤ eventsPerRead) {r : BinaryReader eventsPerRead}
    {es : List (List UInt8)} (h : r.Pending es) :
    ∃ r', r.advance = some (!es.isEmpty, r') ∧ r'.Ready es := by
  by_cases hidx : r.bufferIdx < r.bufferCount
  · rw [advance, if_neg (by omega)]
    exact fetch_ready h hidx
  have hes : r.unread = es := by
    rw [← h.eq, buffered_eq_nil (by omega), List.nil_append]
  cases heof : r.isEof with
  | true =>
      have hnil : es = [] := by rw [← hes, unread, if_pos heof]
      refine ⟨{ r with hasNext := false }, ?_, by rw [hnil]; rfl⟩
      rw [advance, if_pos (by omega), if_pos heof, hnil]
      rfl
  | false =>
      obtain ⟨f, hf⟩ := Option.isSome_iff_exists.mp h.file_isSome
      rw [unread, heof, hf] at hes
      subst hes
      exact advance_ready_of_chunk hcap (by omega) heof hf

/-- Opening succeeds exactly when there is a complete record, and the reader then delivers
the complete records in file order and announces each of them. -/
theorem binary_reader_delivers_records (hcap : 1 ≤ eventsPerRead)
    (r : BinaryReader eventsPerRead) (content : List UInt8) :
    ∃ r', r.doOpen (some content) = some (decide (recordSize ≤ content.length), r') ∧
      Delivers r' ((List.range (content.length / recordSize)).map
        (fun i => (content.drop (recordSize * i)).take recordSize)) ∧
      Announces r' := by
  have hpending : Pending ({ r with
      file := some { content := content }
      buffer := resize r.buffer eventsPerRead defaultRecord
      bufferIdx := 0, bufferCount := 0, isEof := false } : BinaryReader eventsPerRead)
      (Blocks.blocks recordSize content) := by
    refine ⟨rfl, Nat.zero_le _, ?_⟩
    rw [buffered_eq_nil (le_refl 0)]
    rfl
  obtain ⟨r', hadvance, hready⟩ := advance_ready hcap hpending
  rw [Blocks.isEmpty_blocks (by decide), Bool.not_not] at hadvance
  exact ⟨r', hadvance, hready.delivers (fun _ => rfl) (fun _ _ => advance_ready hcap)⟩

/-- Two complete records and one byte more, read one record at a time. -/
theorem binary_reader_delivers_two_records :
    ∃ r' : BinaryReader 1, ({} : BinaryReader 1).doOpen
        (some (List.replicate 64 1 ++ List.replicate 65 2)) = some (true, r') ∧
      Delivers r' [List.replicate 64 1, List.replicate 64 2] := by
  obtain ⟨r', hopen, hdelivers, -⟩ := binary_reader_delivers_records (le_refl 1)
    ({} : BinaryReader 1) (List.replicate 64 1 ++ List.replicate 65 2)
  refine ⟨r', hopen.trans (by simp [recordSize]), ?_⟩
  convert hdelivers using 1
  decide +kernel

end BinaryReader

end UltraBacktest
