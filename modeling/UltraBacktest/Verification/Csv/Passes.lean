import UltraBacktest.Verification.Csv.Refinement
import UltraBacktest.Verification.Csv.Rows

/-! Several passes over one file. Reading keeps the file in place and teaches the decoder the
rows that go by; a reset starts over with all that has been learned. -/

namespace UltraBacktest

open Stream

theorem TickDecoder.learnAll_append (d : TickDecoder) (xs ys : List (List UInt8)) :
    d.learnAll (xs ++ ys) = (d.learnAll xs).learnAll ys := List.foldl_append

/-- Rows that have gone by are known. -/
theorem TickDecoder.knows_learnAll (d : TickDecoder) {rows : List (List UInt8)}
    {row name : List UInt8} (hrow : row ∈ rows) (hname : rowName row = some name) :
    (d.learnAll rows).Knows name := by
  obtain ⟨before, after, rfl⟩ := List.append_of_mem hrow
  rw [learnAll_append]
  exact ((knows_learn _ hname).1.learnAll after).1

namespace CsvReader

variable {num : Numeric} {io : File.Chunking} {bufferSize : ℕ}

/-- The reader has the content open and the bytes `s` of it still to consume. -/
def Reading (r : CsvReader num io bufferSize) (content s : List UInt8) : Prop :=
  ∃ f, r.Holds f s ∧ f.content = content

theorem readLine_reading {r : CsvReader num io bufferSize} {content s : List UInt8}
    (h : r.Reading content s) :
    ∃ r', r.readLine = some (firstLine s, r') ∧ r'.Reading content (afterLine s) ∧
      r'.decoder = r.decoder := by
  obtain ⟨f, hholds, hcontent⟩ := h
  obtain ⟨r', f', hread, hholds', hkept, hdecoder, -⟩ := readLine_holds hholds
  exact ⟨r', hread, ⟨f', hholds', hkept.trans hcontent⟩, hdecoder⟩

/-- The rows that a load has passed are learned. -/
theorem Passes.learnAll_eq {r r' : CsvReader num io bufferSize} {loaded : Bool}
    {passed : List (List UInt8)} (h : r.Passes loaded r' passed) :
    r'.decoder = r.decoder.learnAll passed := by
  have hlearn : (fun (d : TickDecoder) row => (d.decodeCsv num row).2) = TickDecoder.learn := by
    funext d row
    rw [d.decodeCsv_eq num row]
  rw [h.decoder_eq, hlearn, TickDecoder.learnAll]

/-! ## Where a reader stands in its file -/

/-- The reader stands somewhere in the content, with the rows before that place known to
its decoder, and the rest of the pass ends where the first pass from `d₀` has ended. -/
structure Follows (d₀ : TickDecoder) (content : List UInt8)
    (r : CsvReader num io bufferSize) : Prop where
  exists_place : ∃ s passed, r.Reading content s ∧ dataRows content = passed ++ textRows s ∧
    (∀ row ∈ passed, ∀ name ∈ rowName row, r.decoder.Knows name) ∧
    r.decoder.learnAll (textRows s) = d₀.learnAll (dataRows content)

/-- A new pass gives the same ids as the first one. -/
theorem Follows.learnAll_eq {d₀ : TickDecoder} {content : List UInt8}
    {r : CsvReader num io bufferSize} (h : r.Follows d₀ content) :
    r.decoder.learnAll (dataRows content) = d₀.learnAll (dataRows content) := by
  obtain ⟨s, passed, -, hrows, hknown, hlearn⟩ := h.exists_place
  have hpassed : r.decoder.learnAll (passed ++ textRows s) =
      r.decoder.learnAll (textRows s) := by
    rw [TickDecoder.learnAll_append, TickDecoder.learnAll_of_knows hknown]
  rw [← hlearn, ← hpassed, hrows]

/-- Loading moves the reader on in its file. -/
theorem Follows.advance {d₀ : TickDecoder} {content : List UInt8}
    {r r' : CsvReader num io bufferSize} (h : r.Follows d₀ content) {loaded : Bool}
    (hadvance : r.advance = some (loaded, r')) : r'.Follows d₀ content := by
  obtain ⟨s, passed, ⟨f, hholds, hcontent⟩, hrows, hknown, hlearn⟩ := h.exists_place
  obtain ⟨loaded', r'', f', s', more, hloop, hholds', hkept, hmore, -, hpasses⟩ :=
    advanceLoop_holds (hholds.load r.decoder r.nextEvent false)
  cases hadvance.symm.trans hloop
  have hdecoder := hpasses.learnAll_eq
  refine ⟨s', passed ++ more, ⟨f', hholds', hkept.trans hcontent⟩, ?_, ?_, ?_⟩
  · rw [hrows, hmore, List.append_assoc]
  · intro row hrow name hname
    rw [hdecoder]
    rcases List.mem_append.mp hrow with hrow | hrow
    · exact ((hknown row hrow name hname).learnAll more).1
    · exact r.decoder.knows_learnAll hrow hname
  · rw [hdecoder, ← hlearn, hmore, TickDecoder.learnAll_append]

/-- The start of a pass: the first line is skipped and the lookahead loaded. -/
theorem start_follows {d₀ : TickDecoder} {r : CsvReader num io bufferSize}
    {content : List UInt8} (h : r.Reading content content)
    (hlearn : r.decoder.learnAll (dataRows content) = d₀.learnAll (dataRows content)) :
    ∃ r', r.readLine.bind (fun header => header.2.advance) =
        some (!(decodeAll num d₀ (dataRows content)).isEmpty, r') ∧
      r'.Ready (decodeAll num d₀ (dataRows content)) ∧ r'.Follows d₀ content := by
  obtain ⟨r₁, hread, hreading, hdecoder⟩ := readLine_reading h
  have hevents : decodeAll num r.decoder (dataRows content) =
      decodeAll num d₀ (dataRows content) := by
    rw [decodeAll_eq, decodeAll_eq, hlearn]
  have hpending : r₁.Pending (decodeAll num d₀ (dataRows content)) := by
    obtain ⟨f₁, hholds, -⟩ := hreading
    refine ⟨f₁, afterLine content, hholds, ?_⟩
    rw [hdecoder, ← hevents, dataRows_eq_textRows, textRows]
  obtain ⟨r', hadvance, hready⟩ := advance_ready hpending
  have hfollows : r₁.Follows d₀ content := by
    refine ⟨afterLine content, [], hreading, dataRows_eq_textRows content, ?_, ?_⟩
    · intro row hrow
      cases hrow
    · rw [hdecoder, ← dataRows_eq_textRows, hlearn]
  refine ⟨r', ?_, hready, hfollows.advance hadvance⟩
  rw [hread]
  exact hadvance

theorem doOpen_follows (hcap : 1 ≤ bufferSize) (r : CsvReader num io bufferSize)
    (content : List UInt8) :
    ∃ r', r.doOpen (some content) =
        some (!(decodeAll num r.decoder (dataRows content)).isEmpty, r') ∧
      r'.Ready (decodeAll num r.decoder (dataRows content)) ∧
      r'.Follows r.decoder content :=
  start_follows ⟨_, open_holds hcap r content, rfl⟩ rfl

theorem Follows.doReset {d₀ : TickDecoder} {content : List UInt8}
    {r : CsvReader num io bufferSize} (h : r.Follows d₀ content) :
    ∃ r', r.doReset = some r' ∧ r'.Ready (decodeAll num d₀ (dataRows content)) ∧
      r'.Follows d₀ content := by
  obtain ⟨s, passed, ⟨f, hholds, hcontent⟩, -⟩ := h.exists_place
  have hrewound : Reading ({ r with
      file := some f.rewind, bufferPos := 0, bufferEnd := 0, isEof := false } :
      CsvReader num io bufferSize) content content := by
    refine ⟨f.rewind, ⟨rfl, le_refl 0, Nat.zero_le _, hholds.buffer_pos, ?_, hcontent⟩, hcontent⟩
    intro heof
    cases heof
  obtain ⟨r', hstart, hready, hfollows⟩ := start_follows hrewound h.learnAll_eq
  refine ⟨r', ?_, hready, hfollows⟩
  rw [CsvReader.doReset, hholds.file_eq]
  dsimp only
  obtain ⟨header, hheader, hadvance⟩ := Option.bind_eq_some_iff.mp hstart
  rw [hheader, Option.bind_some, hadvance]
  rfl

end CsvReader

end UltraBacktest
