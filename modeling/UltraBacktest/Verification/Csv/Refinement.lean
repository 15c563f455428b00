import UltraBacktest.Model.CsvReader
import UltraBacktest.Verification.Csv.Lines

/-! The CSV reader delivers the events of the plain reading of its file, for every buffer
capacity and every way the reads split the file. The invariant says which bytes are still
to be consumed, in the buffer and in the file together. -/

namespace UltraBacktest

open Stream

/-! ## Buffers -/

theorem length_overwrite {α : Type*} {buffer items : List α} {pos : ℕ}
    (h : pos + items.length ≤ buffer.length) :
    (overwrite buffer pos items).length = buffer.length := by
  simp only [overwrite, List.length_append, List.length_take, List.length_drop]
  omega

theorem take_overwrite {α : Type*} {buffer items : List α} {pos : ℕ}
    (h : pos ≤ buffer.length) :
    (overwrite buffer pos items).take (pos + items.length) = buffer.take pos ++ items := by
  have hlen : (buffer.take pos ++ items).length = pos + items.length := by
    rw [List.length_append, List.length_take, Nat.min_eq_left h]
  rw [overwrite, ← hlen, List.take_left]

theorem length_resize {α : Type*} (buffer : List α) (size : ℕ) (fill : α) :
    (resize buffer size fill).length = size := by
  simp only [resize, List.length_append, List.length_take, List.length_replicate]
  omega

theorem take_resize {α : Type*} {buffer : List α} {size n : ℕ} {fill : α}
    (hn : n ≤ buffer.length) (hsize : n ≤ size) :
    (resize buffer size fill).take n = buffer.take n := by
  rw [resize, List.take_append_of_le_length (by rw [List.length_take]; omega),
    List.take_take, Nat.min_eq_left hsize]

theorem length_fread_le (io : File.Chunking) (f : File) (room : ℕ) :
    (f.fread io room).1.length ≤ room := by
  have hle := io.le_room f.calls room f.rest.length
  rw [File.fread, List.length_take]
  omega

/-- A read with room that returns nothing has met the end of the file. -/
theorem rest_eq_nil_of_fread {io : File.Chunking} {f : File} {room : ℕ} (hroom : 0 < room)
    (h : (f.fread io room).1.length = 0) : f.rest = [] := by
  by_contra hne
  have hleft := List.length_pos_iff.mpr hne
  have hpos := io.pos f.calls room f.rest.length hroom hleft
  rw [File.fread, List.length_take] at h
  omega

namespace CsvReader

variable {num : Numeric} {io : File.Chunking} {bufferSize : ℕ}

/-- The reader still has to consume the bytes `s`, and `f` is its open file. -/
structure Holds (r : CsvReader num io bufferSize) (f : File) (s : List UInt8) : Prop where
  file_eq : r.file = some f
  pos_le : r.bufferPos ≤ r.bufferEnd
  end_le : r.bufferEnd ≤ r.buffer.length
  buffer_pos : 0 < r.buffer.length
  rest_of_eof : r.isEof = true → f.rest = []
  bytes_eq : r.view ++ f.rest = s

/-- The lookahead and the decoder do not matter to the bytes. -/
theorem Holds.load {r : CsvReader num io bufferSize} {f : File} {s : List UInt8}
    (h : r.Holds f s) (decoder : TickDecoder) (event : Event) (hasNext : Bool) :
    Holds ({ r with decoder := decoder, nextEvent := event, hasNext := hasNext } :
      CsvReader num io bufferSize) f s :=
  ⟨h.file_eq, h.pos_le, h.end_le, h.buffer_pos, h.rest_of_eof, h.bytes_eq⟩

/-- Making room keeps the remainder at the front and leaves a free byte behind it. -/
theorem makeRoom_spec {r : CsvReader num io bufferSize} (hpos : r.bufferPos ≤ r.bufferEnd)
    (hend : r.bufferEnd ≤ r.buffer.length) (hbuffer : 0 < r.buffer.length) :
    r.makeRoom.take (r.bufferEnd - r.bufferPos) = r.view ∧
      r.bufferEnd - r.bufferPos < r.makeRoom.length := by
  have hview : r.view.length = r.bufferEnd - r.bufferPos := by
    rw [view, List.length_take, List.length_drop]
    omega
  -- The moved buffer starts with the remainder also where nothing is moved.
  have hmoved : ∃ buffer, (if r.bufferEnd - r.bufferPos > 0 ∧ r.bufferPos > 0 then
      overwrite r.buffer 0 r.view else r.buffer) = buffer ∧
      buffer.take (r.bufferEnd - r.bufferPos) = r.view ∧ buffer.length = r.buffer.length := by
    refine ⟨_, rfl, ?_⟩
    split_ifs with hmove
    · constructor
      · have htake := @take_overwrite _ r.buffer r.view 0 (Nat.zero_le _)
        rw [hview, Nat.zero_add] at htake
        exact htake
      · exact length_overwrite (by omega)
    · refine ⟨?_, rfl⟩
      rcases Nat.eq_zero_or_pos r.bufferPos with hzero | hpos
      · rw [view, hzero]
        rfl
      · have hrem : r.bufferEnd - r.bufferPos = 0 := by omega
        rw [view, hrem]
        rfl
  obtain ⟨buffer, hbuf, htake, hlen⟩ := hmoved
  rw [makeRoom, hbuf]
  split_ifs with hfull
  · refine ⟨?_, by rw [length_resize]; omega⟩
    rw [take_resize (by omega) (by omega)]
    exact htake
  · exact ⟨htake, by omega⟩

/-- A refill does not change the bytes to be consumed. -/
theorem refill_holds {r : CsvReader num io bufferSize} {f : File} {s : List UInt8}
    (h : r.Holds f s) (heof : r.isEof = false) :
    ∃ f', (r.refill f).Holds f' s ∧ f'.content = f.content := by
  obtain ⟨htake, hroom⟩ := makeRoom_spec h.pos_le h.end_le h.buffer_pos
  generalize hrem : r.bufferEnd - r.bufferPos = rem at htake hroom
  have hle := length_fread_le io f (r.makeRoom.length - rem)
  have happend := f.fread_append_rest io (r.makeRoom.length - rem)
  have hlen := length_overwrite
    (show rem + (f.fread io (r.makeRoom.length - rem)).1.length ≤ r.makeRoom.length by omega)
  refine ⟨(f.fread io (r.makeRoom.length - rem)).2, ?_, rfl⟩
  constructor
  · rw [refill, hrem]
  · exact Nat.zero_le _
  · rw [refill, hrem]
    dsimp only
    omega
  · rw [refill, hrem]
    dsimp only
    omega
  · intro hset
    rw [refill, hrem] at hset
    dsimp only at hset
    split at hset
    · rename_i hnone
      rw [rest_eq_nil_of_fread (by omega) hnone] at happend
      exact (List.append_eq_nil_iff.mp happend).2
    · rw [heof] at hset
      cases hset
  · rw [← h.bytes_eq, ← happend, ← List.append_assoc, ← htake]
    congr 1
    rw [view, refill, hrem]
    dsimp only
    rw [List.drop_zero, Nat.sub_zero]
    exact take_overwrite (by omega)

theorem Holds.length_view {r : CsvReader num io bufferSize} {f : File} {s : List UInt8}
    (h : r.Holds f s) : r.view.length = r.bufferEnd - r.bufferPos := by
  have hle := h.end_le
  rw [view, List.length_take, List.length_drop]
  omega

theorem Holds.eq_view_of_eof {r : CsvReader num io bufferSize} {f : File} {s : List UInt8}
    (h : r.Holds f s) (heof : r.isEof = true) : s = r.view := by
  rw [← h.bytes_eq, h.rest_of_eof heof, List.append_nil]

/-- At the end of the file an empty remainder leaves nothing to consume. -/
theorem Holds.eq_nil_of_done {r : CsvReader num io bufferSize} {f : File} {s : List UInt8}
    (h : r.Holds f s) (heof : r.isEof = true) (hdone : r.bufferEnd - r.bufferPos = 0) :
    s = [] := by
  rw [h.eq_view_of_eof heof, ← List.length_eq_zero_iff, h.length_view]
  exact hdone

/-- Moving the position consumes buffered bytes. -/
theorem Holds.consume {r : CsvReader num io bufferSize} {f : File} {s : List UInt8}
    (h : r.Holds f s) {n : ℕ} (hn : n ≤ r.view.length) :
    Holds ({ r with bufferPos := r.bufferPos + n } : CsvReader num io bufferSize) f
      (s.drop n) := by
  have hpos := h.pos_le
  have hview : s.drop n = r.view.drop n ++ f.rest := by
    rw [← h.bytes_eq, List.drop_append_of_le_length hn]
  rw [h.length_view] at hn
  refine ⟨h.file_eq, ?_, h.end_le, h.buffer_pos, h.rest_of_eof, ?_⟩
  · dsimp only
    omega
  · rw [hview, view, view, List.drop_take, List.drop_drop]
    dsimp only
    rw [Nat.sub_sub]

/-- Reading a line consumes the first line of the remaining bytes. -/
theorem scan_holds {r : CsvReader num io bufferSize} {f : File} {s : List UInt8}
    (h : r.Holds f s) :
    ∃ r' f', r.scan = some (firstLine s, r') ∧ r'.Holds f' (afterLine s) ∧
      f'.content = f.content ∧ r'.decoder = r.decoder ∧ r'.hasNext = r.hasNext := by
  fun_induction scan r generalizing f with
  | case1 r len hnl line =>
      -- A newline in the buffer is the first one of all bytes.
      rename_i stripped
      have hlt := lt_length_of_memchr hnl
      have hmem : memchr s 10 = some len := by
        rw [← h.bytes_eq]
        exact memchr_append hnl
      have hline : stripped = stripCr (s.take len) := by
        rw [← h.bytes_eq, List.take_append_of_le_length (Nat.le_of_lt hlt)]
        exact dite_eq_ite
      rw [firstLine, afterLine, hmem, hline]
      exact ⟨_, f, rfl, h.consume hlt, rfl, rfl, rfl⟩
  | case2 r hnl heof len =>
      rename_i hlen
      have hlength : r.view.length = len := h.length_view
      have hs := h.eq_view_of_eof heof
      have hdrop : s.drop len = [] := by rw [hs, ← hlength, List.drop_length]
      have hne : r.view.isEmpty = false := by
        rw [List.isEmpty_eq_false_iff, ← List.length_pos_iff]
        omega
      rw [firstLine, afterLine, hs, hnl]
      dsimp only
      rw [hne, ← hdrop]
      exact ⟨_, f, rfl, h.consume (Nat.le_of_eq hlength.symm), rfl, rfl, rfl⟩
  | case3 r hnl heof len =>
      rename_i hlen
      have hnil := h.eq_nil_of_done heof (Nat.eq_zero_of_not_pos hlen)
      subst hnil
      exact ⟨r, f, rfl, h, rfl, rfl, rfl⟩
  | case4 r hnl heof hfile => cases hfile.symm.trans h.file_eq
  | case5 r hnl heof file hfile ih =>
      cases hfile.symm.trans h.file_eq
      obtain ⟨f', hrefill, hcontent⟩ := refill_holds h (Bool.eq_false_iff.mpr heof)
      obtain ⟨r', f'', hscan, hholds, hcontent', hkept⟩ := ih hrefill
      exact ⟨r', f'', hscan, hholds, hcontent'.trans hcontent, hkept⟩

theorem readLine_holds {r : CsvReader num io bufferSize} {f : File} {s : List UInt8}
    (h : r.Holds f s) :
    ∃ r' f', r.readLine = some (firstLine s, r') ∧ r'.Holds f' (afterLine s) ∧
      f'.content = f.content ∧ r'.decoder = r.decoder ∧ r'.hasNext = r.hasNext := by
  rw [readLine]
  split_ifs with hdone
  · have hnil := h.eq_nil_of_done hdone.2 (Nat.sub_eq_zero_of_le hdone.1)
    subst hnil
    exact ⟨r, f, rfl, h, rfl, rfl, rfl⟩
  · exact scan_holds h

/-! ## Loading the lookahead -/

/-- The events behind the lookahead: those of the lines that are still to be consumed. -/
def Pending (r : CsvReader num io bufferSize) (es : List Event) : Prop :=
  ∃ f s, r.Holds f s ∧
    decodeAll num r.decoder ((plainLines s).filter (fun line => !line.isEmpty)) = es

/-- The state after a load, as the stream library sees it. -/
abbrev Ready (r : CsvReader num io bufferSize) (es : List Event) : Prop :=
  Loaded nextEvent Pending r es

/-- What a load has done when it ends: the rows `passed` have gone through the decoder, and
the lookahead holds the event of the last of them if any was accepted. -/
structure Passes (r : CsvReader num io bufferSize) (loaded : Bool)
    (r' : CsvReader num io bufferSize) (passed : List (List UInt8)) : Prop where
  decoder_eq : r'.decoder = passed.foldl (fun d row => (d.decodeCsv num row).2) r.decoder
  events_eq : decodeAll num r.decoder passed = if loaded then [r'.nextEvent] else []
  hasNext_eq : r'.hasNext = (loaded || r.hasNext)

/-- A rejected row goes through the decoder before the others. -/
theorem Passes.reject {r q r' : CsvReader num io bufferSize} {loaded : Bool}
    {row : List UInt8} {passed : List (List UInt8)} (h : q.Passes loaded r' passed)
    (hdecode : r.decoder.decodeCsv num row = (none, q.decoder)) (hnext : q.hasNext = r.hasNext) :
    r.Passes loaded r' (row :: passed) where
  decoder_eq := by
    rw [h.decoder_eq, List.foldl_cons, hdecode]
  events_eq := by
    rw [decodeAll_cons, hdecode, ← h.events_eq]
    rfl
  hasNext_eq := by
    rw [h.hasNext_eq, hnext]

/-- An empty line leaves the decoder alone. -/
theorem Passes.skip {r q r' : CsvReader num io bufferSize} {loaded : Bool}
    {passed : List (List UInt8)} (h : q.Passes loaded r' passed)
    (hdecoder : q.decoder = r.decoder) (hnext : q.hasNext = r.hasNext) :
    r.Passes loaded r' passed where
  decoder_eq := by
    rw [h.decoder_eq, hdecoder]
  events_eq := by
    rw [← h.events_eq, hdecoder]
  hasNext_eq := by
    rw [h.hasNext_eq, hnext]

/-- An accepted row ends the load. -/
theorem passes_accept {r : CsvReader num io bufferSize} {row : List UInt8} {event : Event}
    {decoder : TickDecoder} (hdecode : r.decoder.decodeCsv num row = (some event, decoder))
    (q : CsvReader num io bufferSize) :
    r.Passes true { q with decoder := decoder, nextEvent := event, hasNext := true } [row] where
  decoder_eq := by
    rw [List.foldl_cons, hdecode]
    rfl
  events_eq := by
    rw [decodeAll_cons, hdecode]
    rfl
  hasNext_eq := rfl

theorem advanceLoop_holds {r : CsvReader num io bufferSize} {f : File} {s : List UInt8}
    (h : r.Holds f s) :
    ∃ loaded r' f' s' passed, r.advanceLoop = some (loaded, r') ∧ r'.Holds f' s' ∧
      f'.content = f.content ∧ textRows s = passed ++ textRows s' ∧
      (loaded = false → textRows s' = []) ∧ r.Passes loaded r' passed := by
  induction hlen : s.length using Nat.strong_induction_on generalizing r f s with
  | _ n ih =>
      obtain ⟨r₁, f₁, hread, hholds, hcontent, hdecoder, hhas⟩ := readLine_holds h
      have hrows := textRows_eq s
      rw [advanceLoop, hread]
      cases hfirst : firstLine s with
      | none =>
          rw [hfirst] at hrows
          rw [eq_nil_of_firstLine hfirst] at hholds
          refine ⟨false, r₁, f₁, [], [], rfl, hholds, hcontent, hrows, fun _ => rfl, ?_⟩
          exact ⟨hdecoder, rfl, hhas⟩
      | some line =>
          have hne : s ≠ [] := by
            rintro rfl
            cases hfirst
          have hless := length_afterLine hne
          rw [hfirst, Option.elim_some] at hrows
          dsimp only
          cases hempty : line.isEmpty with
          | true =>
              obtain ⟨loaded, r', f', s', passed, hloop, hholds', hcontent', hrest, hend,
                hpasses⟩ := ih _ (hlen ▸ hless) hholds rfl
              rw [hempty, if_pos rfl] at hrows
              exact ⟨loaded, r', f', s', passed, hloop, hholds', hcontent'.trans hcontent,
                hrows.trans hrest, hend, hpasses.skip hdecoder hhas⟩
          | false =>
              rw [hempty, if_neg Bool.false_ne_true] at hrows
              rw [if_neg Bool.false_ne_true]
              cases hdecode : r₁.decoder.decodeCsv num line with
              | mk event decoder =>
                  cases event with
                  | none =>
                      -- A rejected line leaves only its effect on the decoder.
                      obtain ⟨loaded, r', f', s', passed, hloop, hholds', hcontent', hrest,
                        hend, hpasses⟩ := ih _ (hlen ▸ hless)
                          (hholds.load decoder r₁.nextEvent r₁.hasNext) rfl
                      refine ⟨loaded, r', f', s', line :: passed, hloop, hholds',
                        hcontent'.trans hcontent, ?_, hend, ?_⟩
                      · rw [hrows, hrest, List.cons_append]
                      · exact hpasses.reject (hdecoder ▸ hdecode) hhas
                  | some event =>
                      refine ⟨true, _, f₁, afterLine s, [line], rfl,
                        hholds.load decoder event true, hcontent, hrows, ?_, ?_⟩
                      · intro hnone
                        cases hnone
                      · exact passes_accept (hdecoder ▸ hdecode) r₁

theorem advance_ready {r : CsvReader num io bufferSize} {es : List Event}
    (h : r.Pending es) : ∃ r', r.advance = some (!es.isEmpty, r') ∧ r'.Ready es := by
  obtain ⟨f, s, hholds, rfl⟩ := h
  obtain ⟨loaded, r', f', s', passed, hloop, hholds', -, hrows, hend, hpasses⟩ :=
    advanceLoop_holds (hholds.load r.decoder r.nextEvent false)
  have hevents : decodeAll num r.decoder (textRows s) =
      (if loaded then [r'.nextEvent] else []) ++ decodeAll num r'.decoder (textRows s') := by
    rw [hrows, decodeAll_append, ← hpasses.events_eq, hpasses.decoder_eq]
  change ∃ q, r.advance = some (!(decodeAll num r.decoder (textRows s)).isEmpty, q) ∧
    q.Ready (decodeAll num r.decoder (textRows s))
  rw [hevents]
  cases loaded with
  | false =>
      rw [hend rfl]
      exact ⟨r', hloop, hpasses.hasNext_eq⟩
  | true => exact ⟨r', hloop, hpasses.hasNext_eq, rfl, f', s', hholds', rfl⟩

/-- A file is opened with all its bytes still to be consumed. -/
theorem open_holds (hcap : 1 ≤ bufferSize) (r : CsvReader num io bufferSize)
    (content : List UInt8) :
    Holds ({ r with
      file := some { content := content }
      buffer := resize r.buffer bufferSize 0
      bufferPos := 0, bufferEnd := 0, isEof := false } : CsvReader num io bufferSize)
      { content := content } content where
  file_eq := rfl
  pos_le := le_refl 0
  end_le := Nat.zero_le _
  buffer_pos := by
    rw [length_resize]
    exact hcap
  rest_of_eof := by
    intro h
    cases h
  bytes_eq := rfl

/-- Opening skips the first line and loads the first event. -/
theorem doOpen_ready (hcap : 1 ≤ bufferSize) (r : CsvReader num io bufferSize)
    (content : List UInt8) :
    ∃ r', r.doOpen (some content) =
        some (!(decodeAll num r.decoder (dataRows content)).isEmpty, r') ∧
      r'.Ready (decodeAll num r.decoder (dataRows content)) := by
  obtain ⟨r₁, f₁, hread, hholds, -, hdecoder, -⟩ := readLine_holds (open_holds hcap r content)
  have hpending : r₁.Pending (decodeAll num r.decoder (dataRows content)) := by
    refine ⟨f₁, afterLine content, hholds, ?_⟩
    rw [hdecoder, dataRows, plainLines_tail]
  obtain ⟨r', hadvance, hready⟩ := advance_ready hpending
  refine ⟨r', ?_, hready⟩
  rw [doOpen, hread]
  exact hadvance

theorem Ready.delivers {r : CsvReader num io bufferSize} {es : List Event} (h : r.Ready es) :
    Delivers r es ∧ Announces r :=
  Loaded.delivers (fun _ => rfl) (fun _ _ => advance_ready) h

/-- After opening this content the reader delivers these events. -/
def Opens (r : CsvReader num io bufferSize) (content : List UInt8) (es : List Event) : Prop :=
  ∃ found r', r.doOpen (some content) = some (found, r') ∧ Delivers r' es

theorem opens_iff (hcap : 1 ≤ bufferSize) (r : CsvReader num io bufferSize)
    (content : List UInt8) (es : List Event) :
    r.Opens content es ↔ es = decodeAll num r.decoder (dataRows content) := by
  obtain ⟨r', hopen, hready⟩ := doOpen_ready hcap r content
  constructor
  · rintro ⟨found, r'', hopen', hdelivers⟩
    cases hopen.symm.trans hopen'
    exact hdelivers.unique hready.delivers.1
  · rintro rfl
    exact ⟨_, r', hopen, hready.delivers.1⟩

/-- An opened reader delivers the events of the plain reading of the file and announces
each of them, and opening reports whether there is one. -/
theorem csv_reader_delivers (hcap : 1 ≤ bufferSize) (r : CsvReader num io bufferSize)
    (content : List UInt8) :
    ∃ r', r.doOpen (some content) =
        some (!(decodeAll num r.decoder (dataRows content)).isEmpty, r') ∧
      Delivers r' (decodeAll num r.decoder (dataRows content)) ∧ Announces r' := by
  obtain ⟨r', hopen, hready⟩ := doOpen_ready hcap r content
  exact ⟨r', hopen, hready.delivers⟩

end CsvReader

/-! ## A concrete reader -/

/-- The bytes of an ASCII text. -/
def asciiBytes (text : String) : List UInt8 := text.toList.map Char.toUInt8

/-- Prices without sign, point and exponent, in fixed point with eight decimals. -/
def Numeric.wholePrices : Numeric where
  Double := ℕ
  fromChars := fromCharsDigits
  fromDouble d := d * 100000000

/-- Every read returns one byte. -/
def File.Chunking.byteByByte : File.Chunking where
  count _ room left := min 1 (min room left)
  le_room := by
    intro call room left
    omega
  le_left := by
    intro call room left
    omega
  pos := by
    intro call room left hroom hleft
    omega

/-- A file with a header, a malformed line and a trade on an unterminated last line, read
byte by byte into a buffer of one byte. -/
theorem csv_reader_delivers_byte_by_byte :
    ∃ r' : CsvReader .wholePrices .byteByByte 1,
      ({ decoder := ⟨some {}⟩ } : CsvReader .wholePrices .byteByByte 1).doOpen
        (some (asciiBytes "time,symbol\r\noops\n1,A,T,2,3,B")) = some (true, r') ∧
      Delivers r' [Event.makeTrade 1 1 200000000 3 .buy] := by
  obtain ⟨r', hopen, hdelivers, -⟩ := CsvReader.csv_reader_delivers (le_refl 1)
    ({ decoder := ⟨some {}⟩ } : CsvReader .wholePrices .byteByByte 1)
    (asciiBytes "time,symbol\r\noops\n1,A,T,2,3,B")
  have hevents : decodeAll .wholePrices ⟨some {}⟩
      (dataRows (asciiBytes "time,symbol\r\noops\n1,A,T,2,3,B")) =
        [Event.makeTrade 1 1 200000000 3 .buy] := by
    decide +kernel
  rw [hevents] at hopen hdelivers
  exact ⟨r', hopen, hdelivers⟩

end UltraBacktest
