import UltraBacktest.Library.Stream
import UltraBacktest.Model.Stdio
import UltraBacktest.Model.TickDecoder

/-! The buffered CSV reader. The buffer is the whole vector, and the positions delimit the
bytes in it that are not yet consumed. -/

namespace UltraBacktest

open Stream

/-- The parameters are number parsing, the behaviour of `fread`, and the initial buffer
capacity `BUFFER_SIZE`. -/
structure CsvReader (num : Numeric) (io : File.Chunking) (bufferSize : ℕ) where
  file : Option File := none
  decoder : TickDecoder
  buffer : List UInt8 := []
  bufferPos : ℕ := 0
  bufferEnd : ℕ := 0
  isEof : Bool := false
  nextEvent : Event := default
  hasNext : Bool := false

namespace CsvReader

variable {num : Numeric} {io : File.Chunking} {bufferSize : ℕ}

/-- The bytes between `start` and `end`. -/
def view (r : CsvReader num io bufferSize) : List UInt8 :=
  (r.buffer.drop r.bufferPos).take (r.bufferEnd - r.bufferPos)

/-- The buffer after the remainder is moved to the front and, if that fills the buffer,
its capacity is doubled. -/
def makeRoom (r : CsvReader num io bufferSize) : List UInt8 :=
  let rem := r.bufferEnd - r.bufferPos
  let buffer := if rem > 0 ∧ r.bufferPos > 0 then overwrite r.buffer 0 r.view else r.buffer
  if rem = buffer.length then resize buffer (buffer.length * 2) 0 else buffer

/-- Read more bytes behind the remainder. -/
def refill (r : CsvReader num io bufferSize) (file : File) : CsvReader num io bufferSize :=
  let rem := r.bufferEnd - r.bufferPos
  let buffer := r.makeRoom
  let (bytes, file) := file.fread io (buffer.length - rem)
  { r with
    file := some file
    buffer := overwrite buffer rem bytes
    bufferPos := 0
    bufferEnd := rem + bytes.length
    isEof := if bytes.length = 0 then true else r.isEof }

/-- The bytes of the file that are not yet in the buffer. -/
def remaining (r : CsvReader num io bufferSize) : ℕ := r.file.elim 0 (fun f => f.rest.length)

/-- The bytes not yet consumed, in the buffer and in the file. -/
def unread (r : CsvReader num io bufferSize) : ℕ := (r.bufferEnd - r.bufferPos) + r.remaining

theorem length_fread (io : File.Chunking) (f : File) (room : ℕ) :
    (f.fread io room).1.length + (f.fread io room).2.rest.length = f.rest.length := by
  rw [← List.length_append, File.fread_append_rest]

/-- A refill moves bytes from the file to the buffer. -/
theorem unread_refill {r : CsvReader num io bufferSize} {f : File} (hf : r.file = some f) :
    (r.refill f).unread = r.unread := by
  have hlen := length_fread io f (r.makeRoom.length - (r.bufferEnd - r.bufferPos))
  simp only [unread, remaining, refill, hf, Option.elim_some]
  omega

/-- The reads still to come: one for every byte left, and one to see the end of the file. -/
def pendingReads (r : CsvReader num io bufferSize) : ℕ :=
  r.remaining + if r.isEof then 0 else 1

theorem pendingReads_refill {r : CsvReader num io bufferSize} {f : File}
    (hf : r.file = some f) (heof : r.isEof = false) :
    (r.refill f).pendingReads < r.pendingReads := by
  have hlen := length_fread io f (r.makeRoom.length - (r.bufferEnd - r.bufferPos))
  by_cases hnone : (f.fread io (r.makeRoom.length - (r.bufferEnd - r.bufferPos))).1.length = 0
  · simp [pendingReads, remaining, refill, hf, heof, hnone]
    omega
  · simp [pendingReads, remaining, refill, hf, heof, hnone]
    omega

/-- The loop of `read_line`. The result is `none` where a null stream would be read. -/
def scan (r : CsvReader num io bufferSize) :
    Option (Option (List UInt8) × CsvReader num io bufferSize) :=
  match memchr r.view 10 with
  | some len =>
      let line := r.view.take len
      let line := if line.getLast? = some 13 then line.dropLast else line
      some (some line, { r with bufferPos := r.bufferPos + (len + 1) })
  | none =>
      if _ : r.isEof then
        let len := r.bufferEnd - r.bufferPos
        if len > 0 then some (some r.view, { r with bufferPos := r.bufferPos + len })
        else some (none, r)
      else
        match _ : r.file with
        | none => none
        | some file => scan (r.refill file)
termination_by r.pendingReads
decreasing_by
  rename_i heof hfile
  exact pendingReads_refill hfile (Bool.eq_false_iff.mpr heof)

def readLine (r : CsvReader num io bufferSize) :
    Option (Option (List UInt8) × CsvReader num io bufferSize) :=
  if r.bufferPos ≥ r.bufferEnd ∧ r.isEof then some (none, r) else scan r

theorem lt_length_of_memchr {s : List UInt8} {c : UInt8} {i : ℕ} (h : memchr s c = some i) :
    i < s.length := by
  obtain ⟨hlt, -⟩ := List.findIdx?_eq_some_iff_getElem.mp h
  exact hlt

theorem unread_scan {r r' : CsvReader num io bufferSize} {line : List UInt8}
    (h : r.scan = some (some line, r')) : r'.unread < r.unread := by
  fun_induction scan r with
  | case1 r len hnl _ _ =>
      have hlt := lt_length_of_memchr hnl
      rw [view, List.length_take] at hlt
      obtain ⟨-, rfl⟩ := Prod.mk.inj (Option.some.inj h)
      simp only [unread, remaining]
      omega
  | case2 r hnl heof _ hlen =>
      cases h
      simp only [unread, remaining]
      omega
  | case3 r hnl heof _ hlen => cases h
  | case4 r hnl heof hfile => cases h
  | case5 r hnl heof file hfile ih =>
      rw [← unread_refill hfile]
      exact ih h

theorem unread_readLine {r r' : CsvReader num io bufferSize} {line : List UInt8}
    (h : r.readLine = some (some line, r')) : r'.unread < r.unread := by
  rw [readLine] at h
  split at h
  · cases h
  · exact unread_scan h

/-- The loop of `advance`: the first line that decodes. -/
def advanceLoop (r : CsvReader num io bufferSize) :
    Option (Bool × CsvReader num io bufferSize) :=
  match _ : r.readLine with
  | none => none
  | some (none, r) => some (false, r)
  | some (some line, r) =>
      if line.isEmpty then advanceLoop r
      else
        match r.decoder.decodeCsv num line with
        | (some event, decoder) =>
            some (true, { r with decoder := decoder, nextEvent := event, hasNext := true })
        | (none, decoder) => advanceLoop { r with decoder := decoder }
termination_by r.unread
decreasing_by
  · rename_i hline _
    exact unread_readLine hline
  · rename_i hline _
    have hless := unread_readLine hline
    exact hless

def advance (r : CsvReader num io bufferSize) : Option (Bool × CsvReader num io bufferSize) :=
  advanceLoop { r with hasNext := false }

/-- Open a path; `content` is what `fopen` finds there, `none` when it fails. The first line
is skipped. -/
def doOpen (r : CsvReader num io bufferSize) (content : Option (List UInt8)) :
    Option (Bool × CsvReader num io bufferSize) :=
  match content with
  | none => some (false, { r with file := none })
  | some content =>
      (readLine { r with
        file := some { content := content }
        buffer := resize r.buffer bufferSize 0
        bufferPos := 0
        bufferEnd := 0
        isEof := false }).bind (fun header => header.2.advance)

def doReadNext (r : CsvReader num io bufferSize) :
    Option (Option Event × CsvReader num io bufferSize) :=
  readLookahead hasNext nextEvent advance r

def doReset (r : CsvReader num io bufferSize) : Option (CsvReader num io bufferSize) :=
  match r.file with
  | none => some r
  | some file =>
      (readLine { r with
        file := some file.rewind
        bufferPos := 0
        bufferEnd := 0
        isEof := false }).bind (fun header => header.2.advance.map Prod.snd)

instance : Source (CsvReader num io bufferSize) Event where
  hasNext := CsvReader.hasNext
  readNext := doReadNext

end CsvReader

end UltraBacktest
