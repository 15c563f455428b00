import UltraBacktest.Library.Stream
import UltraBacktest.Model.Stdio

/-! The reader of binary event files. Events are moved as raw memory, so an event is the
bytes of its record here. -/

namespace UltraBacktest

open Stream

/-- `sizeof(Event)`. -/
def recordSize : ℕ := 64

/-- The bytes of a default event: everything zero but the type code `EndOfData`. -/
def defaultRecord : List UInt8 := List.replicate 12 0 ++ 255 :: List.replicate 51 0

/-- The parameter is the chunk capacity `EVENTS_PER_READ`. -/
structure BinaryReader (eventsPerRead : ℕ) where
  file : Option File := none
  buffer : List (List UInt8) := []
  bufferIdx : ℕ := 0
  bufferCount : ℕ := 0
  isEof : Bool := false
  nextEvent : List UInt8 := defaultRecord
  hasNext : Bool := false
  deriving DecidableEq, Repr

namespace BinaryReader

variable {eventsPerRead : ℕ}

/-- The tail of `advance`; `none` where the buffer would be read out of bounds. -/
def fetch (r : BinaryReader eventsPerRead) : Option (Bool × BinaryReader eventsPerRead) :=
  (r.buffer[r.bufferIdx]?).map (fun e =>
    (true, { r with nextEvent := e, bufferIdx := r.bufferIdx + 1, hasNext := true }))

/-- Read the next chunk over the buffer. -/
def readChunk (r : BinaryReader eventsPerRead) (file : File) : BinaryReader eventsPerRead :=
  let (items, file) := file.freadItems recordSize eventsPerRead
  { r with
    file := some file
    buffer := overwrite r.buffer 0 items
    bufferCount := items.length
    bufferIdx := 0 }

/-- Load the next event; `none` where the source reads from a null stream. -/
def advance (r : BinaryReader eventsPerRead) : Option (Bool × BinaryReader eventsPerRead) :=
  if r.bufferIdx ≥ r.bufferCount then
    if r.isEof then some (false, { r with hasNext := false })
    else
      r.file.bind (fun file =>
        let r := r.readChunk file
        if r.bufferCount = 0 then some (false, { r with isEof := true, hasNext := false })
        else if r.bufferCount < eventsPerRead then fetch { r with isEof := true }
        else fetch r)
  else fetch r

/-- Open a path; `content` is what `fopen` finds there, `none` when it fails. -/
def doOpen (r : BinaryReader eventsPerRead) (content : Option (List UInt8)) :
    Option (Bool × BinaryReader eventsPerRead) :=
  match content with
  | none => some (false, { r with file := none })
  | some content =>
      advance { r with
        file := some { content := content }
        buffer := resize r.buffer eventsPerRead defaultRecord
        bufferIdx := 0
        bufferCount := 0
        isEof := false }

def doReadNext (r : BinaryReader eventsPerRead) :
    Option (Option (List UInt8) × BinaryReader eventsPerRead) :=
  readLookahead hasNext nextEvent advance r

def doReset (r : BinaryReader eventsPerRead) : Option (BinaryReader eventsPerRead) :=
  match r.file with
  | none => some r
  | some file =>
      (advance { r with
        file := some file.rewind
        bufferIdx := 0
        bufferCount := 0
        isEof := false }).map Prod.snd

instance : Source (BinaryReader eventsPerRead) (List UInt8) where
  hasNext := BinaryReader.hasNext
  readNext := doReadNext

end BinaryReader

end UltraBacktest
