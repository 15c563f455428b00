import UltraBacktest.Model.BinaryReader
import UltraBacktest.Model.CsvReader
import Mathlib.Logic.Relation

/-! The interface that the readers share. A path is what `fopen` finds there, `none` when
it fails. -/

namespace UltraBacktest

open Stream

class DataReader (ρ : Type*) (ε : outParam (Type*)) extends Source ρ ε where
  openPath : ρ → Option (List UInt8) → Option (Bool × ρ)
  reset : ρ → Option ρ

export DataReader (openPath reset)

instance {eventsPerRead : ℕ} : DataReader (BinaryReader eventsPerRead) (List UInt8) where
  openPath := BinaryReader.doOpen
  reset := BinaryReader.doReset

instance {num : Numeric} {io : File.Chunking} {bufferSize : ℕ} :
    DataReader (CsvReader num io bufferSize) Event where
  openPath := CsvReader.doOpen
  reset := CsvReader.doReset

variable {ρ ε : Type*} [DataReader ρ ε]

instance {ε' : Type*} {f : ε → ε'} : DataReader (Mapped ρ f) ε' where
  openPath r content := (openPath r.source content).map (fun q => (q.1, ⟨q.2⟩))
  reset r := (reset r.source).map Mapped.mk

/-- A call on a reader that does not open a path. -/
inductive Uses : ρ → ρ → Prop
  | read {r r' : ρ} {item : Option ε} (h : readNext r = some (item, r')) : Uses r r'
  | reset {r r' : ρ} (h : reset r = some r') : Uses r r'

/-- A call that does not succeed in opening a path. -/
inductive Idles : ρ → ρ → Prop
  | uses {r r' : ρ} (h : Uses r r') : Idles r r'
  | openFails {r r' : ρ} {content : Option (List UInt8)}
      (h : openPath r content = some (false, r')) : Idles r r'

end UltraBacktest
