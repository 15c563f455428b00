import UltraBacktest.Model.DataReader
import UltraBacktest.Verification.Binary.Passes
import UltraBacktest.Verification.Csv.Passes

/-! A reset replays the stream, for both readers and from wherever they stand. -/

namespace UltraBacktest

open Stream Relation

/-- Once the reader has found a file, a reset in whatever state delivers again what the pass
from the open delivers. -/
def ReplaysOnReset (ρ : Type*) {ε : Type*} [DataReader ρ ε] : Prop :=
  ∀ (r : ρ) (content : List UInt8), ∃ opened r' es,
    openPath r (some content) = some (opened, r') ∧ Delivers r' es ∧
      ∀ r'', ReflTransGen Uses r' r'' → ∃ again, reset r'' = some again ∧ Delivers again es

/-- Once the reader has found a file it delivers these items of its content, and again after
a reset in whatever state. -/
def ReplaysFile {ρ ε : Type*} [DataReader ρ ε] (items : ρ → List UInt8 → List ε) : Prop :=
  ∀ (r : ρ) (content : List UInt8), ∃ r',
    openPath r (some content) = some (!(items r content).isEmpty, r') ∧
      Delivers r' (items r content) ∧
      ∀ r'', ReflTransGen Uses r' r'' →
        ∃ again, reset r'' = some again ∧ Delivers again (items r content)

theorem ReplaysFile.replaysOnReset {ρ ε : Type*} [DataReader ρ ε]
    {items : ρ → List UInt8 → List ε} (h : ReplaysFile items) : ReplaysOnReset ρ := by
  intro r content
  obtain ⟨r', hopen, hdelivers, hagain⟩ := h r content
  exact ⟨_, r', _, hopen, hdelivers, hagain⟩

/-- A property of the state that survives every read and every reset. -/
theorem uses_invariant {ρ ε : Type*} [DataReader ρ ε] {P : ρ → Prop}
    (hread : ∀ r r' item, P r → readNext r = some (item, r') → P r')
    (hreset : ∀ r r' : ρ, P r → reset r = some r' → P r') {r r' : ρ} (h : P r)
    (hcalls : ReflTransGen Uses r r') : P r' := by
  induction hcalls with
  | refl => exact h
  | tail _ hcall ih =>
      cases hcall with
      | read hnext => exact hread _ _ _ ih hnext
      | reset hback => exact hreset _ _ ih hback

theorem BinaryReader.replaysFile {eventsPerRead : ℕ} (hcap : 1 ≤ eventsPerRead) :
    ReplaysFile (fun (_ : BinaryReader eventsPerRead) content =>
      Blocks.blocks recordSize content) := by
  intro r content
  obtain ⟨r', hopen, hready, hcontent⟩ := doOpen_content hcap r content
  have hdelivers : ∀ q : BinaryReader eventsPerRead,
      q.Ready (Blocks.blocks recordSize content) →
        Delivers q (Blocks.blocks recordSize content) :=
    fun q hq => (hq.delivers (fun _ => rfl) (fun _ _ => advance_ready hcap)).1
  refine ⟨r', hopen, hdelivers r' hready, fun r'' hcalls => ?_⟩
  have hcontent' : r''.file.map File.content = some content := by
    apply uses_invariant (P := fun q => q.file.map File.content = some content) _ _ hcontent
      hcalls
    · intro q q' item hq hnext
      rw [doReadNext_content hnext, hq]
    · intro q q' hq hback
      obtain ⟨again, hagain, -, hkept⟩ := doReset_content hcap hq
      cases hback.symm.trans hagain
      exact hkept
  obtain ⟨again, hagain, hready', -⟩ := doReset_content hcap hcontent'
  exact ⟨again, hagain, hdelivers again hready'⟩

namespace CsvReader

variable {num : Numeric} {io : File.Chunking} {bufferSize : ℕ}

theorem Follows.doReadNext {d₀ : TickDecoder} {content : List UInt8}
    {r r' : CsvReader num io bufferSize} (h : r.Follows d₀ content) {item : Option Event}
    (hnext : r.doReadNext = some (item, r')) : r'.Follows d₀ content := by
  cases hhas : r.hasNext with
  | false =>
      cases (readLookahead_of_not_ready hhas).symm.trans hnext
      exact h
  | true =>
      obtain ⟨a, hadvance, heq⟩ :=
        Option.map_eq_some_iff.mp ((readLookahead_of_ready hhas).symm.trans hnext)
      cases heq
      exact h.advance hadvance

/-- Reads and resets keep the reader in step with the first pass. -/
theorem Follows.uses {d₀ : TickDecoder} {content : List UInt8}
    {r r' : CsvReader num io bufferSize} (h : r.Follows d₀ content)
    (hcalls : ReflTransGen Uses r r') : r'.Follows d₀ content := by
  refine uses_invariant (fun q q' item hq hnext => hq.doReadNext hnext) ?_ h hcalls
  intro q q' hq hback
  obtain ⟨again, hagain, -, hkept⟩ := hq.doReset
  cases hback.symm.trans hagain
  exact hkept

theorem replaysFile (hcap : 1 ≤ bufferSize) :
    ReplaysFile (fun (r : CsvReader num io bufferSize) content =>
      decodeAll num r.decoder (dataRows content)) := by
  intro r content
  obtain ⟨r', hopen, hready, hfollows⟩ := doOpen_follows hcap r content
  refine ⟨r', hopen, hready.delivers.1, fun r'' hcalls => ?_⟩
  obtain ⟨again, hagain, hready', -⟩ := (hfollows.uses hcalls).doReset
  exact ⟨again, hagain, hready'.delivers.1⟩

end CsvReader

theorem reset_replays_stream :
    (∀ eventsPerRead, 1 ≤ eventsPerRead → ReplaysOnReset (BinaryReader eventsPerRead)) ∧
      ∀ num io bufferSize, 1 ≤ bufferSize → ReplaysOnReset (CsvReader num io bufferSize) :=
  ⟨fun _ hcap => (BinaryReader.replaysFile hcap).replaysOnReset,
    fun _ _ _ hcap => (CsvReader.replaysFile hcap).replaysOnReset⟩

/-- The readers with the capacities they are compiled with. -/
theorem reset_replays_compiled_capacities :
    ReplaysOnReset (BinaryReader 65536) ∧
      ReplaysOnReset (CsvReader .wholePrices .byteByByte (256 * 1024)) :=
  ⟨reset_replays_stream.1 65536 (by decide),
    reset_replays_stream.2 .wholePrices .byteByByte (256 * 1024) (by decide)⟩

end UltraBacktest
