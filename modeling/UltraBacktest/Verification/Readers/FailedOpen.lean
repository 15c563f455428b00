import UltraBacktest.Verification.Readers.Reset

/-! What an open that fails leaves behind. An open that finds a file without events empties
the lookahead; one that finds no file closes the old file and leaves the lookahead as it
is. -/

namespace UltraBacktest

open Stream Relation

/-- Whatever is called, no event is announced or delivered until an open succeeds. -/
def NothingToRead {ρ ε : Type*} [DataReader ρ ε] (r : ρ) : Prop :=
  ∀ r', ReflTransGen Idles r r' → hasNext r' = false ∧ Exhausted r'

/-- A property of the state that keeps the lookahead empty and survives every call but a
successful open. -/
theorem nothingToRead_of_invariant {ρ ε : Type*} [DataReader ρ ε] {P : ρ → Prop}
    (hempty : ∀ r : ρ, P r → hasNext r = false ∧ Exhausted r)
    (hreset : ∀ r r' : ρ, P r → reset r = some r' → P r')
    (hopen : ∀ (r r' : ρ) content, P r → openPath r content = some (false, r') → P r')
    {r : ρ} (h : P r) : NothingToRead r := by
  intro r' hcalls
  apply hempty
  induction hcalls with
  | refl => exact h
  | tail _ hcall ih =>
      cases hcall with
      | openFails hfails => exact hopen _ _ _ ih hfails
      | uses huse =>
          cases huse with
          | reset hback => exact hreset _ _ ih hback
          | read hnext =>
              have hsame := hnext.symm.trans (hempty _ ih).2
              cases hsame
              exact ih

namespace BinaryReader

variable {eventsPerRead : ℕ}

/-- The lookahead is empty, and so is the file if there is one. -/
structure Barren (r : BinaryReader eventsPerRead) : Prop where
  hasNext_eq : r.hasNext = false
  no_records : ∀ f ∈ r.file, Blocks.blocks recordSize f.content = []

theorem barren_of_ready {r : BinaryReader eventsPerRead} {content : List UInt8}
    (hready : r.Ready (Blocks.blocks recordSize content))
    (hcontent : r.file.map File.content = some content)
    (hnone : Blocks.blocks recordSize content = []) : r.Barren := by
  rw [hnone] at hready
  refine ⟨hready, fun f hf => ?_⟩
  rw [hf, Option.map_some, Option.some_inj] at hcontent
  rw [hcontent, hnone]

theorem barren_of_doOpen_some (hcap : 1 ≤ eventsPerRead) {r r' : BinaryReader eventsPerRead}
    {content : List UInt8} (h : r.doOpen (some content) = some (false, r')) : r'.Barren := by
  obtain ⟨r₁, hopen, hready, hcontent⟩ := doOpen_content hcap r content
  cases hstate : Blocks.blocks recordSize content with
  | nil =>
      rw [hstate] at hopen
      cases hopen.symm.trans h
      exact barren_of_ready hready hcontent hstate
  | cons e es =>
      rw [hstate] at hopen
      cases hopen.symm.trans h

theorem Barren.nothingToRead (hcap : 1 ≤ eventsPerRead) {r : BinaryReader eventsPerRead}
    (h : r.Barren) : NothingToRead r := by
  refine nothingToRead_of_invariant (fun q hq => ?_) (fun q q' hq hback => ?_)
    (fun q q' content hq hfails => ?_) h
  · exact ⟨hq.hasNext_eq, readLookahead_of_not_ready hq.hasNext_eq⟩
  · cases hfile : q.file with
    | none =>
        have hsame : q.doReset = some q := by rw [doReset, hfile]
        cases hback.symm.trans hsame
        exact hq
    | some f =>
        obtain ⟨again, hagain, hready, hcontent⟩ := doReset_content hcap
          (show q.file.map File.content = some f.content by rw [hfile]; rfl)
        cases hback.symm.trans hagain
        exact barren_of_ready hready hcontent (hq.no_records f hfile)
  · cases content with
    | some content => exact barren_of_doOpen_some hcap hfails
    | none =>
        cases hfails
        exact ⟨hq.hasNext_eq, fun f hf => by cases hf⟩

end BinaryReader

namespace CsvReader

variable {num : Numeric} {io : File.Chunking} {bufferSize : ℕ}

/-- The lookahead is empty, and so is every pass over the file if there is one. -/
structure Barren (r : CsvReader num io bufferSize) : Prop where
  hasNext_eq : r.hasNext = false
  no_events : r.file = none ∨
    ∃ d₀ content, r.Follows d₀ content ∧ decodeAll num d₀ (dataRows content) = []

theorem barren_of_ready {r : CsvReader num io bufferSize} {d₀ : TickDecoder}
    {content : List UInt8} (hready : r.Ready (decodeAll num d₀ (dataRows content)))
    (hfollows : r.Follows d₀ content) (hnone : decodeAll num d₀ (dataRows content) = []) :
    r.Barren := by
  rw [hnone] at hready
  exact ⟨hready, Or.inr ⟨d₀, content, hfollows, hnone⟩⟩

theorem barren_of_doOpen_some (hcap : 1 ≤ bufferSize) {r r' : CsvReader num io bufferSize}
    {content : List UInt8} (h : r.doOpen (some content) = some (false, r')) : r'.Barren := by
  obtain ⟨r₁, hopen, hready, hfollows⟩ := doOpen_follows hcap r content
  cases hstate : decodeAll num r.decoder (dataRows content) with
  | nil =>
      rw [hstate] at hopen
      cases hopen.symm.trans h
      exact barren_of_ready hready hfollows hstate
  | cons e es =>
      rw [hstate] at hopen
      cases hopen.symm.trans h

theorem Barren.nothingToRead (hcap : 1 ≤ bufferSize) {r : CsvReader num io bufferSize}
    (h : r.Barren) : NothingToRead r := by
  refine nothingToRead_of_invariant (fun q hq => ?_) (fun q q' hq hback => ?_)
    (fun q q' content hq hfails => ?_) h
  · exact ⟨hq.hasNext_eq, readLookahead_of_not_ready hq.hasNext_eq⟩
  · rcases hq.no_events with hfile | ⟨d₀, content, hfollows, hnone⟩
    · have hsame : q.doReset = some q := by rw [doReset, hfile]
      cases hback.symm.trans hsame
      exact hq
    · obtain ⟨again, hagain, hready, hkept⟩ := hfollows.doReset
      cases hback.symm.trans hagain
      exact barren_of_ready hready hkept hnone
  · cases content with
    | some content => exact barren_of_doOpen_some hcap hfails
    | none =>
        cases hfails
        exact ⟨hq.hasNext_eq, Or.inl rfl⟩

end CsvReader

/-! ## Both readers -/

/-- After an open that fails, in whatever state it is made, there is nothing to read exactly
when the file was found or no event was pending before. -/
def FailedOpenIsSafeIff (ρ : Type*) {ε : Type*} [DataReader ρ ε] : Prop :=
  ∀ (r r' : ρ) (content : Option (List UInt8)), openPath r content = some (false, r') →
    (NothingToRead r' ↔ content.isSome ∨ hasNext r = false)

theorem failedOpenIsSafeIff_of_cases {ρ ε : Type*} [DataReader ρ ε]
    (hfound : ∀ (r r' : ρ) content, openPath r (some content) = some (false, r') →
      NothingToRead r')
    (hkeeps : ∀ r r' : ρ, openPath r none = some (false, r') → hasNext r' = hasNext r)
    (hmissing : ∀ r r' : ρ, openPath r none = some (false, r') → hasNext r = false →
      NothingToRead r') : FailedOpenIsSafeIff ρ := by
  intro r r' content hfails
  cases content with
  | some content => exact ⟨fun _ => Or.inl rfl, fun _ => hfound r r' content hfails⟩
  | none =>
      constructor
      · intro h
        rw [← hkeeps r r' hfails]
        exact Or.inr (h r' ReflTransGen.refl).1
      · rintro (hsome | hnext)
        · cases hsome
        · exact hmissing r r' hfails hnext

theorem BinaryReader.failedOpenIsSafeIff {eventsPerRead : ℕ} (hcap : 1 ≤ eventsPerRead) :
    FailedOpenIsSafeIff (BinaryReader eventsPerRead) := by
  apply failedOpenIsSafeIff_of_cases
  · intro r r' content hfails
    exact (barren_of_doOpen_some hcap hfails).nothingToRead hcap
  · intro r r' hfails
    cases hfails
    rfl
  · intro r r' hfails hnext
    cases hfails
    apply Barren.nothingToRead hcap
    exact ⟨hnext, fun f hf => by cases hf⟩

theorem CsvReader.failedOpenIsSafeIff {num : Numeric} {io : File.Chunking} {bufferSize : ℕ}
    (hcap : 1 ≤ bufferSize) : FailedOpenIsSafeIff (CsvReader num io bufferSize) := by
  apply failedOpenIsSafeIff_of_cases
  · intro r r' content hfails
    exact (barren_of_doOpen_some hcap hfails).nothingToRead hcap
  · intro r r' hfails
    cases hfails
    rfl
  · intro r r' hfails hnext
    cases hfails
    apply Barren.nothingToRead hcap
    exact ⟨hnext, Or.inl rfl⟩

theorem failed_open_safe_iff {eventsPerRead bufferSize : ℕ} (hrecords : 1 ≤ eventsPerRead)
    (hbytes : 1 ≤ bufferSize) (num : Numeric) (io : File.Chunking) :
    FailedOpenIsSafeIff (BinaryReader eventsPerRead) ∧
      FailedOpenIsSafeIff (CsvReader num io bufferSize) :=
  ⟨BinaryReader.failedOpenIsSafeIff hrecords, CsvReader.failedOpenIsSafeIff hbytes⟩

/-- An empty file is found and fails to open. -/
theorem failed_open_safe_empty_file :
    ∃ r' : BinaryReader 2, openPath ({} : BinaryReader 2) (some []) = some (false, r') ∧
      NothingToRead r' := by
  have hsafe := failed_open_safe_iff (show 1 ≤ 2 by decide) (le_refl 1) .wholePrices .byteByByte
  exact ⟨_, rfl, (hsafe.1 {} _ (some []) rfl).mpr (Or.inl rfl)⟩

/-- With a file open in either reader, a path that is not there fails to open; the record
that was pending is delivered all the same. -/
theorem missing_file_keeps_events :
    (∃ r r' r'' : BinaryReader 2,
        openPath ({} : BinaryReader 2) (some (List.replicate 64 7)) = some (true, r) ∧
          openPath r none = some (false, r') ∧ ¬ NothingToRead r' ∧
          readNext r' = some (some (List.replicate 64 7), r'')) ∧
      ∃ r r' : CsvReader .wholePrices .byteByByte 4,
        openPath ({ decoder := ⟨some {}⟩ } : CsvReader .wholePrices .byteByByte 4)
            (some (asciiBytes "time,symbol\n1,A,T,2,3,B\n")) = some (true, r) ∧
          openPath r none = some (false, r') ∧ ¬ NothingToRead r' := by
  constructor
  · refine ⟨_, _, _, rfl, rfl, ?_, rfl⟩
    intro h
    cases (h _ ReflTransGen.refl).1
  · obtain ⟨r, hopen, hready, -⟩ := CsvReader.doOpen_follows (show 1 ≤ 4 by decide)
      ({ decoder := ⟨some {}⟩ } : CsvReader .wholePrices .byteByByte 4)
      (asciiBytes "time,symbol\n1,A,T,2,3,B\n")
    have hevents : decodeAll .wholePrices ⟨some {}⟩
        (dataRows (asciiBytes "time,symbol\n1,A,T,2,3,B\n")) =
          [Event.makeTrade 1 1 200000000 3 .buy] := by
      decide +kernel
    rw [hevents] at hopen hready
    refine ⟨r, _, hopen, rfl, fun h => ?_⟩
    cases hready.1.symm.trans (h _ ReflTransGen.refl).1

end UltraBacktest
