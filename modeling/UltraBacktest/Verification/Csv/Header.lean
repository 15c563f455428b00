import UltraBacktest.Verification.Readers.Reset

/-! The first line of a file. Opening and resetting consume it before anything is decoded,
whether it is a header or a row. -/

namespace UltraBacktest

open Stream Relation

/-- The event is what the decoder makes of the line, for some state of the mapper. -/
def DecodedFrom (num : Numeric) (line : List UInt8) (e : Event) : Prop :=
  ∃ d : TickDecoder, (d.decodeCsv num line).1 = some e

/-- Among the events is one for every line, in order. -/
def IncludesEvery (num : Numeric) (lines : List (List UInt8)) (es : List Event) : Prop :=
  ∃ found, found.Sublist es ∧ List.Forall₂ (DecodedFrom num) lines found

/-- The lines of a file that are not empty and that the decoder accepts, the first one
included. -/
def acceptedLines (num : Numeric) (d : TickDecoder) (content : List UInt8) : List (List UInt8) :=
  (plainLines content).filter (fun line => !line.isEmpty && (d.decodeCsv num line).1.isSome)

/-- The state from which a pass over the file starts: after the open or after a reset. -/
def StartsPass {ρ ε : Type*} [DataReader ρ ε] (opened start : ρ) : Prop :=
  start = opened ∨ ∃ r, ReflTransGen Uses opened r ∧ reset r = some start

theorem forall₂_decodeRows (num : Numeric) (d : TickDecoder) (rows : List (List UInt8)) :
    List.Forall₂ (DecodedFrom num) (rows.filter (fun row => Accepts num row))
      (decodeAll num d rows) := by
  induction rows generalizing d with
  | nil => exact List.Forall₂.nil
  | cons row rows ih =>
      rw [decodeAll_cons]
      cases hevent : (d.decodeCsv num row).1 with
      | none =>
          have hrejects : ¬ Accepts num row := by
            rw [accepts_iff_decodeCsv num d, hevent]
            exact Bool.false_ne_true
          rw [List.filter_cons_of_neg (by simpa using hrejects)]
          exact ih _
      | some e =>
          have haccepts : Accepts num row := by
            rw [accepts_iff_decodeCsv num d, hevent]
            rfl
          rw [List.filter_cons_of_pos (by simpa using haccepts)]
          exact List.Forall₂.cons ⟨d, hevent⟩ (ih _)

/-- The accepted lines are the accepted rows behind the first line and, if it is one, the
first line. -/
theorem acceptedLines_eq (num : Numeric) (d : TickDecoder) (content : List UInt8) :
    acceptedLines num d content =
      (plainLines content).head?.toList.filter
          (fun line => !line.isEmpty && (d.decodeCsv num line).1.isSome) ++
        (dataRows content).filter (fun row => Accepts num row) := by
  have hrows : (dataRows content).filter (fun row => Accepts num row) =
      (plainLines content).tail.filter
        (fun line => !line.isEmpty && (d.decodeCsv num line).1.isSome) := by
    rw [dataRows, List.filter_filter]
    apply List.filter_congr
    intro line _
    rw [Bool.and_comm, Bool.eq_iff_iff, Bool.and_eq_true, Bool.and_eq_true, decide_eq_true_iff,
      accepts_iff_decodeCsv num d]
  rw [hrows, ← List.filter_append, acceptedLines]
  cases plainLines content <;> rfl

/-- Every pass over a file, from the open and from every reset, includes an event for every
accepted line exactly when the first line is not one of them. -/
theorem header_skip_harmless_iff {num : Numeric} {io : File.Chunking} {bufferSize : ℕ}
    (hcap : 1 ≤ bufferSize) (r : CsvReader num io bufferSize) (content : List UInt8) :
    (∃ found r', r.doOpen (some content) = some (found, r') ∧
        ∀ start, StartsPass r' start →
          ∃ es, Delivers start es ∧ IncludesEvery num (acceptedLines num r.decoder content) es) ↔
      ∀ first ∈ (plainLines content).head?,
        first.isEmpty ∨ (r.decoder.decodeCsv num first).1 = none := by
  obtain ⟨r', hopen, hready, hfollows⟩ := CsvReader.doOpen_follows hcap r content
  have hevents := forall₂_decodeRows num r.decoder (dataRows content)
  constructor
  · rintro ⟨found, r₁, hopen₁, hpasses⟩ first hfirst
    cases hopen.symm.trans hopen₁
    obtain ⟨es, hdelivers, kept, hsub, hkept⟩ := hpasses r' (Or.inl rfl)
    have hes := hdelivers.unique hready.delivers.1
    have hlength := hsub.length_le
    rw [hes, ← hkept.length_eq, ← hevents.length_eq, acceptedLines_eq, List.length_append,
      hfirst] at hlength
    -- There is no room for an event of the first line.
    by_contra hdata
    rw [not_or, Bool.not_eq_true] at hdata
    have hsome := Option.isSome_iff_ne_none.mpr hdata.2
    rw [Option.toList_some, List.filter_cons_of_pos (by simp [hdata.1, hsome])] at hlength
    simp only [List.filter_nil, List.length_singleton] at hlength
    omega
  · intro hfirst
    have hlines : acceptedLines num r.decoder content =
        (dataRows content).filter (fun row => Accepts num row) := by
      have hnone : (plainLines content).head?.toList.filter
          (fun line => !line.isEmpty && (r.decoder.decodeCsv num line).1.isSome) = [] := by
        rw [List.filter_eq_nil_iff]
        intro line hline
        rcases hfirst line (Option.mem_toList.mp hline) with hempty | hrejects
        · simp [hempty]
        · simp [hrejects]
      rw [acceptedLines_eq, hnone, List.nil_append]
    refine ⟨_, r', hopen, fun start hstart => ?_⟩
    refine ⟨_, ?_, _, List.Sublist.refl _, hlines ▸ hevents⟩
    rcases hstart with rfl | ⟨r'', hcalls, hreset⟩
    · exact hready.delivers.1
    · obtain ⟨again, hagain, hready', -⟩ := (hfollows.uses hcalls).doReset
      cases hreset.symm.trans hagain
      exact hready'.delivers.1

/-- A header is not a row, and the rows behind it are all there. -/
theorem header_skip_harmless_header :
    ∃ found r', ({ decoder := ⟨some {}⟩ } : CsvReader .wholePrices .byteByByte 1).doOpen
        (some (asciiBytes "time,symbol\n1,A,T,2,3,B\n")) = some (found, r') ∧
      ∀ start, StartsPass r' start → ∃ es, Delivers start es ∧
        IncludesEvery .wholePrices (acceptedLines .wholePrices ⟨some {}⟩
          (asciiBytes "time,symbol\n1,A,T,2,3,B\n")) es := by
  refine (header_skip_harmless_iff (le_refl 1) _ _).mpr fun first hfirst => Or.inr ?_
  have hheader : (plainLines (asciiBytes "time,symbol\n1,A,T,2,3,B\n")).head? =
      some (asciiBytes "time,symbol") := by decide +kernel
  cases hheader.symm.trans hfirst
  decide +kernel

/-- Without a header the first row is lost: the file has two rows, and the one event that
is delivered is the second row's. -/
theorem headerless_file_loses_row :
    acceptedLines .wholePrices ⟨some {}⟩ (asciiBytes "1,A,T,2,3,B\n4,A,T,2,3,B\n") =
        [asciiBytes "1,A,T,2,3,B", asciiBytes "4,A,T,2,3,B"] ∧
      ∃ r', ({ decoder := ⟨some {}⟩ } : CsvReader .wholePrices .byteByByte 1).doOpen
          (some (asciiBytes "1,A,T,2,3,B\n4,A,T,2,3,B\n")) = some (true, r') ∧
        Delivers r' [Event.makeTrade 4 1 200000000 3 .buy] ∧
        ¬ ∃ es, Delivers r' es ∧
          IncludesEvery .wholePrices (acceptedLines .wholePrices ⟨some {}⟩
            (asciiBytes "1,A,T,2,3,B\n4,A,T,2,3,B\n")) es := by
  have hlines : acceptedLines .wholePrices ⟨some {}⟩
      (asciiBytes "1,A,T,2,3,B\n4,A,T,2,3,B\n") =
        [asciiBytes "1,A,T,2,3,B", asciiBytes "4,A,T,2,3,B"] := by
    decide +kernel
  have hevents : decodeAll .wholePrices ⟨some {}⟩
      (dataRows (asciiBytes "1,A,T,2,3,B\n4,A,T,2,3,B\n")) =
        [Event.makeTrade 4 1 200000000 3 .buy] := by
    decide +kernel
  obtain ⟨r', hopen, hready, -⟩ := CsvReader.doOpen_follows (le_refl 1)
    ({ decoder := ⟨some {}⟩ } : CsvReader .wholePrices .byteByByte 1)
    (asciiBytes "1,A,T,2,3,B\n4,A,T,2,3,B\n")
  rw [hevents] at hopen hready
  refine ⟨hlines, r', hopen, hready.delivers.1, ?_⟩
  rintro ⟨es, hdelivers, kept, hsub, hkept⟩
  rw [hdelivers.unique hready.delivers.1] at hsub
  have hlength := hsub.length_le
  rw [← hkept.length_eq, hlines] at hlength
  exact absurd hlength (by decide)

end UltraBacktest
