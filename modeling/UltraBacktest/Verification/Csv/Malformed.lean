import UltraBacktest.Verification.Csv.Symbols

/-! What a rejected line does to the events around it. A line that is rejected after the
symbol lookup has already registered its name, and shifts the ids of names seen later. -/

namespace UltraBacktest

open Stream FirstSeen

/-! ## Comparing two numberings -/

/-- The events of a reader with a fresh mapper that opens this content. -/
def Yields (num : Numeric) (io : File.Chunking) (bufferSize : ℕ) (content : List UInt8)
    (es : List Event) : Prop :=
  ∃ opened r', ({ decoder := ⟨some {}⟩ } : CsvReader num io bufferSize).doOpen (some content) =
    some (opened, r') ∧ Delivers r' es

theorem yields_iff {num : Numeric} {io : File.Chunking} {bufferSize : ℕ}
    (hcap : 1 ≤ bufferSize) (content : List UInt8) (es : List Event) :
    Yields num io bufferSize content es ↔
      es = decodeAll num ⟨some {}⟩ (dataRows content) :=
  CsvReader.opens_iff hcap { decoder := ⟨some {}⟩ } content es

/-- Two numberings give the same events when they agree on the accepted rows. -/
theorem filterMap_rowEvent_eq_iff (num : Numeric) (f g : List UInt8 → Symbol)
    (rows : List (List UInt8)) :
    rows.filterMap (rowEvent num f) = rows.filterMap (rowEvent num g) ↔
      ∀ row ∈ rows, Accepts num row → ∀ name ∈ rowName row, f name = g name := by
  induction rows with
  | nil => simp
  | cons row rows ih =>
      rw [List.forall_mem_cons, ← ih]
      by_cases haccepts : Accepts num row
      · obtain ⟨name, e, hname, hevent⟩ := haccepts.exists_rowEvent
        rw [List.filterMap_cons_some (hevent f), List.filterMap_cons_some (hevent g),
          List.cons.injEq]
        have hhead : ({ e with symbol := f name } : Event) = { e with symbol := g name } ↔
            f name = g name := by
          constructor
          · intro h
            exact congrArg Event.symbol h
          · intro h
            rw [h]
        rw [hhead]
        simp [haccepts, hname]
      · rw [List.filterMap_cons_none (rowEvent_eq_none haccepts f),
          List.filterMap_cons_none (rowEvent_eq_none haccepts g)]
        simp [haccepts]

theorem symbolId_note {seen : List (List UInt8)} {name : List UInt8} (h : name ∈ seen)
    (n : List UInt8) : symbolId (note seen n) name = symbolId seen name :=
  symbolId_of_seen h [n]

/-- Seeing a new name earlier keeps the id of a later name exactly when that name comes
after it anyway, or is the name itself and keeps its place modulo `2 ^ 32`. -/
theorem symbolId_earlier_iff {seen names : List (List UInt8)} {n m : List UInt8}
    (hn : n ∉ seen) (hm : m ∉ seen) (hmem : m ∈ names) :
    symbolId (order seen names) m = symbolId (order (note seen n) names) m ↔
      (added seen names).idxOf n < (added seen names).idxOf m ∨
        (m = n ∧ (added seen names).idxOf n % 2 ^ 32 = 0) := by
  have hadded : m ∈ added seen names := by
    have horder : m ∈ order seen names := mem_order.mpr (Or.inr hmem)
    rw [order_eq_append, List.mem_append] at horder
    exact horder.resolve_left hm
  rw [← UInt32.toNat_inj, toNat_symbolId, toNat_symbolId, note_of_not_mem hn,
    order_of_earlier hn, order_eq_append, List.idxOf_append_of_notMem hm,
    List.idxOf_append_of_notMem hm]
  by_cases heq : m = n
  · subst heq
    rw [List.idxOf_cons_self]
    simp only [true_and]
    omega
  · rw [List.idxOf_cons_ne _ (Ne.symm heq)]
    rcases lt_trichotomy ((added seen names).idxOf m) ((added seen names).idxOf n) with
      hlt | hsame | hgt
    · rw [idxOf_erase_of_lt hlt]
      simp only [heq, false_and, or_false]
      omega
    · exact (heq ((List.idxOf_inj hadded).mp hsame)).elim
    · have hshift := idxOf_erase_of_gt hgt
      simp only [hgt, true_or, iff_true]
      omega

/-! ## Inserting a rejected line -/

/-- A rejected line changes no id that is delivered: it registers no new name, or every
accepted row behind it whose name is new there has a name that is first seen after the
registered one. The registered name itself may be delivered only if it keeps its place
modulo `2 ^ 32`, which is to say that it would be the next new name anyway. -/
def Harmless (num : Numeric) (before : List (List UInt8)) (line : List UInt8)
    (after : List (List UInt8)) : Prop :=
  ∀ name ∈ rowName line, name ∉ namesSeen before →
    ∀ row ∈ after, Accepts num row → ∀ other ∈ rowName row, other ∉ namesSeen before →
      (newNames before after).idxOf name < (newNames before after).idxOf other ∨
        (other = name ∧ (newNames before after).idxOf name % 2 ^ 32 = 0)

/-- Registering a new name keeps all delivered ids exactly when it is harmless. -/
theorem symbolIds_kept_iff {num : Numeric} {before after : List (List UInt8)}
    {line name : List UInt8} (hname : rowName line = some name)
    (hnew : name ∉ namesSeen before) :
    (∀ row ∈ before ++ after, Accepts num row → ∀ other ∈ rowName row,
        symbolId (order (namesSeen before) (after.filterMap rowName)) other =
          symbolId (order (note (namesSeen before) name) (after.filterMap rowName)) other) ↔
      Harmless num before line after := by
  constructor
  · intro h name' hname' _ row hrow haccepts other hother hnew'
    cases hname.symm.trans hname'
    have hmem : other ∈ after.filterMap rowName := List.mem_filterMap.mpr ⟨row, hrow, hother⟩
    apply (symbolId_earlier_iff hnew hnew' hmem).mp
    exact h row (List.mem_append_right _ hrow) haccepts other hother
  · intro h row hrow haccepts other hother
    by_cases hseen : other ∈ namesSeen before
    · rw [symbolId_of_seen hseen, symbolId_of_seen (mem_note.mpr (Or.inl hseen)),
        symbolId_note hseen]
    · have hrow' : row ∈ after := by
        apply (List.mem_append.mp hrow).resolve_left
        intro hbefore
        have hmem : other ∈ before.filterMap rowName :=
          List.mem_filterMap.mpr ⟨row, hbefore, hother⟩
        exact hseen (mem_order.mpr (Or.inr hmem))
      have hmem : other ∈ after.filterMap rowName :=
        List.mem_filterMap.mpr ⟨row, hrow', hother⟩
      apply (symbolId_earlier_iff hnew hseen hmem).mpr
      exact h name hname hnew row hrow' haccepts other hother hseen

theorem namesSeen_append (before after : List (List UInt8)) :
    namesSeen (before ++ after) = order (namesSeen before) (after.filterMap rowName) := by
  rw [namesSeen, List.filterMap_append, order_append, namesSeen]

/-- Inserting a rejected row into a stream. -/
theorem decodeAll_insert_iff {num : Numeric} {line : List UInt8} (hrejects : ¬ Accepts num line)
    (before after : List (List UInt8)) :
    decodeAll num ⟨some {}⟩ (before ++ after) =
        decodeAll num ⟨some {}⟩ (before ++ line :: after) ↔
      Harmless num before line after := by
  rw [decodeAll_fresh, decodeAll_fresh, List.filterMap_append, List.filterMap_append,
    List.filterMap_cons_none (rowEvent_eq_none hrejects _), ← List.filterMap_append,
    ← List.filterMap_append, filterMap_rowEvent_eq_iff, namesSeen_append, namesSeen_append]
  cases hname : rowName line with
  | none =>
      rw [List.filterMap_cons_none hname]
      simp [Harmless, hname]
  | some name =>
      rw [List.filterMap_cons_some hname, order_cons]
      by_cases hold : name ∈ namesSeen before
      · rw [note_of_mem hold]
        simp [Harmless, hname, hold]
      · exact symbolIds_kept_iff hname hold

/-- The second content has the lines of the first and one more, somewhere after the first
line. -/
structure Inserts (content content' : List UInt8) (front : List (List UInt8))
    (line : List UInt8) (back : List (List UInt8)) : Prop where
  front_ne_nil : front ≠ []
  lines_eq : plainLines content = front ++ back
  lines_eq' : plainLines content' = front ++ line :: back

/-- A line is inserted by writing it and a newline behind some newline. -/
theorem inserts_behind_newline {line : List UInt8} (hline : (10 : UInt8) ∉ line)
    (hstrip : stripCr line = line) (s t : List UInt8) :
    Inserts (s ++ 10 :: t) (s ++ 10 :: (line ++ 10 :: t)) ((s.splitOn 10).map stripCr) line
      (plainLines t) where
  front_ne_nil := by simp
  lines_eq := plainLines_append s t
  lines_eq' := by rw [plainLines_append, plainLines_append_newline hline, hstrip]

/-- A rejected line inserted after the first line of a file leaves the delivered events as
they are exactly when it is harmless. -/
theorem malformed_line_skipped_iff {num : Numeric} {io : File.Chunking} {bufferSize : ℕ}
    (hcap : 1 ≤ bufferSize) {content content' line : List UInt8}
    {front back : List (List UInt8)} (hinserts : Inserts content content' front line back)
    (hrejects : ((TickDecoder.mk (some {})).decodeCsv num line).1 = none) :
    (∀ es, Yields num io bufferSize content es ↔ Yields num io bufferSize content' es) ↔
      Harmless num (front.tail.filter (fun line => !line.isEmpty)) line
        (back.filter (fun line => !line.isEmpty)) := by
  have hyields : (∀ es, Yields num io bufferSize content es ↔
      Yields num io bufferSize content' es) ↔
      decodeAll num ⟨some {}⟩ (dataRows content) =
        decodeAll num ⟨some {}⟩ (dataRows content') := by
    simp only [yields_iff hcap]
    constructor
    · intro h
      exact (h _).mp rfl
    · intro h es
      rw [h]
  rw [hyields, dataRows_of_plainLines hinserts.front_ne_nil hinserts.lines_eq,
    dataRows_of_plainLines hinserts.front_ne_nil hinserts.lines_eq']
  cases hempty : line.isEmpty with
  | true =>
      rw [List.isEmpty_iff] at hempty
      subst hempty
      refine ⟨fun _ name hname => ?_, fun _ => rfl⟩
      cases hname
  | false =>
      rw [List.filter_cons_of_pos (by simpa using hempty)]
      have hreject : ¬ Accepts num line := by
        rw [accepts_iff_decodeCsv num ⟨some {}⟩, hrejects]
        exact Bool.false_ne_true
      exact decodeAll_insert_iff hreject _ _

/-- A row without a type is rejected after its symbol `A` is registered, and `B` gets
another id. -/
theorem rejected_line_shifts_ids :
    ((TickDecoder.mk (some {})).decodeCsv .wholePrices (asciiBytes "1,A,,1,1,B")).1 = none ∧
      ¬ ∀ es,
        Yields .wholePrices .byteByByte 1 (asciiBytes "time,symbol\n1,B,T,1,1,B\n") es ↔
        Yields .wholePrices .byteByByte 1
          (asciiBytes "time,symbol\n1,A,,1,1,B\n1,B,T,1,1,B\n") es := by
  refine ⟨by decide, fun h => ?_⟩
  have hsame := (h _).mp ((yields_iff (le_refl 1) _ _).mpr rfl)
  rw [yields_iff (le_refl 1)] at hsame
  exact absurd hsame (by decide +kernel)

/-- A line that is not a row changes nothing. -/
theorem malformed_line_skipped_not_a_row :
    ((TickDecoder.mk (some {})).decodeCsv .wholePrices (asciiBytes "oops")).1 = none ∧
      ∀ es, Yields .wholePrices .byteByByte 1 (asciiBytes "time,symbol\n1,B,T,1,1,B\n") es ↔
        Yields .wholePrices .byteByByte 1
          (asciiBytes "time,symbol\noops\n1,B,T,1,1,B\n") es := by
  have hinserts := inserts_behind_newline (show (10 : UInt8) ∉ asciiBytes "oops" by decide)
    (by decide) (asciiBytes "time,symbol") (asciiBytes "1,B,T,1,1,B\n")
  have hrejects : ((TickDecoder.mk (some {})).decodeCsv .wholePrices
      (asciiBytes "oops")).1 = none := by decide
  refine ⟨hrejects, (malformed_line_skipped_iff (le_refl 1) hinserts hrejects).mpr ?_⟩
  intro name hname
  cases hname

end UltraBacktest
