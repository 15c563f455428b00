import UltraBacktest.Model.TickDecoder

/-! The plain reading of a CSV file: its lines, and the events they decode to. -/

namespace UltraBacktest

/-! ## Lines -/

/-- Remove one trailing carriage return. -/
def stripCr (line : List UInt8) : List UInt8 :=
  if line.getLast? = some 13 then line.dropLast else line

/-- The lines of a text. The part after the last newline is a line only if it is not
empty, and keeps its carriage return. -/
def plainLines (content : List UInt8) : List (List UInt8) :=
  (content.splitOn 10).dropLast.map stripCr ++
    (content.splitOn 10).getLast?.toList.filter (fun line => !line.isEmpty)

/-- The rows of a file: its lines without the first one and without empty ones. -/
def dataRows (content : List UInt8) : List (List UInt8) :=
  (plainLines content).tail.filter (fun line => !line.isEmpty)

theorem memchr_eq_some {s : List UInt8} {c : UInt8} {i : ℕ} (h : memchr s c = some i) :
    c ∉ s.take i ∧ s = s.take i ++ c :: s.drop (i + 1) := by
  obtain ⟨hlt, hc, hbefore⟩ := List.findIdx?_eq_some_iff_getElem.mp h
  rw [beq_iff_eq] at hc
  constructor
  · intro hmem
    obtain ⟨j, hj, hget⟩ := List.mem_iff_getElem.mp hmem
    rw [List.length_take] at hj
    rw [List.getElem_take] at hget
    have hne := hbefore j (by omega)
    rw [hget] at hne
    exact hne (beq_self_eq_true c)
  · rw [← hc, ← List.drop_eq_getElem_cons hlt, List.take_append_drop]

/-- The first separator ends the first part. -/
theorem splitOn_of_memchr {s : List UInt8} {c : UInt8} {i : ℕ} (h : memchr s c = some i) :
    s.splitOn c = s.take i :: (s.drop (i + 1)).splitOn c := by
  obtain ⟨hnot, hs⟩ := memchr_eq_some h
  have hsplit := List.splitOn_append_cons_self_of_not_mem hnot (s.drop (i + 1))
  rw [← hs] at hsplit
  exact hsplit

theorem memchr_eq_none {s : List UInt8} {c : UInt8} (h : memchr s c = none) : c ∉ s := by
  intro hmem
  have hall := List.findIdx?_eq_none_iff.mp h c hmem
  simp at hall

theorem memchr_append {s t : List UInt8} {c : UInt8} {i : ℕ} (h : memchr s c = some i) :
    memchr (s ++ t) c = some i := by
  rw [memchr] at h
  rw [memchr, List.findIdx?_append, h]
  rfl

/-- The line at the front of a text. -/
def firstLine (s : List UInt8) : Option (List UInt8) :=
  match memchr s 10 with
  | some i => some (stripCr (s.take i))
  | none => if s.isEmpty then none else some s

/-- The text behind its first line. -/
def afterLine (s : List UInt8) : List UInt8 :=
  match memchr s 10 with
  | some i => s.drop (i + 1)
  | none => []

/-- Splitting a text behind one of its newlines splits its lines. -/
theorem plainLines_append (s t : List UInt8) :
    plainLines (s ++ 10 :: t) = (s.splitOn 10).map stripCr ++ plainLines t := by
  have hne : t.splitOn 10 ≠ [] := List.splitOn_ne_nil 10 t
  have hlast : (s.splitOn 10 ++ t.splitOn 10).getLast? = (t.splitOn 10).getLast? := by
    rw [List.getLast?_append, List.getLast?_eq_some_getLast hne, Option.some_or]
  rw [plainLines, List.splitOn_append_cons_self, List.dropLast_append_of_ne_nil hne, hlast,
    List.map_append, List.append_assoc, plainLines]

theorem plainLines_append_newline {line : List UInt8} (h : (10 : UInt8) ∉ line)
    (s : List UInt8) : plainLines (line ++ 10 :: s) = stripCr line :: plainLines s := by
  rw [plainLines_append, List.splitOn_eq_singleton h]
  rfl

theorem plainLines_of_not_mem {s : List UInt8} (h : (10 : UInt8) ∉ s) :
    plainLines s = if s.isEmpty then [] else [s] := by
  rw [plainLines, List.splitOn_eq_singleton h]
  cases s <;> rfl

/-- The lines of a text are its first line and the lines behind it. -/
theorem plainLines_eq (s : List UInt8) :
    plainLines s = (firstLine s).elim [] (fun line => line :: plainLines (afterLine s)) := by
  rw [firstLine, afterLine]
  cases h : memchr s 10 with
  | some i =>
      obtain ⟨hnot, hs⟩ := memchr_eq_some h
      exact (congrArg plainLines hs).trans (plainLines_append_newline hnot _)
  | none =>
      rw [plainLines_of_not_mem (memchr_eq_none h)]
      cases s <;> rfl

theorem eq_nil_of_firstLine {s : List UInt8} (h : firstLine s = none) : s = [] := by
  rw [firstLine] at h
  split at h
  · cases h
  · simpa using h

theorem plainLines_tail (s : List UInt8) : (plainLines s).tail = plainLines (afterLine s) := by
  rw [plainLines_eq s]
  cases h : firstLine s with
  | some line => rfl
  | none =>
      rw [eq_nil_of_firstLine h]
      rfl

theorem length_afterLine {s : List UInt8} (h : s ≠ []) : (afterLine s).length < s.length := by
  have hpos := List.length_pos_iff.mpr h
  rw [afterLine]
  split
  · rw [List.length_drop]
    omega
  · exact hpos

/-! ## Rows -/

/-- The rows among the lines of a text. -/
def textRows (s : List UInt8) : List (List UInt8) :=
  (plainLines s).filter (fun line => !line.isEmpty)

theorem dataRows_eq_textRows (content : List UInt8) :
    dataRows content = textRows (afterLine content) := by
  rw [dataRows, plainLines_tail, textRows]

theorem dataRows_of_plainLines {content : List UInt8} {front rest : List (List UInt8)}
    (hfront : front ≠ []) (h : plainLines content = front ++ rest) :
    dataRows content = front.tail.filter (fun line => !line.isEmpty) ++
      rest.filter (fun line => !line.isEmpty) := by
  rw [dataRows, h, List.tail_append_of_ne_nil hfront, List.filter_append]

/-- The rows of a text are its first line, if it is a row, and the rows behind it. -/
theorem textRows_eq (s : List UInt8) :
    textRows s = (firstLine s).elim [] (fun line =>
      if line.isEmpty then textRows (afterLine s) else line :: textRows (afterLine s)) := by
  rw [textRows, plainLines_eq]
  cases firstLine s with
  | none => rfl
  | some line =>
      rw [Option.elim_some, Option.elim_some, List.filter_cons, textRows]
      cases line.isEmpty <;> rfl

/-! ## Events -/

/-- The events of the rows that are accepted, with the decoder threaded from left to
right. -/
def decodeAll (num : Numeric) : TickDecoder → List (List UInt8) → List Event
  | _, [] => []
  | d, row :: rows =>
      match d.decodeCsv num row with
      | (some event, d) => event :: decodeAll num d rows
      | (none, d) => decodeAll num d rows

theorem decodeAll_cons (num : Numeric) (d : TickDecoder) (row : List UInt8)
    (rows : List (List UInt8)) :
    decodeAll num d (row :: rows) =
      (d.decodeCsv num row).1.toList ++ decodeAll num (d.decodeCsv num row).2 rows := by
  rw [decodeAll]
  split
  · rename_i event d' h
    rw [h]
    rfl
  · rename_i d' h
    rw [h]
    rfl

theorem decodeAll_append (num : Numeric) (d : TickDecoder) (xs ys : List (List UInt8)) :
    decodeAll num d (xs ++ ys) =
      decodeAll num d xs ++
        decodeAll num (xs.foldl (fun d row => (d.decodeCsv num row).2) d) ys := by
  induction xs generalizing d with
  | nil => rfl
  | cons row xs ih =>
      rw [List.cons_append, decodeAll_cons, decodeAll_cons, ih, List.append_assoc,
        List.foldl_cons]

end UltraBacktest
