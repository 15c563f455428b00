import UltraBacktest.Verification.Csv.Lines

/-! Rows and the decoder that reads them. A row has an event up to the id of its name, and
the decoder remembers the id of every name it has met, so that the ids at the end of a
stream are the ids all of its events carry. -/

namespace UltraBacktest

/-! ## Rows apart from their ids -/

/-- The time and the name of a row that reaches the symbol lookup. -/
def rowHead (row : List UInt8) : Option (ℤ × List UInt8) :=
  if (splitCols 10 row).length < 6 then none
  else (fromCharsNanos ((splitCols 10 row).getD 0 [])).map
    (fun ts => (ts.1, (splitCols 10 row).getD 1 []))

/-- The name a row registers. -/
def rowName (row : List UInt8) : Option (List UInt8) := (rowHead row).map Prod.snd

/-- The event of an accepted row when its name has the given id. -/
def rowEvent (num : Numeric) (idOf : List UInt8 → Symbol) (row : List UInt8) : Option Event :=
  (rowHead row).bind (fun head =>
    TickDecoder.decodeFields num head.1 (idOf head.2) (splitCols 10 row))

/-- Acceptance does not depend on the ids. -/
def Accepts (num : Numeric) (row : List UInt8) : Prop := (rowEvent num (fun _ => 0) row).isSome

instance (num : Numeric) (row : List UInt8) : Decidable (Accepts num row) :=
  inferInstanceAs (Decidable ((rowEvent num (fun _ => 0) row).isSome = true))

theorem decodeCsv_of_rowHead_none {num : Numeric} {row : List UInt8} (h : rowHead row = none)
    (d : TickDecoder) : d.decodeCsv num row = (none, d) := by
  rw [TickDecoder.decodeCsv]
  rw [rowHead] at h
  split_ifs at h ⊢ with hcols
  · rfl
  · rw [Option.map_eq_none_iff.mp h]

theorem decodeCsv_of_rowHead_some {num : Numeric} {row name : List UInt8} {ts : ℤ}
    (h : rowHead row = some (ts, name)) (d : TickDecoder) :
    d.decodeCsv num row =
      (TickDecoder.decodeFields num ts (d.symbolOf name).1 (splitCols 10 row),
        (d.symbolOf name).2) := by
  rw [TickDecoder.decodeCsv]
  rw [rowHead] at h
  split_ifs at h ⊢ with hcols
  obtain ⟨⟨ts', rest⟩, hts, heq⟩ := Option.map_eq_some_iff.mp h
  cases heq
  rw [hts]

/-- The id of a row enters its event and nothing else. -/
theorem decodeFields_eq_map (num : Numeric) (ts : ℤ) (sym : Symbol)
    (cols : List (List UInt8)) :
    TickDecoder.decodeFields num ts sym cols =
      (TickDecoder.decodeFields num ts 0 cols).map (fun e => { e with symbol := sym }) := by
  rw [TickDecoder.decodeFields, TickDecoder.decodeFields]
  cases (cols.getD 2 []).head? with
  | none => rfl
  | some typeChar =>
      cases num.fromChars (cols.getD 3 []) with
      | none => rfl
      | some price =>
          cases fromCharsQty (cols.getD 4 []) with
          | none => rfl
          | some qty =>
              simp only [Option.bind_eq_bind, Option.bind_some]
              split <;> rfl

theorem rowEvent_eq_map (num : Numeric) (idOf : List UInt8 → Symbol) (row : List UInt8) :
    rowEvent num idOf row = (rowName row).bind (fun name =>
      (rowEvent num (fun _ => 0) row).map (fun e => { e with symbol := idOf name })) := by
  rw [rowEvent, rowEvent, rowName]
  cases rowHead row with
  | none => rfl
  | some head => exact decodeFields_eq_map num head.1 (idOf head.2) (splitCols 10 row)

theorem rowEvent_symbol {num : Numeric} {idOf : List UInt8 → Symbol} {row : List UInt8}
    {e : Event} (h : rowEvent num idOf row = some e) :
    Accepts num row ∧ ∃ name, rowName row = some name ∧ e.symbol = idOf name := by
  rw [rowEvent_eq_map] at h
  obtain ⟨name, hname, hmap⟩ := Option.bind_eq_some_iff.mp h
  obtain ⟨e₀, he₀, rfl⟩ := Option.map_eq_some_iff.mp hmap
  exact ⟨Option.isSome_iff_exists.mpr ⟨e₀, he₀⟩, name, hname, rfl⟩

/-- An accepted row has a name and, for every numbering, an event that differs only in
the id of that name. -/
theorem Accepts.exists_rowEvent {num : Numeric} {row : List UInt8} (h : Accepts num row) :
    ∃ (name : List UInt8) (e : Event), rowName row = some name ∧
      ∀ idOf, rowEvent num idOf row = some { e with symbol := idOf name } := by
  obtain ⟨e, he⟩ := Option.isSome_iff_exists.mp h
  obtain ⟨-, name, hname, -⟩ := rowEvent_symbol he
  refine ⟨name, e, hname, fun idOf => ?_⟩
  rw [rowEvent_eq_map, hname, he]
  rfl

theorem rowEvent_eq_none {num : Numeric} {row : List UInt8} (h : ¬ Accepts num row)
    (idOf : List UInt8 → Symbol) : rowEvent num idOf row = none := by
  cases he : rowEvent num idOf row with
  | none => rfl
  | some e => exact (h (rowEvent_symbol he).1).elim

/-! ## What a decoder remembers -/

namespace SymbolMapper

theorem getOrCreate_of_lookup {m : SymbolMapper} {name : List UInt8} {id : Symbol}
    (h : m.map.lookup name = some id) : m.getOrCreate name = (id, m) := by
  rw [getOrCreate, h]

theorem lookup_getOrCreate (m : SymbolMapper) (name : List UInt8) :
    (m.getOrCreate name).2.map.lookup name = some (m.getOrCreate name).1 := by
  cases h : m.map.lookup name with
  | some id => rw [getOrCreate_of_lookup h, h]
  | none =>
      rw [getOrCreate, h]
      exact List.lookup_cons_self

/-- An id, once given, is kept whatever is looked up. -/
theorem lookup_getOrCreate_of_lookup {m : SymbolMapper} {name : List UInt8} {id : Symbol}
    (h : m.map.lookup name = some id) (other : List UInt8) :
    (m.getOrCreate other).2.map.lookup name = some id := by
  cases hother : m.map.lookup other with
  | some id' => rw [getOrCreate_of_lookup hother, h]
  | none =>
      have hne : name ≠ other := by
        rintro rfl
        cases h.symm.trans hother
      rw [getOrCreate, hother]
      dsimp only
      rw [List.lookup_cons, beq_false_of_ne hne, h]

end SymbolMapper

namespace TickDecoder

/-- The decoder has an id for the name. Without a mapper every name has the id zero. -/
def Knows (d : TickDecoder) (name : List UInt8) : Prop :=
  ∀ m ∈ d.mapper, ∃ id, m.map.lookup name = some id

def idOf (d : TickDecoder) (name : List UInt8) : Symbol := (d.symbolOf name).1

/-- The decoder after a row. -/
def learn (d : TickDecoder) (row : List UInt8) : TickDecoder :=
  (rowName row).elim d (fun name => (d.symbolOf name).2)

/-- The decoder after some rows. -/
def learnAll (d : TickDecoder) (rows : List (List UInt8)) : TickDecoder := rows.foldl learn d

theorem symbolOf_some (m : SymbolMapper) (name : List UInt8) :
    (TickDecoder.mk (some m)).symbolOf name =
      ((m.getOrCreate name).1, ⟨some (m.getOrCreate name).2⟩) := rfl

theorem symbolOf_of_knows {d : TickDecoder} {name : List UInt8} (h : d.Knows name) :
    (d.symbolOf name).2 = d := by
  obtain ⟨mapper⟩ := d
  cases mapper with
  | none => rfl
  | some m =>
      obtain ⟨id, hid⟩ := h m rfl
      rw [symbolOf_some, SymbolMapper.getOrCreate_of_lookup hid]

theorem knows_symbolOf (d : TickDecoder) (name : List UInt8) :
    (d.symbolOf name).2.Knows name ∧ (d.symbolOf name).2.idOf name = d.idOf name := by
  obtain ⟨mapper⟩ := d
  cases mapper with
  | none => exact ⟨fun m hm => (by cases hm), rfl⟩
  | some m =>
      have hlookup := m.lookup_getOrCreate name
      refine ⟨fun m' hm => ?_, ?_⟩
      · cases hm
        exact ⟨_, hlookup⟩
      · rw [idOf, idOf, symbolOf_some, symbolOf_some,
          SymbolMapper.getOrCreate_of_lookup hlookup]

theorem Knows.symbolOf {d : TickDecoder} {name : List UInt8} (h : d.Knows name)
    (other : List UInt8) :
    (d.symbolOf other).2.Knows name ∧ (d.symbolOf other).2.idOf name = d.idOf name := by
  obtain ⟨mapper⟩ := d
  cases mapper with
  | none => exact ⟨h, rfl⟩
  | some m =>
      obtain ⟨id, hid⟩ := h m rfl
      have hkept := SymbolMapper.lookup_getOrCreate_of_lookup hid other
      refine ⟨fun m' hm => ?_, ?_⟩
      · cases hm
        exact ⟨id, hkept⟩
      · rw [idOf, idOf, symbolOf_some, symbolOf_some, symbolOf_some,
          SymbolMapper.getOrCreate_of_lookup hkept, SymbolMapper.getOrCreate_of_lookup hid]

theorem Knows.learn {d : TickDecoder} {name : List UInt8} (h : d.Knows name)
    (row : List UInt8) : (d.learn row).Knows name ∧ (d.learn row).idOf name = d.idOf name := by
  rw [TickDecoder.learn]
  cases rowName row with
  | none => exact ⟨h, rfl⟩
  | some other => exact h.symbolOf other

theorem Knows.learnAll {d : TickDecoder} {name : List UInt8} (h : d.Knows name)
    (rows : List (List UInt8)) :
    (d.learnAll rows).Knows name ∧ (d.learnAll rows).idOf name = d.idOf name := by
  induction rows generalizing d with
  | nil => exact ⟨h, rfl⟩
  | cons row rows ih =>
      obtain ⟨hknows, hid⟩ := h.learn row
      obtain ⟨hknows', hid'⟩ := ih hknows
      exact ⟨hknows', hid'.trans hid⟩

theorem learn_of_rowName {d : TickDecoder} {row name : List UInt8}
    (h : rowName row = some name) : d.learn row = (d.symbolOf name).2 := by
  rw [learn, h]
  rfl

/-- A row whose name is known teaches nothing. -/
theorem learn_of_knows {d : TickDecoder} {row : List UInt8}
    (h : ∀ name ∈ rowName row, d.Knows name) : d.learn row = d := by
  rw [learn]
  cases hname : rowName row with
  | none => rfl
  | some name => exact symbolOf_of_knows (h name hname)

theorem learnAll_of_knows {d : TickDecoder} {rows : List (List UInt8)}
    (h : ∀ row ∈ rows, ∀ name ∈ rowName row, d.Knows name) : d.learnAll rows = d := by
  induction rows with
  | nil => rfl
  | cons row rows ih =>
      rw [List.forall_mem_cons] at h
      rw [learnAll, List.foldl_cons, learn_of_knows h.1]
      exact ih h.2

/-- A row teaches its own name. -/
theorem knows_learn (d : TickDecoder) {row name : List UInt8} (h : rowName row = some name) :
    (d.learn row).Knows name ∧ (d.learn row).idOf name = d.idOf name := by
  rw [learn_of_rowName h]
  exact knows_symbolOf d name

theorem decodeCsv_eq (num : Numeric) (d : TickDecoder) (row : List UInt8) :
    d.decodeCsv num row = (rowEvent num d.idOf row, d.learn row) := by
  cases hhead : rowHead row with
  | none =>
      rw [decodeCsv_of_rowHead_none hhead]
      simp [rowEvent, learn, rowName, hhead]
  | some head =>
      rw [decodeCsv_of_rowHead_some hhead]
      simp [rowEvent, learn, rowName, hhead, idOf]

end TickDecoder

/-- Acceptance is the same for every state of the decoder. -/
theorem accepts_iff_decodeCsv (num : Numeric) (d : TickDecoder) (row : List UInt8) :
    Accepts num row ↔ (d.decodeCsv num row).1.isSome := by
  rw [d.decodeCsv_eq]
  constructor
  · intro h
    obtain ⟨name, e, -, hevent⟩ := h.exists_rowEvent
    rw [hevent]
    rfl
  · intro h
    obtain ⟨e, he⟩ := Option.isSome_iff_exists.mp h
    exact (rowEvent_symbol he).1

/-! ## Whole streams -/

/-- The accepted rows with their events. -/
def decodeRows (num : Numeric) : TickDecoder → List (List UInt8) → List (List UInt8 × Event)
  | _, [] => []
  | d, row :: rows =>
      ((d.decodeCsv num row).1.map (Prod.mk row)).toList ++
        decodeRows num (d.decodeCsv num row).2 rows

theorem decodeRows_map_snd (num : Numeric) (d : TickDecoder) (rows : List (List UInt8)) :
    (decodeRows num d rows).map Prod.snd = decodeAll num d rows := by
  induction rows generalizing d with
  | nil => rfl
  | cons row rows ih =>
      rw [decodeRows, List.map_append, ih, decodeAll_cons]
      cases (d.decodeCsv num row).1 <;> rfl

theorem rowEvent_congr {num : Numeric} {f g : List UInt8 → Symbol} {row : List UInt8}
    (h : ∀ name ∈ rowName row, f name = g name) : rowEvent num f row = rowEvent num g row := by
  rw [rowEvent_eq_map num f, rowEvent_eq_map num g]
  cases hname : rowName row with
  | none => rfl
  | some name => rw [Option.bind_some, Option.bind_some, h name hname]

/-- The rows of a stream have the events that the ids at its end give them. -/
theorem decodeRows_eq (num : Numeric) (d : TickDecoder) (rows : List (List UInt8)) :
    decodeRows num d rows = rows.filterMap (fun row =>
      (rowEvent num (d.learnAll rows).idOf row).map (Prod.mk row)) := by
  induction rows generalizing d with
  | nil => rfl
  | cons row rows ih =>
      have hids : rowEvent num d.idOf row =
          rowEvent num ((d.learn row).learnAll rows).idOf row := by
        apply rowEvent_congr
        intro name hname
        obtain ⟨hknows, hid⟩ := d.knows_learn hname
        rw [(hknows.learnAll rows).2, hid]
      have hall : d.learnAll (row :: rows) = (d.learn row).learnAll rows := rfl
      rw [decodeRows, d.decodeCsv_eq, ih, List.filterMap_cons, hids, hall]
      cases rowEvent num ((d.learn row).learnAll rows).idOf row <;> rfl

theorem decodeAll_eq (num : Numeric) (d : TickDecoder) (rows : List (List UInt8)) :
    decodeAll num d rows = rows.filterMap (rowEvent num (d.learnAll rows).idOf) := by
  rw [← decodeRows_map_snd, decodeRows_eq, List.map_filterMap]
  congr 1
  funext row
  cases rowEvent num (d.learnAll rows).idOf row <;> rfl

end UltraBacktest
