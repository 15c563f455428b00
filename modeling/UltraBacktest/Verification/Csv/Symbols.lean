import UltraBacktest.Library.FirstSeen
import UltraBacktest.Verification.Csv.Refinement
import UltraBacktest.Verification.Csv.Rows

/-! Symbol ids of a CSV stream. A name gets the next id when it is first seen in a row
with six columns and a readable time, whether or not the row is accepted in the end. -/

namespace UltraBacktest

open FirstSeen

/-! ## The mapper -/

/-- Ids count the names from one, in the order in which they are first seen, modulo
`2 ^ 32`. -/
def symbolId (seen : List (List UInt8)) (name : List UInt8) : Symbol :=
  UInt32.ofNat (seen.idxOf name + 1)

/-- An id, once given, does not change. -/
theorem symbolId_of_seen {seen : List (List UInt8)} {name : List UInt8} (h : name ∈ seen)
    (names : List (List UInt8)) : symbolId (order seen names) name = symbolId seen name := by
  rw [symbolId, idxOf_order h, symbolId]

/-- The mapper has numbered exactly the names seen so far. -/
structure Numbers (m : SymbolMapper) (seen : List (List UInt8)) : Prop where
  lookup_eq : ∀ name, m.map.lookup name =
    if name ∈ seen then some (symbolId seen name) else none
  nextId_eq : m.nextId = UInt32.ofNat (seen.length + 1)

theorem numbers_empty : Numbers {} [] := ⟨fun _ => rfl, rfl⟩

theorem getOrCreate_numbers {m : SymbolMapper} {seen : List (List UInt8)} (h : Numbers m seen)
    (name : List UInt8) :
    (m.getOrCreate name).1 = symbolId (note seen name) name ∧
      Numbers (m.getOrCreate name).2 (note seen name) := by
  rw [SymbolMapper.getOrCreate, h.lookup_eq]
  by_cases hmem : name ∈ seen
  · rw [if_pos hmem, note_of_mem hmem]
    exact ⟨rfl, h⟩
  · rw [if_neg hmem, note_of_not_mem hmem]
    have hid : symbolId (seen ++ [name]) name = m.nextId := by
      rw [symbolId, List.idxOf_append_of_notMem hmem, List.idxOf_cons_self, h.nextId_eq]
    refine ⟨hid.symm, ?_, ?_⟩
    · intro other
      dsimp only
      by_cases hother : other = name
      · subst hother
        rw [if_pos (by simp), hid]
        simp
      · have hlookup : List.lookup other ((name, m.nextId) :: m.map) = m.map.lookup other := by
          rw [List.lookup_cons, beq_false_of_ne hother]
        rw [hlookup, h.lookup_eq]
        by_cases hseen : other ∈ seen
        · rw [if_pos hseen, if_pos (List.mem_append_left _ hseen), symbolId, symbolId,
            List.idxOf_append_of_mem hseen]
        · rw [if_neg hseen, if_neg (by simp [hseen, hother])]
    · dsimp only
      rw [List.length_append, h.nextId_eq, List.length_singleton, UInt32.ofNat_add (_ + 1) 1]
      rfl

theorem Numbers.idOf_eq {m : SymbolMapper} {seen : List (List UInt8)} (h : Numbers m seen)
    {name : List UInt8} (hname : name ∈ seen) :
    (TickDecoder.mk (some m)).idOf name = symbolId seen name := by
  rw [TickDecoder.idOf, TickDecoder.symbolOf_some, (getOrCreate_numbers h name).1,
    note_of_mem hname]

theorem learnAll_numbers {m : SymbolMapper} {seen : List (List UInt8)} (h : Numbers m seen)
    (rows : List (List UInt8)) :
    ∃ m', (TickDecoder.mk (some m)).learnAll rows = ⟨some m'⟩ ∧
      Numbers m' (order seen (rows.filterMap rowName)) := by
  induction rows generalizing m seen with
  | nil => exact ⟨m, rfl, h⟩
  | cons row rows ih =>
      cases hname : rowName row with
      | none =>
          have hlearn : (TickDecoder.mk (some m)).learn row = ⟨some m⟩ := by
            rw [TickDecoder.learn, hname]
            rfl
          rw [TickDecoder.learnAll, List.foldl_cons, hlearn, List.filterMap_cons_none hname]
          exact ih h
      | some name =>
          rw [TickDecoder.learnAll, List.foldl_cons, TickDecoder.learn_of_rowName hname,
            List.filterMap_cons_some hname, order_cons]
          exact ih (getOrCreate_numbers h name).2

/-! ## Whole streams -/

/-- The names of some rows in the order in which they are first seen. -/
def namesSeen (rows : List (List UInt8)) : List (List UInt8) :=
  order [] (rows.filterMap rowName)

/-- The names that are first seen behind some rows, in order. -/
def newNames (before after : List (List UInt8)) : List (List UInt8) :=
  added (namesSeen before) (after.filterMap rowName)

/-- The events of a stream are the events of its accepted rows under the numbering that
the whole stream ends with. -/
theorem decodeAll_of_numbers (num : Numeric) {m : SymbolMapper} {seen : List (List UInt8)}
    (h : Numbers m seen) (rows : List (List UInt8)) :
    decodeAll num ⟨some m⟩ rows =
      rows.filterMap (rowEvent num (symbolId (order seen (rows.filterMap rowName)))) := by
  obtain ⟨m', hlearn, hnumbers⟩ := learnAll_numbers h rows
  rw [decodeAll_eq, hlearn]
  apply List.filterMap_congr
  intro row hrow
  apply rowEvent_congr
  intro name hname
  apply hnumbers.idOf_eq
  exact mem_order.mpr (Or.inr (List.mem_filterMap.mpr ⟨row, hrow, hname⟩))

/-- A fresh mapper numbers the names of a stream. -/
theorem decodeAll_fresh (num : Numeric) (rows : List (List UInt8)) :
    decodeAll num ⟨some {}⟩ rows = rows.filterMap (rowEvent num (symbolId (namesSeen rows))) :=
  decodeAll_of_numbers num numbers_empty rows

theorem toNat_symbolId (seen : List (List UInt8)) (name : List UInt8) :
    (symbolId seen name).toNat = (seen.idxOf name + 1) % 2 ^ 32 := by
  rw [symbolId, UInt32.toNat_ofNat']

/-- Every event carries an index of the position array exactly when every accepted row has
one of the first 255 names, counted modulo `2 ^ 32`. -/
theorem csv_symbols_in_range_iff (num : Numeric) (rows : List (List UInt8)) :
    (∀ e ∈ decodeAll num ⟨some {}⟩ rows, e.symbol.toNat < maxSymbols) ↔
      ∀ row ∈ rows, Accepts num row → ∀ name ∈ rowName row,
        ((namesSeen rows).idxOf name + 1) % 2 ^ 32 < maxSymbols := by
  rw [decodeAll_fresh]
  constructor
  · intro h row hrow haccepts name hname
    obtain ⟨name', e, hname', hevent⟩ := haccepts.exists_rowEvent
    cases hname.symm.trans hname'
    rw [← toNat_symbolId]
    exact h _ (List.mem_filterMap.mpr ⟨row, hrow, hevent _⟩)
  · intro h e he
    obtain ⟨row, hrow, hevent⟩ := List.mem_filterMap.mp he
    obtain ⟨haccepts, name, hname, hsymbol⟩ := rowEvent_symbol hevent
    rw [hsymbol, toNat_symbolId]
    exact h row hrow haccepts name hname

/-- A name of three decimal digits. -/
def numberedName (i : ℕ) : List UInt8 :=
  [UInt8.ofNat (48 + i / 100), UInt8.ofNat (48 + i / 10 % 10), UInt8.ofNat (48 + i % 10)]

def numberedTrade (i : ℕ) : List UInt8 :=
  asciiBytes "1," ++ numberedName i ++ asciiBytes ",T,1,1,B"

theorem nodup_numberedNames : ((List.range 256).map numberedName).Nodup := by
  apply List.Nodup.map_on ?_ List.nodup_range
  intro i hi j hj heq
  rw [List.mem_range] at hi hj
  simp only [numberedName, List.cons.injEq, ← UInt8.toNat_inj, UInt8.toNat_ofNat'] at heq
  omega

theorem namesSeen_numberedTrades :
    namesSeen ((List.range 256).map numberedTrade) = (List.range 256).map numberedName := by
  have hnames : ∀ i ∈ List.range 256, rowName (numberedTrade i) = some (numberedName i) := by
    decide +kernel
  rw [namesSeen, List.filterMap_map]
  have hmap : (List.range 256).filterMap (rowName ∘ numberedTrade) =
      (List.range 256).map numberedName := by
    rw [← List.filterMap_eq_map]
    exact List.filterMap_congr hnames
  rw [hmap, order_of_nodup nodup_numberedNames]
  rfl

/-- The trade in the 256th symbol has no position. -/
theorem mapper_leaves_position_array :
    ¬ ∀ e ∈ decodeAll .wholePrices ⟨some {}⟩ ((List.range 256).map numberedTrade),
      e.symbol.toNat < maxSymbols := by
  intro h
  rw [decodeAll_fresh, namesSeen_numberedTrades] at h
  have haccepts : Accepts .wholePrices (numberedTrade 255) := by decide
  obtain ⟨name, e, hname, hevent⟩ := haccepts.exists_rowEvent
  have hlt := h _ (List.mem_filterMap.mpr
    ⟨numberedTrade 255, List.mem_map_of_mem (by decide), hevent _⟩)
  have hindex : ((List.range 256).map numberedName).idxOf (numberedName 255) = 255 := by
    have hget := nodup_numberedNames.idxOf_getElem 255 (by simp)
    rwa [List.getElem_map, List.getElem_range] at hget
  have h255 : rowName (numberedTrade 255) = some (numberedName 255) := by decide
  cases h255.symm.trans hname
  rw [toNat_symbolId, hindex] at hlt
  exact absurd hlt (by decide)

end UltraBacktest
