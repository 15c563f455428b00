import UltraBacktest.Verification.Csv.Columns
import UltraBacktest.Verification.Csv.Symbols
import UltraBacktest.Verification.Readers.Reset

/-! Ids identify names over a whole file, and over every pass through it. -/

namespace UltraBacktest

open Stream Relation FirstSeen

/-- Below `2 ^ 32` names, different names have different ids and none is zero. -/
theorem symbolId_inj {seen : List (List UInt8)} (hlen : seen.length < 2 ^ 32 - 1)
    {a b : List UInt8} (ha : a ∈ seen) (hb : b ∈ seen) :
    symbolId seen a = symbolId seen b ↔ a = b := by
  constructor
  · intro h
    have hnat := congrArg UInt32.toNat h
    have hlta := List.idxOf_lt_length_of_mem ha
    have hltb := List.idxOf_lt_length_of_mem hb
    rw [toNat_symbolId, toNat_symbolId, Nat.mod_eq_of_lt (by omega),
      Nat.mod_eq_of_lt (by omega)] at hnat
    exact (List.idxOf_inj ha).mp (by omega)
  · rintro rfl
    rfl

theorem symbolId_ne_zero {seen : List (List UInt8)} (hlen : seen.length < 2 ^ 32 - 1)
    {a : List UInt8} (ha : a ∈ seen) : symbolId seen a ≠ 0 := by
  intro h
  have hnat := congrArg UInt32.toNat h
  have hlt := List.idxOf_lt_length_of_mem ha
  rw [toNat_symbolId, Nat.mod_eq_of_lt (by omega)] at hnat
  cases hnat

/-- Every accepted row of a stream carries the id of its own column. -/
theorem symbol_of_mem_decodeRows {num : Numeric} {rows : List (List UInt8)}
    {x : List UInt8 × Event} (h : x ∈ decodeRows num ⟨some {}⟩ rows) :
    column x.1 1 ∈ namesSeen rows ∧ x.2.symbol = symbolId (namesSeen rows) (column x.1 1) := by
  obtain ⟨m, hlearn, hnumbers⟩ := learnAll_numbers numbers_empty rows
  rw [decodeRows_eq, hlearn] at h
  obtain ⟨row, hrow, hevent⟩ := List.mem_filterMap.mp h
  obtain ⟨e, he, rfl⟩ := Option.map_eq_some_iff.mp hevent
  obtain ⟨-, name, hname, hsymbol⟩ := rowEvent_symbol he
  have hseen : name ∈ namesSeen rows :=
    mem_order.mpr (Or.inr (List.mem_filterMap.mpr ⟨row, hrow, hname⟩))
  rw [hsymbol, ← rowName_eq_column hname]
  exact ⟨hseen, hnumbers.idOf_eq hseen⟩

/-- With fewer than `2 ^ 32 - 1` names, all passes over a file deliver the same rows with the
same events, whose ids are equal exactly when their second columns are. -/
theorem symbols_identify_names {num : Numeric} {io : File.Chunking} {bufferSize : ℕ}
    (hcap : 1 ≤ bufferSize) (r : CsvReader num io bufferSize)
    (hfresh : r.decoder = ⟨some {}⟩) (content : List UInt8)
    (hnames : (namesSeen (dataRows content)).length < 2 ^ 32 - 1) :
    let pass := decodeRows num ⟨some {}⟩ (dataRows content)
    (∃ opened r', r.doOpen (some content) = some (opened, r') ∧
        Delivers r' (pass.map Prod.snd) ∧
        ∀ r'', ReflTransGen Uses r' r'' →
          decodeRows num r''.decoder (dataRows content) = pass ∧
            ∃ again, r''.doReset = some again ∧ Delivers again (pass.map Prod.snd)) ∧
      (∀ x ∈ pass, ∀ y ∈ pass, x.2.symbol = y.2.symbol ↔ column x.1 1 = column y.1 1) ∧
      ∀ x ∈ pass, x.2.symbol ≠ 0 := by
  intro pass
  refine ⟨?_, ?_, ?_⟩
  · obtain ⟨r', hopen, hready, hfollows⟩ := CsvReader.doOpen_follows hcap r content
    rw [hfresh, ← decodeRows_map_snd] at hready
    rw [hfresh] at hfollows
    refine ⟨_, r', hopen, hready.delivers.1, fun r'' hcalls => ?_⟩
    have hplace := hfollows.uses hcalls
    obtain ⟨again, hagain, hready', -⟩ := hplace.doReset
    rw [← decodeRows_map_snd] at hready'
    refine ⟨?_, again, hagain, hready'.delivers.1⟩
    rw [decodeRows_eq, hplace.learnAll_eq, ← decodeRows_eq]
  · intro x hx y hy
    obtain ⟨hxseen, hxid⟩ := symbol_of_mem_decodeRows hx
    obtain ⟨hyseen, hyid⟩ := symbol_of_mem_decodeRows hy
    rw [hxid, hyid]
    exact symbolId_inj hnames hxseen hyseen
  · intro x hx
    obtain ⟨hxseen, hxid⟩ := symbol_of_mem_decodeRows hx
    rw [hxid]
    exact symbolId_ne_zero hnames hxseen

/-- Two names in three rows, the first of them twice. -/
theorem symbols_identify_two_names :
    ∃ opened, ∃ r' : CsvReader .wholePrices .byteByByte 1,
      ({ decoder := ⟨some {}⟩ } : CsvReader .wholePrices .byteByByte 1).doOpen
        (some (asciiBytes "time,symbol\n1,A,T,2,3,B\n2,B,T,2,3,B\n3,A,T,2,3,S\n")) =
          some (opened, r') ∧
      Delivers r' [Event.makeTrade 1 1 200000000 3 .buy, Event.makeTrade 2 2 200000000 3 .buy,
        Event.makeTrade 3 1 200000000 3 .sell] := by
  obtain ⟨⟨opened, r', hopen, hdelivers, -⟩, -⟩ := symbols_identify_names (le_refl 1)
    ({ decoder := ⟨some {}⟩ } : CsvReader .wholePrices .byteByByte 1) rfl
    (asciiBytes "time,symbol\n1,A,T,2,3,B\n2,B,T,2,3,B\n3,A,T,2,3,S\n") (by decide +kernel)
  refine ⟨opened, r', hopen, ?_⟩
  convert hdelivers using 1
  decide +kernel

end UltraBacktest
