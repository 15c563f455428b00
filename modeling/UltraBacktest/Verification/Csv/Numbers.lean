import UltraBacktest.Model.FromChars
import Mathlib.Data.List.TakeWhile

/-! The grammars of the numeric columns, and what the number parsers consume. A column is
parsed in full exactly when nothing is left behind the longest match. -/

namespace UltraBacktest

/-! ## Grammars -/

def Digits (ds : List UInt8) : Prop := ∀ c ∈ ds, isDigit c = true

/-- An optional minus sign and digits, in the range of a signed 64-bit integer. -/
def DecimalNanos (s : List UInt8) : Prop :=
  ∃ ds, ds ≠ [] ∧ Digits ds ∧
    ((s = ds ∧ decimalValue ds < 2 ^ 63) ∨ (s = 45 :: ds ∧ decimalValue ds ≤ 2 ^ 63))

/-- Digits in the range of an unsigned 64-bit integer. -/
def DecimalQty (s : List UInt8) : Prop := s ≠ [] ∧ Digits s ∧ decimalValue s < 2 ^ 64

/-- Digits, possibly with a point. -/
def Mantissa (m : List UInt8) : Prop :=
  ∃ int, Digits int ∧ ((m = int ∧ int ≠ []) ∨
    ∃ frac, Digits frac ∧ m = int ++ 46 :: frac ∧ (int ≠ [] ∨ frac ≠ []))

/-- Nothing, or the letter of an exponent, an optional sign and digits. -/
def Exponent (x : List UInt8) : Prop :=
  x = [] ∨ ∃ e sign ds, x = e :: (sign ++ ds) ∧ (e = 101 ∨ e = 69) ∧
    (sign = [] ∨ sign = [43] ∨ sign = [45]) ∧ ds ≠ [] ∧ Digits ds

def DecimalNumber (s : List UInt8) : Prop :=
  ∃ sign m x, s = sign ++ (m ++ x) ∧ (sign = [] ∨ sign = [45]) ∧ Mantissa m ∧ Exponent x

/-! ## Digits at the front of a text -/

theorem digits_takeWhile (s : List UInt8) : Digits (s.takeWhile isDigit) :=
  fun _ hc => List.mem_takeWhile_imp hc

/-- The digits at the front end where something else follows. -/
theorem dropWhile_digits {ds s : List UInt8} (hds : Digits ds)
    (hs : ∀ c ∈ s.head?, isDigit c = false) :
    (ds ++ s).dropWhile isDigit = s ∧ (ds ++ s).takeWhile isDigit = ds := by
  rw [List.dropWhile_append_of_pos hds, List.takeWhile_append_of_pos hds]
  cases s with
  | nil => simp
  | cons c s =>
      have hc := hs c rfl
      simp [hc]

theorem fromCharsDigits_eq_some {s rest : List UInt8} {value : ℕ}
    (h : fromCharsDigits s = some (value, rest)) :
    ∃ ds, ds ≠ [] ∧ Digits ds ∧ s = ds ++ rest ∧ value = decimalValue ds := by
  rw [fromCharsDigits] at h
  split_ifs at h with hempty
  cases h
  exact ⟨_, by simpa using hempty, digits_takeWhile s, List.takeWhile_append_dropWhile.symm, rfl⟩

theorem fromCharsDigits_of_digits {ds : List UInt8} (hne : ds ≠ []) (hds : Digits ds) :
    fromCharsDigits ds = some (decimalValue ds, []) := by
  obtain ⟨hdrop, htake⟩ := @dropWhile_digits ds [] hds (by simp)
  rw [List.append_nil] at hdrop htake
  rw [fromCharsDigits, htake, hdrop, if_neg (by simpa using hne)]

/-! ## Integers -/

theorem fromCharsQty_rest_iff {s rest : List UInt8} {value : ℕ}
    (h : fromCharsQty s = some (value, rest)) : rest = [] ↔ DecimalQty s := by
  obtain ⟨hdigits, hrange⟩ := Option.filter_eq_some_iff.mp h
  obtain ⟨ds, hne, hds, hs, hvalue⟩ := fromCharsDigits_eq_some hdigits
  constructor
  · rintro rfl
    rw [List.append_nil] at hs
    subst hs
    refine ⟨hne, hds, ?_⟩
    rw [← hvalue]
    simpa using hrange
  · rintro ⟨hne', hds', -⟩
    rw [fromCharsDigits_of_digits hne' hds'] at hdigits
    cases hdigits
    rfl

theorem isDigit_ne_minus {c : UInt8} (h : isDigit c = true) : c ≠ 45 := by
  rintro rfl
  cases h

/-- The two ways a time is read. -/
theorem fromCharsNanos_eq_some {s rest : List UInt8} {value : ℤ}
    (h : fromCharsNanos s = some (value, rest)) :
    -2 ^ 63 ≤ value ∧ value < 2 ^ 63 ∧
      ((∃ n, s.head? = some 45 ∧ fromCharsDigits s.tail = some (n, rest) ∧ value = -(n : ℤ)) ∨
        ∃ n, s.head? ≠ some 45 ∧ fromCharsDigits s = some (n, rest) ∧ value = (n : ℤ)) := by
  rw [fromCharsNanos] at h
  obtain ⟨hparsed, hrange⟩ := Option.filter_eq_some_iff.mp h
  rw [decide_eq_true_iff] at hrange
  refine ⟨hrange.1, hrange.2, ?_⟩
  split_ifs at hparsed with hminus
  · obtain ⟨⟨n, rest'⟩, hdigits, heq⟩ := Option.map_eq_some_iff.mp hparsed
    cases heq
    exact Or.inl ⟨n, hminus, hdigits, rfl⟩
  · obtain ⟨⟨n, rest'⟩, hdigits, heq⟩ := Option.map_eq_some_iff.mp hparsed
    cases heq
    exact Or.inr ⟨n, hminus, hdigits, rfl⟩

theorem head?_ne_minus {ds : List UInt8} (hds : Digits ds) : ds.head? ≠ some 45 := by
  intro h
  exact isDigit_ne_minus (hds 45 (List.mem_of_mem_head? h)) rfl

theorem fromCharsNanos_rest_iff {s rest : List UInt8} {value : ℤ}
    (h : fromCharsNanos s = some (value, rest)) : rest = [] ↔ DecimalNanos s := by
  obtain ⟨hlo, hhi, hcase⟩ := fromCharsNanos_eq_some h
  constructor
  · rintro rfl
    rcases hcase with ⟨n, hminus, hdigits, rfl⟩ | ⟨n, -, hdigits, rfl⟩
    · obtain ⟨ds, hne, hds, hs, rfl⟩ := fromCharsDigits_eq_some hdigits
      rw [List.append_nil] at hs
      refine ⟨ds, hne, hds, Or.inr ⟨?_, by omega⟩⟩
      rw [List.head?_eq_some_iff] at hminus
      obtain ⟨s', rfl⟩ := hminus
      exact congrArg _ hs
    · obtain ⟨ds, hne, hds, hs, rfl⟩ := fromCharsDigits_eq_some hdigits
      rw [List.append_nil] at hs
      exact ⟨ds, hne, hds, Or.inl ⟨hs, by omega⟩⟩
  · rintro ⟨ds, hne, hds, ⟨rfl, -⟩ | ⟨rfl, -⟩⟩
    · rcases hcase with ⟨n, hminus, -⟩ | ⟨n, -, hdigits, -⟩
      · exact absurd hminus (head?_ne_minus hds)
      · rw [fromCharsDigits_of_digits hne hds] at hdigits
        cases hdigits
        rfl
    · rcases hcase with ⟨n, -, hdigits, -⟩ | ⟨n, hminus, -⟩
      · rw [List.tail_cons, fromCharsDigits_of_digits hne hds] at hdigits
        cases hdigits
        rfl
      · exact absurd rfl hminus

theorem fromCharsNanos_of_digits {ds : List UInt8} (hne : ds ≠ []) (hds : Digits ds)
    (hrange : decimalValue ds < 2 ^ 63) :
    fromCharsNanos ds = some ((decimalValue ds : ℤ), []) := by
  rw [fromCharsNanos, if_neg (head?_ne_minus hds), fromCharsDigits_of_digits hne hds]
  refine Option.filter_eq_some_iff.mpr ⟨rfl, decide_eq_true ⟨?_, ?_⟩⟩ <;> dsimp only <;> omega

theorem fromCharsNanos_of_minus_digits {ds : List UInt8} (hne : ds ≠ []) (hds : Digits ds)
    (hrange : decimalValue ds ≤ 2 ^ 63) :
    fromCharsNanos (45 :: ds) = some (-(decimalValue ds : ℤ), []) := by
  rw [fromCharsNanos, List.head?_cons, if_pos rfl, List.tail_cons,
    fromCharsDigits_of_digits hne hds]
  refine Option.filter_eq_some_iff.mpr ⟨rfl, decide_eq_true ⟨?_, ?_⟩⟩ <;> dsimp only <;> omega

/-! ## Floating-point numbers -/

theorem exists_exponent_sign (t : List UInt8) :
    ∃ sign, (sign = [] ∨ sign = [43] ∨ sign = [45]) ∧ t = sign ++ exponentRest.signedRest t := by
  rw [exponentRest.signedRest]
  split_ifs with hhead
  · cases t with
    | nil => simp at hhead
    | cons c t =>
        refine ⟨[c], ?_, rfl⟩
        simpa using hhead
  · exact ⟨[], Or.inl rfl, rfl⟩

theorem signedRest_append {sign ds : List UInt8} (hsign : sign = [] ∨ sign = [43] ∨ sign = [45])
    (hds : Digits ds) : exponentRest.signedRest (sign ++ ds) = ds := by
  have hplus : ds.head? ≠ some 43 := by
    intro hhead
    cases hds 43 (List.mem_of_mem_head? hhead)
  have hminus := head?_ne_minus hds
  rw [exponentRest.signedRest]
  rcases hsign with rfl | rfl | rfl
  · simp [hplus, hminus]
  · simp
  · simp

theorem exponentRest_eq_nil_iff (s : List UInt8) : exponentRest s = [] ↔ Exponent s := by
  constructor
  · intro h
    rw [exponentRest] at h
    dsimp only at h
    split_ifs at h with hletter hempty
    · subst h
      simp at hletter
    · cases s with
      | nil => simp at hletter
      | cons e t =>
          rw [List.tail_cons] at h hempty
          have hds : Digits (exponentRest.signedRest t) := List.dropWhile_eq_nil_iff.mp h
          have hne : exponentRest.signedRest t ≠ [] := by
            intro hnil
            rw [hnil] at hempty
            exact hempty rfl
          obtain ⟨sign, hsign, ht⟩ := exists_exponent_sign t
          refine Or.inr ⟨e, sign, _, congrArg _ ht, ?_, hsign, hne, hds⟩
          simpa using hletter
    · exact Or.inl h
  · rintro (rfl | ⟨e, sign, ds, rfl, he, hsign, hne, hds⟩)
    · rfl
    · have hdrop := List.dropWhile_eq_nil_iff.mpr hds
      have htake := List.takeWhile_eq_self_iff.mpr hds
      rw [exponentRest, if_pos (by simpa using he), List.tail_cons,
        signedRest_append hsign hds]
      dsimp only
      rw [htake, hdrop, if_neg (by simpa using hne)]

theorem Exponent.head? {x : List UInt8} (h : Exponent x) :
    (∀ c ∈ x.head?, isDigit c = false) ∧ x.head? ≠ some 46 := by
  rcases h with rfl | ⟨e, sign, ds, rfl, he, -⟩
  · simp
  · rcases he with rfl | rfl
    · exact ⟨by rintro c ⟨⟩; rfl, by simp⟩
    · exact ⟨by rintro c ⟨⟩; rfl, by simp⟩

theorem decimalRest_eq_nil_iff (s : List UInt8) :
    decimalRest s = some [] ↔ ∃ m x, s = m ++ x ∧ Mantissa m ∧ Exponent x := by
  have hsplit : s = s.takeWhile isDigit ++ s.dropWhile isDigit :=
    List.takeWhile_append_dropWhile.symm
  constructor
  · intro h
    rw [decimalRest] at h
    split_ifs at h with hpoint hnone hnone
    · obtain ⟨t, ht⟩ := List.head?_eq_some_iff.mp hpoint
      rw [ht] at h hsplit hnone
      rw [List.tail_cons, Option.some_inj, exponentRest_eq_nil_iff] at h
      refine ⟨s.takeWhile isDigit ++ 46 :: t.takeWhile isDigit, _, ?_,
        ⟨_, digits_takeWhile s, Or.inr ⟨_, digits_takeWhile t, rfl, ?_⟩⟩, h⟩
      · rw [List.append_assoc, List.cons_append, List.takeWhile_append_dropWhile]
        exact hsplit
      · rw [List.tail_cons, not_and_or] at hnone
        simpa using hnone
    · rw [Option.some_inj, exponentRest_eq_nil_iff] at h
      exact ⟨_, _, hsplit, ⟨_, digits_takeWhile s, Or.inl ⟨rfl, by simpa using hnone⟩⟩, h⟩
  · rintro ⟨m, x, rfl, ⟨int, hint, ⟨rfl, hne⟩ | ⟨frac, hfrac, rfl, hne⟩⟩, hx⟩
    · obtain ⟨hdrop, htake⟩ := dropWhile_digits hint hx.head?.1
      rw [decimalRest, hdrop, htake, if_neg hx.head?.2, if_neg (by simpa using hne),
        (exponentRest_eq_nil_iff x).mpr hx]
    · obtain ⟨hdrop, htake⟩ := @dropWhile_digits int (46 :: (frac ++ x)) hint
        (by rintro c ⟨⟩; rfl)
      obtain ⟨hdrop', htake'⟩ := dropWhile_digits hfrac hx.head?.1
      rw [List.append_assoc, List.cons_append, decimalRest, hdrop, htake, List.head?_cons,
        if_pos rfl, List.tail_cons, hdrop', htake', if_neg ?_, (exponentRest_eq_nil_iff x).mpr hx]
      rw [not_and_or]
      simpa using hne

theorem Mantissa.head? {m : List UInt8} (h : Mantissa m) (x : List UInt8) :
    ∃ c, (m ++ x).head? = some c ∧ (isDigit c = true ∨ c = 46) := by
  obtain ⟨int, hint, hm⟩ := h
  cases int with
  | cons c int =>
      refine ⟨c, ?_, Or.inl (hint c List.mem_cons_self)⟩
      rcases hm with ⟨rfl, -⟩ | ⟨frac, -, rfl, -⟩ <;> rfl
  | nil =>
      rcases hm with ⟨-, hne⟩ | ⟨frac, -, rfl, -⟩
      · exact absurd rfl hne
      · exact ⟨46, rfl, Or.inr rfl⟩

/-- A decimal number is an optional minus sign before a text of digits that is consumed. -/
theorem decimalNumber_iff (s : List UInt8) :
    DecimalNumber s ↔ decimalRest (signRest s) = some [] := by
  rw [decimalRest_eq_nil_iff]
  constructor
  · rintro ⟨sign, m, x, rfl, rfl | rfl, hm, hx⟩
    · obtain ⟨c, hc, hdigit⟩ := hm.head? x
      have hplain : signRest (m ++ x) = m ++ x := by
        rw [signRest, if_neg]
        rw [hc, Option.some_inj]
        rintro rfl
        rcases hdigit with hdigit | hdigit <;> cases hdigit
      exact ⟨m, x, hplain, hm, hx⟩
    · exact ⟨m, x, rfl, hm, hx⟩
  · rintro ⟨m, x, hs, hm, hx⟩
    rw [signRest] at hs
    split_ifs at hs with hminus
    · obtain ⟨t, rfl⟩ := List.head?_eq_some_iff.mp hminus
      exact ⟨[45], m, x, congrArg _ hs, Or.inr rfl, hm, hx⟩
    · exact ⟨[], m, x, hs, Or.inl rfl, hm, hx⟩

/-- An infinity or a NaN, with or without a minus sign. -/
def SpecialNumber (s : List UInt8) : Prop :=
  (infinityRest (signRest s)).isSome ∨ (nanRest (signRest s)).isSome

instance (s : List UInt8) : Decidable (SpecialNumber s) :=
  inferInstanceAs (Decidable (_ ∨ _))

theorem head?_of_wordRest {w c : UInt8} {word s : List UInt8} (hhead : s.head? = some c)
    (h : (wordRest (w :: word) s).isSome) : toLower c = w := by
  obtain ⟨t, rfl⟩ := List.head?_eq_some_iff.mp hhead
  rw [wordRest] at h
  split_ifs at h with hword
  · exact (List.cons.inj hword).1
  · cases h

theorem toLower_of_isDigit {c : UInt8} (h : isDigit c = true) : toLower c = c := by
  rw [isDigit, Bool.and_eq_true, decide_eq_true_iff, decide_eq_true_iff] at h
  rw [toLower, if_neg]
  rintro ⟨hlo, -⟩
  exact absurd (UInt8.le_trans hlo h.2) (by decide)

theorem not_special_of_decimal {s : List UInt8} (h : DecimalNumber s) : ¬ SpecialNumber s := by
  obtain ⟨m, x, hs, hm, -⟩ := (decimalRest_eq_nil_iff _).mp ((decimalNumber_iff s).mp h)
  obtain ⟨c, hc, hdigit⟩ := hm.head? x
  rw [← hs] at hc
  have hlower : toLower c ≠ 105 ∧ toLower c ≠ 110 := by
    rcases hdigit with hdigit | rfl
    · rw [toLower_of_isDigit hdigit]
      constructor <;> rintro rfl <;> cases hdigit
    · decide
  rintro (hinf | hnan)
  · rw [infinityRest, Option.isSome_or, Bool.or_eq_true] at hinf
    rcases hinf with hinf | hinf <;> exact hlower.1 (head?_of_wordRest hc hinf)
  · rw [nanRest, Option.isSome_map] at hnan
    exact hlower.2 (head?_of_wordRest hc hnan)

theorem doubleRest_of_not_special {s : List UInt8} (h : ¬ SpecialNumber s) :
    doubleRest s = decimalRest (signRest s) := by
  rw [SpecialNumber, not_or, Option.not_isSome_iff_eq_none, Option.not_isSome_iff_eq_none] at h
  rw [doubleRest, h.1, h.2]
  rfl

/-- The longest match is the whole text exactly for decimal numbers, infinities and NaNs
aside. -/
theorem doubleRest_eq_nil_iff {s rest : List UInt8} (h : doubleRest s = some rest) :
    (rest = [] ∧ ¬ SpecialNumber s) ↔ DecimalNumber s := by
  constructor
  · rintro ⟨rfl, hspecial⟩
    rw [doubleRest_of_not_special hspecial] at h
    exact (decimalNumber_iff s).mpr h
  · intro hdecimal
    have hspecial := not_special_of_decimal hdecimal
    rw [doubleRest_of_not_special hspecial, (decimalNumber_iff s).mp hdecimal] at h
    exact ⟨(Option.some_inj.mp h).symm, hspecial⟩

/-! ## No match contains a comma -/

theorem comma_not_digit {ds : List UInt8} (h : Digits ds) : (44 : UInt8) ∉ ds := by
  intro hmem
  cases h 44 hmem

theorem Mantissa.no_comma {m : List UInt8} (h : Mantissa m) : (44 : UInt8) ∉ m := by
  obtain ⟨int, hint, ⟨rfl, -⟩ | ⟨frac, hfrac, rfl, -⟩⟩ := h
  · exact comma_not_digit hint
  · simp [comma_not_digit hint, comma_not_digit hfrac]

theorem Exponent.no_comma {x : List UInt8} (h : Exponent x) : (44 : UInt8) ∉ x := by
  rcases h with rfl | ⟨e, sign, ds, rfl, he, hsign, -, hds⟩
  · simp
  · rcases he with rfl | rfl <;> rcases hsign with rfl | rfl | rfl <;>
      simp [comma_not_digit hds]

theorem DecimalNumber.no_comma {s : List UInt8} (h : DecimalNumber s) : (44 : UInt8) ∉ s := by
  obtain ⟨sign, m, x, rfl, rfl | rfl, hm, hx⟩ := h <;> simp [hm.no_comma, hx.no_comma]

/-- A comma behind a matched word without one is left over. -/
theorem comma_mem_of_wordRest {word s rest : List UInt8} (hword : (44 : UInt8) ∉ word)
    (h : wordRest word s = some rest) (hmem : (44 : UInt8) ∈ s) : (44 : UInt8) ∈ rest := by
  rw [wordRest] at h
  split_ifs at h with htake
  cases h
  rw [← List.take_append_drop word.length s, List.mem_append] at hmem
  refine hmem.resolve_left (fun hfront => hword ?_)
  rw [← htake]
  exact List.mem_map.mpr ⟨44, hfront, rfl⟩

theorem comma_mem_of_nanRest {s rest : List UInt8} (h : nanRest s = some rest)
    (hmem : (44 : UInt8) ∈ s) : (44 : UInt8) ∈ rest := by
  obtain ⟨behind, hword, rfl⟩ := Option.map_eq_some_iff.mp h
  have hbehind := comma_mem_of_wordRest (by decide) hword hmem
  split_ifs with hparen
  · obtain ⟨t, rfl⟩ := List.head?_eq_some_iff.mp hparen.1
    rw [List.tail_cons] at hparen ⊢
    obtain ⟨u, hu⟩ := List.head?_eq_some_iff.mp hparen.2
    have htail : (44 : UInt8) ∈ t := by simpa using hbehind
    rw [← @List.takeWhile_append_dropWhile _ isWordChar t, List.mem_append] at htail
    have hdrop := htail.resolve_left (fun hfront => by cases List.mem_takeWhile_imp hfront)
    rw [hu] at hdrop ⊢
    simpa using hdrop
  · exact hbehind

/-- A text that is a number in full contains no comma. -/
theorem comma_not_mem_of_doubleRest {s : List UInt8} (h : doubleRest s = some []) :
    (44 : UInt8) ∉ s := by
  by_cases hspecial : SpecialNumber s
  · intro hmem
    have hbody : (44 : UInt8) ∈ signRest s := by
      rw [signRest]
      split_ifs with hminus
      · obtain ⟨t, rfl⟩ := List.head?_eq_some_iff.mp hminus
        simpa using hmem
      · exact hmem
    rw [doubleRest] at h
    cases hinf : infinityRest (signRest s) with
    | some rest =>
        rw [hinf, Option.some_or, Option.some_inj] at h
        subst h
        rw [infinityRest, Option.or_eq_some_iff] at hinf
        rcases hinf with hinf | ⟨-, hinf⟩
        · cases comma_mem_of_wordRest (by decide) hinf hbody
        · cases comma_mem_of_wordRest (by decide) hinf hbody
    | none =>
        cases hnan : nanRest (signRest s) with
        | some rest =>
            rw [hinf, hnan, Option.none_or, Option.some_or, Option.some_inj] at h
            subst h
            cases comma_mem_of_nanRest hnan hbody
        | none =>
            rw [SpecialNumber, hinf, hnan] at hspecial
            simp at hspecial
  · exact ((doubleRest_eq_nil_iff h).mp ⟨rfl, hspecial⟩).no_comma

end UltraBacktest
