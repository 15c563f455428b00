import Mathlib.Data.List.Basic

/-! Pull readers: a state that hands out items one at a time. A call may be undefined,
which is `none`; a defined call either returns an item or reports that there is none. -/

namespace Stream

class Source (ρ : Type*) (ε : outParam (Type*)) where
  hasNext : ρ → Bool
  readNext : ρ → Option (Option ε × ρ)

export Source (hasNext readNext)

variable {ρ ε : Type*} [Source ρ ε]

/-- Successive reads return these items and end in this state. -/
inductive Reads : ρ → List ε → ρ → Prop
  | nil {r : ρ} : Reads r [] r
  | cons {r r' r'' : ρ} {e : ε} {es : List ε} (hread : readNext r = some (some e, r'))
      (hrest : Reads r' es r'') : Reads r (e :: es) r''

/-- A read returns no item and leaves the reader as it is. -/
def Exhausted (r : ρ) : Prop := readNext r = some (none, r)

/-- The reader returns exactly these items and then nothing on every further call. -/
def Delivers (r : ρ) (es : List ε) : Prop := ∃ r', Reads r es r' ∧ Exhausted r'

/-- At every point the reader reports an item exactly when the next read returns one. -/
def Announces (r : ρ) : Prop :=
  ∀ es r', Reads r es r' → (hasNext r' = true ↔ ∃ e r'', readNext r' = some (some e, r''))

theorem delivers_nil {r : ρ} : Delivers r [] ↔ Exhausted r := by
  constructor
  · rintro ⟨r', hreads, hend⟩
    cases hreads
    exact hend
  · intro h
    exact ⟨r, Reads.nil, h⟩

theorem delivers_cons {r : ρ} {e : ε} {es : List ε} :
    Delivers r (e :: es) ↔ ∃ r', readNext r = some (some e, r') ∧ Delivers r' es := by
  constructor
  · rintro ⟨r'', hreads, hend⟩
    cases hreads with
    | cons hread hrest => exact ⟨_, hread, _, hrest, hend⟩
  · rintro ⟨r', hread, r'', hrest, hend⟩
    exact ⟨r'', Reads.cons hread hrest, hend⟩

theorem Reads.append {r r' r'' : ρ} {xs ys : List ε} (hx : Reads r xs r')
    (hy : Reads r' ys r'') : Reads r (xs ++ ys) r'' := by
  induction hx with
  | nil => exact hy
  | cons hread _ ih => exact Reads.cons hread (ih hy)

/-- What a reader has already returned is a first part of what it delivers. -/
theorem Reads.delivers {r r' : ρ} {xs es : List ε} (hreads : Reads r xs r')
    (h : Delivers r es) : ∃ ys, es = xs ++ ys ∧ Delivers r' ys := by
  induction hreads generalizing es with
  | nil => exact ⟨es, rfl, h⟩
  | @cons r r₁ r₂ e xs hread _ ih =>
      cases es with
      | nil => cases hread.symm.trans (delivers_nil.mp h)
      | cons e' es =>
          obtain ⟨r', hread', hrest⟩ := delivers_cons.mp h
          cases hread.symm.trans hread'
          obtain ⟨ys, rfl, hys⟩ := ih hrest
          exact ⟨ys, rfl, hys⟩

/-- A reader delivers one stream only. -/
theorem Delivers.unique {r : ρ} {es es' : List ε} (h : Delivers r es) (h' : Delivers r es') :
    es = es' := by
  obtain ⟨r₁, hreads, hend⟩ := h
  obtain ⟨ys, rfl, hys⟩ := hreads.delivers h'
  cases ys with
  | nil => rw [List.append_nil]
  | cons e ys =>
      obtain ⟨r₂, hread, -⟩ := delivers_cons.mp hys
      cases hend.symm.trans hread

/-- A reader whose flag agrees with each defined read announces its whole stream. -/
theorem Delivers.announces {r : ρ} {es : List ε} (h : Delivers r es)
    (hsome : ∀ (r r' : ρ) (e : ε), readNext r = some (some e, r') → hasNext r = true)
    (hnone : ∀ r r' : ρ, readNext r = some (none, r') → hasNext r = false) : Announces r := by
  intro xs r' hreads
  obtain ⟨ys, -, hys⟩ := hreads.delivers h
  constructor
  · intro hhas
    cases ys with
    | nil =>
        rw [hnone r' r' (delivers_nil.mp hys)] at hhas
        cases hhas
    | cons e ys =>
        obtain ⟨r'', hread, -⟩ := delivers_cons.mp hys
        exact ⟨e, r'', hread⟩
  · rintro ⟨e, r'', hread⟩
    exact hsome r' r'' e hread

/-! ## Readers with one item of lookahead -/

/-- A read that hands out a stored item and loads the next one. -/
def readLookahead {ρ ε : Type*} (ready : ρ → Bool) (item : ρ → ε)
    (advance : ρ → Option (Bool × ρ)) (r : ρ) : Option (Option ε × ρ) :=
  if !ready r then some (none, r) else (advance r).map (fun a => (some (item r), a.2))

theorem readLookahead_of_ready {ρ ε : Type*} {ready : ρ → Bool} {item : ρ → ε}
    {advance : ρ → Option (Bool × ρ)} {r : ρ} (h : ready r = true) :
    readLookahead ready item advance r = (advance r).map (fun a => (some (item r), a.2)) := by
  rw [readLookahead, h]
  rfl

theorem readLookahead_of_not_ready {ρ ε : Type*} {ready : ρ → Bool} {item : ρ → ε}
    {advance : ρ → Option (Bool × ρ)} {r : ρ} (h : ready r = false) :
    readLookahead ready item advance r = some (none, r) := by
  rw [readLookahead, h]
  rfl

section Lookahead

variable (item : ρ → ε) (Pending : ρ → List ε → Prop)

/-- The lookahead holds the first of these items and the others are still pending. -/
def Loaded (r : ρ) : List ε → Prop
  | [] => hasNext r = false
  | e :: es => hasNext r = true ∧ item r = e ∧ Pending r es

variable {item Pending} {advance : ρ → Option (Bool × ρ)}
  (hsource : ∀ r : ρ, readNext r = readLookahead hasNext item advance r)

include hsource

theorem announces_of_lookahead {r : ρ} {es : List ε} (h : Delivers r es) : Announces r := by
  apply h.announces
  · intro r r' e hread
    rw [hsource] at hread
    by_contra hhas
    rw [Bool.not_eq_true] at hhas
    cases (readLookahead_of_not_ready hhas).symm.trans hread
  · intro r r' hread
    rw [hsource] at hread
    by_contra hhas
    rw [Bool.not_eq_false] at hhas
    obtain ⟨a, -, heq⟩ :=
      Option.map_eq_some_iff.mp ((readLookahead_of_ready hhas).symm.trans hread)
    cases heq

/-- If every load brings the first pending item into the lookahead, the reader delivers
everything and announces it. -/
theorem Loaded.delivers
    (hadvance : ∀ (r : ρ) (es : List ε), Pending r es →
      ∃ r', advance r = some (!es.isEmpty, r') ∧ Loaded item Pending r' es)
    {r : ρ} {es : List ε} (h : Loaded item Pending r es) : Delivers r es ∧ Announces r := by
  have hdelivers : Delivers r es := by
    induction es generalizing r with
    | nil => exact delivers_nil.mpr ((hsource r).trans (readLookahead_of_not_ready h))
    | cons e es ih =>
        obtain ⟨hhas, rfl, hpending⟩ := h
        obtain ⟨r', hload, hloaded⟩ := hadvance r es hpending
        refine delivers_cons.mpr ⟨r', (hsource r).trans ?_, ih hloaded⟩
        rw [readLookahead_of_ready hhas, hload]
        rfl
  exact ⟨hdelivers, announces_of_lookahead hsource hdelivers⟩

end Lookahead

/-! ## Readers whose items are converted -/

/-- A reader whose items are handed out converted. -/
structure Mapped (ρ : Type*) {ε ε' : Type*} (f : ε → ε') where
  source : ρ

instance {ε' : Type*} {f : ε → ε'} : Source (Mapped ρ f) ε' where
  hasNext r := hasNext r.source
  readNext r := (readNext r.source).map (fun q => (q.1.map f, ⟨q.2⟩))

theorem Delivers.mapped {ε' : Type*} (f : ε → ε') {r : ρ} {es : List ε} (h : Delivers r es) :
    Delivers (⟨r⟩ : Mapped ρ f) (es.map f) := by
  induction es generalizing r with
  | nil =>
      have hend := delivers_nil.mp h
      exact delivers_nil.mpr (congrArg (Option.map _) hend)
  | cons e es ih =>
      obtain ⟨r', hread, hrest⟩ := delivers_cons.mp h
      exact delivers_cons.mpr ⟨⟨r'⟩, congrArg (Option.map _) hread, ih hrest⟩

end Stream
