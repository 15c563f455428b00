import UltraBacktest.Verification.Exchange.Overflow

/-! The symbols of a backtest. The engine calls back only for symbols that have been
registered with it, so the symbols of the configuration bound the access to the position
array, and no other position is ever touched. -/

namespace UltraBacktest

open Interaction Stream

variable {ε τ μ : Type} {ρ σ : Type*} [Source ρ Event]

def EngineCall.registers : EngineCall τ μ → List Symbol
  | .addSymbol sym => [sym]
  | _ => []

/-- What the simulator relies on in UltraLOB's engine: a callback is registered for each
symbol by `add_symbol` and by no other call, reports come through these callbacks, and a fill
moves at least one unit. -/
structure MatchingEngine.Lawful (lob : MatchingEngine ε τ μ) : Prop where
  hasSymbol_new : ∀ n sym, lob.hasSymbol (lob.new n) sym = false
  hasSymbol_call : ∀ c e sym, lob.hasSymbol (lob.call c e).engine sym = true ↔
    lob.hasSymbol e sym = true ∨ sym ∈ c.registers
  fill_registered : ∀ c e, ∀ rpt ∈ (lob.call c e).reports, rpt.isFill = true →
    lob.hasSymbol e rpt.symbol = true
  fill_positive : ∀ c e, ∀ rpt ∈ (lob.call c e).reports, rpt.isFill = true → 1 ≤ rpt.execQty

/-! ## Booking reports on known symbols -/

/-- The report can be booked, and on one of these symbols. -/
def LobReport.Within (syms : List Symbol) (rpt : LobReport) : Prop :=
  rpt.isFill = true → rpt.symbol ∈ syms ∧ 1 ≤ rpt.execQty

/-- The positions of all other symbols are as the constructor made them. -/
def Portfolio.Untouched (syms : List Symbol) (p : Portfolio) : Prop :=
  ∀ s : Slot, UInt32.ofNat s.val ∉ syms → p.positions s = { symbol := UInt32.ofNat s.val }

theorem slot?_of_lt {sym : Symbol} (h : sym.toNat < maxSymbols) :
    slot? sym = some ⟨sym.toNat, h⟩ := dif_pos h

theorem Portfolio.onReport_within {syms : List Symbol}
    (hrange : ∀ sym ∈ syms, sym.toNat < maxSymbols) {p : Portfolio} (hp : p.Untouched syms)
    {rpt : LobReport} (hrpt : rpt.Within syms) :
    ∃ q, p.onReport rpt = some q ∧ q.Untouched syms := by
  rw [onReport]
  cases hfill : rpt.isFill with
  | false => exact ⟨p, rfl, hp⟩
  | true =>
      obtain ⟨hmem, hqty⟩ := hrpt hfill
      have hlt := hrange rpt.symbol hmem
      refine ⟨p.onExecution (rpt.at ⟨rpt.symbol.toNat, hlt⟩), ?_, ?_⟩
      · have hnonzero : ¬ (rpt.execQty = 0 ∧
            (p.positions ⟨rpt.symbol.toNat, hlt⟩).netQty = 0) := by
          rintro ⟨hzero, -⟩
          omega
        rw [slot?_of_lt hlt, Option.bind_some, if_neg hnonzero]
        rfl
      · intro s hs
        have hne : s ≠ ⟨rpt.symbol.toNat, hlt⟩ := by
          rintro rfl
          exact hs (by rwa [UInt32.ofNat_toNat])
        rw [positions_onExecution_at p _ hfill]
        exact (Function.update_of_ne hne _ _).trans (hp s hs)

theorem ExchangeSimulator.book_within {syms : List Symbol}
    (hrange : ∀ sym ∈ syms, sym.toNat < maxSymbols) {rpts : List LobReport}
    (hrpts : ∀ rpt ∈ rpts, rpt.Within syms) {p : Option Portfolio}
    (hp : ∀ q ∈ p, q.Untouched syms) :
    ∃ p', book rpts p = some p' ∧ ∀ q ∈ p', q.Untouched syms := by
  cases p with
  | none => exact ⟨none, rfl, hp⟩
  | some p =>
      have hbooks : ∃ p', rpts.foldlM Portfolio.onReport p = some p' ∧ p'.Untouched syms := by
        have hstart := hp p rfl
        induction rpts generalizing p with
        | nil => exact ⟨p, rfl, hstart⟩
        | cons rpt rpts ih =>
            obtain ⟨hhead, htail⟩ := List.forall_mem_cons.mp hrpts
            obtain ⟨q, hq, huntouched⟩ := Portfolio.onReport_within hrange hstart hhead
            obtain ⟨p', hp', hlast⟩ := ih htail q (by simpa using huntouched) huntouched
            refine ⟨p', ?_, hlast⟩
            rw [List.foldlM_cons, hq]
            exact hp'
      obtain ⟨p', hp', hlast⟩ := hbooks
      refine ⟨some p', congrArg (Option.map some) hp', ?_⟩
      rintro q ⟨⟩
      exact hlast

/-! ## The invariant -/

/-- The engine knows these symbols, and only they have been traded. -/
structure Registered (lob : MatchingEngine ε τ μ) (syms : List Symbol)
    (sim : ExchangeSimulator ε) : Prop where
  hasSymbol_iff : ∀ sym, lob.hasSymbol sim.engine sym = true ↔ sym ∈ syms
  untouched : ∀ p ∈ sim.portfolio, p.Untouched syms

section Registered

variable {lob : MatchingEngine ε τ μ} (hlaw : lob.Lawful) (config : ExchangeConfig)

include hlaw

theorem Registered.callEngine {syms : List Symbol}
    (hrange : ∀ sym ∈ syms, sym.toNat < maxSymbols) {sim : ExchangeSimulator ε}
    (h : Registered lob syms sim) (c : EngineCall τ μ) :
    ∃ answer sim', sim.callEngine lob c = some (answer, sim') ∧
      Registered lob (syms ++ c.registers) sim' := by
  have hwithin : ∀ rpt ∈ (lob.call c sim.engine).reports, rpt.Within syms := by
    intro rpt hrpt hfill
    exact ⟨(h.hasSymbol_iff _).mp (hlaw.fill_registered c _ rpt hrpt hfill),
      hlaw.fill_positive c _ rpt hrpt hfill⟩
  obtain ⟨p, hp, huntouched⟩ := ExchangeSimulator.book_within hrange hwithin h.untouched
  have hcall := ExchangeSimulator.callEngine_eq lob sim c
  rw [hp, Option.map_some] at hcall
  refine ⟨_, _, hcall, ?_, ?_⟩
  · intro sym
    rw [hlaw.hasSymbol_call, h.hasSymbol_iff, List.mem_append]
  · intro q hq s hs
    exact huntouched q hq s (fun hmem => hs (List.mem_append_left _ hmem))

theorem Registered.initializeEngine
    (hrange : ∀ sym ∈ config.symbols, sym.toNat < maxSymbols) {sim : ExchangeSimulator ε}
    (h : Registered lob [] sim) :
    ∃ sim', sim.initializeEngine lob config = some sim' ∧ Registered lob config.symbols sim' := by
  rw [ExchangeSimulator.initializeEngine]
  -- The symbols registered so far stand before those that are left.
  suffices hgo : ∀ (syms done : List Symbol) (sim : ExchangeSimulator ε),
      (∀ sym ∈ done ++ syms, sym.toNat < maxSymbols) → Registered lob done sim →
      ∃ sim', syms.foldlM (fun sim sym =>
          (sim.callEngine lob (.addSymbol sym)).map Prod.snd) sim = some sim' ∧
        Registered lob (done ++ syms) sim' from hgo config.symbols [] sim hrange h
  intro syms
  induction syms with
  | nil =>
      intro done sim _ h
      exact ⟨sim, rfl, by rwa [List.append_nil]⟩
  | cons sym syms ih =>
      intro done sim hrange h
      obtain ⟨answer, sim₁, hcall, h₁⟩ := h.callEngine hlaw
        (fun sym hsym => hrange sym (List.mem_append_left _ hsym)) (.addSymbol sym)
      rw [List.append_cons] at hrange ⊢
      obtain ⟨sim', hrest, h'⟩ := ih _ sim₁ hrange h₁
      refine ⟨sim', ?_, h'⟩
      rw [List.foldlM_cons, hcall]
      exact hrest

theorem Registered.answer {syms : List Symbol}
    (hrange : ∀ sym ∈ syms, sym.toNat < maxSymbols) {sim : ExchangeSimulator ε}
    (h : Registered lob syms sim) (c : Request τ μ) :
    ∃ (answer : (exchangeInterface ε τ μ).Answer c) (sim' : ExchangeSimulator ε),
      ExchangeSimulator.answer lob config c sim = some (answer, sim') ∧
        Registered lob syms sim' := by
  have hcall : ∀ call : EngineCall τ μ, call.registers = [] → ∃ answer sim',
      sim.callEngine lob call = some (answer, sim') ∧ Registered lob syms sim' := by
    intro call hnone
    have hstep := h.callEngine hlaw hrange call
    rwa [hnone, List.append_nil] at hstep
  cases c with
  | sendOrder req =>
      obtain ⟨answer, sim', hsubmit, h'⟩ := hcall
        (.submit (ExchangeSimulator.adjustedReq config sim.currentTime req)) rfl
      refine ⟨(), sim', ?_, h'⟩
      rw [ExchangeSimulator.answer, ExchangeSimulator.submitOrder, hsubmit]
      rfl
  | cancelOrder sym id => exact hcall (.cancel sym id) rfl
  | modifyOrder sym req => exact hcall (.modify sym req) rfl
  | portfolio => exact ⟨sim.portfolio, sim, rfl, h⟩
  | engine => exact ⟨sim.engine, sim, rfl, h⟩

end Registered

theorem registered_new {lob : MatchingEngine ε τ μ} (hlaw : lob.Lawful)
    (config : ExchangeConfig) :
    Registered lob [] (ExchangeSimulator.new lob config
      (some (Portfolio.init config.toBacktestConfig))) := by
  constructor
  · intro sym
    rw [ExchangeSimulator.new, hlaw.hasSymbol_new]
    simp
  · rintro p ⟨⟩ s -
    rfl

/-- A fill of the small engine is on a registered symbol and not empty. -/
theorem crossingBook_fill {c : EngineCall (ℕ × ℤ) Unit} {b : CrossingBook} {rpt : LobReport}
    (h : rpt ∈ (crossingBook.call c b).reports) (hfill : rpt.isFill = true) :
    rpt.symbol ∈ b.symbols ∧ 1 ≤ rpt.execQty := by
  cases c with
  | addSymbol sym => cases h
  | cancel sym id =>
      simp only [crossingBook] at h
      split at h <;> cases h
  | modify sym req => cases h
  | submit req =>
      simp only [crossingBook] at h
      split_ifs at h with hbad
      · cases h
      obtain ⟨hsymbol, hqty⟩ := not_or.mp hbad
      rw [not_not] at hsymbol
      cases hopposite : b.opposite? req with
      | none =>
          rw [hopposite] at h
          cases List.mem_singleton.mp h
          cases hfill
      | some o =>
          have ho := List.find?_some hopposite
          rw [decide_eq_true_iff] at ho
          rw [hopposite] at h
          rcases List.mem_cons.mp h with rfl | h
          · exact ⟨ho.1 ▸ hsymbol, Nat.one_le_iff_ne_zero.mpr (ho.2.2.1 ▸ hqty)⟩
          · cases List.mem_singleton.mp h
            exact ⟨hsymbol, Nat.one_le_iff_ne_zero.mpr hqty⟩

theorem lawful_crossingBook : crossingBook.Lawful := by
  constructor
  · intro n sym
    rfl
  · intro c b sym
    cases c with
    | addSymbol sym' => simp [crossingBook, EngineCall.registers, or_comm]
    | submit req =>
        simp only [crossingBook, EngineCall.registers]
        split_ifs
        · simp
        · split <;> simp
    | cancel sym' id =>
        simp only [crossingBook, EngineCall.registers]
        split <;> simp
    | modify sym' req => simp [crossingBook, EngineCall.registers]
  · intro c b rpt h hfill
    exact decide_eq_true (crossingBook_fill h hfill).1
  · intro c b rpt h hfill
    exact (crossingBook_fill h hfill).2

end UltraBacktest
