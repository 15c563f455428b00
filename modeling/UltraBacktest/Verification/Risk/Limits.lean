import UltraBacktest.Verification.Risk.Equations
import Mathlib.Logic.Relation

/-! The position limit over whole trading sessions. The check looks at the position after
a complete fill; the invariant carries that bound through the partial fills. -/

namespace UltraBacktest

/-- A portfolio with the engine that guards it, and the order that may still be filled
together with its unfilled quantity. -/
structure Session where
  portfolio : Portfolio
  engine : RiskEngine
  pending : Option (OrderRequest × ℕ)

namespace Session

def start (config : BacktestConfig) (limits : RiskLimits) : Session where
  portfolio := Portfolio.init config
  engine := { limits := limits }
  pending := none

/-- Only an approved order becomes pending; a check ends the fills of the order before. -/
def afterCheck (req : OrderRequest) (reason : RiskRejectReason) : Option (OrderRequest × ℕ) :=
  if reason = .none then some (req, req.qty) else none

/-- The steps of a disciplined session. -/
inductive Step : Session → Session → Prop
  | check {s : Session} {req : OrderRequest} {reason : RiskRejectReason} {engine : RiskEngine}
      (h : s.engine.checkPreTrade (some s.portfolio) req = some (reason, engine)) :
      Step s { s with engine := engine, pending := afterCheck req reason }
  | fill {s : Session} {req : OrderRequest} {left : ℕ} {rpt : ExecutionReport}
      (hpending : s.pending = some (req, left)) (hfill : rpt.isFill = true)
      (hsymbol : slot? req.symbol = some rpt.symbol) (hside : rpt.side = req.side)
      (hpos : 1 ≤ rpt.execQty) (hleft : rpt.execQty ≤ left) :
      Step s { s with
        portfolio := s.portfolio.onExecution rpt
        pending := some (req, left - rpt.execQty) }
  | nonFill {s : Session} {rpt : ExecutionReport} (hfill : rpt.isFill = false) :
      Step s { s with portfolio := s.portfolio.onExecution rpt }
  | mark {s : Session} (sym : Slot) (lastPrice : ℤ) :
      Step s { s with portfolio := s.portfolio.updateM2m sym lastPrice }
  | kill {s : Session} : Step s { s with engine := s.engine.triggerKillSwitch }

def Reachable (config : BacktestConfig) (limits : RiskLimits) (s : Session) : Prop :=
  Relation.ReflTransGen Step (start config limits) s

/-- The invariant of a session: the limit holds now, and holds after whatever part of
the pending order is still to come. -/
structure Safe (limits : RiskLimits) (s : Session) : Prop where
  limits_eq : s.engine.limits = limits
  within : ∀ sym, |(s.portfolio.positions sym).netQty| ≤ limits.maxPositionPerSymbol
  pending_within : ∀ req left, s.pending = some (req, left) →
    ∀ sym, slot? req.symbol = some sym →
      |(s.portfolio.positions sym).netQty + req.side.sign * left| ≤
        limits.maxPositionPerSymbol

theorem start_safe (config : BacktestConfig) (limits : RiskLimits) :
    Safe limits (start config limits) where
  limits_eq := rfl
  within := by
    intro sym
    simp [start, Portfolio.init]
  pending_within := by
    intro req left h
    cases h

/-- Between two points on the same side of the origin lie only points of smaller
magnitude than one of them. -/
theorem abs_add_sign_mul_le {net m : ℤ} {side : Side} {part whole : ℕ} (hle : part ≤ whole)
    (hnow : |net| ≤ m) (hend : |net + side.sign * whole| ≤ m) :
    |net + side.sign * part| ≤ m := by
  rw [abs_le] at hnow hend ⊢
  cases side with
  | buy =>
      simp only [Side.sign, one_mul] at hend ⊢
      omega
  | sell =>
      simp only [Side.sign, neg_one_mul] at hend ⊢
      omega

section

variable {limits : RiskLimits} {s t : Session}
variable (hpos : 1 ≤ limits.maxPositionPerSymbol)
variable (hmax : limits.maxPositionPerSymbol ≤ 2 ^ 61)
variable (hsize : 1 ≤ limits.maxOrderSize)
variable (horder : limits.maxOrderSize ≤ 2 ^ 61)

include hpos hmax hsize horder

/-- An approved order keeps the limit when it is filled completely. -/
theorem Safe.approved (hsafe : Safe limits s) {req : OrderRequest} {engine : RiskEngine}
    (h : s.engine.checkPreTrade (some s.portfolio) req = some (.none, engine)) {sym : Slot}
    (hsym : slot? req.symbol = some sym) :
    |(s.portfolio.positions sym).netQty + req.side.sign * req.qty| ≤
      limits.maxPositionPerSymbol := by
  have happroved : (s.engine.checkPreTrade (some s.portfolio) req).map Prod.fst =
      some .none := by
    rw [h]
    rfl
  obtain ⟨-, hfits, -, hpasses⟩ :=
    (s.engine.checkPreTrade_approves_iff s.portfolio req).mp happroved
  rw [RiskEngine.Oversized, hsafe.limits_eq] at hfits
  rw [RiskEngine.PassesPosition, hsafe.limits_eq] at hpasses
  obtain ⟨pos, hget, hnot⟩ := hpasses hpos
  rw [Portfolio.getPosition, hsym, Option.map_some, Option.some_inj] at hget
  subst hget
  have hqty : req.qty ≤ 2 ^ 61 := by omega
  have hnet : |(s.portfolio.positions sym).netQty| ≤ 2 ^ 61 := by
    have hwithin := hsafe.within sym
    omega
  by_contra hgt
  rw [(RiskEngine.exceedsPosition_iff hnet hqty).mpr (not_le.mp hgt)] at hnot
  cases hnot

theorem Safe.check (hsafe : Safe limits s) {req : OrderRequest} {reason : RiskRejectReason}
    {engine : RiskEngine}
    (h : s.engine.checkPreTrade (some s.portfolio) req = some (reason, engine)) :
    Safe limits { s with engine := engine, pending := afterCheck req reason } := by
  refine ⟨(RiskEngine.checkPreTrade_limits h).trans hsafe.limits_eq, hsafe.within, ?_⟩
  intro req' left hp sym hsym
  rw [afterCheck] at hp
  split at hp
  · rename_i hnone
    cases hp
    rw [hnone] at h
    exact Safe.approved hpos hmax hsize horder hsafe h hsym
  · cases hp

omit hpos hmax hsize horder in
theorem Safe.fill (hsafe : Safe limits s) {req : OrderRequest} {left : ℕ}
    {rpt : ExecutionReport} (hpending : s.pending = some (req, left))
    (hfill : rpt.isFill = true) (hsymbol : slot? req.symbol = some rpt.symbol)
    (hside : rpt.side = req.side) (hleft : rpt.execQty ≤ left) :
    Safe limits { s with
      portfolio := s.portfolio.onExecution rpt
      pending := some (req, left - rpt.execQty) } := by
  have hend := hsafe.pending_within req left hpending rpt.symbol hsymbol
  refine ⟨hsafe.limits_eq, ?_, ?_⟩
  · intro sym
    rw [Portfolio.onExecution_netQty hfill]
    split_ifs with hs
    · subst hs
      rw [hside]
      exact abs_add_sign_mul_le hleft (hsafe.within _) hend
    · rw [add_zero]
      exact hsafe.within sym
  · intro req' left' hp sym hsym
    cases hp
    rw [hsymbol, Option.some_inj] at hsym
    subst hsym
    rw [Portfolio.onExecution_netQty hfill, if_pos rfl, hside, add_assoc, ← mul_add,
      ← Nat.cast_add, Nat.add_sub_cancel' hleft]
    exact hend

omit hpos hmax hsize horder in
theorem Safe.mark (hsafe : Safe limits s) (sym : Slot) (lastPrice : ℤ) :
    Safe limits { s with portfolio := s.portfolio.updateM2m sym lastPrice } := by
  refine ⟨hsafe.limits_eq, ?_, ?_⟩
  · intro i
    rw [Portfolio.updateM2m_netQty]
    exact hsafe.within i
  · intro req left hp i hi
    rw [Portfolio.updateM2m_netQty]
    exact hsafe.pending_within req left hp i hi

theorem Safe.step (hsafe : Safe limits s) (hstep : Step s t) : Safe limits t := by
  cases hstep with
  | check h => exact Safe.check hpos hmax hsize horder hsafe h
  | fill hpending hfill hsymbol hside _ hleft =>
      exact hsafe.fill hpending hfill hsymbol hside hleft
  | nonFill hfill =>
      rw [s.portfolio.onExecution_of_not_isFill hfill]
      exact ⟨hsafe.limits_eq, hsafe.within, hsafe.pending_within⟩
  | mark sym lastPrice => exact hsafe.mark sym lastPrice
  | kill => exact ⟨hsafe.limits_eq, hsafe.within, hsafe.pending_within⟩

end

/-- No reachable state of a session exceeds the position limit on any symbol. -/
theorem position_limit_safe {config : BacktestConfig} {limits : RiskLimits}
    (hpos : 1 ≤ limits.maxPositionPerSymbol) (hmax : limits.maxPositionPerSymbol ≤ 2 ^ 61)
    (hsize : 1 ≤ limits.maxOrderSize) (horder : limits.maxOrderSize ≤ 2 ^ 61) {s : Session}
    (hreach : Reachable config limits s) (sym : Slot) :
    |(s.portfolio.positions sym).netQty| ≤ limits.maxPositionPerSymbol := by
  have hsafe : Safe limits s := by
    induction hreach with
    | refl => exact start_safe config limits
    | tail _ hstep ih => exact Safe.step hpos hmax hsize horder ih hstep
  exact hsafe.within sym

/-- A buy of 8 under a limit of 10 is approved and filled by 5 so far. -/
theorem position_limit_safe_partial_fill :
    |(((Portfolio.init { initialCash := 0 }).onExecution
      { symbol := 1, side := .buy, execQty := 5, execPrice := 100, isFill := true }).positions
        1).netQty| ≤ 10 := by
  let limits : RiskLimits := { maxPositionPerSymbol := 10, maxOrderSize := 8 }
  let req : OrderRequest := { symbol := 1, side := .buy, qty := 8 }
  have hcheck : ({ limits := limits } : RiskEngine).checkPreTrade
      (some (Portfolio.init { initialCash := 0 })) req = some (.none, { limits := limits }) := by
    decide
  have happroved : Step (start { initialCash := 0 } limits) _ := Step.check hcheck
  have hfilled := Relation.ReflTransGen.tail (Relation.ReflTransGen.single happroved)
    (@Step.fill _ req 8 ⟨1, .buy, 5, 100, true⟩ rfl rfl rfl rfl (by decide) (by decide))
  exact @position_limit_safe _ limits (by decide) (by decide) (by decide) (by decide) _ hfilled 1

end Session

end UltraBacktest
