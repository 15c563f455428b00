import UltraBacktest.Model.Risk
import UltraBacktest.Verification.Portfolio.Equations

/-! What a pre-trade check can answer, and what each answer says about the order, the
portfolio and the engine. -/

namespace UltraBacktest

namespace RiskEngine

def Oversized (r : RiskEngine) (req : OrderRequest) : Prop :=
  0 < r.limits.maxOrderSize ∧ r.limits.maxOrderSize < req.qty

def Breached (r : RiskEngine) (p : Portfolio) : Prop :=
  0 < r.limits.maxLoss ∧ p.totalPnl < -r.limits.maxLoss

theorem checkPreTrade_of_killed {r : RiskEngine} (h : r.killed = true) (p : Option Portfolio)
    (req : OrderRequest) : r.checkPreTrade p req = some (.killSwitch, r) :=
  if_pos h

/-- An oversized order is rejected before the loss is looked at. -/
theorem checkPreTrade_of_oversized {r : RiskEngine} {req : OrderRequest}
    (hk : r.killed = false) (h : r.Oversized req) (p : Option Portfolio) :
    r.checkPreTrade p req = some (.maxOrderSize, r) :=
  (if_neg (by simp [hk])).trans (if_pos h)

theorem checkPreTrade_of_breached {r : RiskEngine} {req : OrderRequest} {p : Portfolio}
    (hk : r.killed = false) (ho : ¬ r.Oversized req) (h : r.Breached p) :
    r.checkPreTrade (some p) req = some (.maxLoss, { r with killed := true }) :=
  (if_neg (by simp [hk])).trans ((if_neg ho).trans (if_pos h))

/-- Past the kill switch, the size and the loss, the answer depends on the position. -/
theorem checkPreTrade_position {r : RiskEngine} {req : OrderRequest} {p : Portfolio}
    (hk : r.killed = false) (ho : ¬ r.Oversized req) (h : ¬ r.Breached p) :
    r.checkPreTrade (some p) req =
      if r.limits.maxPositionPerSymbol > 0 then
        (p.getPosition req.symbol).map (fun pos =>
          (if exceedsPosition r.limits pos.netQty req then .maxPosition else .none, r))
      else some (.none, r) := by
  refine (if_neg (by simp [hk])).trans ((if_neg ho).trans ((if_neg h).trans ?_))
  congr 1
  cases p.getPosition req.symbol with
  | none => rfl
  | some pos => cases hx : exceedsPosition r.limits pos.netQty req <;> simp [hx]

theorem checkPreTrade_eq_none {r : RiskEngine} {req : OrderRequest} {p : Portfolio}
    {pos : Position} (hk : r.killed = false) (ho : ¬ r.Oversized req) (h : ¬ r.Breached p)
    (hpos : p.getPosition req.symbol = some pos)
    (hx : exceedsPosition r.limits pos.netQty req = false) :
    r.checkPreTrade (some p) req = some (.none, r) := by
  rw [checkPreTrade_position hk ho h, hpos, Option.map_some, hx]
  exact ite_self _

/-- Every way a check can answer. Only a breach that is looked at changes the engine. -/
theorem checkPreTrade_cases {r r' : RiskEngine} {p : Portfolio} {req : OrderRequest}
    {reason : RiskRejectReason} (h : r.checkPreTrade (some p) req = some (reason, r')) :
    (r.killed = true ∧ reason = .killSwitch ∧ r' = r) ∨
    (r.killed = false ∧ r.Oversized req ∧ reason = .maxOrderSize ∧ r' = r) ∨
    (r.killed = false ∧ ¬ r.Oversized req ∧ r.Breached p ∧
      reason = .maxLoss ∧ r' = { r with killed := true }) ∨
    (r.killed = false ∧ ¬ r.Oversized req ∧ ¬ r.Breached p ∧
      reason = .maxPosition ∧ r' = r) ∨
    (r.killed = false ∧ ¬ r.Oversized req ∧ ¬ r.Breached p ∧ reason = .none ∧ r' = r ∧
      (0 < r.limits.maxPositionPerSymbol → ∃ pos, p.getPosition req.symbol = some pos ∧
        exceedsPosition r.limits pos.netQty req = false)) := by
  rcases Bool.eq_false_or_eq_true r.killed with hk | hk
  · rw [checkPreTrade_of_killed hk] at h
    cases h
    exact Or.inl ⟨hk, rfl, rfl⟩
  by_cases ho : r.Oversized req
  · rw [checkPreTrade_of_oversized hk ho] at h
    cases h
    exact Or.inr (Or.inl ⟨hk, ho, rfl, rfl⟩)
  by_cases hb : r.Breached p
  · rw [checkPreTrade_of_breached hk ho hb] at h
    cases h
    exact Or.inr (Or.inr (Or.inl ⟨hk, ho, hb, rfl, rfl⟩))
  rw [checkPreTrade_position hk ho hb] at h
  split at h
  · obtain ⟨pos, hpos, heq⟩ := Option.map_eq_some_iff.mp h
    cases hx : exceedsPosition r.limits pos.netQty req with
    | true =>
        rw [hx] at heq
        cases heq
        exact Or.inr (Or.inr (Or.inr (Or.inl ⟨hk, ho, hb, rfl, rfl⟩)))
    | false =>
        rw [hx] at heq
        cases heq
        exact Or.inr (Or.inr (Or.inr (Or.inr ⟨hk, ho, hb, rfl, rfl, fun _ => ⟨pos, hpos, hx⟩⟩)))
  · rename_i hzero
    cases h
    exact Or.inr (Or.inr (Or.inr (Or.inr ⟨hk, ho, hb, rfl, rfl, fun hpos => (hzero hpos).elim⟩)))

/-- The position check is switched off, or the position after the order is within bounds. -/
def PassesPosition (r : RiskEngine) (p : Portfolio) (req : OrderRequest) : Prop :=
  0 < r.limits.maxPositionPerSymbol → ∃ pos, p.getPosition req.symbol = some pos ∧
    exceedsPosition r.limits pos.netQty req = false

/-- The order has a position in the array, and its check finds it over the limit. -/
def FailsPosition (r : RiskEngine) (p : Portfolio) (req : OrderRequest) : Prop :=
  0 < r.limits.maxPositionPerSymbol ∧ ∃ pos, p.getPosition req.symbol = some pos ∧
    exceedsPosition r.limits pos.netQty req = true

/-- An order is approved exactly when it passes all four checks. -/
theorem checkPreTrade_approves_iff (r : RiskEngine) (p : Portfolio) (req : OrderRequest) :
    (r.checkPreTrade (some p) req).map Prod.fst = some .none ↔
      r.killed = false ∧ ¬ r.Oversized req ∧ ¬ r.Breached p ∧ r.PassesPosition p req := by
  constructor
  · intro h
    obtain ⟨⟨reason, r'⟩, hcheck, hreason⟩ := Option.map_eq_some_iff.mp h
    dsimp only at hreason
    subst hreason
    obtain ⟨-, hr, -⟩ | ⟨-, -, hr, -⟩ | ⟨-, -, -, hr, -⟩ | ⟨-, -, -, hr, -⟩ |
      ⟨hk, ho, hb, -, -, hpasses⟩ := checkPreTrade_cases hcheck
    · cases hr
    · cases hr
    · cases hr
    · cases hr
    · exact ⟨hk, ho, hb, hpasses⟩
  · rintro ⟨hk, ho, hb, hpasses⟩
    rw [checkPreTrade_position hk ho hb]
    split_ifs with hlimit
    · obtain ⟨pos, hpos, hx⟩ := hpasses hlimit
      rw [hpos, Option.map_some, hx]
      rfl
    · rfl

/-- A check leaves the limits alone. -/
theorem checkPreTrade_limits {r r' : RiskEngine} {p : Portfolio} {req : OrderRequest}
    {reason : RiskRejectReason} (h : r.checkPreTrade (some p) req = some (reason, r')) :
    r'.limits = r.limits := by
  obtain ⟨-, -, rfl⟩ | ⟨-, -, -, rfl⟩ | ⟨-, -, -, -, rfl⟩ | ⟨-, -, -, -, rfl⟩ |
    ⟨-, -, -, -, rfl, -⟩ := checkPreTrade_cases h <;> rfl

/-! ## The position comparison -/

theorem expectedPos_eq_wrap (netQty : ℤ) (req : OrderRequest) :
    expectedPos netQty req = Word64.wrap (netQty + req.side.sign * req.qty) := by
  rw [expectedPos]
  cases req.side with
  | buy => rw [Side.sign, one_mul]
  | sell => rw [Side.sign, neg_one_mul, ← sub_eq_add_neg]

theorem expectedPos_eq {netQty : ℤ} {req : OrderRequest}
    (h : Word64.Fits (netQty + req.side.sign * req.qty)) :
    expectedPos netQty req = netQty + req.side.sign * req.qty := by
  rw [expectedPos_eq_wrap, Word64.wrap_of_fits h]

/-- Away from the ends of the range the unsigned comparison is the intended one. -/
theorem exceedsPosition_iff {limits : RiskLimits} {netQty : ℤ} {req : OrderRequest}
    (hnet : |netQty| ≤ 2 ^ 61) (hqty : req.qty ≤ 2 ^ 61) :
    exceedsPosition limits netQty req = true ↔
      (limits.maxPositionPerSymbol : ℤ) < |netQty + req.side.sign * req.qty| := by
  have hq : (req.qty : ℤ) ≤ 2 ^ 61 := by exact_mod_cast hqty
  have habs : |netQty + req.side.sign * req.qty| ≤ 2 ^ 62 :=
    calc |netQty + req.side.sign * req.qty|
        ≤ |netQty| + |req.side.sign * (req.qty : ℤ)| := abs_add_le _ _
      _ = |netQty| + req.qty := by rw [Side.abs_sign_mul, Nat.abs_cast]
      _ ≤ 2 ^ 62 := by linarith
  have hlt : (2 : ℤ) ^ 62 < 2 ^ 63 := by norm_num
  have hfits := Word64.fits_of_abs_le habs hlt
  have hfits' : Word64.Fits |netQty + req.side.sign * req.qty| :=
    Word64.fits_of_abs_le ((abs_abs _).trans_le habs) hlt
  rw [exceedsPosition, expectedPos_eq hfits, Word64.wrap_of_fits hfits',
    Word64.toWord_of_nonneg (abs_nonneg _) hfits', decide_eq_true_iff]
  omega

end RiskEngine

end UltraBacktest
