import UltraBacktest.Verification.Risk.Equations

/-! The position check over the full 64-bit ranges. The expected position is computed
modulo `2 ^ 64`, so that one whole turn away from zero it looks small again. -/

namespace UltraBacktest

namespace RiskEngine

/-- The order would bring the position within the limit of `2 ^ 64` or of `-2 ^ 64`. -/
def TurnsOver (limits : RiskLimits) (netQty : ℤ) (req : OrderRequest) : Prop :=
  2 ^ 64 - (limits.maxPositionPerSymbol : ℤ) ≤ |netQty + req.side.sign * req.qty| ∧
    |netQty + req.side.sign * req.qty| ≤ 2 ^ 64 + limits.maxPositionPerSymbol

theorem exceedsPosition_eq_false_iff {limits : RiskLimits} {netQty : ℤ} {req : OrderRequest}
    (hnet : Word64.Fits netQty) (hqty : req.qty < 2 ^ 64)
    (hmax : limits.maxPositionPerSymbol < 2 ^ 63) :
    exceedsPosition limits netQty req = false ↔
      |netQty + req.side.sign * req.qty| ≤ limits.maxPositionPerSymbol ∨
        TurnsOver limits netQty req := by
  have hrange : |netQty + req.side.sign * req.qty| < 3 * 2 ^ 63 := by
    have hsum := abs_add_le netQty (req.side.sign * req.qty)
    have habs : |netQty| ≤ 2 ^ 63 := abs_le.mpr ⟨hnet.1, hnet.2.le⟩
    have hq : (req.qty : ℤ) < 2 ^ 64 := by exact_mod_cast hqty
    rw [Side.abs_sign_mul, Nat.abs_cast] at hsum
    omega
  have hword := Word64.toWord_wrap_abs
    (Word64.exists_wrap_eq (netQty + req.side.sign * req.qty)).1
  rw [TurnsOver, ← Word64.abs_wrap_le_iff hrange hmax, ← hword, exceedsPosition,
    expectedPos_eq_wrap, decide_eq_false_iff_not, not_lt, Nat.cast_le]

/-- An approval answers for the position that the order really leads to, exactly when the
order is rejected before its position is looked at or does not turn the position over. -/
theorem position_check_exact_iff {r : RiskEngine} {p : Portfolio} {req : OrderRequest}
    {pos : Position} (hpos : p.getPosition req.symbol = some pos)
    (hnet : Word64.Fits pos.netQty) (hqty : req.qty < 2 ^ 64)
    (hlimit : 0 < r.limits.maxPositionPerSymbol)
    (hmax : r.limits.maxPositionPerSymbol < 2 ^ 63) :
    ((r.checkPreTrade (some p) req).map Prod.fst = some .none →
        |pos.netQty + req.side.sign * req.qty| ≤ r.limits.maxPositionPerSymbol) ↔
      r.killed = true ∨ r.Oversized req ∨ r.Breached p ∨
        ¬ TurnsOver r.limits pos.netQty req := by
  have hiff := exceedsPosition_eq_false_iff hnet hqty hmax
  rw [checkPreTrade_approves_iff]
  constructor
  · intro h
    by_contra hnot
    rw [not_or, not_or, not_or, not_not, Bool.not_eq_true] at hnot
    obtain ⟨hk, ho, hb, hturn⟩ := hnot
    have hle := h ⟨hk, ho, hb, fun _ => ⟨pos, hpos, hiff.mpr (Or.inr hturn)⟩⟩
    have hlow := hturn.1
    omega
  · rintro h ⟨hk, ho, hb, hpasses⟩
    obtain ⟨pos', hpos', hwithin⟩ := hpasses hlimit
    cases hpos.symm.trans hpos'
    rcases h with h | h | h | h
    · rw [hk] at h
      cases h
    · exact absurd h ho
    · exact absurd h hb
    · exact (hiff.mp hwithin).resolve_right h

/-- With the order size checked, an order of 100 against a position of 0. -/
theorem position_check_exact_small_order :
    let r : RiskEngine := { limits := { maxPositionPerSymbol := 200 } }
    let p : Portfolio := Portfolio.init { initialCash := 0 }
    (r.checkPreTrade (some p) ⟨1, .buy, 100⟩).map Prod.fst = some .none ∧
      |(p.positions 1).netQty + Side.sign .buy * (100 : ℕ)| ≤ 200 := by
  intro r p
  have happroved : (r.checkPreTrade (some p) ⟨1, .buy, 100⟩).map Prod.fst = some .none := by
    decide +kernel
  have hiff := @position_check_exact_iff r p ⟨1, .buy, 100⟩ (p.positions 1) rfl (by decide)
    (by decide) (by decide) (by decide)
  refine ⟨happroved, hiff.mpr (Or.inr (Or.inr (Or.inr ?_))) happroved⟩
  intro h
  exact absurd h.1 (by decide)

/-- With the order size unchecked, a buy of `2 ^ 64 - 1` is taken for a sale of one. -/
theorem huge_order_passes_position_check :
    let r : RiskEngine := { limits := { maxPositionPerSymbol := 200, maxOrderSize := 0 } }
    let p : Portfolio := Portfolio.init { initialCash := 0 }
    r.checkPreTrade (some p) ⟨1, .buy, 2 ^ 64 - 1⟩ = some (.none, r) ∧
      p.getPosition 1 = some (p.positions 1) ∧
      ¬ |(p.positions 1).netQty + Side.sign .buy * (2 ^ 64 - 1 : ℕ)| ≤
        (r.limits.maxPositionPerSymbol : ℤ) := by
  intro r p
  exact ⟨by decide +kernel, rfl, by decide⟩

end RiskEngine

end UltraBacktest
