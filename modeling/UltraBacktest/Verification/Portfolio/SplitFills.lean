import UltraBacktest.Verification.Portfolio.Equity

/-! One fill against the same fill in two parts. The parts may fall on the two sides of the
zero crossing; only where both add to an open position does the average round twice. -/

namespace UltraBacktest

/-! ## One position -/

namespace Position

variable (pos : Position) (s : Slot) (side : Side) (price : ℤ) (q₁ q₂ : ℕ)

/-- The position after the fill in two parts. -/
def fillTwice : Position :=
  (pos.fill ⟨s, side, q₁, price, true⟩).fill ⟨s, side, q₂, price, true⟩

/-- The two parts realize together what the whole fill realizes. -/
theorem realizedBy_split :
    pos.realizedBy ⟨s, side, q₁, price, true⟩ +
        (pos.fill ⟨s, side, q₁, price, true⟩).realizedBy ⟨s, side, q₂, price, true⟩ =
      pos.realizedBy ⟨s, side, q₁ + q₂, price, true⟩ := by
  have hexposure := pos.exposure_fill ⟨s, side, q₁, price, true⟩
  dsimp only at hexposure
  rcases lt_or_ge (pos.exposure side) 0 with hx | hx
  · rw [@realizedBy_of_exposure_neg pos ⟨s, side, q₁, price, true⟩ hx,
      @realizedBy_of_exposure_neg pos ⟨s, side, q₁ + q₂, price, true⟩ hx]
    rcases lt_or_ge (pos.exposure side + q₁) 0 with hpart | hpart
    · -- Both parts close at the same average.
      have havg : (pos.fill ⟨s, side, q₁, price, true⟩).avgEntryPrice = pos.avgEntryPrice := by
        rw [fill_avgEntryPrice_of_exposure_neg hx]
        dsimp only
        rw [if_neg (by omega), if_neg (by omega)]
      rw [realizedBy_of_exposure_neg (hexposure ▸ hpart), hexposure, havg]
      dsimp only
      have hmin : min ((q₁ + q₂ : ℕ) : ℤ) (-pos.exposure side) =
          min (q₁ : ℤ) (-pos.exposure side) + min (q₂ : ℤ) (-(pos.exposure side + q₁)) := by
        push_cast
        omega
      rw [hmin]
      ring
    · rw [realizedBy_of_exposure_nonneg (hexposure ▸ hpart)]
      dsimp only
      rw [min_eq_right (by omega), min_eq_right (by push_cast; omega), add_zero]
  · have hpart : 0 ≤ (pos.fill ⟨s, side, q₁, price, true⟩).exposure side := by omega
    rw [@realizedBy_of_exposure_nonneg pos ⟨s, side, q₁, price, true⟩ hx,
      @realizedBy_of_exposure_nonneg pos ⟨s, side, q₁ + q₂, price, true⟩ hx,
      realizedBy_of_exposure_nonneg hpart, add_zero]

theorem fillTwice_netQty :
    (pos.fillTwice s side price q₁ q₂).netQty =
      (pos.fill ⟨s, side, q₁ + q₂, price, true⟩).netQty := by
  rw [fillTwice]
  simp only [fill_netQty]
  push_cast
  ring

theorem fillTwice_realizedPnl :
    (pos.fillTwice s side price q₁ q₂).realizedPnl =
      (pos.fill ⟨s, side, q₁ + q₂, price, true⟩).realizedPnl := by
  rw [fillTwice, fill_realizedPnl, fill_realizedPnl, fill_realizedPnl, add_assoc,
    realizedBy_split]

theorem fillTwice_totalTraded :
    (pos.fillTwice s side price q₁ q₂).totalTraded =
      (pos.fill ⟨s, side, q₁ + q₂, price, true⟩).totalTraded := by
  rw [fillTwice, fill_totalTraded, fill_totalTraded, fill_totalTraded, add_assoc]

/-- Away from an open position on the same side both ways give the same average. -/
theorem fillTwice_avgEntryPrice (h₁ : 1 ≤ q₁) (h₂ : 1 ≤ q₂) (h : pos.exposure side ≤ 0) :
    (pos.fillTwice s side price q₁ q₂).avgEntryPrice =
      (pos.fill ⟨s, side, q₁ + q₂, price, true⟩).avgEntryPrice := by
  have hexposure := pos.exposure_fill ⟨s, side, q₁, price, true⟩
  dsimp only at hexposure
  rcases h.lt_or_eq with hx | hx
  · rw [fillTwice, @fill_avgEntryPrice_of_exposure_neg pos ⟨s, side, q₁ + q₂, price, true⟩ hx]
    have hfirst := @fill_avgEntryPrice_of_exposure_neg pos ⟨s, side, q₁, price, true⟩ hx
    dsimp only at hfirst ⊢
    push_cast
    rcases lt_trichotomy (pos.exposure side + q₁) 0 with hpart | hpart | hpart
    · rw [if_neg (by omega), if_neg (by omega)] at hfirst
      rw [fill_avgEntryPrice_of_exposure_neg (hexposure ▸ hpart), hexposure, hfirst]
      dsimp only
      rw [add_assoc]
    · rw [fill_avgEntryPrice_of_flat h₂ (hexposure.trans hpart), if_pos (by omega)]
    · rw [if_pos hpart] at hfirst
      rw [fill_avgEntryPrice_of_same h₂ (by dsimp only; omega) hfirst, if_pos (by omega)]
  · rw [fillTwice, @fill_avgEntryPrice_of_flat pos ⟨s, side, q₁ + q₂, price, true⟩
      (by dsimp only; omega) hx]
    have hfirst := @fill_avgEntryPrice_of_flat pos ⟨s, side, q₁, price, true⟩ h₁ hx
    exact fill_avgEntryPrice_of_same h₂ (by dsimp only; omega) hfirst

/-- The first part cuts off less than its quantity, which moves the second average by at
most one. -/
theorem abs_fillTwice_avgEntryPrice_sub_le (h₁ : 1 ≤ q₁) (h : 0 ≤ pos.exposure side) :
    |(pos.fillTwice s side price q₁ q₂).avgEntryPrice -
      (pos.fill ⟨s, side, q₁ + q₂, price, true⟩).avgEntryPrice| ≤ 1 := by
  have hexposure := pos.exposure_fill ⟨s, side, q₁, price, true⟩
  have hfirst := @fill_avgEntryPrice_of_exposure_nonneg pos ⟨s, side, q₁, price, true⟩ h
  dsimp only at hexposure hfirst
  rw [fillTwice, fill_avgEntryPrice_of_exposure_nonneg (by dsimp only; omega),
    @fill_avgEntryPrice_of_exposure_nonneg pos ⟨s, side, q₁ + q₂, price, true⟩ h,
    hexposure, hfirst]
  dsimp only
  have hpos : 0 < pos.exposure side + q₁ := by omega
  have hdiv := Int.tdiv_mul_add_tmod (pos.avgEntryPrice * pos.exposure side + price * q₁)
    (pos.exposure side + q₁)
  have hrem := TruncDiv.abs_tmod_le
    (pos.avgEntryPrice * pos.exposure side + price * q₁) hpos
  push_cast
  rw [← add_assoc]
  apply TruncDiv.abs_tdiv_sub_tdiv_le (by omega)
  rw [abs_le] at hrem ⊢
  constructor <;> linarith

end Position

/-! ## The whole portfolio -/

/-- A fill in two parts pays the flat fee twice and the other fees once. -/
theorem FeeModel.compute_add (fm : FeeModel) (q₁ q₂ : ℕ) (isMaker : Bool) :
    fm.compute q₁ isMaker + fm.compute q₂ isMaker =
      fm.compute (q₁ + q₂) isMaker + fm.perTradeFee := by
  unfold compute
  push_cast
  ring

/-- A fill in two parts books what the whole fill books. It costs one more flat fee, and
where it adds to an open position the averages are at most one apart. -/
theorem split_fill_agrees (p : Portfolio) (s : Slot) (side : Side) (price : ℤ) {q₁ q₂ : ℕ}
    (h₁ : 1 ≤ q₁) (h₂ : 1 ≤ q₂) :
    let whole := p.onExecution ⟨s, side, q₁ + q₂, price, true⟩
    let split := (p.onExecution ⟨s, side, q₁, price, true⟩).onExecution
      ⟨s, side, q₂, price, true⟩
    (split.positions s).netQty = (whole.positions s).netQty ∧
      (split.positions s).realizedPnl = (whole.positions s).realizedPnl ∧
      (split.positions s).totalTraded = (whole.positions s).totalTraded ∧
      (split.positions s).lastPrice = (whole.positions s).lastPrice ∧
      split.cash = whole.cash - p.config.feeModel.perTradeFee ∧
      ((p.positions s).netQty = 0 ∨ (p.positions s).ClosedBy side →
        (split.positions s).avgEntryPrice = (whole.positions s).avgEntryPrice) ∧
      |(split.positions s).avgEntryPrice - (whole.positions s).avgEntryPrice| ≤ 1 := by
  intro whole split
  have hwhole : whole.positions s = (p.positions s).fill ⟨s, side, q₁ + q₂, price, true⟩ := by
    simp [whole, Portfolio.onExecution_of_isFill]
  have hsplit : split.positions s = (p.positions s).fillTwice s side price q₁ q₂ := by
    simp [split, Portfolio.onExecution_of_isFill, Position.fillTwice]
  have hcash : split.cash = whole.cash - p.config.feeModel.perTradeFee := by
    have hfees := p.config.feeModel.compute_add q₁ q₂ false
    have hrealized := (p.positions s).realizedBy_split s side price q₁ q₂
    simp only [split, whole, Portfolio.onExecution_of_isFill, Function.update_self]
    linarith
  have havg : (p.positions s).exposure side ≤ 0 →
      (split.positions s).avgEntryPrice = (whole.positions s).avgEntryPrice := by
    intro hx
    rw [hsplit, hwhole]
    exact (p.positions s).fillTwice_avgEntryPrice s side price q₁ q₂ h₁ h₂ hx
  refine ⟨?_, ?_, ?_, ?_, hcash, ?_, ?_⟩
  · rw [hsplit, hwhole, Position.fillTwice_netQty]
  · rw [hsplit, hwhole, Position.fillTwice_realizedPnl]
  · rw [hsplit, hwhole, Position.fillTwice_totalTraded]
  · rw [hsplit, hwhole]
    rfl
  · rintro (hflat | hclosed)
    · apply havg
      rw [Position.exposure, hflat, mul_zero]
    · exact havg (le_of_lt (((p.positions s).closedBy_iff side).mp hclosed))
  · rcases le_total ((p.positions s).exposure side) 0 with hx | hx
    · rw [havg hx, sub_self]
      decide
    · rw [hsplit, hwhole]
      exact (p.positions s).abs_fillTwice_avgEntryPrice_sub_le s side price q₁ q₂ h₁ hx

/-- A sale of 5 out of a position of 3, as 2 and 3. -/
theorem split_fill_agrees_flip :
    (((((Portfolio.init ⟨0, 0, {}, 1000⟩).onExecution ⟨1, .buy, 3, 100, true⟩).onExecution
        ⟨1, .sell, 2, 110, true⟩).onExecution ⟨1, .sell, 3, 110, true⟩).positions 1).realizedPnl =
      ((((Portfolio.init ⟨0, 0, {}, 1000⟩).onExecution ⟨1, .buy, 3, 100, true⟩).onExecution
        ⟨1, .sell, 5, 110, true⟩).positions 1).realizedPnl :=
  (split_fill_agrees ((Portfolio.init ⟨0, 0, {}, 1000⟩).onExecution ⟨1, .buy, 3, 100, true⟩) 1
    .sell 110 (show 1 ≤ 2 by decide) (show 1 ≤ 3 by decide)).2.1

end UltraBacktest
