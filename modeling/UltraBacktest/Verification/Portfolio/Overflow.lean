import UltraBacktest.Model.Machine
import UltraBacktest.Verification.Portfolio.Equity
import Mathlib.Algebra.Order.BigOperators.Group.Finset

/-! Machine arithmetic agrees with exact arithmetic while prices, volume and fees stay
within a budget. One inductive invariant bounds the average price, the open quantity,
both profits and cash by the traded volume. -/

namespace UltraBacktest

/-! ## Bounds preserved by a fill and by a mark -/

/-- With prices of magnitude at most `P`, everything in a position is controlled by the
quantity traded so far. -/
structure Position.Bounded (P : ℤ) (pos : Position) : Prop where
  avgEntryPrice : |pos.avgEntryPrice| ≤ P
  netQty : |pos.netQty| ≤ pos.totalTraded
  realizedPnl : |pos.realizedPnl| ≤ 2 * P * pos.totalTraded
  unrealizedPnl : |pos.unrealizedPnl| ≤ 2 * P * pos.totalTraded

namespace Position

variable {P : ℤ} {pos : Position}

theorem abs_sub_mul_le {a b n : ℤ} (ha : |a| ≤ P) (hb : |b| ≤ P) : |(a - b) * n| ≤ 2 * P * |n| := by
  rw [abs_mul]
  have hab : |a - b| ≤ 2 * P := (abs_sub a b).trans (by linarith)
  exact mul_le_mul_of_nonneg_right hab (abs_nonneg n)

/-- A weighted sum of two prices is bounded by the total weight. -/
theorem abs_weighted_le {a b n q : ℤ} (ha : |a| ≤ P) (hb : |b| ≤ P) (hn : 0 ≤ n) (hq : 0 ≤ q) :
    |a * n + b * q| ≤ P * (n + q) := by
  have hleft : |a * n| ≤ P * n := by
    rw [abs_mul, abs_of_nonneg hn]
    exact mul_le_mul_of_nonneg_right ha hn
  have hright : |b * q| ≤ P * q := by
    rw [abs_mul, abs_of_nonneg hq]
    exact mul_le_mul_of_nonneg_right hb hq
  calc
    |a * n + b * q| ≤ |a * n| + |b * q| := abs_add_le _ _
    _ ≤ P * (n + q) := by linarith

theorem abs_book_avgEntryPrice_le {side : Side} {qty execPrice : ℤ} (hq : 1 ≤ qty)
    (havg : |pos.avgEntryPrice| ≤ P) (hprice : |execPrice| ≤ P) :
    |(pos.book side qty execPrice).1.avgEntryPrice| ≤ P := by
  rcases lt_or_ge (pos.exposure side) 0 with h | h
  · rw [book_of_exposure_neg _ _ h]
    dsimp only
    split_ifs
    · exact hprice
    · simpa using (abs_nonneg execPrice).trans hprice
    · exact havg
  · rw [book_of_exposure_nonneg _ _ h]
    exact TruncDiv.abs_tdiv_le (by linarith) (abs_weighted_le havg hprice h (by linarith))

/-- A fill cannot realize more than twice the price bound per unit. -/
theorem abs_book_snd_le {side : Side} {qty execPrice : ℤ} (hq : 1 ≤ qty)
    (havg : |pos.avgEntryPrice| ≤ P) (hprice : |execPrice| ≤ P) :
    |(pos.book side qty execPrice).2| ≤ 2 * P * qty := by
  have hP : 0 ≤ P := (abs_nonneg _).trans havg
  rcases lt_or_ge (pos.exposure side) 0 with h | h
  · rw [book_of_exposure_neg _ _ h]
    dsimp only
    have hmin : |min qty (-pos.exposure side)| ≤ qty := by
      rw [abs_of_nonneg (by omega)]
      exact min_le_left _ _
    calc
      |side.sign * ((pos.avgEntryPrice - execPrice) * min qty (-pos.exposure side))|
          = |(pos.avgEntryPrice - execPrice) * min qty (-pos.exposure side)| :=
            Side.abs_sign_mul _ _
      _ ≤ 2 * P * |min qty (-pos.exposure side)| := abs_sub_mul_le havg hprice
      _ ≤ 2 * P * qty := mul_le_mul_of_nonneg_left hmin (by linarith)
  · rw [book_of_exposure_nonneg _ _ h]
    simpa using mul_nonneg (by linarith : 0 ≤ 2 * P) (by linarith : 0 ≤ qty)

theorem abs_add_sign_mul_le (net qty : ℤ) (side : Side) (hq : 0 ≤ qty) :
    |net + side.sign * qty| ≤ |net| + qty := by
  refine (abs_add_le _ _).trans ?_
  rw [Side.abs_sign_mul, abs_of_nonneg hq]

theorem Bounded.mark (h : pos.Bounded P) {lastPrice : ℤ} (hlast : |lastPrice| ≤ P) :
    (pos.mark lastPrice).Bounded P := by
  refine ⟨h.avgEntryPrice, h.netQty, h.realizedPnl, ?_⟩
  rw [mark_unrealizedPnl, mark_totalTraded]
  have hP : 0 ≤ P := (abs_nonneg _).trans hlast
  exact (abs_sub_mul_le hlast h.avgEntryPrice).trans
    (mul_le_mul_of_nonneg_left h.netQty (by linarith))

theorem Bounded.fill (h : pos.Bounded P) {rpt : ExecutionReport} (hq : 1 ≤ rpt.execQty)
    (hprice : |rpt.execPrice| ≤ P) : (pos.fill rpt).Bounded P := by
  have hq' : (1 : ℤ) ≤ rpt.execQty := by exact_mod_cast hq
  have hP : 0 ≤ P := (abs_nonneg _).trans hprice
  have havg : |(pos.fill rpt).avgEntryPrice| ≤ P :=
    abs_book_avgEntryPrice_le hq' h.avgEntryPrice hprice
  have hnet : |(pos.fill rpt).netQty| ≤ (pos.fill rpt).totalTraded := by
    rw [fill_netQty, fill_totalTraded, Nat.cast_add]
    have hstep := abs_add_sign_mul_le pos.netQty rpt.execQty rpt.side (by linarith)
    linarith [h.netQty]
  refine ⟨havg, hnet, ?_, ?_⟩
  · rw [fill_realizedPnl, fill_totalTraded, Nat.cast_add, mul_add]
    have hreal : |pos.realizedBy rpt| ≤ 2 * P * rpt.execQty :=
      abs_book_snd_le hq' h.avgEntryPrice hprice
    exact (abs_add_le _ _).trans (add_le_add h.realizedPnl hreal)
  · rw [fill_unrealizedPnl]
    exact (abs_sub_mul_le hprice havg).trans (mul_le_mul_of_nonneg_left hnet (by linarith))

end Position

/-- The prices a step brings into the portfolio. -/
def Step.PriceWithin (P : ℤ) : Step → Prop
  | .report rpt => rpt.isFill → |rpt.execPrice| ≤ P
  | .mark _ lastPrice => |lastPrice| ≤ P

/-- The magnitude of the fees that a taker pays. -/
def FeeModel.magnitude (fm : FeeModel) : ℤ :=
  |fm.perShareFee| + |fm.takerFee| + |fm.perTradeFee|

theorem FeeModel.abs_compute_le (fm : FeeModel) {qty : ℕ} (hq : 1 ≤ qty) :
    |fm.compute qty false| ≤ fm.magnitude * qty := by
  have hq' : (1 : ℤ) ≤ qty := by exact_mod_cast hq
  have hflat : |fm.perTradeFee| * 1 ≤ |fm.perTradeFee| * qty :=
    mul_le_mul_of_nonneg_left hq' (abs_nonneg _)
  have hshare : |fm.perShareFee * qty| = |fm.perShareFee| * qty := by
    rw [abs_mul, Nat.abs_cast]
  have htaker : |fm.takerFee * qty| = |fm.takerFee| * qty := by
    rw [abs_mul, Nat.abs_cast]
  have hsum := abs_add_three (fm.perShareFee * qty) (fm.takerFee * qty) fm.perTradeFee
  simp only [compute, magnitude, Bool.false_eq_true, if_false, add_mul]
  linarith

/-! ## Each function of the machine model -/

namespace Machine

open Word64

theorem compute_eq (fm : FeeModel) {qty : ℕ} (hq : 1 ≤ qty) (hqty : (qty : ℤ) < 2 ^ 63)
    (hfee : fm.magnitude * qty < 2 ^ 63) :
    compute fm qty false = some (fm.compute qty false) := by
  have hwrap : wrap qty = qty := wrap_of_fits ⟨by omega, hqty⟩
  have hsize : ∀ a : ℤ, |a| ≤ fm.magnitude → |a * qty| ≤ fm.magnitude * qty := by
    intro a ha
    rw [abs_mul, Nat.abs_cast]
    exact mul_le_mul_of_nonneg_right ha (by omega)
  have hpart : |fm.perShareFee + fm.takerFee| ≤ fm.magnitude := by
    refine (abs_add_le _ _).trans ?_
    rw [FeeModel.magnitude]
    linarith [abs_nonneg fm.perTradeFee]
  have hshare : Fits (fm.perShareFee * qty) := by
    refine fits_of_abs_le (hsize _ ?_) hfee
    rw [FeeModel.magnitude]
    linarith [abs_nonneg fm.perTradeFee, abs_nonneg fm.takerFee]
  have htaker : Fits (fm.takerFee * qty) := by
    refine fits_of_abs_le (hsize _ ?_) hfee
    rw [FeeModel.magnitude]
    linarith [abs_nonneg fm.perTradeFee, abs_nonneg fm.perShareFee]
  have hcost : Fits (fm.perShareFee * qty + fm.takerFee * qty) := by
    rw [← add_mul]
    exact fits_of_abs_le (hsize _ hpart) hfee
  have htotal : Fits (fm.perShareFee * qty + fm.takerFee * qty + fm.perTradeFee) :=
    fits_of_abs_le (fm.abs_compute_le hq) hfee
  simp [compute, FeeModel.compute, hwrap, mul?_of_fits hshare, mul?_of_fits htaker,
    add?_of_fits hcost, add?_of_fits htotal]

/-- Room for prices of magnitude `P` on an open quantity of at most `V`. -/
structure Budget (P V : ℤ) : Prop where
  price : 0 ≤ P
  volume : 1 ≤ V
  volume_lt : V < 2 ^ 63
  value_lt : 2 * P * V < 2 ^ 63

namespace Budget

variable {P V a b n q : ℤ}

theorem two_mul_le (h : Budget P V) : 2 * P ≤ 2 * P * V := by
  have hP := h.price
  linarith [mul_le_mul_of_nonneg_left h.volume (by linarith : 0 ≤ 2 * P)]

theorem fits_qty (h : Budget P V) (hn : |n| ≤ V) : Fits n := fits_of_abs_le hn h.volume_lt

theorem fits_price (h : Budget P V) (ha : |a| ≤ P) : Fits a := by
  refine fits_of_abs_le (ha.trans ?_) h.value_lt
  linarith [h.two_mul_le, h.price]

theorem fits_sub (h : Budget P V) (ha : |a| ≤ P) (hb : |b| ≤ P) : Fits (a - b) :=
  fits_of_abs_le (((abs_sub a b).trans (by linarith)).trans h.two_mul_le) h.value_lt

theorem fits_sub_mul (h : Budget P V) (ha : |a| ≤ P) (hb : |b| ≤ P) (hn : |n| ≤ V) :
    Fits ((a - b) * n) := by
  have hP := h.price
  exact fits_of_abs_le ((Position.abs_sub_mul_le ha hb).trans
    (mul_le_mul_of_nonneg_left hn (by linarith))) h.value_lt

theorem fits_weighted (h : Budget P V) (ha : |a| ≤ P) (hb : |b| ≤ P) (hn : 0 ≤ n) (hq : 0 ≤ q)
    (hV : n + q ≤ V) : Fits (a * n + b * q) := by
  have hP := h.price
  refine fits_of_abs_le ((Position.abs_weighted_le ha hb hn hq).trans ?_) h.value_lt
  have hle := mul_le_mul_of_nonneg_left hV hP
  have hpos := mul_nonneg hP (by linarith [h.volume] : 0 ≤ V)
  linarith

theorem fits_mul (h : Budget P V) (ha : |a| ≤ P) (hn : 0 ≤ n) (hV : n ≤ V) : Fits (a * n) := by
  simpa using h.fits_weighted ha ha hn le_rfl (by linarith)

end Budget

theorem mark_eq {pos : Position} {lastPrice P V : ℤ} (havg : |pos.avgEntryPrice| ≤ P)
    (hlast : |lastPrice| ≤ P) (hnet : |pos.netQty| ≤ V) (hV : V < 2 ^ 63)
    (hPV : 2 * P * V < 2 ^ 63) : mark pos lastPrice = some (pos.mark lastPrice) := by
  by_cases hzero : pos.netQty = 0
  · simp [mark, Position.mark, hzero]
  · have hb : Budget P V :=
      ⟨(abs_nonneg _).trans hlast, (Int.one_le_abs hzero).trans hnet, hV, hPV⟩
    by_cases hpos : pos.netQty > 0
    · simp [mark, Position.mark, hpos, sub?_of_fits (hb.fits_sub hlast havg),
        mul?_of_fits (hb.fits_sub_mul hlast havg hnet)]
    · have hneg : pos.netQty < 0 := by omega
      have hshort : |-pos.netQty| ≤ V := by rwa [abs_neg]
      simp [mark, Position.mark, hpos, hneg, sub?_of_fits (hb.fits_sub havg hlast),
        neg?_of_fits (hb.fits_qty hshort), mul?_of_fits (hb.fits_sub_mul havg hlast hshort)]

section Booking

variable {pos : Position} {cash qty execPrice P V : ℤ}

theorem increaseLong_eq (hb : Budget P V) (hq : 1 ≤ qty) (havg : |pos.avgEntryPrice| ≤ P)
    (hprice : |execPrice| ≤ P) (hlong : 0 ≤ pos.netQty) (hnet : pos.netQty + qty ≤ V) :
    increaseLong pos qty execPrice = some (pos.increaseLong qty execPrice) := by
  have havg' := TruncDiv.abs_tdiv_le (by linarith : 0 < pos.netQty + qty)
    (Position.abs_weighted_le havg hprice hlong (by linarith : 0 ≤ qty))
  have hsum : |pos.netQty + qty| ≤ V := by rwa [abs_of_nonneg (by linarith)]
  have hne : pos.netQty + qty ≠ 0 := by omega
  simp [increaseLong, Position.increaseLong,
    mul?_of_fits (hb.fits_mul havg hlong (by linarith)),
    mul?_of_fits (hb.fits_mul hprice (by linarith) (by linarith : qty ≤ V)),
    add?_of_fits (hb.fits_weighted havg hprice hlong (by linarith) hnet),
    add?_of_fits (hb.fits_qty hsum), div?_of_fits hne (hb.fits_price havg')]

theorem increaseShort_eq (hb : Budget P V) (hq : 1 ≤ qty) (havg : |pos.avgEntryPrice| ≤ P)
    (hprice : |execPrice| ≤ P) (hshort : pos.netQty ≤ 0) (hnet : -pos.netQty + qty ≤ V) :
    increaseShort pos qty execPrice = some (pos.increaseShort qty execPrice) := by
  have hn : 0 ≤ -pos.netQty := by omega
  have hneg : -(pos.netQty - qty) = -pos.netQty + qty := by ring
  have havg' := TruncDiv.abs_tdiv_le (by linarith : 0 < -pos.netQty + qty)
    (Position.abs_weighted_le havg hprice hn (by linarith : 0 ≤ qty))
  have hold : |-pos.netQty| ≤ V := by
    rw [abs_of_nonneg hn]
    linarith
  have hnew : |-pos.netQty + qty| ≤ V := by rwa [abs_of_nonneg (by linarith)]
  have hnew' : |pos.netQty - qty| ≤ V := by rwa [← abs_neg, hneg]
  have hne : -(pos.netQty - qty) ≠ 0 := by omega
  rw [← hneg] at havg' hnew
  simp only [increaseShort, Position.increaseShort, Option.bind_eq_bind,
    neg?_of_fits (hb.fits_qty hold), Option.bind_some,
    mul?_of_fits (hb.fits_mul havg hn (by linarith)),
    mul?_of_fits (hb.fits_mul hprice (by linarith) (by linarith : qty ≤ V)),
    add?_of_fits (hb.fits_weighted havg hprice hn (by linarith) hnet),
    sub?_of_fits (hb.fits_qty hnew'), neg?_of_fits (hb.fits_qty hnew),
    div?_of_fits hne (hb.fits_price havg')]
  rfl

/-- An account with room for the fill stays in range when the fill is settled. -/
theorem fits_add_realized {balance realized : ℤ} (hroom : |balance| + 2 * P * qty < 2 ^ 63)
    (hrealized : |realized| ≤ 2 * P * qty) : Fits (balance + realized) :=
  fits_of_abs_le ((abs_add_le _ _).trans (by linarith : _ ≤ |balance| + 2 * P * qty)) hroom

theorem closeShort_eq (hb : Budget P V) (hq : 1 ≤ qty) (havg : |pos.avgEntryPrice| ≤ P)
    (hprice : |execPrice| ≤ P) (hshort : pos.netQty < 0) (hnet : |pos.netQty| + qty ≤ V)
    (hroom : |pos.realizedPnl| + 2 * P * qty < 2 ^ 63)
    (hcash : |cash| + 2 * P * qty < 2 ^ 63) :
    closeShort pos cash qty execPrice =
      some ((pos.closeShort qty execPrice).1, cash + (pos.closeShort qty execPrice).2) := by
  have hP := hb.price
  have hmin : |min qty (-pos.netQty)| ≤ qty := by
    rw [abs_of_nonneg (by omega)]
    exact min_le_left _ _
  have hrealized : |(pos.avgEntryPrice - execPrice) * min qty (-pos.netQty)| ≤ 2 * P * qty :=
    (Position.abs_sub_mul_le havg hprice).trans (mul_le_mul_of_nonneg_left hmin (by linarith))
  have hqV : qty ≤ V := by linarith [abs_nonneg pos.netQty]
  have hold : |-pos.netQty| ≤ V := by
    rw [abs_neg]
    linarith
  have hnew : |pos.netQty + qty| ≤ V :=
    (abs_add_le _ _).trans (by rwa [abs_of_nonneg (by linarith : 0 ≤ qty)])
  simp [closeShort, Position.closeShort, neg?_of_fits (hb.fits_qty hold),
    sub?_of_fits (hb.fits_sub havg hprice),
    mul?_of_fits (hb.fits_sub_mul havg hprice (hmin.trans hqV)),
    add?_of_fits (fits_add_realized hroom hrealized),
    add?_of_fits (fits_add_realized hcash hrealized), add?_of_fits (hb.fits_qty hnew)]

theorem closeLong_eq (hb : Budget P V) (hq : 1 ≤ qty) (havg : |pos.avgEntryPrice| ≤ P)
    (hprice : |execPrice| ≤ P) (hlong : 0 < pos.netQty) (hnet : |pos.netQty| + qty ≤ V)
    (hroom : |pos.realizedPnl| + 2 * P * qty < 2 ^ 63)
    (hcash : |cash| + 2 * P * qty < 2 ^ 63) :
    closeLong pos cash qty execPrice =
      some ((pos.closeLong qty execPrice).1, cash + (pos.closeLong qty execPrice).2) := by
  have hP := hb.price
  have hmin : |min qty pos.netQty| ≤ qty := by
    rw [abs_of_nonneg (by omega)]
    exact min_le_left _ _
  have hrealized : |(execPrice - pos.avgEntryPrice) * min qty pos.netQty| ≤ 2 * P * qty :=
    (Position.abs_sub_mul_le hprice havg).trans (mul_le_mul_of_nonneg_left hmin (by linarith))
  have hqV : qty ≤ V := by linarith [abs_nonneg pos.netQty]
  have hnew : |pos.netQty - qty| ≤ V :=
    (abs_sub _ _).trans (by rwa [abs_of_nonneg (by linarith : 0 ≤ qty)])
  simp [closeLong, Position.closeLong, sub?_of_fits (hb.fits_sub hprice havg),
    mul?_of_fits (hb.fits_sub_mul hprice havg (hmin.trans hqV)),
    add?_of_fits (fits_add_realized hroom hrealized),
    add?_of_fits (fits_add_realized hcash hrealized), sub?_of_fits (hb.fits_qty hnew)]

theorem book_eq (hb : Budget P V) (side : Side) (hq : 1 ≤ qty)
    (havg : |pos.avgEntryPrice| ≤ P) (hprice : |execPrice| ≤ P)
    (hnet : |pos.netQty| + qty ≤ V) (hroom : |pos.realizedPnl| + 2 * P * qty < 2 ^ 63)
    (hcash : |cash| + 2 * P * qty < 2 ^ 63) :
    book pos cash side qty execPrice =
      some ((pos.book side qty execPrice).1, cash + (pos.book side qty execPrice).2) := by
  cases side with
  | buy =>
      by_cases h : pos.netQty ≥ 0
      · rw [abs_of_nonneg h] at hnet
        simp [book, Position.book, h, increaseLong_eq hb hq havg hprice h hnet]
      · simp only [book, Position.book, h, if_false]
        exact closeShort_eq hb hq havg hprice (by omega) hnet hroom hcash
  | sell =>
      by_cases h : pos.netQty ≤ 0
      · rw [abs_of_nonpos h] at hnet
        simp [book, Position.book, h, increaseShort_eq hb hq havg hprice h hnet]
      · simp only [book, Position.book, h, if_false]
        exact closeLong_eq hb hq havg hprice (by omega) hnet hroom hcash

end Booking

end Machine

/-! ## The portfolio -/

/-- The quantity traded over all symbols. -/
def Portfolio.volume (p : Portfolio) : ℕ := ∑ s, (p.positions s).totalTraded

/-- With fees of magnitude `F` and initial cash `C`, cash is controlled by the volume. -/
structure Portfolio.Bounded (P F C : ℤ) (p : Portfolio) : Prop where
  positions : ∀ s, (p.positions s).Bounded P
  cash : |p.cash| ≤ C + (F + 2 * P) * p.volume

/-- The quantity a step fills. -/
def Step.filledQty (st : Step) : ℕ := st.fill?.elim 0 ExecutionReport.execQty

theorem Step.filledQty_of_fill?_eq_none {st : Step} (h : st.fill? = none) :
    st.filledQty = 0 := by
  rw [filledQty, h]
  rfl

theorem Step.filledQty_of_fill?_eq_some {st : Step} {rpt : ExecutionReport}
    (h : st.fill? = some rpt) : st.filledQty = rpt.execQty := by
  rw [filledQty, h]
  rfl

namespace Portfolio

theorem totalTraded_le_volume (p : Portfolio) (s : Slot) :
    (p.positions s).totalTraded ≤ p.volume :=
  Finset.single_le_sum (fun i _ => Nat.zero_le (p.positions i).totalTraded) (Finset.mem_univ s)

theorem step_volume (p : Portfolio) (st : Step) :
    (p.step st).volume = p.volume + st.filledQty := by
  have hcast : ((p.step st).volume : ℤ) = p.volume + st.filledQty := by
    simp only [volume, Nat.cast_sum]
    rw [p.sum_step (g := fun pos => (pos.totalTraded : ℤ)) (fun _ _ => rfl), Step.filledQty]
    cases st.fill? <;> simp
  exact_mod_cast hcast

theorem Bounded.step {P F C : ℤ} {p : Portfolio} (hp : p.Bounded P F C)
    (hF : p.config.feeModel.magnitude = F) {st : Step} (hst : st.Positive)
    (hprice : st.PriceWithin P) : (p.step st).Bounded P F C := by
  constructor
  · intro s
    rw [step_positions]
    cases st with
    | mark sym lastPrice =>
        by_cases hs : sym = s
        · simpa [Position.step, hs] using (hp.positions s).mark hprice
        · simpa [Position.step, hs] using hp.positions s
    | report rpt =>
        by_cases hf : rpt.isFill = true ∧ rpt.symbol = s
        · have hq : 1 ≤ rpt.execQty := hst rpt (by simp [Step.fill?, hf.1])
          simpa [Position.step, hf] using (hp.positions s).fill hq (hprice hf.1)
        · simpa only [Position.step, hf, if_false] using hp.positions s
  · rw [step_volume, step_cash, stepRealized]
    have hcash := hp.cash
    cases hfill : st.fill? with
    | none =>
        rw [Step.filledQty_of_fill?_eq_none hfill, Option.elim_none, Option.elim_none, sub_zero,
          add_zero, add_zero]
        exact hcash
    | some rpt =>
        have hq := hst rpt hfill
        have hin : |rpt.execPrice| ≤ P := by
          cases st with
          | mark sym lastPrice => simp [Step.fill?] at hfill
          | report rpt' =>
              simp only [Step.fill?, Option.ite_none_right_eq_some, Option.some.injEq] at hfill
              exact hfill.2 ▸ hprice hfill.1
        have hfee := p.config.feeModel.abs_compute_le hq
        have hreal : |(p.positions rpt.symbol).realizedBy rpt| ≤ 2 * P * rpt.execQty :=
          Position.abs_book_snd_le (by exact_mod_cast hq) (hp.positions _).avgEntryPrice hin
        rw [hF] at hfee
        simp only [Option.elim_some, Step.filledQty_of_fill?_eq_some hfill, Nat.cast_add]
        have htriangle := abs_add_le
          (p.cash - p.config.feeModel.compute rpt.execQty false)
          ((p.positions rpt.symbol).realizedBy rpt)
        have hdiff := abs_sub p.cash (p.config.feeModel.compute rpt.execQty false)
        linarith

end Portfolio

namespace Machine

open Word64

theorem onExecution_eq {p : Portfolio} {rpt : ExecutionReport} {P Q : ℤ} (hb : Budget P Q)
    (hpos : (p.positions rpt.symbol).Bounded P) (hq : 1 ≤ rpt.execQty)
    (hprice : |rpt.execPrice| ≤ P)
    (hvol : ((p.positions rpt.symbol).totalTraded : ℤ) + rpt.execQty ≤ Q)
    (hfee : p.config.feeModel.magnitude * rpt.execQty < 2 ^ 63)
    (hroom : |(p.positions rpt.symbol).realizedPnl| + 2 * P * rpt.execQty < 2 ^ 63)
    (hcash : |p.cash| + p.config.feeModel.magnitude * rpt.execQty + 2 * P * rpt.execQty <
      2 ^ 63) :
    onExecution p rpt = some (p.onExecution rpt) := by
  cases hf : rpt.isFill with
  | false => simp [onExecution, Portfolio.onExecution, hf]
  | true =>
      have hq' : (1 : ℤ) ≤ rpt.execQty := by exact_mod_cast hq
      have hP := hb.price
      have hlt := hb.volume_lt
      have hPq : 0 ≤ 2 * P * rpt.execQty := mul_nonneg (by linarith) (by linarith)
      have hqty : (rpt.execQty : ℤ) < 2 ^ 63 := by omega
      have hwrap : wrap rpt.execQty = rpt.execQty := wrap_of_fits ⟨by omega, hqty⟩
      have hcompute := p.config.feeModel.abs_compute_le hq
      have hpaid : |p.cash - p.config.feeModel.compute rpt.execQty false| ≤
          |p.cash| + p.config.feeModel.magnitude * rpt.execQty :=
        (abs_sub _ _).trans (by linarith)
      have hbook := book_eq hb rpt.side hq' hpos.avgEntryPrice hprice
        (by linarith [hpos.netQty]) hroom
        (by linarith : |p.cash - p.config.feeModel.compute rpt.execQty false| + _ < 2 ^ 63)
      have hcount : toWord ((p.positions rpt.symbol).totalTraded + rpt.execQty) =
          (p.positions rpt.symbol).totalTraded + rpt.execQty := by
        rw [toWord_of_nonneg (by omega) ⟨by omega, by omega⟩]
        omega
      have hfill := hpos.fill hq hprice
      have hmark : mark (((p.positions rpt.symbol).book rpt.side rpt.execQty
            rpt.execPrice).1.countFill rpt.execQty rpt.execPrice) rpt.execPrice =
          some ((p.positions rpt.symbol).fill rpt) :=
        mark_eq hfill.avgEntryPrice hprice (hfill.netQty.trans (by simpa using hvol)) hlt
          hb.value_lt
      simp only [onExecution, hf, Bool.not_true, Bool.false_eq_true, if_false,
        Option.bind_eq_bind, compute_eq _ hq hqty hfee, Option.bind_some,
        sub?_of_fits (fits_of_abs_le hpaid (by linarith)), hwrap, hbook, updateM2m,
        Function.update_self]
      have hcounted : countFill ((p.positions rpt.symbol).book rpt.side rpt.execQty
            rpt.execPrice).1 rpt.execQty rpt.execPrice =
          ((p.positions rpt.symbol).book rpt.side rpt.execQty rpt.execPrice).1.countFill
            rpt.execQty rpt.execPrice := by
        simp only [countFill, Position.countFill, Position.book_totalTraded, hcount]
      rw [hcounted, hmark]
      simp [p.onExecution_of_isFill hf, Position.realizedBy]

theorem step_eq {P F C Q : ℤ} {p : Portfolio} (hp : p.Bounded P F C)
    (hF : p.config.feeModel.magnitude = F) {st : Step} (hst : st.Positive)
    (hprice : st.PriceWithin P) (hP : 0 ≤ P) (hC : 0 ≤ C)
    (hvol : (p.volume : ℤ) + st.filledQty ≤ Q) (hQ : Q < 2 ^ 63)
    (hbudget : C + F * Q + 6 * P * Q < 2 ^ 63) :
    step p st = some (p.step st) := by
  have hF0 : 0 ≤ F := by
    rw [← hF, FeeModel.magnitude]
    positivity
  have hQ0 : 0 ≤ Q := by omega
  have hFQ := mul_nonneg hF0 hQ0
  have hPQ := mul_nonneg hP hQ0
  cases st with
  | mark sym lastPrice =>
      have htraded : ((p.positions sym).totalTraded : ℤ) ≤ p.volume := by
        exact_mod_cast p.totalTraded_le_volume sym
      have hmark : mark (p.positions sym) lastPrice = some ((p.positions sym).mark lastPrice) :=
        mark_eq (hp.positions sym).avgEntryPrice hprice
          (((hp.positions sym).netQty.trans htraded).trans (by omega)) hQ (by linarith)
      simp [step, updateM2m, Portfolio.step, Portfolio.updateM2m, hmark]
  | report rpt =>
      cases hf : rpt.isFill with
      | false => simp [step, onExecution, Portfolio.step, Portfolio.onExecution, hf]
      | true =>
          have hq : 1 ≤ rpt.execQty := hst rpt (by simp [Step.fill?, hf])
          have htraded : ((p.positions rpt.symbol).totalTraded : ℤ) ≤ p.volume := by
            exact_mod_cast p.totalTraded_le_volume rpt.symbol
          have hnew : (p.volume : ℤ) + rpt.execQty ≤ Q := by
            have hfill : (Step.report rpt).fill? = some rpt := if_pos hf
            rw [Step.filledQty_of_fill?_eq_some hfill] at hvol
            exact hvol
          have hfeeVol : F * (p.volume + rpt.execQty) ≤ F * Q :=
            mul_le_mul_of_nonneg_left hnew hF0
          have hpriceVol : P * (p.volume + rpt.execQty) ≤ P * Q :=
            mul_le_mul_of_nonneg_left hnew hP
          have hfee0 : 0 ≤ F * p.volume := mul_nonneg hF0 (by omega)
          have hprice0 : P * (p.positions rpt.symbol).totalTraded ≤ P * p.volume :=
            mul_le_mul_of_nonneg_left htraded hP
          have hb : Budget P Q := ⟨hP, by omega, hQ, by linarith⟩
          refine onExecution_eq hb (hp.positions _) hq (hprice hf) (by omega) ?_ ?_ ?_
          · rw [hF]
            linarith
          · linarith [(hp.positions rpt.symbol).realizedPnl]
          · rw [hF]
            linarith [hp.cash]

/-- A run within its budget never leaves the range of the machine. -/
theorem run_eq {P F C Q : ℤ} {p : Portfolio} {steps : List Step} (hp : p.Bounded P F C)
    (hF : p.config.feeModel.magnitude = F) (hst : ∀ st ∈ steps, st.Positive)
    (hprice : ∀ st ∈ steps, st.PriceWithin P) (hP : 0 ≤ P) (hC : 0 ≤ C)
    (hvol : (p.volume : ℤ) + (steps.map Step.filledQty).sum ≤ Q) (hQ : Q < 2 ^ 63)
    (hbudget : C + F * Q + 6 * P * Q < 2 ^ 63) :
    run p steps = some (p.run steps) ∧ (p.run steps).Bounded P F C ∧
      ((p.run steps).volume : ℤ) ≤ Q := by
  induction steps generalizing p with
  | nil =>
      rw [List.map_nil, List.sum_nil, Nat.cast_zero, add_zero] at hvol
      exact ⟨rfl, hp, hvol⟩
  | cons st steps ih =>
      rw [List.map_cons, List.sum_cons, Nat.cast_add] at hvol
      have hhead := step_eq hp hF (hst st (by simp)) (hprice st (by simp)) hP hC
        (by omega : (p.volume : ℤ) + st.filledQty ≤ Q) hQ hbudget
      obtain ⟨hrun, htail⟩ := ih (hp.step hF (hst st (by simp)) (hprice st (by simp)))
        (by rw [Portfolio.step_config, hF]) (fun x hx => hst x (by simp [hx]))
        (fun x hx => hprice x (by simp [hx]))
        (by rw [Portfolio.step_volume, Nat.cast_add]; linarith)
      refine ⟨?_, htail⟩
      rw [run, List.foldlM_cons, hhead, Portfolio.run_cons]
      exact hrun

/-- Partial sums of the total stay below four times the value of the volume. -/
theorem totalPnl_eq {P F C : ℤ} {p : Portfolio} (hp : p.Bounded P F C)
    (hbudget : 4 * P * p.volume < 2 ^ 63) :
    totalPnl p = some p.totalPnl ∧ |p.totalPnl| ≤ 4 * P * p.volume := by
  have hpnl : ∀ i, |(p.positions i).realizedPnl + (p.positions i).unrealizedPnl| ≤
      4 * P * ((p.positions i).totalTraded : ℤ) := by
    intro i
    refine (abs_add_le _ _).trans ?_
    linarith [(hp.positions i).realizedPnl, (hp.positions i).unrealizedPnl]
  have hvolume : ((List.finRange maxSymbols).map
      (fun i => 4 * P * ((p.positions i).totalTraded : ℤ))).sum = 4 * P * p.volume := by
    rw [← Fin.sum_univ_def, ← Finset.mul_sum, Portfolio.volume, Nat.cast_sum]
  have hloop := foldlM_add?
    (fun i => (p.positions i).numTrades > 0 ∨ (p.positions i).netQty ≠ 0) hpnl
    (fun i hroom => add?_of_fits (fits_of_abs_le (hpnl i) hroom)) (List.finRange maxSymbols) 0
  rw [hvolume, abs_zero, zero_add] at hloop
  exact hloop hbudget

theorem totalEquity_eq {P F C Q : ℤ} {p : Portfolio} (hp : p.Bounded P F C) (hP : 0 ≤ P)
    (hC : 0 ≤ C) (hF : 0 ≤ F) (hvol : (p.volume : ℤ) ≤ Q)
    (hbudget : C + F * Q + 6 * P * Q < 2 ^ 63) :
    totalPnl p = some p.totalPnl ∧ totalEquity p = some p.totalEquity := by
  have hFV : F * p.volume ≤ F * Q := mul_le_mul_of_nonneg_left hvol hF
  have hPV : P * p.volume ≤ P * Q := mul_le_mul_of_nonneg_left hvol hP
  have hF0 : 0 ≤ F * p.volume := mul_nonneg hF (by omega)
  have hP0 : 0 ≤ P * p.volume := mul_nonneg hP (by omega)
  obtain ⟨hpnl, hsize⟩ := totalPnl_eq hp (by linarith)
  have hfits : Fits (p.cash + p.totalPnl) := by
    refine fits_of_abs_le ((abs_add_le _ _).trans (add_le_add hp.cash hsize)) ?_
    linarith
  exact ⟨hpnl, by simp [totalEquity, hpnl, add?_of_fits hfits, Portfolio.totalEquity]⟩

end Machine

/-! ## Whole runs -/

theorem sum_filledQty (steps : List Step) :
    (steps.map Step.filledQty).sum = ((fills steps).map ExecutionReport.execQty).sum := by
  induction steps with
  | nil => rfl
  | cons st steps ih =>
      rw [List.map_cons, List.sum_cons, ih, fills_cons]
      cases h : st.fill? <;> simp [Step.filledQty, h]

theorem Portfolio.bounded_init (config : BacktestConfig) {P : ℤ} (hP : 0 ≤ P) (F : ℤ) :
    (init config).Bounded P F |config.initialCash| := by
  refine ⟨fun s => ⟨?_, ?_, ?_, ?_⟩, ?_⟩ <;> simp [init, volume, hP]

theorem machine_refines_exact (P Q : ℕ) (config : BacktestConfig) (steps : List Step)
    (hQ : Q < 2 ^ 63) (hpos : ∀ st ∈ steps, st.Positive)
    (hprice : ∀ st ∈ steps, st.PriceWithin P)
    (hsum : ((fills steps).map ExecutionReport.execQty).sum ≤ Q)
    (hcount : (fills steps).length < 2 ^ 32)
    (hbudget : |config.initialCash| +
      (|config.feeModel.perShareFee| + |config.feeModel.takerFee| +
        |config.feeModel.perTradeFee|) * Q + 6 * P * Q < 2 ^ 63) :
    let p := (Portfolio.init config).run steps
    Machine.run (Portfolio.init config) steps = some p ∧
      Machine.totalPnl p = some p.totalPnl ∧ Machine.totalEquity p = some p.totalEquity ∧
      ∀ s, (p.positions s).numTrades.toNat = (fillsOn s steps).length := by
  intro p
  have hvolume : ((Portfolio.init config).volume : ℤ) +
      ((steps.map Step.filledQty).sum : ℕ) ≤ Q := by
    rw [sum_filledQty]
    have hzero : (Portfolio.init config).volume = 0 := by simp [Portfolio.init, Portfolio.volume]
    rw [hzero]
    exact_mod_cast (zero_add _).le.trans hsum
  obtain ⟨hrun, hbounded, hvol⟩ := Machine.run_eq
    (Portfolio.bounded_init config (by omega : (0 : ℤ) ≤ P) config.feeModel.magnitude) rfl hpos
    hprice (by omega) (abs_nonneg _) hvolume (by exact_mod_cast hQ) hbudget
  obtain ⟨hpnl, hequity⟩ := Machine.totalEquity_eq hbounded (by omega) (abs_nonneg _)
    (by rw [FeeModel.magnitude]; positivity) hvol hbudget
  refine ⟨hrun, hpnl, hequity, fun s => ?_⟩
  have hlength : (fillsOn s steps).length < 2 ^ 32 :=
    (List.length_filter_le _ _).trans_lt hcount
  rw [Portfolio.run_init_numTrades, UInt32.toNat_ofNat_of_lt' hlength]

/-- A million in cash, prices up to a million and volume up to a thousand, all with
eight decimals, leave room in 64 bits. -/
theorem machine_refines_exact_round_trip :
    let steps := [Step.report ⟨1, .buy, 10, 10000000000, true⟩, .mark 1 11000000000,
      .report ⟨1, .sell, 15, 11000000000, true⟩]
    Machine.run (Portfolio.init ⟨0, 0, { perShareFee := 100000, perTradeFee := 100000000 },
        100000000000000⟩) steps =
      some ((Portfolio.init ⟨0, 0, { perShareFee := 100000, perTradeFee := 100000000 },
        100000000000000⟩).run steps) := by
  intro steps
  refine (machine_refines_exact 100000000000000 1000 _ steps (by decide) (by decide) ?_
    (by decide) (by decide) (by decide)).1
  simp [steps, Step.PriceWithin]

end UltraBacktest
