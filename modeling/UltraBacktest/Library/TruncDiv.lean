import Mathlib.Algebra.Order.Ring.Int
import Mathlib.Tactic.Linarith

/-! Bounds for division that truncates toward zero, by a positive divisor. -/

namespace TruncDiv

theorem abs_tmod_le (a : ℤ) {b : ℤ} (hb : 0 < b) : |a.tmod b| ≤ b - 1 := by
  have hlt := Int.tmod_lt_of_pos a hb
  have hgt := Int.lt_tmod_of_pos a hb
  rw [abs_le]
  omega

/-- A quotient stays inside any integer interval that contains the exact ratio. -/
theorem tdiv_mem_Icc {a b lo hi : ℤ} (hb : 0 < b) (hlo : lo * b ≤ a) (hhi : a ≤ hi * b) :
    lo ≤ a.tdiv b ∧ a.tdiv b ≤ hi := by
  have hl := Int.tdiv_le_tdiv hb hlo
  have hh := Int.tdiv_le_tdiv hb hhi
  rw [Int.mul_tdiv_cancel lo hb.ne'] at hl
  rw [Int.mul_tdiv_cancel hi hb.ne'] at hh
  exact ⟨hl, hh⟩

theorem abs_tdiv_le {a b c : ℤ} (hb : 0 < b) (h : |a| ≤ c * b) : |a.tdiv b| ≤ c := by
  obtain ⟨hlo, hhi⟩ := abs_le.mp h
  exact abs_le.mpr (tdiv_mem_Icc hb (by linarith [neg_mul c b]) hhi)

theorem tdiv_add_self_le (b : ℤ) {c : ℤ} (hc : 0 < c) : (b + c).tdiv c ≤ b.tdiv c + 1 := by
  have hdvd : c ∣ b + c ↔ c ∣ b := Int.dvd_add_left (dvd_refl c)
  rw [Int.tdiv_eq_ediv, Int.tdiv_eq_ediv, Int.add_ediv_of_dvd_right (dvd_refl c),
    Int.ediv_self hc.ne', Int.sign_eq_one_of_pos hc]
  split_ifs with hsum hb hb
  · omega
  · omega
  · exact absurd (hb.imp (fun h => by omega) hdvd.mpr) hsum
  · omega

/-- Dividends at most one divisor apart have quotients at most one apart. -/
theorem abs_tdiv_sub_tdiv_le {a b c : ℤ} (hc : 0 < c) (h : |a - b| ≤ c) :
    |a.tdiv c - b.tdiv c| ≤ 1 := by
  obtain ⟨hlo, hhi⟩ := abs_le.mp h
  have hab := Int.tdiv_le_tdiv hc (show a ≤ b + c by omega)
  have hba := Int.tdiv_le_tdiv hc (show b ≤ a + c by omega)
  have ha := tdiv_add_self_le a hc
  have hb := tdiv_add_self_le b hc
  rw [abs_le]
  omega

end TruncDiv
