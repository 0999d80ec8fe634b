import ExprShell.Number.Integer
import Mathlib.Algebra.Ring.Int.Defs
import Mathlib.Algebra.Ring.Nat

/-!
# What wrapped around is found out

The operations on integers wrap around at 64 bits and look at the result afterwards.  Each of them
gives the result of the whole numbers if that fits, and refuses all others: the tests on signs and
the division that undoes a product miss no overflow and raise no false alarm.

* `fit?_of_wrapped`   a wrapped result fits if and only if it is the result itself;
* `add?_eq_fit?`, `sub?_eq_fit?`, `mul?_eq_fit?`, `quot?_eq_fit?`, `neg?_eq_fit?`   the operations.
-/

namespace ExprShell.Integer

theorem exists_toInt_eq {z : Int} (h : -2 ^ 63 ≤ z ∧ z ≤ 2 ^ 63 - 1) :
    ∃ v : Integer, v.toInt = z ∧ fit? z = some v := by
  have hfit : ¬ fit? z = none := by
    rw [fit?_eq_none_iff, least, bound]
    omega
  obtain ⟨v, hv⟩ := Option.ne_none_iff_exists'.mp hfit
  exact ⟨v, fit?_eq_some_iff.mp hv, hv⟩

theorem fit?_eq_none_of_not {z : Int} (h : ¬ (-2 ^ 63 ≤ z ∧ z ≤ 2 ^ 63 - 1)) : fit? z = none := by
  rw [fit?_eq_none_iff, least, bound]
  omega

/-- a wrapped result fits if and only if nothing was wrapped -/
theorem fit?_of_wrapped {z : Int} {v : Integer} (h : v.toInt = z.bmod (2 ^ 64)) :
    fit? z = if v.toInt = z then some v else none := by
  split
  · next hz => exact fit?_eq_some_iff.mpr hz
  · next hz =>
    rw [fit?_eq_none_iff]
    rintro ⟨hlow, hhigh⟩
    have hself : z.bmod (2 ^ 64) = z := by
      unfold least at hlow
      unfold bound at hhigh
      exact Int.bmod_eq_of_le (by omega) (by omega)
    exact hz (h.trans hself)

theorem zero_le_and_xor (a b c d : Integer) :
    0 ≤ (a ^^^ b) &&& (c ^^^ d) ↔
      ((a.toInt < 0 ↔ b.toInt < 0) ∨ (c.toInt < 0 ↔ d.toInt < 0)) := by
  have hsign (x : Integer) : x.toBitVec.msb = decide (x.toInt < 0) := by
    rw [BitVec.msb_eq_toInt, Int64.toInt_toBitVec]
  have hmsb := hsign ((a ^^^ b) &&& (c ^^^ d))
  rw [Int64.toBitVec_and, Int64.toBitVec_xor, Int64.toBitVec_xor, BitVec.msb_and, BitVec.msb_xor,
    BitVec.msb_xor, hsign, hsign, hsign, hsign] at hmsb
  have hle : 0 ≤ (a ^^^ b) &&& (c ^^^ d) ↔ ¬ ((a ^^^ b) &&& (c ^^^ d)).toInt < 0 := by
    rw [Int64.le_iff_toInt_le, Int.not_lt]
    rfl
  rw [hle, ← decide_eq_true_iff (p := _ < _), ← hmsb]
  by_cases ha : a.toInt < 0 <;> by_cases hb : b.toInt < 0 <;> by_cases hc : c.toInt < 0 <;>
    by_cases hd : d.toInt < 0 <;> simp [ha, hb, hc, hd]

theorem add?_eq_fit? (l r : Integer) : add? l r = fit? (l.toInt + r.toInt) := by
  have hwrap := Int64.toInt_add l r
  have hl := l.le_toInt
  have hl' := l.toInt_lt
  have hr := r.le_toInt
  have hr' := r.toInt_lt
  have htest : 0 ≤ (l ^^^ (l + r)) &&& (r ^^^ (l + r)) ↔ (l + r).toInt = l.toInt + r.toInt := by
    rw [zero_le_and_xor, hwrap, Int.bmod_def]
    split <;> omega
  rw [fit?_of_wrapped hwrap]
  simp only [add?, htest]

theorem sub?_eq_fit? (l r : Integer) : sub? l r = fit? (l.toInt - r.toInt) := by
  have hwrap := Int64.toInt_sub l r
  have hl := l.le_toInt
  have hl' := l.toInt_lt
  have hr := r.le_toInt
  have hr' := r.toInt_lt
  have htest : 0 ≤ (l ^^^ r) &&& (l ^^^ (l - r)) ↔ (l - r).toInt = l.toInt - r.toInt := by
    rw [zero_le_and_xor, hwrap, Int.bmod_def]
    split <;> omega
  rw [fit?_of_wrapped hwrap]
  simp only [sub?, htest]

theorem toInt_eq_least_iff {x : Integer} : x = Int64.minValue ↔ x.toInt = -2 ^ 63 := by
  rw [← Int64.toInt_inj, Int64.toInt_minValue]

theorem toInt_eq_zero_iff {x : Integer} : x = 0 ↔ x.toInt = 0 := by
  rw [← Int64.toInt_inj]
  rfl

/-- a quotient is the least integer's by minus one, or it does not wrap around -/
theorem toInt_quot {l r : Integer} (h : ¬ (l = Int64.minValue ∧ r = -1)) :
    (l / r).toInt = l.toInt.tdiv r.toInt := by
  by_cases hl : l = Int64.minValue
  · exact Int64.toInt_div_of_ne_right l r fun hr => h ⟨hl, hr⟩
  · exact Int64.toInt_div_of_ne_left l r hl

theorem quot?_eq_fit? (l r : Integer) : quot? l r = fit? (l.toInt.tdiv r.toInt) := by
  unfold quot?
  split
  · next h =>
    obtain ⟨rfl, rfl⟩ := h
    rfl
  · next h => exact (fit?_eq_some_iff.mpr (toInt_quot h)).symm

theorem neg?_eq_fit? (x : Integer) : neg? x = fit? (-x.toInt) := by
  have hwrap := Int64.toInt_neg x
  have hx := x.le_toInt
  have hx' := x.toInt_lt
  have htest : x = Int64.minValue ↔ ¬ (-x).toInt = -x.toInt := by
    rw [toInt_eq_least_iff, hwrap, Int.bmod_def]
    split <;> omega
  rw [fit?_of_wrapped hwrap]
  simp only [neg?, htest, ite_not]

/-- a wrapped product that gives one factor back by division was not wrapped: what is left over by
the division is a multiple of 2^64, and less than the divisor -/
theorem toInt_mul_of_quot {l r : Integer} (hr : r ≠ 0)
    (hmin : ¬ (r = -1 ∧ l = Int64.minValue)) (h : l * r / r = l) :
    (l * r).toInt = l.toInt * r.toInt := by
  have hexc : ¬ (l * r = Int64.minValue ∧ r = -1) := by
    rintro ⟨hp, rfl⟩
    rw [hp] at h
    exact hmin ⟨rfl, h.symm⟩
  have hquot : (l * r).toInt.tdiv r.toInt = l.toInt := by rw [← toInt_quot hexc, h]
  have hsplit := Int.mul_tdiv_add_tmod (l * r).toInt r.toInt
  rw [hquot] at hsplit
  have hrest : ((l * r).toInt.tmod r.toInt).natAbs < r.toInt.natAbs := by
    rw [Int.natAbs_tmod]
    exact Nat.mod_lt _ (Int.natAbs_pos.mpr fun h0 => hr (toInt_eq_zero_iff.mpr h0))
  have hdvd : (2 ^ 64 : Int) ∣ (l * r).toInt.tmod r.toInt := by
    have hp : (2 ^ 64 : Int) ∣ (l * r).toInt - l.toInt * r.toInt := by
      rw [Int64.toInt_mul]
      exact Int.dvd_bmod_sub_self
    have heq : (l * r).toInt - l.toInt * r.toInt = (l * r).toInt.tmod r.toInt := by
      rw [Int.mul_comm l.toInt]
      omega
    rwa [heq] at hp
  have hr1 := r.le_toInt
  have hr2 := r.toInt_lt
  have hzero : (l * r).toInt.tmod r.toInt = 0 :=
    Int.eq_zero_of_dvd_of_natAbs_lt_natAbs hdvd (by omega)
  rw [hzero, Int.add_zero, Int.mul_comm] at hsplit
  exact hsplit.symm

/-- a product that was not wrapped gives the factor back -/
theorem quot_of_toInt_mul {l r : Integer} (hr : r ≠ 0)
    (h : (l * r).toInt = l.toInt * r.toInt) : l * r / r = l := by
  have hl := l.toInt_lt
  have hexc : ¬ (l * r = Int64.minValue ∧ r = -1) := by
    rintro ⟨hp, rfl⟩
    have hone : (-1 : Integer).toInt = -1 := rfl
    rw [hp, Int64.toInt_minValue, hone] at h
    omega
  have hr0 : r.toInt ≠ 0 := fun h0 => hr (toInt_eq_zero_iff.mpr h0)
  rw [← Int64.toInt_inj, toInt_quot hexc, h, Int.mul_tdiv_cancel _ hr0]

theorem mul?_eq_fit? (l r : Integer) : mul? l r = fit? (l.toInt * r.toInt) := by
  have hwrap := Int64.toInt_mul l r
  unfold mul?
  split
  · next h =>
    have hzero : l.toInt * r.toInt = 0 := by
      rcases h with rfl | rfl
      · exact Int.zero_mul _
      · exact Int.mul_zero _
    rw [hzero]
    rfl
  · next h =>
    obtain ⟨hl, hr⟩ := not_or.mp h
    rw [fit?_of_wrapped hwrap]
    have htest : (l = -1 ∧ r = Int64.minValue ∨ r = -1 ∧ l = Int64.minValue ∨ l * r / r ≠ l) ↔
        ¬ (l * r).toInt = l.toInt * r.toInt := by
      constructor
      · rintro (⟨rfl, rfl⟩ | ⟨rfl, rfl⟩ | hquot)
        · decide
        · decide
        · exact fun hp => hquot (quot_of_toInt_mul hr hp)
      · intro hp
        by_contra hnone
        obtain ⟨-, hmin, hquot⟩ := not_or.mp hnone |>.imp_right not_or.mp
        exact hp (toInt_mul_of_quot hr hmin (not_not.mp hquot))
    simp only [htest, ite_not]

end ExprShell.Integer
