import Mathlib.Data.Nat.Bitwise

/-!
# The set bits of a word, one after another

A loop over the set bits of a word takes the lowest (`BitVec.ctz`) and clears it with
`x &&& (x - 1)`.

* **`clear_lowest`** — clearing the lowest set bit keeps every other one.
-/

namespace Bits

theorem testBit_and_pred {n t i : Nat} (hlow : ∀ j, j < t → n.testBit j = false)
    (hbit : n.testBit t = true) (hi : n.testBit i = true) (hne : i ≠ t) :
    (n &&& (n - 1)).testBit i = true := by
  have hlt : t < i := by
    by_contra hle
    have hzero := hlow i (by omega)
    rw [hi] at hzero
    cases hzero
  -- The number is `2 ^ t` below the bits above `t`, and its predecessor is `2 ^ t - 1` there.
  have hmod : n % 2 ^ (t + 1) = 2 ^ t := by
    refine Nat.eq_of_testBit_eq fun j => ?_
    rw [Nat.testBit_mod_two_pow, Nat.testBit_two_pow]
    rcases Nat.lt_trichotomy j t with hj | rfl | hj
    · rw [hlow j hj, Bool.and_false]
      exact (decide_eq_false (by omega)).symm
    · rw [hbit]
      simp
    · rw [decide_eq_false (by omega : ¬ j < t + 1), Bool.false_and]
      exact (decide_eq_false (by omega)).symm
  have hpos : 0 < 2 ^ t := Nat.two_pow_pos t
  have hpow : 2 ^ (t + 1) = 2 * 2 ^ t := Nat.pow_succ'
  have hsplit := Nat.div_add_mod n (2 ^ (t + 1))
  have hpred : n - 1 = 2 ^ (t + 1) * (n / 2 ^ (t + 1)) + (2 ^ t - 1) := by omega
  rw [Nat.testBit_and, hi, hpred, Nat.testBit_two_pow_mul_add _ (by omega),
    if_neg (by omega : ¬ i < t + 1), Nat.testBit_div_two_pow]
  rw [show i - (t + 1) + (t + 1) = i by omega, hi]
  rfl

/-- Clearing the lowest set bit keeps every other one. -/
theorem clear_lowest {w i : Nat} {x : BitVec w} (hi : x.getLsbD i = true)
    (hne : i ≠ x.ctz.toNat) : (x &&& (x - 1#w)).getLsbD i = true := by
  have hx : x ≠ 0#w := by
    rintro rfl
    simp at hi
  have hpos : 1 ≤ x.toNat := Nat.one_le_iff_ne_zero.mpr fun hzero => hx (BitVec.eq_of_toNat_eq hzero)
  have hw : 0 < w := by
    by_contra hnone
    obtain rfl : w = 0 := by omega
    exact hx (BitVec.eq_nil x)
  have hsub : (x - 1#w).toNat = x.toNat - 1 := by
    have hone : (1#w).toNat = 1 := by
      rw [BitVec.toNat_ofNat]
      exact Nat.mod_eq_of_lt (Nat.one_lt_two_pow (by omega))
    rw [BitVec.toNat_sub_of_le (by rw [BitVec.le_def, hone]; exact hpos), hone]
  have hbits : ∀ j, x.toNat.testBit j = x.getLsbD j := fun j => BitVec.testBit_toNat x
  have hand := testBit_and_pred (n := x.toNat) (t := x.ctz.toNat)
    (fun j hj => (hbits j).trans (BitVec.getLsbD_false_of_lt_ctz hj))
    ((hbits _).trans (BitVec.getLsbD_true_ctz_of_ne_zero hx)) ((hbits i).trans hi) hne
  rw [← BitVec.testBit_toNat, BitVec.toNat_and, hsub]
  exact hand

end Bits
