import Mathlib.Data.BitVec

/-!
# Fields of a machine word

* `field` — the bits of a number between two positions
* `field_eq` — what stands between what is above and what is below
* `toNat_mask_shift`, `toNat_mask` — a mask and a shift read a field
* `toNat_place` — a shift puts a number into a field
* `toNat_add_of_lt` — fields that do not reach over the word are added
-/

namespace Infra

variable {w : Nat}

/-- The `n` bits from bit `lo` on. -/
def field (v lo n : Nat) : Nat := v / 2 ^ lo % 2 ^ n

/-- What stands in a field, between what is above and what is below it. -/
theorem field_eq {v lo n : Nat} (hi x rest : Nat) (h : v = (hi * 2 ^ n + x) * 2 ^ lo + rest)
    (hx : x < 2 ^ n) (hrest : rest < 2 ^ lo) : field v lo n = x := by
  have hdiv : v / 2 ^ lo = hi * 2 ^ n + x := by
    rw [h, Nat.mul_comm, Nat.mul_add_div (Nat.two_pow_pos lo), Nat.div_eq_of_lt hrest, Nat.add_zero]
  rw [field, hdiv, Nat.mul_comm, Nat.mul_add_mod, Nat.mod_eq_of_lt hx]

theorem toNat_mask_shift (x mask : BitVec w) {lo n : Nat}
    (hmask : mask.toNat = (2 ^ n - 1) * 2 ^ lo) :
    ((x &&& mask) >>> lo).toNat = field x.toNat lo n := by
  rw [BitVec.toNat_ushiftRight, BitVec.toNat_and, hmask, Nat.shiftRight_and_distrib,
    ← Nat.shiftLeft_eq (2 ^ n - 1) lo, Nat.shiftLeft_shiftRight, Nat.and_two_pow_sub_one_eq_mod,
    Nat.shiftRight_eq_div_pow]
  rfl

theorem toNat_mask (x mask : BitVec w) {n : Nat} (hmask : mask.toNat = 2 ^ n - 1) :
    (x &&& mask).toNat = field x.toNat 0 n := by
  rw [BitVec.toNat_and, hmask, Nat.and_two_pow_sub_one_eq_mod, field, Nat.pow_zero, Nat.div_one]

/-- A number that is shifted to its place loses no bit. -/
theorem toNat_place {v : Int} {lo : Nat} (h0 : 0 ≤ v) (h : v.toNat * 2 ^ lo < 2 ^ w) :
    (BitVec.ofInt w v <<< lo).toNat = v.toNat * 2 ^ lo := by
  have hle : v.toNat ≤ v.toNat * 2 ^ lo := Nat.le_mul_of_pos_right _ (Nat.two_pow_pos lo)
  obtain ⟨n, rfl⟩ := Int.eq_ofNat_of_zero_le h0
  rw [Int.toNat_natCast] at h hle ⊢
  rw [BitVec.toNat_shiftLeft, Nat.shiftLeft_eq, BitVec.ofInt_natCast, BitVec.toNat_ofNat,
    Nat.mod_eq_of_lt (hle.trans_lt h), Nat.mod_eq_of_lt h]

/-- A number of one field at the low end. -/
theorem toNat_low {v : Int} (h0 : 0 ≤ v) (h : v.toNat < 2 ^ w) :
    (BitVec.ofInt w v).toNat = v.toNat := by
  obtain ⟨n, rfl⟩ := Int.eq_ofNat_of_zero_le h0
  rw [Int.toNat_natCast] at h ⊢
  rw [BitVec.ofInt_natCast, BitVec.toNat_ofNat, Nat.mod_eq_of_lt h]

/-- Nothing is carried out of the word. -/
theorem toNat_add_of_lt {x y : BitVec w} {a b : Nat} (hx : x.toNat = a) (hy : y.toNat = b)
    (h : a + b < 2 ^ w) : (x + y).toNat = a + b := by
  rw [BitVec.toNat_add, hx, hy, Nat.mod_eq_of_lt h]

end Infra
