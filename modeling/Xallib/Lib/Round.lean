import Mathlib.Data.Nat.Bitwise
import Mathlib.Data.Nat.Size
import Mathlib.Tactic.Ring

/-!
# Rounding up to a power of two

`Smeared d x y`: bit `i` of `y` is set if one of the `d` bits of `x` from `i` on is. Or-ing `y` with
itself, shifted by `d`, doubles `d` (`Smeared.double`); when all bits are covered, `y` has every bit
up to the highest of `x`, and the next number is a power of two (`Smeared.succ`).
-/

namespace Lib

variable {n d : Nat} {x y : BitVec n}

def Smeared (d : Nat) (x y : BitVec n) : Prop :=
  ∀ i, y.getLsbD i = true ↔ ∃ t < d, x.getLsbD (i + t) = true

theorem Smeared.one (x : BitVec n) : Smeared 1 x x := by
  intro i
  constructor
  · intro h
    exact ⟨0, Nat.one_pos, h⟩
  · rintro ⟨t, ht, h⟩
    obtain rfl := Nat.lt_one_iff.1 ht
    exact h

theorem Smeared.double (h : Smeared d x y) : Smeared (d + d) x (y ||| y >>> d) := by
  intro i
  rw [BitVec.getLsbD_or, BitVec.getLsbD_ushiftRight, Bool.or_eq_true, h i, h (d + i)]
  constructor
  · rintro (⟨t, ht, hx⟩ | ⟨t, ht, hx⟩)
    · exact ⟨t, by omega, hx⟩
    · exact ⟨d + t, by omega, by rwa [show i + (d + t) = d + i + t by omega]⟩
  · rintro ⟨t, ht, hx⟩
    by_cases hlt : t < d
    · exact .inl ⟨t, hlt, hx⟩
    · exact .inr ⟨t - d, by omega, by rwa [show d + i + (t - d) = i + t by omega]⟩

/-- With all bits covered, `y` is all ones up to the highest bit of `x`. -/
theorem Smeared.toNat (h : Smeared d x y) (hd : n ≤ d) : y.toNat = 2 ^ x.toNat.size - 1 := by
  apply Nat.eq_of_testBit_eq
  intro i
  rw [Nat.testBit_two_pow_sub_one, Bool.eq_iff_iff, decide_eq_true_iff, Nat.lt_size]
  refine (h i).trans ?_
  constructor
  · rintro ⟨t, -, ht⟩
    exact Nat.le_trans (Nat.pow_le_pow_right (by decide) (Nat.le_add_right i t))
      (Nat.ge_two_pow_of_testBit ht)
  · intro hle
    obtain ⟨j, hij, hj⟩ := Nat.exists_ge_and_testBit_of_ge_two_pow hle
    have hjn : j < n := BitVec.lt_of_getLsbD (x := x) hj
    exact ⟨j - i, by omega, by rwa [Nat.add_sub_cancel' hij]⟩

/-- The number after `y`: `0` where that does not fit. -/
theorem Smeared.succ (h : Smeared d x y) (hd : n ≤ d) :
    (y + 1).toNat = 2 ^ x.toNat.size % 2 ^ n := by
  have hone : (1 : BitVec n).toNat = 1 % 2 ^ n := BitVec.toNat_ofNat 1 n
  rw [BitVec.toNat_add, h.toNat hd, hone, Nat.add_mod_mod, Nat.sub_add_cancel (Nat.two_pow_pos _)]

end Lib
