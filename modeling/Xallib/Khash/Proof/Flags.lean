import Xallib.Khash.Table

/-!
# The flags of a hash table

What a test of a flag reads after each way to set one: the flags of the bucket itself change as the
names of the macros say, and those of the other buckets, also of the fifteen in its word, stay.
-/

namespace Xallib

namespace KhFlags

/-! ## Bits of a word -/

section
variable (x w : BitVec 32) (a b : Nat)

theorem and_one_bne : (x &&& 1 != 0) = x.getLsbD 0 := by
  rw [show (1 : BitVec 32) = BitVec.twoPow 32 0 from rfl, BitVec.and_twoPow]
  cases x.getLsbD 0 <;> decide

theorem and_two_bne : (x &&& 2 != 0) = x.getLsbD 1 := by
  rw [show (2 : BitVec 32) = BitVec.twoPow 32 1 from rfl, BitVec.and_twoPow]
  cases x.getLsbD 1 <;> decide

theorem and_three_bne : (x &&& 3 != 0) = (x.getLsbD 1 || x.getLsbD 0) := by
  rw [show (3 : BitVec 32) = BitVec.twoPow 32 1 ||| BitVec.twoPow 32 0 from rfl,
    BitVec.and_or_distrib_left, BitVec.and_twoPow, BitVec.and_twoPow]
  cases x.getLsbD 1 <;> cases x.getLsbD 0 <;> decide

theorem shift_eq (i : Nat) : (i &&& 0xf) <<< 1 = 2 * (i % 16) := by
  rw [Nat.shiftLeft_eq, show 0xf = 2 ^ 4 - 1 from rfl, Nat.and_two_pow_sub_one_eq_mod]
  omega

/-- A pair of bits, shifted to its place. -/
theorem getLsbD_shift {j : Nat} (hj : j < 32) :
    (x <<< (2 * a)).getLsbD j = (decide (2 * a ≤ j) && x.getLsbD (j - 2 * a)) := by
  rw [BitVec.getLsbD_shiftLeft, decide_eq_true hj, Bool.true_and, ← decide_not]
  simp

theorem getLsbD_one (j : Nat) : (1 : BitVec 32).getLsbD j = decide (j = 0) := by
  rw [show (1 : BitVec 32) = BitVec.twoPow 32 0 from rfl, BitVec.getLsbD_twoPow]
  simp [eq_comm]

theorem getLsbD_two (j : Nat) : (2 : BitVec 32).getLsbD j = decide (j = 1) := by
  rw [show (2 : BitVec 32) = BitVec.twoPow 32 1 from rfl, BitVec.getLsbD_twoPow]
  simp [eq_comm]

theorem getLsbD_three (j : Nat) : (3 : BitVec 32).getLsbD j = decide (j < 2) := by
  rw [show (3 : BitVec 32) = 2 ||| 1 from rfl, BitVec.getLsbD_or, getLsbD_one, getLsbD_two,
    ← Bool.decide_or]
  exact decide_eq_decide.2 (by omega)

variable (hb : b < 16)
include hb

theorem or_one_del : (w ||| (1 : BitVec 32) <<< (2 * a)).getLsbD (2 * b) =
    (w.getLsbD (2 * b) || decide (b = a)) := by
  rw [BitVec.getLsbD_or, getLsbD_shift _ _ (by omega), getLsbD_one, ← Bool.decide_and]
  congr 1
  exact decide_eq_decide.2 (by omega)

theorem or_one_empty : (w ||| (1 : BitVec 32) <<< (2 * a)).getLsbD (2 * b + 1) =
    w.getLsbD (2 * b + 1) := by
  rw [BitVec.getLsbD_or, getLsbD_shift _ _ (by omega), getLsbD_one, ← Bool.decide_and,
    decide_eq_false (by omega), Bool.or_false]

theorem and_not_two_del : (w &&& ~~~((2 : BitVec 32) <<< (2 * a))).getLsbD (2 * b) =
    w.getLsbD (2 * b) := by
  rw [BitVec.getLsbD_and, BitVec.getLsbD_not, getLsbD_shift _ _ (by omega), getLsbD_two,
    ← Bool.decide_and, decide_eq_true (by omega : 2 * b < 32),
    decide_eq_false (by omega : ¬(2 * a ≤ 2 * b ∧ 2 * b - 2 * a = 1)), Bool.not_false,
    Bool.and_true, Bool.and_true]

theorem and_not_two_empty : (w &&& ~~~((2 : BitVec 32) <<< (2 * a))).getLsbD (2 * b + 1) =
    (w.getLsbD (2 * b + 1) && decide (b ≠ a)) := by
  rw [BitVec.getLsbD_and, BitVec.getLsbD_not, getLsbD_shift _ _ (by omega), getLsbD_two,
    ← Bool.decide_and, decide_eq_true (by omega : 2 * b + 1 < 32), Bool.true_and, ← decide_not]
  congr 1
  exact decide_eq_decide.2 (by omega)

theorem and_not_three_del : (w &&& ~~~((3 : BitVec 32) <<< (2 * a))).getLsbD (2 * b) =
    (w.getLsbD (2 * b) && decide (b ≠ a)) := by
  rw [BitVec.getLsbD_and, BitVec.getLsbD_not, getLsbD_shift _ _ (by omega), getLsbD_three,
    ← Bool.decide_and, decide_eq_true (by omega : 2 * b < 32), Bool.true_and, ← decide_not]
  congr 1
  exact decide_eq_decide.2 (by omega)

theorem and_not_three_empty : (w &&& ~~~((3 : BitVec 32) <<< (2 * a))).getLsbD (2 * b + 1) =
    (w.getLsbD (2 * b + 1) && decide (b ≠ a)) := by
  rw [BitVec.getLsbD_and, BitVec.getLsbD_not, getLsbD_shift _ _ (by omega), getLsbD_three,
    ← Bool.decide_and, decide_eq_true (by omega : 2 * b + 1 < 32), Bool.true_and, ← decide_not]
  congr 1
  exact decide_eq_decide.2 (by omega)

end

/-! ## Flags of a bucket -/

variable (flag : KhFlags) (i j : Nat)

theorem isempty_eq : flag.isempty i = (flag.words (i / 16)).getLsbD (2 * (i % 16) + 1) := by
  rw [isempty, and_two_bne, pair, shift_eq, BitVec.getLsbD_ushiftRight, Nat.shiftRight_eq_div_pow]

theorem isdel_eq : flag.isdel i = (flag.words (i / 16)).getLsbD (2 * (i % 16)) := by
  rw [isdel, and_one_bne, pair, shift_eq, BitVec.getLsbD_ushiftRight, Nat.shiftRight_eq_div_pow]
  rfl

theorem iseither_eq : flag.iseither i = (flag.isempty i || flag.isdel i) := by
  rw [iseither, and_three_bne, isempty, isdel, and_two_bne, and_one_bne]

@[simp] theorem isempty_cleared : cleared.isempty i = true := by
  rw [isempty_eq]
  have h : ∀ b < 16, (0xaaaaaaaa : BitVec 32).getLsbD (2 * b + 1) = true := by decide
  exact h _ (Nat.mod_lt i (by decide))

@[simp] theorem isdel_cleared : cleared.isdel i = false := by
  rw [isdel_eq]
  have h : ∀ b < 16, (0xaaaaaaaa : BitVec 32).getLsbD (2 * b) = false := by decide
  exact h _ (Nat.mod_lt i (by decide))

theorem words_putWord (word : BitVec 32) : (flag.putWord i word).words (j / 16) =
    if j / 16 = i / 16 then word else flag.words (j / 16) := by
  rw [putWord, Nat.shiftRight_eq_div_pow]

/-- Buckets of one word are told by their pair. -/
theorem mod_eq_iff (h : j / 16 = i / 16) : j % 16 = i % 16 ↔ j = i := by omega

theorem ne_of_div {i j : Nat} (h : ¬j / 16 = i / 16) : j ≠ i := fun hji => h (by rw [hji])

@[simp] theorem isempty_setIsdelTrue : (flag.setIsdelTrue i).isempty j = flag.isempty j := by
  rw [isempty_eq, isempty_eq, setIsdelTrue, words_putWord]
  by_cases h : j / 16 = i / 16
  · rw [if_pos h, shift_eq, or_one_empty _ _ _ (Nat.mod_lt j (by decide)),
      Nat.shiftRight_eq_div_pow, h]
  · rw [if_neg h]

@[simp] theorem isdel_setIsdelTrue :
    (flag.setIsdelTrue i).isdel j = (flag.isdel j || decide (j = i)) := by
  rw [isdel_eq, isdel_eq, setIsdelTrue, words_putWord]
  by_cases h : j / 16 = i / 16
  · rw [if_pos h, shift_eq, or_one_del _ _ _ (Nat.mod_lt j (by decide)),
      Nat.shiftRight_eq_div_pow, h, decide_eq_decide.2 (mod_eq_iff i j h)]
  · rw [if_neg h, decide_eq_false (ne_of_div h), Bool.or_false]

@[simp] theorem isdel_setIsemptyFalse : (flag.setIsemptyFalse i).isdel j = flag.isdel j := by
  rw [isdel_eq, isdel_eq, setIsemptyFalse, words_putWord]
  by_cases h : j / 16 = i / 16
  · rw [if_pos h, shift_eq, and_not_two_del _ _ _ (Nat.mod_lt j (by decide)),
      Nat.shiftRight_eq_div_pow, h]
  · rw [if_neg h]

@[simp] theorem isempty_setIsemptyFalse :
    (flag.setIsemptyFalse i).isempty j = (flag.isempty j && decide (j ≠ i)) := by
  rw [isempty_eq, isempty_eq, setIsemptyFalse, words_putWord]
  by_cases h : j / 16 = i / 16
  · rw [if_pos h, shift_eq, and_not_two_empty _ _ _ (Nat.mod_lt j (by decide)),
      Nat.shiftRight_eq_div_pow, h, decide_eq_decide.2 (not_congr (mod_eq_iff i j h))]
  · rw [if_neg h, decide_eq_true (ne_of_div h), Bool.and_true]

@[simp] theorem isdel_setIsbothFalse :
    (flag.setIsbothFalse i).isdel j = (flag.isdel j && decide (j ≠ i)) := by
  rw [isdel_eq, isdel_eq, setIsbothFalse, words_putWord]
  by_cases h : j / 16 = i / 16
  · rw [if_pos h, shift_eq, and_not_three_del _ _ _ (Nat.mod_lt j (by decide)),
      Nat.shiftRight_eq_div_pow, h, decide_eq_decide.2 (not_congr (mod_eq_iff i j h))]
  · rw [if_neg h, decide_eq_true (ne_of_div h), Bool.and_true]

@[simp] theorem isempty_setIsbothFalse :
    (flag.setIsbothFalse i).isempty j = (flag.isempty j && decide (j ≠ i)) := by
  rw [isempty_eq, isempty_eq, setIsbothFalse, words_putWord]
  by_cases h : j / 16 = i / 16
  · rw [if_pos h, shift_eq, and_not_three_empty _ _ _ (Nat.mod_lt j (by decide)),
      Nat.shiftRight_eq_div_pow, h, decide_eq_decide.2 (not_congr (mod_eq_iff i j h))]
  · rw [if_neg h, decide_eq_true (ne_of_div h), Bool.and_true]

end KhFlags

end Xallib
