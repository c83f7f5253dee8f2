import Mathlib.Tactic.Ring
import Xallib.Xfs.Open

/-!
# Addresses

A block is addressed by its allocation group and its number in the group, an inode besides by its
number in the block (`InoPlace`). A block number and an inode number put these side by side in bits,
of which a group may use fewer than it has numbers for; the offset on the device counts the blocks
that there are.

`addresses_agree`: the functions that translate addresses agree, none of them wraps around, and
different inodes are stored apart.
-/

namespace Xallib

open Lib Lib.Buf

/-- The superblock of a file system whose offsets fit in `off_t`. -/
structure Addressable (sb : XalSb) : Prop where
  agblocks_pos : 0 < sb.agblocks
  agblocks_le : sb.agblocks ≤ 2 ^ sb.agblklog
  agblklog_lt : sb.agblklog < 32
  logs : sb.agblklog + sb.inopblog ≤ 32
  blocksize : sb.inodesize * 2 ^ sb.inopblog = sb.blocksize
  size : sb.agcount * sb.agblocks * sb.blocksize < 2 ^ 63
  -- a field of 32 bits
  agcount_lt : sb.agcount < 2 ^ 32

/-- Where an inode is. -/
structure InoPlace where
  agno : Nat
  agbno : Nat
  agbino : Nat
  deriving DecidableEq

namespace InoPlace

variable (sb : XalSb) (p : InoPlace)

structure In : Prop where
  agno : p.agno < sb.agcount
  agbno : p.agbno < sb.agblocks
  agbino : p.agbino < 2 ^ sb.inopblog

/-- The number of the block. -/
def fsbno : Nat := p.agno <<< sb.agblklog ||| p.agbno

/-- The number of the inode. -/
def ino : Nat := p.agno <<< (sb.agblklog + sb.inopblog) ||| p.agbno <<< sb.inopblog ||| p.agbino

/-- The offset of the block on the device. -/
def blockOfz : Nat := (p.agno * sb.agblocks + p.agbno) * sb.blocksize

/-- The offset of the inode. -/
def ofz : Nat := p.blockOfz sb + p.agbino * sb.inodesize

/-- The inodes, counted from the start of the device. -/
def index : Nat := (p.agno * sb.agblocks + p.agbno) * 2 ^ sb.inopblog + p.agbino

end InoPlace

/-- What the translations make of the place `p`. -/
structure AddressesAgree (sb : XalSb) (p : InoPlace) : Prop where
  fsbno : xalFsbnoOffset .xfs sb (p.fsbno sb) = p.blockOfz sb
  agbno : xalAgbnoAbsoluteOffset sb p.agno p.agbno = p.blockOfz sb
  group : ∀ buf, (agDecode sb p.agno buf).offset + p.agbno * sb.blocksize = p.blockOfz sb
  decode : xalInoDecodeAbsolute sb (p.ino sb) = (p.agno, p.agbno, p.agbino)
  ino : xalInoDecodeAbsoluteOffset sb (p.ino sb) = p.ofz sb
  -- the numbers and the offsets are in their types
  fsbno_lt : p.fsbno sb < 2 ^ 64
  ino_lt : p.ino sb < 2 ^ 64
  end_lt : p.ofz sb + sb.inodesize < 2 ^ 63
  apart : ∀ q : InoPlace, q.In sb → q ≠ p →
    p.ofz sb + sb.inodesize ≤ q.ofz sb ∨ q.ofz sb + sb.inodesize ≤ p.ofz sb

/-! ## Digits -/

section
variable {b n x x' y y' : Nat}

theorem digits_lt (hx : x < n) (hy : y < b) : x * b + y < n * b := by
  calc x * b + y < x * b + b := Nat.add_lt_add_left hy _
    _ = (x + 1) * b := (Nat.succ_mul x b).symm
    _ ≤ n * b := Nat.mul_le_mul_right b hx

theorem digits_div (hy : y < b) : (x * b + y) / b = x := by
  rw [Nat.mul_comm, Nat.mul_add_div (Nat.zero_lt_of_lt hy), Nat.div_eq_of_lt hy, Nat.add_zero]

theorem digits_inj (hy : y < b) (hy' : y' < b) (h : x * b + y = x' * b + y') : x = x' ∧ y = y' := by
  constructor
  · rw [← digits_div (x := x) hy, h, digits_div hy']
  · rw [← Nat.mul_add_mod_of_lt (a := x) hy, h, Nat.mul_add_mod_of_lt hy']

end

/-! ## The translations -/

section
variable {sb : XalSb} {p q : InoPlace}

theorem InoPlace.fsbno_eq (h : Addressable sb) (hp : p.In sb) :
    p.fsbno sb = p.agno * 2 ^ sb.agblklog + p.agbno := by
  have hlt : p.agbno < 2 ^ sb.agblklog := Nat.lt_of_lt_of_le hp.agbno h.agblocks_le
  rw [InoPlace.fsbno, ← Nat.shiftLeft_add_eq_or_of_lt hlt, Nat.shiftLeft_eq]

theorem InoPlace.ino_eq (hp : p.In sb) :
    p.ino sb = p.fsbno sb * 2 ^ sb.inopblog + p.agbino := by
  rw [← Nat.shiftLeft_eq, Nat.shiftLeft_add_eq_or_of_lt hp.agbino, InoPlace.fsbno, InoPlace.ino,
    Nat.shiftLeft_or_distrib, ← Nat.shiftLeft_add]

theorem InoPlace.ofz_eq (h : Addressable sb) : p.ofz sb = p.index sb * sb.inodesize := by
  rw [InoPlace.ofz, InoPlace.blockOfz, InoPlace.index, ← h.blocksize]
  ring

theorem InoPlace.In.index_lt (hp : p.In sb) :
    p.index sb < sb.agcount * sb.agblocks * 2 ^ sb.inopblog :=
  digits_lt (digits_lt hp.agno hp.agbno) hp.agbino

/-- The inode ends on the device. -/
theorem InoPlace.In.end_le (h : Addressable sb) (hp : p.In sb) :
    p.ofz sb + sb.inodesize ≤ sb.agcount * sb.agblocks * sb.blocksize := by
  calc p.ofz sb + sb.inodesize = (p.index sb + 1) * sb.inodesize := by
        rw [InoPlace.ofz_eq h, Nat.succ_mul]
    _ ≤ sb.agcount * sb.agblocks * 2 ^ sb.inopblog * sb.inodesize :=
        Nat.mul_le_mul_right _ hp.index_lt
    _ = sb.agcount * sb.agblocks * sb.blocksize := by rw [← h.blocksize]; ring

theorem InoPlace.In.block_lt (h : Addressable sb) (hp : p.In sb) : p.blockOfz sb < 2 ^ 63 := by
  have hend := InoPlace.In.end_le h hp
  have hsize := h.size
  rw [InoPlace.ofz] at hend
  omega

theorem fsbnoOffset_place (h : Addressable sb) (hp : p.In sb) :
    xalFsbnoOffset .xfs sb (p.fsbno sb) = p.blockOfz sb := by
  have hlt : p.agbno < 2 ^ sb.agblklog := Nat.lt_of_lt_of_le hp.agbno h.agblocks_le
  have hblock := InoPlace.In.block_lt h hp
  simp only [xalFsbnoOffset, agblkMask, Nat.mod_eq_of_lt h.agblklog_lt, Nat.shiftRight_eq_div_pow,
    Nat.and_two_pow_sub_one_eq_mod]
  rw [InoPlace.fsbno_eq h hp, digits_div hlt, Nat.mul_add_mod_of_lt hlt]
  exact Nat.mod_eq_of_lt (Nat.lt_trans hblock (by decide))

theorem groupOffset_place (h : Addressable sb) (hp : p.In sb) (buf : Buf) :
    (agDecode sb p.agno buf).offset + p.agbno * sb.blocksize = p.blockOfz sb := by
  have hblock := InoPlace.In.block_lt h hp
  rw [InoPlace.blockOfz, Nat.add_mul] at hblock ⊢
  rw [agDecode, agOffset, Nat.mod_eq_of_lt (by omega)]

theorem decodeAbsolute_place (h : Addressable sb) (hp : p.In sb) :
    xalInoDecodeAbsolute sb (p.ino sb) = (p.agno, p.agbno, p.agbino) := by
  have hbno : p.agbno < 2 ^ sb.agblklog := Nat.lt_of_lt_of_le hp.agbno h.agblocks_le
  have hagno : p.agno < 2 ^ 32 := Nat.lt_trans hp.agno h.agcount_lt
  have hrel : p.agbno * 2 ^ sb.inopblog + p.agbino < 2 ^ 32 := by
    calc p.agbno * 2 ^ sb.inopblog + p.agbino < 2 ^ sb.agblklog * 2 ^ sb.inopblog :=
          digits_lt hbno hp.agbino
      _ = 2 ^ (sb.agblklog + sb.inopblog) := (Nat.pow_add _ _ _).symm
      _ ≤ 2 ^ 32 := Nat.pow_le_pow_right (by decide) h.logs
  have hino : p.ino sb = p.agno * 2 ^ (sb.agblklog + sb.inopblog) +
      (p.agbno * 2 ^ sb.inopblog + p.agbino) := by
    rw [InoPlace.ino_eq hp, InoPlace.fsbno_eq h hp, Nat.pow_add]
    ring
  have hdvd : 2 ^ (sb.agblklog + sb.inopblog) ∣ 2 ^ 32 := Nat.pow_dvd_pow 2 h.logs
  have hlow : p.ino sb % 2 ^ 32 % 2 ^ (sb.agblklog + sb.inopblog) =
      p.agbno * 2 ^ sb.inopblog + p.agbino := by
    rw [Nat.mod_mod_of_dvd _ hdvd, hino, Nat.mul_add_mod_of_lt]
    rw [Nat.pow_add]
    exact digits_lt hbno hp.agbino
  simp only [xalInoDecodeAbsolute, xalInoDecodeRelative, Nat.shiftRight_eq_div_pow,
    Nat.and_two_pow_sub_one_eq_mod, Prod.mk.injEq]
  refine ⟨?_, ?_, ?_⟩
  · rw [Nat.add_comm sb.inopblog, hino, digits_div, Nat.mod_eq_of_lt hagno]
    rw [Nat.pow_add]
    exact digits_lt hbno hp.agbino
  · rw [← Nat.mod_mul_right_div_self, ← Nat.pow_add, Nat.add_comm sb.inopblog, hlow,
      digits_div hp.agbino]
  · rw [← Nat.mod_mod_of_dvd _ (Nat.pow_dvd_pow 2 (Nat.le_add_left sb.inopblog sb.agblklog)), hlow,
      Nat.mul_add_mod_of_lt hp.agbino]

theorem decodeAbsoluteOffset_place (h : Addressable sb) (hp : p.In sb) :
    xalInoDecodeAbsoluteOffset sb (p.ino sb) = p.ofz sb := by
  have hend := InoPlace.In.end_le h hp
  have hblock := InoPlace.In.block_lt h hp
  have hsize := h.size
  rw [xalInoDecodeAbsoluteOffset, decodeAbsolute_place h hp]
  show (p.blockOfz sb % 2 ^ 64 + p.agbino * sb.inodesize) % 2 ^ 64 = _
  rw [InoPlace.ofz] at hend ⊢
  rw [Nat.mod_eq_of_lt (by omega), Nat.mod_eq_of_lt (by omega)]

/-- The numbers fit in 64 bits. -/
theorem InoPlace.In.numbers_lt (h : Addressable sb) (hp : p.In sb) :
    p.fsbno sb < 2 ^ 64 ∧ p.ino sb < 2 ^ 64 := by
  have hbno : p.agbno < 2 ^ sb.agblklog := Nat.lt_of_lt_of_le hp.agbno h.agblocks_le
  have hagno : p.agno < 2 ^ 32 := Nat.lt_trans hp.agno h.agcount_lt
  rw [InoPlace.ino_eq hp, InoPlace.fsbno_eq h hp]
  constructor
  · calc p.agno * 2 ^ sb.agblklog + p.agbno < 2 ^ 32 * 2 ^ sb.agblklog := digits_lt hagno hbno
      _ ≤ 2 ^ 32 * 2 ^ 32 :=
          Nat.mul_le_mul_left _ (Nat.pow_le_pow_right (by decide) (Nat.le_of_lt h.agblklog_lt))
  · calc (p.agno * 2 ^ sb.agblklog + p.agbno) * 2 ^ sb.inopblog + p.agbino
        < 2 ^ 32 * 2 ^ sb.agblklog * 2 ^ sb.inopblog :=
          digits_lt (digits_lt hagno hbno) hp.agbino
      _ = 2 ^ 32 * 2 ^ (sb.agblklog + sb.inopblog) := by rw [Nat.pow_add, Nat.mul_assoc]
      _ ≤ 2 ^ 32 * 2 ^ 32 := Nat.mul_le_mul_left _ (Nat.pow_le_pow_right (by decide) h.logs)

theorem InoPlace.index_inj (hp : p.In sb) (hq : q.In sb) (h : p.index sb = q.index sb) : p = q := by
  obtain ⟨hblock, hbino⟩ := digits_inj hp.agbino hq.agbino h
  obtain ⟨hagno, hagbno⟩ := digits_inj hp.agbno hq.agbno hblock
  cases p
  cases q
  simp only at hagno hagbno hbino
  subst hagno hagbno hbino
  rfl

/-- Different inodes are stored apart. -/
theorem InoPlace.apart (h : Addressable sb) (hp : p.In sb) (hq : q.In sb) (hne : q ≠ p) :
    p.ofz sb + sb.inodesize ≤ q.ofz sb ∨ q.ofz sb + sb.inodesize ≤ p.ofz sb := by
  rw [InoPlace.ofz_eq h, InoPlace.ofz_eq h, ← Nat.succ_mul, ← Nat.succ_mul]
  rcases Nat.lt_trichotomy (p.index sb) (q.index sb) with hlt | heq | hgt
  · exact .inl (Nat.mul_le_mul_right _ hlt)
  · exact absurd (InoPlace.index_inj hp hq heq).symm hne
  · exact .inr (Nat.mul_le_mul_right _ hgt)

end

/-- The translations of addresses agree. -/
theorem addresses_agree (sb : XalSb) (h : Addressable sb) (p : InoPlace) (hp : p.In sb) :
    AddressesAgree sb p where
  fsbno := fsbnoOffset_place h hp
  agbno := Nat.mod_eq_of_lt (Nat.lt_trans (InoPlace.In.block_lt h hp) (by decide))
  group := groupOffset_place h hp
  decode := decodeAbsolute_place h hp
  ino := decodeAbsoluteOffset_place h hp
  fsbno_lt := (InoPlace.In.numbers_lt h hp).1
  ino_lt := (InoPlace.In.numbers_lt h hp).2
  end_lt := Nat.lt_of_le_of_lt (InoPlace.In.end_le h hp) h.size
  apart _ hq hne := InoPlace.apart h hp hq hne

/-- Four groups of three blocks, for which a block number has two bits. -/
theorem addresses_agree_small : AddressesAgree
    { (default : XalSb) with blocksize := 1024, inodesize := 256, inopblog := 2, agblocks := 3,
                             agblklog := 2, agcount := 4 } ⟨3, 2, 1⟩ :=
  addresses_agree _ (by constructor <;> decide) ⟨3, 2, 1⟩ (by constructor <;> decide)

end Xallib
