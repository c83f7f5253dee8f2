import Xallib.Xfs.Proof.Dblock
import Xallib.Xfs.Proof.Extents

/-!
# The extent counters of an inode

With the bit `XAL_DIFLAG2_NREXT64` of `di_flags2`, the field of 8 bytes at offset 24 counts the
extents of the data fork and the one of 4 bytes at offset 76 those of the attribute fork; without
it, the latter counts those of the data fork. The source does not look at the bit, and takes the
field at 76 unless it is 0: `fileExtents_counted_iff` says for which inodes that is right.
-/

namespace Xallib

open Lib Lib.Buf Lib.Cm Lib.Run

/-- `XAL_DIFLAG2_NREXT64_BIT` -/
def nrext64Bit : Nat := 4

section
variable (E : XfsEnv) (dinode : Nat)

/-- The bit of `di_flags2`. -/
def diNrext64 : Bool := (be64 E.dinodes (dinode + 120)).testBit nrext64Bit

/-- The number of extents of the data fork. -/
def dataNextents : Nat :=
  if diNrext64 E dinode then be64 E.dinodes (dinode + 24) else be32 E.dinodes (dinode + 76)

/-- The field at 76 counts the data fork, or is 0 where that at 24 does; the unused field is 0. -/
def CountersAgree : Prop :=
  if diNrext64 E dinode then
    be32 E.dinodes (dinode + 76) = 0 ∨ be32 E.dinodes (dinode + 76) = be64 E.dinodes (dinode + 24)
  else be32 E.dinodes (dinode + 76) ≠ 0 ∨ be64 E.dinodes (dinode + 24) = 0

end

section
variable {E : XfsEnv} {dinode self : Nat} {s s' : Store Buf}

theorem diNextents_eq_iff : diNextents E dinode = dataNextents E dinode ↔
    CountersAgree E dinode := by
  unfold diNextents dataNextents CountersAgree
  by_cases h0 : be32 E.dinodes (dinode + 76) = 0
  · cases diNrext64 E dinode with
    | true => simp [h0]
    | false => simp [h0]
  · cases diNrext64 E dinode with
    | true => simp [h0]
    | false => simp [h0]

/-- The file has exactly the extents of its data fork, in slots that were free before. -/
structure FileCounted (E : XfsEnv) (dinode slot : Nat) (s s' : Store Buf) : Prop where
  content : (s'.inodes.memory slot).content = ⟨s.extents.free, dataNextents E dinode⟩
  free : s'.extents.free = s.extents.free + dataNextents E dinode
  stored : storedSince s s' = (List.range (dataNextents E dinode)).map fun i =>
    xfsExtentAt E.dinodes (dfork dinode + 16 * i)

/-- What is stored, by the counter as read. -/
theorem processDinodeFileExtents_ok (hX : E.mpExtents.Bounded poolReserved extentNbytes)
    (hok : StoreOk s) (hself : self < s.inodes.free)
    (h : processDinodeFileExtents E dinode self s = .ok () s') :
    (s'.inodes.memory self).content = ⟨s.extents.free, diNextents E dinode⟩ ∧
      s'.extents.free = s.extents.free + diNextents E dinode := by
  unfold processDinodeFileExtents at h
  obtain ⟨idx, s₁, hclaim, h⟩ := bind_ok.1 h
  obtain ⟨hok₁, rfl, hfree, -, hin, -⟩ := (onExtents_claim hX hok _).ok hclaim
  rw [setInode_bind] at h
  have hlt : self < s₁.inodes.free := by rw [hin]; exact hself
  obtain ⟨-, hin', hfree', -⟩ := (decodeExtents_spec _ _ _ _ _ (hok₁.putInode hlt _)
    (by rw [putInode_extents, hfree, Nat.add_zero])).ok h
  have hle := Nat.le_trans hok₁.extents.free_le hok₁.extents.allocated_le
  simp only [poolReserved] at hle
  rw [hin', putInode_same, hfree', putInode_extents, hfree]
  exact ⟨by simp only [Nat.mod_eq_of_lt (show diNextents E dinode < 2 ^ 32 by omega)], rfl⟩

end

/-- The data fork is stored exactly where the counters agree (module doc). -/
theorem fileExtents_counted_iff (E : XfsEnv) (hX : E.mpExtents.Bounded poolReserved extentNbytes)
    (dinode self : Nat) (s s' : Store Buf) (hok : StoreOk s) (hself : self < s.inodes.free)
    (h : processDinodeFileExtents E dinode self s = .ok () s') :
    FileCounted E dinode self s s' ↔ CountersAgree E dinode := by
  obtain ⟨hcontent, hfree⟩ := processDinodeFileExtents_ok hX hok hself h
  have hstored := processDinodeFileExtents_stored hX hok h
  rw [← diNextents_eq_iff]
  constructor
  · intro hc
    have heq := hcontent.symm.trans hc.content
    exact congrArg XalContent.count heq
  · intro he
    rw [he] at hcontent hfree hstored
    exact ⟨hcontent, hfree, hstored⟩

/-! ## Two extents -/

/-- A file with two extents in its data fork, and `anextents` in its attribute fork, with large
counters. -/
def nrext64Dinode (anextents : UInt8) : Buf := fun i =>
  if i = 31 then 2 else if i = 79 then anextents else if i = 127 then 16
  else ofList 176 ((writtenRec 0 Nat.two_pos).bytes ++ (writtenRec 0 Nat.two_pos).bytes) i

def nrext64Env (anextents : UInt8) : XfsEnv :=
  xfsTableEnv smallSb (nrext64Dinode anextents) fun _ => none

theorem fileExtents_counted_plain : ∃ s', processDinodeFileExtents (nrext64Env 0) 0 0 rootClaimed =
    .ok () s' ∧ (s'.inodes.memory 0).content = ⟨0, 2⟩ := by
  have hrun : (processDinodeFileExtents (nrext64Env 0) 0 0 rootClaimed).okWith (fun _ => true) =
      true := by
    decide +kernel
  obtain ⟨_, s', hr, -⟩ := exists_of_okWith hrun
  have hagree : CountersAgree (nrext64Env 0) 0 := by
    rw [CountersAgree, if_pos (by decide +kernel)]
    exact .inl (by decide +kernel)
  have hcounted := (fileExtents_counted_iff (nrext64Env 0) (mprotectWithin_bounded _ _ _)
    0 0 rootClaimed s' rootClaimed_ok Nat.zero_lt_one hr).2 hagree
  exact ⟨s', hr, hcounted.content.trans (by decide +kernel)⟩

/-- One extent in the attribute fork: one is stored. -/
theorem fileExtents_counted_attr : ∃ s', processDinodeFileExtents (nrext64Env 1) 0 0 rootClaimed =
    .ok () s' ∧ diNrext64 (nrext64Env 1) 0 = true ∧ dataNextents (nrext64Env 1) 0 = 2 ∧
    (s'.inodes.memory 0).content.count = 1 ∧ ¬FileCounted (nrext64Env 1) 0 0 rootClaimed s' := by
  have hrun : (processDinodeFileExtents (nrext64Env 1) 0 0 rootClaimed).okWith
      (fun s' => (s'.inodes.memory 0).content.count == 1) = true := by decide +kernel
  obtain ⟨_, s', hr, hcount⟩ := exists_of_okWith hrun
  rw [beq_iff_eq] at hcount
  have hdata : dataNextents (nrext64Env 1) 0 = 2 := by decide +kernel
  refine ⟨s', hr, by decide +kernel, hdata, hcount, fun h => ?_⟩
  rw [h.content, hdata] at hcount
  cases hcount

end Xallib
