import Xallib.Xfs.Checked
import Xallib.Xfs.Proof.Btree
import Xallib.Xfs.Proof.DirBtree

/-!
# The root of a B+tree in its inode

`btree_dinode_meta` tells from `di_forkoff` how many records the data fork of an inode has room for,
and where the pointers are. Where there is no attribute fork, `di_forkoff` is 0: the data fork is
all that follows the dinode, and the function takes it to have no bytes.

`process_dinode_dir_btree_root` takes the level of the root for the number of its records.

`rootFits_iff`: the root is in its inode, and the pointers are read where they are stored, whatever
the device holds, exactly if there is an attribute fork and the level is no larger than the number
of records that there is room for.
-/

namespace Xallib

open Lib Lib.Cm Lib.Run Lib.Buf

/-- The offset of the keys that `btree_dinode_meta` computes. -/
def btreeDinodeKeys : Nat := dinodeNbytes + 2 + 2

/-- What `btree_dinode_meta` computes for the inode: the most records, and the offset of the
pointers. -/
def rootMeta (E : XfsEnv) (dinode : Nat) : Nat × Nat := btreeDinodeMeta E.sb (diForkoff E dinode)

/-- The array of 8-byte entries for all records, from `ofz` on, is in the data fork. -/
def InDataFork (E : XfsEnv) (dinode ofz : Nat) : Prop :=
  dinodeNbytes ≤ ofz ∧ ofz + 8 * (rootMeta E dinode).1 ≤ dinodeNbytes + dataForkNbytes E dinode

/-- The same inode, on a device with blocks of another size. -/
def XfsEnv.onDev (E : XfsEnv) (dev : XnvmeDev) (blocksize : Nat) : XfsEnv :=
  { E with dev, sb := { E.sb with blocksize } }

/-- The records are counted without wrap-around, keys and pointers are disjoint and in the data
fork, and a root with no more records than that is read inside of the inode, by files and by
directories, whatever the blocks hold. -/
structure RootFits (E : XfsEnv) (dinode : Nat) : Prop where
  maxrecs : ((rootMeta E dinode).1 : Int) = ((dataForkNbytes E dinode : Int) - 4) / 16
  keys : InDataFork E dinode btreeDinodeKeys
  pointers : InDataFork E dinode (rootMeta E dinode).2
  disjoint : btreeDinodeKeys + 8 * (rootMeta E dinode).1 ≤ (rootMeta E dinode).2 ∨
    (rootMeta E dinode).2 + 8 * (rootMeta E dinode).1 ≤ btreeDinodeKeys
  file : (fileBtreePos E dinode).numrecs ≤ (rootMeta E dinode).1 →
    ∀ dev blocksize fuel self s,
      processDinodeFileBtreeRootChecked (E.onDev dev blocksize) dinode fuel self s =
        (processDinodeFileBtreeRoot (E.onDev dev blocksize) fuel dinode self s).checked
  dir : (fileBtreePos E dinode).numrecs ≤ (rootMeta E dinode).1 →
    ∀ dev blocksize procIno self s,
      processDinodeDirBtreeRootChecked (E.onDev dev blocksize) dinode procIno self s =
        (processDinodeDirBtreeRoot (E.onDev dev blocksize) procIno dinode self s).checked

section
variable {E : XfsEnv} {dinode : Nat}

/-- With an attribute fork, what is computed is right. -/
theorem rootMeta_attr (hfork : diForkoff E dinode ≠ 0)
    (hroom : dinodeNbytes + 8 * diForkoff E dinode ≤ E.sb.inodesize)
    (hsize : E.sb.inodesize < 2 ^ 16) :
    dataForkNbytes E dinode = 8 * diForkoff E dinode ∧
      rootMeta E dinode = ((8 * diForkoff E dinode - 4) / 16, rootPointerOfz E dinode 0) := by
  have hdata : dataForkNbytes E dinode = 8 * diForkoff E dinode := if_neg hfork
  refine ⟨hdata, ?_⟩
  simp only [rootMeta, btreeDinodeMeta, rootPointerOfz, hdata, usub, dinodeNbytes] at hroom ⊢
  rw [Prod.mk.injEq]
  omega

/-- Without one, the number of records wraps around. -/
theorem rootMeta_plain (hfork : diForkoff E dinode = 0) (hroom : dinodeNbytes ≤ E.sb.inodesize)
    (hsize : E.sb.inodesize < 2 ^ 16) : (rootMeta E dinode).1 = 2 ^ 60 - 1 := by
  simp only [rootMeta, btreeDinodeMeta, hfork, usub, dinodeNbytes] at hroom ⊢
  omega

/-- With an attribute fork, the access to a pointer of the root is inside if there is room for as
many. -/
theorem rootAccess_iff {i : Nat} (hfork : diForkoff E dinode ≠ 0)
    (hroom : dinodeNbytes + 8 * diForkoff E dinode ≤ E.sb.inodesize)
    (hsize : E.sb.inodesize < 2 ^ 16) :
    ((btreeDinodeMeta E.sb (diForkoff E dinode)).2 + 8 * i = rootPointerOfz E dinode i ∧
      i < (dataForkNbytes E dinode - 4) / 16 ∧
        (btreeDinodeMeta E.sb (diForkoff E dinode)).2 + 8 * i + 8 ≤ E.sb.inodesize) ↔
    i < (rootMeta E dinode).1 := by
  obtain ⟨hdata, hmeta⟩ := rootMeta_attr hfork hroom hsize
  rw [show btreeDinodeMeta E.sb (diForkoff E dinode) = _ from hmeta, hmeta]
  simp only [rootPointerOfz, hdata, dinodeNbytes] at hroom ⊢
  omega

end

/-! ## A device of empty leaves -/

/-- Every block is a leaf without records; blocks have 512 bytes. -/
def emptyLeafDev : XnvmeDev :=
  ⟨bufNbytes, 1, fun _ _ => some (ofList 0 [0x42, 0x4d, 0x41, 0x33]), fun _ => 0⟩

section
variable {E : XfsEnv} (hdev : E.dev = emptyLeafDev) (hblock : E.sb.blocksize = 512)
include hdev hblock

/-- Every pointer is passed there. -/
theorem btreeLblockProcess_empty (fsbno self : Nat) (s : Store Buf) :
    ∃ t, btreeLblockProcess E fsbno self s = .ok () t := by
  obtain ⟨block, hread, hbytes⟩ : ∃ block, blockRead E.dev E.sb.blocksize
      (xalFsbnoOffset .xfs E.sb fsbno) = some block ∧
        ∀ i < 8, block i = ofList 0 [0x42, 0x4d, 0x41, 0x33] i := by
    rw [hdev, hblock]
    refine ⟨_, if_pos ⟨by decide, by decide, Nat.mod_one _, by decide, by decide⟩, fun i hi => ?_⟩
    show (if i < 512 then if i < (nlbOf emptyLeafDev 512 + 1) * emptyLeafDev.lbaNbytes then
      ofList 0 [0x42, 0x4d, 0x41, 0x33] i else 0 else _) = _
    rw [if_pos (by omega), if_pos (Nat.lt_of_lt_of_le hi (by decide))]
  obtain ⟨b, hread⟩ := devReadInto_of_block hread s.be
  have hread : onBe (devReadInto E.dev E.sb.blocksize (xalFsbnoOffset .xfs E.sb fsbno)) s =
      .ok block { s with be := b } := zoom_of_ok hread
  have hmagic : be32 block 0 = bmapCrcMagic := by
    rw [be32_congr fun i _ h2 => hbytes i (by omega)]
    decide
  have hlevel : blockLevel block = 0 := by
    rw [blockLevel, be16_congr fun i _ h2 => hbytes i (by omega)]
    decide
  have hnum : blockNumrecs block = 0 := by
    rw [blockNumrecs, be16_congr fun i _ h2 => hbytes i (by omega)]
    decide
  unfold btreeLblockProcess btreeLblockDecodeLeafRecords
  rw [bind_of_ok hread, if_pos hlevel, bind_of_ok (assert_true (by omega) _),
    bind_of_ok (failIf_false (not_not.2 hmagic) _ _),
    bind_of_ok (failIf_false (not_not.2 hlevel) _ _), hnum]
  exact ⟨_, rfl⟩

/-- There a directory gets to the first pointer that there is no room for. -/
theorem dirRoot_outside {dinode : Nat} (hfork : diForkoff E dinode ≠ 0)
    (hroom : dinodeNbytes + 8 * diForkoff E dinode ≤ E.sb.inodesize)
    (hsize : E.sb.inodesize < 2 ^ 16) (hin : dinode + E.sb.inodesize ≤ dinodesRoom E.sb)
    (hlevel : (rootMeta E dinode).1 < (fileBtreePos E dinode).level)
    (procIno : Nat → Nat → Xm Unit) :
    (processDinodeDirBtreeRootChecked E dinode procIno 0 rootClaimed).Outside := by
  have haccess := fun i => rootAccess_iff (i := i) hfork hroom hsize
  have hlevel : (rootMeta E dinode).1 < be16 E.dinodes (dfork dinode) := hlevel
  have hhead : dfork dinode + 2 ≤ dinodesRoom E.sb := by
    simp only [dfork, dinodeNbytes] at hroom ⊢
    omega
  have hsome : unchecked (failIf (be16 E.dinodes (dfork dinode) < 1)
      (⟨.level, -EINVAL⟩ : Err)) rootClaimed = .ok () rootClaimed := by
    rw [unchecked, failIf_false (by omega)]
    rfl
  have hcount : ¬(rootClaimed.inodes.memory 0).content.count ≠ 0 := not_not.2 rfl
  have hempty : unchecked (failIf ((rootClaimed.inodes.memory 0).content.count ≠ 0)
      (⟨.dentries, -EINVAL⟩ : Err)) rootClaimed = .ok () rootClaimed := by
    rw [unchecked, failIf_false hcount]
    rfl
  have hinode : unchecked (inodeAt 0) rootClaimed = .ok (rootClaimed.inodes.memory 0) rootClaimed :=
    rfl
  have hset : ∀ f, unchecked (setInode 0 f) rootClaimed =
      .ok () (rootClaimed.putInode 0 (f (rootClaimed.inodes.memory 0))) := fun _ => rfl
  unfold processDinodeDirBtreeRootChecked
  rw [bind_of_ok (assert_true hhead _), bind_of_ok hsome, bind_of_ok hinode, bind_of_ok hempty,
    read_bind, bind_of_ok (hset _)]
  refine outside_bind (outside_forUp (m := (rootMeta E dinode).1) (fun i hi s => ?_) (fun s => ?_)
    hlevel _ 0 _ (Nat.zero_le _) (by omega))
  · have hi := (haccess i).2 hi
    obtain ⟨t, ht⟩ := btreeLblockProcess_empty hdev hblock (be64 E.dinodes
      (dinode + (btreeDinodeMeta E.sb (diForkoff E dinode)).2 + 8 * i)) 0 s
    have hpass : rootAccess E dinode i s = .ok () s := failIf_false (not_not.2 hi) none s
    have hi := hi.2.2
    refine ⟨t, ?_⟩
    rw [bind_of_ok hpass, bind_of_ok (assert_true (by omega) _)]
    exact checked_ok.2 ht
  · exact outside_inside_bind (fun h => Nat.lt_irrefl _ ((haccess _).1 h)) s

end

/-- The root is in its inode exactly if the inode has an attribute fork, and there is room for as
many records as the root has levels. -/
theorem rootFits_iff (E : XfsEnv) (dinode : Nat)
    (hroom : dinodeNbytes + 8 * diForkoff E dinode ≤ E.sb.inodesize)
    (hsize : E.sb.inodesize < 2 ^ 16) (hin : dinode + E.sb.inodesize ≤ dinodesRoom E.sb) :
    RootFits E dinode ↔ diForkoff E dinode ≠ 0 ∧
      ((fileBtreePos E dinode).numrecs ≤ (rootMeta E dinode).1 →
        (fileBtreePos E dinode).level ≤ (rootMeta E dinode).1) := by
  constructor
  · intro h
    have hfork : diForkoff E dinode ≠ 0 := by
      intro hfork
      have hmax := h.maxrecs
      rw [rootMeta_plain hfork (by omega) hsize, dataForkNbytes, if_pos hfork] at hmax
      omega
    refine ⟨hfork, fun hn => Nat.not_lt.1 fun hlevel => ?_⟩
    have hout := dirRoot_outside (E := E.onDev emptyLeafDev 512) rfl rfl hfork hroom hsize hin
      hlevel fun _ _ => pure ()
    exact (processDinodeDirBtreeRootChecked_guards _ _ _ _).eq_iff.1
      (h.dir hn emptyLeafDev 512 (fun _ _ => pure ()) 0 rootClaimed) hout
  · rintro ⟨hfork, hlevel⟩
    obtain ⟨hdata, hmeta⟩ := rootMeta_attr hfork hroom hsize
    have haccess := fun i => rootAccess_iff (i := i) hfork hroom hsize
    have hmax : (rootMeta E dinode).1 = (8 * diForkoff E dinode - 4) / 16 := by rw [hmeta]
    have hptr : (rootMeta E dinode).2 = rootPointerOfz E dinode 0 := by rw [hmeta]
    rw [rootPointerOfz, hdata, dinodeNbytes] at hptr
    constructor
    case maxrecs =>
      rw [hmax, hdata]
      omega
    case keys =>
      rw [InDataFork, hmax, hdata, btreeDinodeKeys, dinodeNbytes]
      omega
    case pointers =>
      rw [InDataFork, hmax, hdata, hptr, dinodeNbytes]
      omega
    case disjoint =>
      rw [hmax, hptr, btreeDinodeKeys, dinodeNbytes]
      omega
    case file =>
      intro hn dev blocksize fuel self s
      rw [(processDinodeFileBtreeRootChecked_guards _ dinode fuel self).eq_iff]
      apply Inside.not_outside
      refine sat_assert_bind fun _ => inside_unchecked_bind fun _ s₁ =>
        inside_unchecked_bind fun v s₂ => inside_unchecked_bind fun _ s₃ => ?_
      rw [read_bind]
      refine inside_unchecked_bind fun _ s₄ => inside_forUp (fun i hi s₅ => ?_) _ _ s₄
      refine inside_bind ((haccess i).2 (Nat.lt_of_lt_of_le hi hn)) ?_
      exact sat_assert_bind fun _ => inside_unchecked _ s₅
    case dir =>
      intro hn dev blocksize procIno self s
      rw [(processDinodeDirBtreeRootChecked_guards _ dinode procIno self).eq_iff]
      apply Inside.not_outside
      refine sat_assert_bind fun _ => inside_unchecked_bind fun _ s₁ =>
        inside_unchecked_bind fun v s₂ => inside_unchecked_bind fun _ s₃ => ?_
      rw [read_bind]
      refine inside_unchecked_bind fun _ s₄ => ?_
      refine Sat.bind (inside_forUp (fun i hi s₅ => ?_) _ _ s₄) fun _ s₆ _ => inside_unchecked _ s₆
      refine inside_bind ((haccess i).2 (Nat.lt_of_lt_of_le hi (hlevel hn))) ?_
      exact sat_assert_bind fun _ => inside_unchecked _ s₅

/-! ## Inodes that the root is not in -/

/-- An inode of `inodesize` bytes with a root of one record. -/
def rootInode (inodesize : Nat) (forkoff level : UInt8) : XfsEnv :=
  xfsTableEnv { (default : XalSb) with nallocated := 1, blocksize := 512, inodesize }
    (fun i => if i = 82 then forkoff else if i = 177 then level else if i = 179 then 1 else 0)
    fun _ => none

/-- Eleven records fit, and the root has two levels. -/
theorem rootFits_attr : RootFits (rootInode 512 24 2) 0 :=
  (rootFits_iff (rootInode 512 24 2) 0 (by decide) (by decide) (by decide)).2
    ⟨by decide, fun _ => by decide⟩

/-- Without an attribute fork, all of the inode is data fork, and the pointer is not read in it;
with one and room for four records, a directory with six levels reads six. -/
theorem rootFits_not_plain :
    ¬RootFits (rootInode 512 0 1) 0 ∧ ¬RootFits (rootInode 256 10 6) 0 := by
  constructor
  · intro h
    have hmax : (rootMeta (rootInode 512 0 1) 0).1 = 2 ^ 60 - 1 := by decide
    have hout :
        (processDinodeFileBtreeRootChecked (rootInode 512 0 1) 0 0 0 rootClaimed).Outside := by
      decide +kernel
    refine (processDinodeFileBtreeRootChecked_guards (rootInode 512 0 1) 0 0 0).eq_iff.1
      (h.file ?_ (rootInode 512 0 1).dev 512 0 0 _) hout
    rw [hmax]
    decide +kernel
  · intro h
    have hout : (processDinodeDirBtreeRootChecked ((rootInode 256 10 6).onDev emptyLeafDev 512) 0
        (fun _ _ => pure ()) 0 rootClaimed).Outside := by decide +kernel
    exact (processDinodeDirBtreeRootChecked_guards _ 0 _ 0).eq_iff.1
      (h.dir (by decide) emptyLeafDev 512 _ 0 _) hout

end Xallib
