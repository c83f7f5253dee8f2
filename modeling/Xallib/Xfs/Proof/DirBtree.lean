import Xallib.E2E.Machine
import Xallib.Lib.Loop
import Xallib.Xfs.Proof.Entries

/-!
# B+tree directories

`process_dinode_dir_btree_root` and `process_dinode_file_btree_root` decode the same root: its level
and its number of records (`BtreePos`), and behind them the pointers. The directory's one takes the
number of records from the field of the level (`dirBtreePos`).

`dirBtreeRoot_complete`: it lists what all leaves yield, in their order, exactly where the root has
one record.
-/

namespace Xallib

open Lib Lib.Cm Lib.Run Lib.Buf

section
variable (E : XfsEnv) (dinode self : Nat)

/-- `process_dinode_dir_btree_root` up to the loop over the children, where the root is read inside
`be->dinodes`. -/
def dirBtreeListing : Xm Unit := do
  failIf ((dirBtreePos E dinode).level < 1) ⟨.level, -EINVAL⟩
  let v ← inodeAt self
  failIf (v.content.count ≠ 0) ⟨.dentries, -EINVAL⟩
  let s ← read
  setInode self fun v => { v with content := { v.content with idx := s.inodes.free % 2 ^ 32 } }
  (dirFsbnos E dinode).forM fun fsbno => btreeLblockProcess E fsbno self

/-- `process_dinode_file_btree_root`, with what it decodes named, where the root is read inside
`be->dinodes`. -/
def fileBtreeFiling (fuel : Nat) : Xm Unit := do
  failIf ((fileBtreePos E dinode).level < 1) ⟨.level, -EINVAL⟩
  let v ← inodeAt self
  failIf (v.content.count ≠ 0) ⟨.dentries, -EINVAL⟩
  let s ← read
  setInode self fun v => { v with content := { v.content with idx := s.extents.free % 2 ^ 32 } }
  (fileFsbnos E dinode).forM fun fsbno =>
    if (fileBtreePos E dinode).level = 1 then processFileBtreeLeaf E fsbno self
    else processFileBtreeNode E self fuel fsbno

end

variable {E : XfsEnv} {dinode self : Nat} {s s' : Store Buf} {u : Unit}

/-- The loop over the pointers of the root. -/
theorem forUp_fsbnos (body : Nat → Xm Unit) {n : Nat} (h : FsbnosInside E dinode n)
    (s : Store Buf) :
    forUp (fun _ i => decide (i < n)) (fun i => do
        assert (dinode + (btreeDinodeMeta E.sb (diForkoff E dinode)).2 + 8 * i + 8 ≤
          dinodesRoom E.sb)
        body (be64 E.dinodes
          (dinode + (btreeDinodeMeta E.sb (diForkoff E dinode)).2 + 8 * i))) n 0 s =
      (btreeFsbnos E dinode n).forM body s := by
  rw [forUp_range, btreeFsbnos, ← forM_map]
  refine forM_congr (fun i hi s => ?_) s
  exact bind_of_ok (assert_true (h i (List.mem_range.1 hi)) s)

theorem fsbnosInside_of_ok (body : Nat → Xm Unit) {n : Nat}
    (h : forUp (fun _ i => decide (i < n)) (fun i => do
        assert (dinode + (btreeDinodeMeta E.sb (diForkoff E dinode)).2 + 8 * i + 8 ≤
          dinodesRoom E.sb)
        body (be64 E.dinodes
          (dinode + (btreeDinodeMeta E.sb (diForkoff E dinode)).2 + 8 * i))) n 0 s = .ok u s') :
    FsbnosInside E dinode n := by
  intro i hi
  obtain ⟨_, _, _, hround⟩ := forUp_ok_round h i (Nat.zero_le i) hi
  exact (assert_bind_ok.1 hround).1

theorem processDinodeDirBtreeRoot_eq (h : DirRootInside E dinode) (procIno : Nat → Nat → Xm Unit)
    (s : Store Buf) :
    processDinodeDirBtreeRoot E procIno dinode self s =
      (dirBtreeListing E dinode self >>= fun _ => processChildren procIno self) s := by
  unfold dirBtreeListing processDinodeDirBtreeRoot
  rw [bind_of_ok (assert_true h.1 s), bind_assoc_apply]
  refine bind_congr_apply s fun _ s₁ => ?_
  rw [bind_assoc_apply]
  refine bind_congr_apply s₁ fun v s₂ => ?_
  rw [bind_assoc_apply]
  refine bind_congr_apply s₂ fun _ s₃ => ?_
  rw [bind_assoc_apply]
  refine bind_congr_apply s₃ fun t s₄ => ?_
  rw [bind_assoc_apply]
  refine bind_congr_apply s₄ fun _ s₅ => ?_
  exact bind_congr_left (forUp_fsbnos (fun fsbno => btreeLblockProcess E fsbno self) h.2 s₅)

theorem dirRootInside_of_ok {procIno : Nat → Nat → Xm Unit}
    (h : processDinodeDirBtreeRoot E procIno dinode self s = .ok u s') :
    DirRootInside E dinode := by
  unfold processDinodeDirBtreeRoot at h
  obtain ⟨hroot, h⟩ := assert_bind_ok.1 h
  obtain ⟨-, h⟩ := failIf_bind_ok.1 h
  rw [inodeAt_bind] at h
  obtain ⟨-, h⟩ := failIf_bind_ok.1 h
  rw [read_bind, setInode_bind] at h
  obtain ⟨_, _, hloop, -⟩ := bind_ok.1 h
  exact ⟨hroot, fsbnosInside_of_ok (fun fsbno => btreeLblockProcess E fsbno self) hloop⟩

theorem processDinodeFileBtreeRoot_eq (h : FileRootInside E dinode) (fuel : Nat) (s : Store Buf) :
    processDinodeFileBtreeRoot E fuel dinode self s = fileBtreeFiling E dinode self fuel s := by
  unfold fileBtreeFiling processDinodeFileBtreeRoot
  rw [bind_of_ok (assert_true h.1 s)]
  refine bind_congr_apply s fun _ s₁ => ?_
  refine bind_congr_apply s₁ fun v s₂ => ?_
  refine bind_congr_apply s₂ fun _ s₃ => ?_
  refine bind_congr_apply s₃ fun t s₄ => ?_
  refine bind_congr_apply s₄ fun _ s₅ => ?_
  exact forUp_fsbnos (fun fsbno => if (fileBtreePos E dinode).level = 1 then
    processFileBtreeLeaf E fsbno self else processFileBtreeNode E self fuel fsbno) h.2 s₅

theorem fileRootInside_of_ok {fuel : Nat}
    (h : processDinodeFileBtreeRoot E fuel dinode self s = .ok u s') :
    FileRootInside E dinode := by
  unfold processDinodeFileBtreeRoot at h
  obtain ⟨hroot, h⟩ := assert_bind_ok.1 h
  obtain ⟨-, h⟩ := failIf_bind_ok.1 h
  rw [inodeAt_bind] at h
  obtain ⟨-, h⟩ := failIf_bind_ok.1 h
  rw [read_bind, setInode_bind] at h
  exact ⟨hroot, fsbnosInside_of_ok (fun fsbno => if (fileBtreePos E dinode).level = 1 then
    processFileBtreeLeaf E fsbno self else processFileBtreeNode E self fuel fsbno) h⟩

/-- The listing begins, in whatever content the inode has, as long as it counts no children. -/
theorem listing_begin (hok : StoreOk s) (hself : self < s.inodes.free)
    (hcount : (s.inodes.memory self).content.count = 0) :
    Listing (Kid self) self s (s.putInode self { s.inodes.memory self with
      content := { (s.inodes.memory self).content with idx := s.inodes.free % 2 ^ 32 } }) := by
  refine ⟨⟨hok.putInode hself _, hself, Nat.le_refl _, fun i _ hne => putInode_other _ _ _ hne,
    Nat.le_refl _, fun _ _ => rfl⟩, ?_, fun i h1 h2 => ?_, rfl⟩
  · rw [putInode_same, putInode_free, Nat.mod_eq_of_lt hok.free_lt, Nat.sub_self]
    simp only [hcount]
  · exact absurd (Nat.lt_of_le_of_lt h1 h2) (Nat.lt_irrefl _)

/-- The children are what the blocks at the decoded pointers yield. -/
theorem dirBtreeListing_children (hI : E.mpInodes.Bounded poolReserved inodeNbytes)
    (hok : StoreOk s)
    (hself : self < s.inodes.free) (hr : dirBtreeListing E dinode self s = .ok u s') :
    Listing (Kid self) self s s' ∧
    ∃ lists, (dirFsbnos E dinode).mapM (fun p => (lblockYield E self p).list) = some lists ∧
      childrenOf s' self = lists.flatten := by
  unfold dirBtreeListing at hr
  obtain ⟨-, hr⟩ := failIf_bind_ok.1 hr
  rw [inodeAt_bind] at hr
  obtain ⟨hcount, hr⟩ := failIf_bind_ok.1 hr
  rw [read_bind, setInode_bind] at hr
  obtain ⟨lists, hlists, hl, hch⟩ := forM_appends (fun p => btreeLblockProcess_appends hI p) _
    (listing_begin hok hself (not_not.1 hcount)) hr
  refine ⟨hl, lists, hlists, ?_⟩
  rw [hch, childrenOf, putInode_same]
  simp [not_not.1 hcount]

/-- The directory's decoder agrees with the file's, and the children before the recursion are what
all leaves yield, in their order: exactly where the root has one record. -/
theorem dirBtreeRoot_complete (E : XfsEnv) (hI : E.mpInodes.Bounded poolReserved inodeNbytes)
    (procIno : Nat → Nat → Xm Unit) (dinode self : Nat) (s : Store Buf) (hok : StoreOk s)
    (hself : self < s.inodes.free) (hlevel : (fileBtreePos E dinode).level = 1) :
    (dirBtreePos E dinode = fileBtreePos E dinode ∧ dirFsbnos E dinode = fileFsbnos E dinode ∧
      ∀ u s', processDinodeDirBtreeRoot E procIno dinode self s = .ok u s' →
        ∃ s₁, dirBtreeListing E dinode self s = .ok () s₁ ∧
          processChildren procIno self s₁ = .ok u s' ∧
          ∃ lists, (fileFsbnos E dinode).mapM (fun p => (lblockYield E self p).list) = some lists ∧
            childrenOf s₁ self = lists.flatten) ↔
    (fileBtreePos E dinode).numrecs = 1 := by
  have hfield : be16 E.dinodes (dfork dinode) = 1 := hlevel
  constructor
  · rintro ⟨hpos, -, -⟩
    rw [← congrArg BtreePos.numrecs hpos]
    exact hfield
  · intro hnum
    have hpos : dirBtreePos E dinode = fileBtreePos E dinode :=
      BtreePos.mk.injEq _ _ _ _ ▸ ⟨rfl, hfield.trans hnum.symm⟩
    have hptr : dirFsbnos E dinode = fileFsbnos E dinode := by rw [dirFsbnos, hpos, fileFsbnos]
    refine ⟨hpos, hptr, fun u s' hr => ?_⟩
    rw [processDinodeDirBtreeRoot_eq (dirRootInside_of_ok hr)] at hr
    obtain ⟨_, s₁, hlist, hchildren⟩ := bind_ok.1 hr
    refine ⟨s₁, hlist, hchildren, ?_⟩
    rw [← hptr]
    exact (dirBtreeListing_children hI hok hself hlist).2

/-! ## Two leaves -/

/-- A directory with `n` leaves, the first two at the blocks 1 and 2. Each has one block of entries,
at 3 with the file `a` and at 4 with the file `b`; both are empty. -/
def twoLeaves (n : UInt8) : XfsEnv :=
  { xfsTableEnv { (default : XalSb) with
      nallocated := 2, blocksize := 512, dirblocksize := 512, inodesize := 512, agblocks := 8
      agblklog := 3 }
      (fun i => if i = 82 then 24 else if i = 177 then 1 else if i = 179 then n
        else if i = 275 then 1 else if i = 283 then 2 else if i = 517 then 2 else 0)
      (fun ino => if ino = 131 then some 512 else none) with
    dev := ⟨bufNbytes, 512, fun slba _ => some fun i =>
      if slba ≤ 2 then
        [0x42, 0x4d, 0x41, 0x33, 0, 0, 0, 1].getD i (if i = 85 then UInt8.ofNat (slba + 2) <<< 5
          else if i = 87 then 1 else 0)
      else if i < 64 then [0x58, 0x44, 0x44, 0x33].getD i 0
      else (DirItem.live (smallEntry (UInt8.ofNat (94 + slba)))).bytes.getD (i - 64) 0,
        fun _ => 0⟩ }

/-- With one leaf, its file is listed. -/
theorem dirBtreeRoot_complete_one :
    ∃ s₁ lists, dirBtreeListing (twoLeaves 1) 0 0 rootClaimed = .ok () s₁ ∧
      (fileFsbnos (twoLeaves 1) 0).mapM (fun p => (lblockYield (twoLeaves 1) 0 p).list) =
        some lists ∧
      childrenOf s₁ 0 = lists.flatten := by
  have hrun : (processDinodeDirBtreeRoot (twoLeaves 1) (processIno (twoLeaves 1) 2) 0 0
      rootClaimed).okWith (fun _ => true) = true := by decide +kernel
  obtain ⟨u, s', hr, -⟩ := exists_of_okWith hrun
  obtain ⟨-, -, h⟩ := (dirBtreeRoot_complete (twoLeaves 1) (mprotectWithin_bounded _ _ _)
    (processIno (twoLeaves 1) 2) 0 0 rootClaimed rootClaimed_ok Nat.zero_lt_one
    (by decide +kernel)).2 (by decide +kernel)
  obtain ⟨s₁, hlist, -, lists, hlists, hch⟩ := h u s' hr
  exact ⟨s₁, lists, hlist, hlists, hch⟩

/-- With two leaves, the file of the second one is lost. -/
theorem dirBtreeRoot_loses_leaf :
    (fileBtreePos (twoLeaves 2) 0).level = 1 ∧
      dirBtreePos (twoLeaves 2) 0 ≠ fileBtreePos (twoLeaves 2) 0 ∧
      (∃ s', processDinodeDirBtreeRoot (twoLeaves 2) (processIno (twoLeaves 2) 2) 0 0 rootClaimed =
        .ok () s') ∧
      ∃ s₁ lists, dirBtreeListing (twoLeaves 2) 0 0 rootClaimed = .ok () s₁ ∧
        (fileFsbnos (twoLeaves 2) 0).mapM (fun p => (lblockYield (twoLeaves 2) 0 p).list) =
          some lists ∧
        childrenOf s₁ 0 ≠ lists.flatten := by
  have hrun : (processDinodeDirBtreeRoot (twoLeaves 2) (processIno (twoLeaves 2) 2) 0 0
      rootClaimed).okWith (fun _ => true) = true := by decide +kernel
  have hlist : (dirBtreeListing (twoLeaves 2) 0 0 rootClaimed).okWith
      (fun s₁ => (childrenOf s₁ 0).length == 1) = true := by decide +kernel
  have hlists : ((fileFsbnos (twoLeaves 2) 0).mapM
      fun p => (lblockYield (twoLeaves 2) 0 p).list).map (·.flatten.length) = some 2 := by
    decide +kernel
  obtain ⟨_, s', hr, -⟩ := exists_of_okWith hrun
  obtain ⟨_, s₁, hr₁, hlen⟩ := exists_of_okWith hlist
  obtain ⟨lists, hl, hlen'⟩ := Option.map_eq_some_iff.1 hlists
  refine ⟨by decide +kernel, by decide +kernel, ⟨s', hr⟩, s₁, lists, hr₁, hl, fun he => ?_⟩
  rw [beq_iff_eq, he, hlen'] at hlen
  exact absurd hlen (by decide)

end Xallib
