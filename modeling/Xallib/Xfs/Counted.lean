import Xallib.Lib.Ghost
import Xallib.Xfs.ShortForm

/-!
# `process_ino`, with its calls counted

The functions that call `process_ino`, run on a state that has a counter beside the store;
`processInoCounted` counts itself when it is entered. What a directory does before the loop over its
entries makes no calls, and is kept together (`dirRootListing`, `dirExtentsListing`,
`localListing`).
-/

namespace Xallib

open Lib Lib.Cm Lib.Buf

/-- The store, and how often `process_ino` has been called. -/
structure Tallied where
  store : Store Buf
  calls : Nat

abbrev Xc (α : Type) := Cm Err Tallied α

/-- A part of the indexing that does not call `process_ino`. -/
def uncalled {α : Type} (x : Xm α) : Xc α := zoom Tallied.store (fun c s => { c with store := s }) x

section
variable (E : XfsEnv)

/-- `process_dinode_dir_extents` up to the loop over the children. -/
def dirExtentsListing (dinode self : Nat) : Xm Bool := do
  assert (E.sb.blocksize ≠ 0)
  let s ← read
  setInode self fun v => { v with content := { v.content with idx := s.inodes.free % 2 ^ 32 } }
  dirExtentsLoop E dinode self (diNextents E dinode) 0 (signed64 (diSize E dinode))

/-- `process_dinode_dir_btree_root` up to the loop over the children. -/
def dirRootListing (dinode self : Nat) : Xm Unit := do
  assert (dfork dinode + 2 ≤ dinodesRoom E.sb)
  failIf ((dirBtreePos E dinode).level < 1) ⟨.level, -EINVAL⟩
  let fsbnos := dinode + (btreeDinodeMeta E.sb (diForkoff E dinode)).2
  let v ← inodeAt self
  failIf (v.content.count ≠ 0) ⟨.dentries, -EINVAL⟩
  let s ← read
  setInode self fun v => { v with content := { v.content with idx := s.inodes.free % 2 ^ 32 } }
  forUp (fun _ i => i < (dirBtreePos E dinode).numrecs)
    (fun i => do
      assert (fsbnos + 8 * i + 8 ≤ dinodesRoom E.sb)
      btreeLblockProcess E (be64 E.dinodes (fsbnos + 8 * i)) self) (dirBtreePos E dinode).numrecs 0

/-- A round of `processChildren`. -/
def childCall (procIno : Nat → Nat → Xc Unit) (self i : Nat) : Xc Unit := do
  let v ← uncalled (inodeAt self)
  let inode ← uncalled (inodeAt (v.content.idx + i))
  procIno inode.ino (v.content.idx + i)

/-- A round of the second loop of `process_dinode_dir_local`. -/
def localChildCall (procIno : Nat → Nat → Xc Unit) (self i : Nat) : Xc Unit := do
  let v ← uncalled (inodeAt self)
  uncalled (setInode (v.content.idx + i) fun dentry => { dentry with parentIdx := self })
  let dentry ← uncalled (inodeAt (v.content.idx + i))
  procIno dentry.ino (v.content.idx + i)

def processChildrenCounted (procIno : Nat → Nat → Xc Unit) (self : Nat) : Xc Unit :=
  forUp (fun c i => i < (c.store.inodes.memory self).content.count)
    (childCall procIno self) (2 ^ 32) 0

def processDinodeDirExtentsCounted (procIno : Nat → Nat → Xc Unit) (dinode self : Nat) :
    Xc Unit := do
  let ran ← uncalled (dirExtentsListing E dinode self)
  let v ← uncalled (inodeAt self)
  processChildrenCounted procIno self
  uncalled (failIf (ran = false ∧ v.content.count = 0 ∧ E.uninit self ≠ 0)
    ⟨.dentries, E.uninit self⟩)

def processDinodeDirBtreeRootCounted (procIno : Nat → Nat → Xc Unit) (dinode self : Nat) :
    Xc Unit := do
  uncalled (dirRootListing E dinode self)
  processChildrenCounted procIno self

def processDinodeDirLocalCounted (procIno : Nat → Nat → Xc Unit) (dinode self : Nat) : Xc Unit := do
  uncalled (localListing E dinode self)
  forUp (fun _ i => i < (E.dinodes (dfork dinode)).toNat) (localChildCall procIno self)
    (E.dinodes (dfork dinode)).toNat 0

def processFormatCounted (procIno : Nat → Nat → Xc Unit) (fuel dinode self : Nat) : Xc Unit := do
  let v ← uncalled (inodeAt self)
  if diFormat E dinode = fmtBtree then
    if v.ftype = ftDir then do
      let s ← uncalled read
      uncalled (setInode self fun v =>
        { v with content := { v.content with idx := s.inodes.free % 2 ^ 32 } })
      processDinodeDirBtreeRootCounted E procIno dinode self
    else if v.ftype = ftRegFile then uncalled (processDinodeFileBtreeRoot E fuel dinode self)
    else uncalled (fail ⟨.format, -ENOSYS⟩)
  else if diFormat E dinode = fmtExtents then
    if v.ftype = ftDir then processDinodeDirExtentsCounted E procIno dinode self
    else if v.ftype = ftRegFile then uncalled (processDinodeFileExtents E dinode self)
    else uncalled (fail ⟨.format, -ENOSYS⟩)
  else if diFormat E dinode = fmtLocal then
    if v.ftype = ftDir then processDinodeDirLocalCounted E procIno dinode self
    else uncalled (fail ⟨.format, -ENOSYS⟩)
  else if diFormat E dinode = fmtDev ∨ diFormat E dinode = fmtUuid then
    uncalled (fail ⟨.format, -ENOSYS⟩)
  else uncalled (pure ())

/-- `process_ino`; `fuel` bounds the depth. -/
def processInoCounted : Nat → Nat → Nat → Xc Unit
  | 0, _, _ => fun _ => .spin
  | fuel + 1, ino, self => do
    modify fun c => { c with calls := c.calls + 1 }
    let dinode ← uncalled (dinodesGet E ino)
    uncalled (assert (dinode + 160 ≤ dinodesRoom E.sb))
    uncalled (deriveFtype (diMode E dinode) self)
    uncalled (setInode self fun v => { v with size := diSize E dinode, ino := diIno E dinode })
    processFormatCounted E (processInoCounted fuel) fuel dinode self

/-! ## The count changes nothing -/

variable {E} {dinode self : Nat}

theorem erases_uncalled {α : Type} (x : Xm α) : Erases Tallied.store (uncalled x) x :=
  erases_zoom (fun _ _ => rfl) x

theorem processDinodeDirBtreeRoot_bind (procIno : Nat → Nat → Xm Unit) (s : Store Buf) :
    processDinodeDirBtreeRoot E procIno dinode self s =
      (dirRootListing E dinode self >>= fun _ => processChildren procIno self) s := by
  unfold processDinodeDirBtreeRoot dirRootListing
  rw [bind_assoc_apply]
  refine bind_congr_apply s fun _ s₁ => ?_
  rw [bind_assoc_apply]
  refine bind_congr_apply s₁ fun _ s₂ => ?_
  rw [bind_assoc_apply]
  refine bind_congr_apply s₂ fun v s₃ => ?_
  rw [bind_assoc_apply]
  refine bind_congr_apply s₃ fun _ s₄ => ?_
  rw [bind_assoc_apply]
  refine bind_congr_apply s₄ fun t s₅ => ?_
  rw [bind_assoc_apply]
  rfl

/-- Where it succeeds, the root is read inside `be->dinodes`. -/
theorem dirRootListing_ok {s s' : Store Buf} {u : Unit}
    (h : dirRootListing E dinode self s = .ok u s') :
    DirRootInside E dinode ∧ dirBtreeListing E dinode self s = .ok u s' := by
  unfold dirRootListing at h
  obtain ⟨hroot, h⟩ := assert_bind_ok.1 h
  obtain ⟨hlevel, h⟩ := failIf_bind_ok.1 h
  rw [inodeAt_bind] at h
  obtain ⟨hcount, h⟩ := failIf_bind_ok.1 h
  rw [read_bind, setInode_bind] at h
  have hin := fsbnosInside_of_ok (fun fsbno => btreeLblockProcess E fsbno self) h
  refine ⟨⟨hroot, hin⟩, ?_⟩
  unfold dirBtreeListing
  rw [bind_of_ok (failIf_false hlevel _ _), inodeAt_bind, bind_of_ok (failIf_false hcount _ _),
    read_bind, setInode_bind]
  exact (forUp_fsbnos (fun fsbno => btreeLblockProcess E fsbno self) hin _).symm.trans h

theorem processDinodeDirExtents_eq (procIno : Nat → Nat → Xm Unit) (s : Store Buf) :
    processDinodeDirExtents E procIno dinode self s = (do
      let ran ← dirExtentsListing E dinode self
      let v ← inodeAt self
      processChildren procIno self
      failIf (ran = false ∧ v.content.count = 0 ∧ E.uninit self ≠ 0) ⟨.dentries, E.uninit self⟩)
        s := by
  unfold processDinodeDirExtents dirExtentsListing
  rw [bind_assoc_apply]
  refine bind_congr_apply s fun _ s₁ => ?_
  rw [bind_assoc_apply]
  refine bind_congr_apply s₁ fun _ s₂ => ?_
  rw [bind_assoc_apply]

section
variable {procIno : Nat → Nat → Xc Unit} {procIno' : Nat → Nat → Xm Unit}
  (h : ∀ ino d, Erases Tallied.store (procIno ino d) (procIno' ino d))
include h

theorem childCall_erases (i : Nat) : Erases Tallied.store (childCall procIno self i) (do
    let v ← inodeAt self
    let inode ← inodeAt (v.content.idx + i)
    procIno' inode.ino (v.content.idx + i)) := by
  refine (erases_uncalled _).bind fun v => ?_
  exact (erases_uncalled _).bind fun inode => h _ _

theorem localChildCall_erases (i : Nat) : Erases Tallied.store (localChildCall procIno self i) (do
    let v ← inodeAt self
    setInode (v.content.idx + i) fun dentry => { dentry with parentIdx := self }
    let dentry ← inodeAt (v.content.idx + i)
    procIno' dentry.ino (v.content.idx + i)) := by
  refine (erases_uncalled _).bind fun v => (erases_uncalled _).bind fun _ => ?_
  exact (erases_uncalled _).bind fun dentry => h _ _

theorem processChildrenCounted_erases :
    Erases Tallied.store (processChildrenCounted procIno self) (processChildren procIno' self) :=
  erases_forUp (childCall_erases h) (fun _ _ => by rfl) _ _

theorem processFormatCounted_erases (fuel : Nat) :
    Erases Tallied.store (processFormatCounted E procIno fuel dinode self)
      (processFormat E procIno' fuel dinode self) := by
  refine (erases_uncalled _).bind fun v => ?_
  refine erases_ite (erases_ite ?_ (erases_ite (erases_uncalled _) (erases_uncalled _)))
    (erases_ite (erases_ite ?_ (erases_ite (erases_uncalled _) (erases_uncalled _)))
      (erases_ite (erases_ite ?_ (erases_uncalled _))
        (erases_ite (erases_uncalled _) (erases_uncalled _))))
  · refine (erases_uncalled _).bind fun s => (erases_uncalled _).bind fun _ c => ?_
    rw [processDinodeDirBtreeRoot_bind]
    exact (erases_uncalled _).bind (fun _ => processChildrenCounted_erases h) c
  · intro c
    rw [processDinodeDirExtents_eq]
    refine Erases.bind (erases_uncalled _) (fun ran => ?_) c
    refine (erases_uncalled _).bind fun v => ?_
    exact (processChildrenCounted_erases h).bind fun _ => erases_uncalled _
  · intro c
    rw [processDinodeDirLocal_eq]
    refine Erases.bind (erases_uncalled _) (fun _ => ?_) c
    exact erases_forUp (localChildCall_erases h) (fun _ _ => by rfl) _ _

end

/-- `processInoCounted` does what `processIno` does. -/
theorem processInoCounted_erases (fuel : Nat) : ∀ ino self : Nat,
    Erases Tallied.store (processInoCounted E fuel ino self) (processIno E fuel ino self) := by
  induction fuel with
  | zero => exact fun _ _ _ => rfl
  | succ fuel ih =>
    intro ino self
    refine erases_modify_bind (fun _ => rfl) ?_
    refine (erases_uncalled _).bind fun dinode => (erases_uncalled _).bind fun _ => ?_
    refine (erases_uncalled _).bind fun _ => (erases_uncalled _).bind fun _ => ?_
    exact processFormatCounted_erases ih fuel

end

end Xallib
