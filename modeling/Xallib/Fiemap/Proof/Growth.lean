import Xallib.E2E.Machine
import Xallib.Lib.Keep

/-!
# By how much the pools grow

What a pool grows by is set when it is mapped. `FiemapStep.growth`: nothing that happens to a
`struct xal` of the FIEMAP backend changes it, whether it succeeds or fails.
-/

namespace Xallib

open Lib Lib.Cm Lib.Run

section
variable {α : Type} [Inhabited α] {mp : Mprotect} {g : Nat}

theorem grow_growth (n : Nat) : Keeps (fun p : XalPool α => p.growby = g) (xalPoolGrow mp n) := by
  unfold xalPoolGrow
  exact keeps_read.bind fun _ => (keeps_failIf _ _).bind fun _ => keeps_modify fun _ h => h

theorem claimRoom_growth (count : Nat) :
    Keeps (fun p : XalPool α => p.growby = g) (claimRoom mp count) := by
  unfold claimRoom
  exact keeps_read.bind fun _ => (keeps_failIf _ _).bind fun _ => (grow_growth _).ite (keeps_ret ())

theorem claimInodes_growth (count : Nat) :
    Keeps (fun p : XalPool α => p.growby = g) (xalPoolClaimInodes mp count) := by
  unfold xalPoolClaimInodes
  exact (claimRoom_growth count).bind fun _ => keeps_read.bind fun _ =>
    (keeps_failIf _ _).bind fun _ => Keeps.bind (keeps_modify fun _ h => h) fun _ => keeps_ret _

theorem claimExtents_growth (count : Nat) :
    Keeps (fun p : XalPool α => p.growby = g) (xalPoolClaimExtents mp count) := by
  unfold xalPoolClaimExtents
  exact (claimRoom_growth count).bind fun _ => keeps_read.bind fun _ =>
    Keeps.bind (keeps_modify fun _ h => h) fun _ => keeps_ret _

theorem clear_growth : Keeps (fun p : XalPool α => p.growby = g) (xalPoolClear mp) := by
  unfold xalPoolClear
  exact (keeps_failIf _ _).bind fun _ => keeps_modify fun _ h => h

end

/-- Both pools grow by `g`. -/
def GrowsBy (g : Nat) (s : Store FiemapBe) : Prop := s.inodes.growby = g ∧ s.extents.growby = g

variable {E : FiemapEnv} {g : Nat}

theorem onInodes_growth {β : Type} {x : Cm Err (XalPool XalInode) β}
    (h : Keeps (fun p => p.growby = g) x) : Keeps (GrowsBy g) (onInodes x : Fm β) :=
  h.zoom (fun _ hs => hs.1) fun _ _ hs ht => ⟨ht, hs.2⟩

theorem onExtents_growth {β : Type} {x : Cm Err (XalPool XalExtent) β}
    (h : Keeps (fun p => p.growby = g) x) : Keeps (GrowsBy g) (onExtents x : Fm β) :=
  h.zoom (fun _ hs => hs.2) fun _ _ hs ht => ⟨hs.1, ht⟩

theorem onBe_growth {f : FiemapBe → FiemapBe} : Keeps (GrowsBy g) (onBe (modify f) : Fm Unit) :=
  fun _ hs => hs

theorem inodeAt_growth (i : Nat) : Keeps (GrowsBy g) (inodeAt i : Fm XalInode) := fun _ hs => hs

theorem setInode_growth (i : Nat) (f : XalInode → XalInode) :
    Keeps (GrowsBy g) (setInode i f : Fm Unit) := fun _ hs => hs

theorem setExtent_growth (i : Nat) (v : XalExtent) :
    Keeps (GrowsBy g) (setExtent i v : Fm Unit) := fun _ hs => hs

theorem putPath_growth (inode : Nat) : Keeps (GrowsBy g) (putPath E inode) := by
  unfold putPath
  refine keeps_read.bind fun s => ?_
  cases s.be.pathInodeMap with
  | none => exact keeps_ret ()
  | some map => exact (keeps_failIf _ _).bind fun _ => onBe_growth

theorem watchDir_growth (path : CStr) (inode : Nat) :
    Keeps (GrowsBy g) (watchDir E path inode) := by
  unfold watchDir xalBeFiemapInotifyAddWatcher
  refine (keeps_ret ()).ite ((inodeAt_growth _).bind fun _ => (keeps_failIf _ _).bind fun _ =>
    (keeps_ret ()).ite ?_)
  cases E.kernel.addWatch path with
  | error errno => exact keeps_fail _
  | ok wd => exact (keeps_failIf _ _).bind fun _ => onBe_growth

theorem readFiemap_growth (path : CStr) : Keeps (GrowsBy g) (readFiemap E path) := by
  unfold readFiemap
  cases E.kernel.fiemapCount path with
  | error errno => exact keeps_fail _
  | ok mapped =>
    refine (keeps_assert _).bind fun _ => (keeps_failIf _ _).bind fun _ => ?_
    cases E.kernel.fiemapRead path mapped with
    | error errno => exact (keeps_assert _).bind fun _ => keeps_fail _
    | ok r => exact (keeps_assert _).bind fun _ => keeps_ret _

theorem storeExtents_growth (extents : Nat → FiemapExtent) (idx n : Nat) :
    ∀ i, Keeps (GrowsBy g) (storeExtents E extents idx n i) := by
  induction n with
  | zero => exact fun _ => keeps_ret ()
  | succ n ih => exact fun i => (setExtent_growth _ _).bind fun _ => ih (i + 1)

theorem storeReported_growth (inode mapped : Nat) (extents : Nat → FiemapExtent) :
    Keeps (GrowsBy g) (storeReported E inode mapped extents) := by
  unfold storeReported
  exact ((onExtents_growth (claimExtents_growth _)).bind fun _ =>
    (setInode_growth _ _).bind fun _ => (keeps_assert _).bind fun _ =>
    storeExtents_growth _ _ _ _).ite (keeps_ret ())

theorem processInodeFile_growth (path : CStr) (inode : Nat) :
    Keeps (GrowsBy g) (xalBeFiemapProcessInodeFile E path inode) := by
  unfold xalBeFiemapProcessInodeFile
  refine (inodeAt_growth _).bind fun _ => (keeps_failIf _ _).bind fun _ => ?_
  cases E.kernel.openFile path with
  | error errno => exact keeps_fail _
  | ok u =>
    exact (keeps_ret ()).ite ((readFiemap_growth path).bind fun r =>
      (storeReported_growth _ _ _).bind fun _ => putPath_growth _)

section
variable {procIno : CStr → Nat → Fm Unit} (hproc : ∀ path d, Keeps (GrowsBy g) (procIno path d))
include hproc

theorem processEntries_growth (path : CStr) (inode : Nat) (entries : List CStr) :
    Keeps (GrowsBy g) (processEntries procIno path inode entries) := by
  induction entries with
  | nil => exact keeps_ret ()
  | cons n entries ih =>
    unfold processEntries
    exact (inodeAt_growth _).bind fun _ => (keeps_assert _).bind fun _ =>
      (setInode_growth _ _).bind fun _ => (setInode_growth _ _).bind fun _ =>
        (hproc _ _).bind fun _ => ih

theorem processInodeDir_growth (path : CStr) (inode : Nat) :
    Keeps (GrowsBy g) (xalBeFiemapProcessInodeDir E procIno path inode) := by
  unfold xalBeFiemapProcessInodeDir
  refine (inodeAt_growth _).bind fun _ => (keeps_failIf _ _).bind fun _ =>
    (watchDir_growth _ _).bind fun _ => ?_
  cases E.kernel.opendir path with
  | error errno => exact keeps_fail _
  | ok names =>
    exact (keeps_failIf _ _).bind fun _ => (onInodes_growth (claimInodes_growth _)).bind fun _ =>
      (setInode_growth _ _).bind fun _ => (processEntries_growth hproc _ _ _).bind fun _ =>
        putPath_growth _

end

theorem deriveFtype_growth (mode self : Nat) :
    Keeps (GrowsBy g) (deriveFtype mode self : Fm Unit) := by
  unfold deriveFtype
  exact (inodeAt_growth _).bind fun _ => Keeps.ite
    ((setInode_growth _ _).ite ((setInode_growth _ _).ite (keeps_fail _))) (keeps_ret ())

theorem processInoFiemap_growth (fuel : Nat) :
    ∀ path self, Keeps (GrowsBy g) (processInoFiemap E fuel path self) := by
  induction fuel with
  | zero => exact fun _ _ => keeps_spin
  | succ fuel ih =>
    intro path self
    unfold processInoFiemap processTyped
    cases E.kernel.stat path with
    | error errno => exact keeps_fail _
    | ok st =>
      exact (deriveFtype_growth _ _).bind fun _ => (setInode_growth _ _).bind fun _ =>
        (inodeAt_growth _).bind fun _ => (processInodeDir_growth ih _ _).ite
          ((processInodeFile_growth _ _).ite (keeps_fail _))

/-- The pools of the `struct xal`. -/
def XalGrowsBy (g : Nat) (x : Xal FiemapBe) : Prop := GrowsBy g x.store

theorem onStore_growth {β : Type} {f : Fm β} (h : Keeps (GrowsBy g) f) :
    Keeps (XalGrowsBy g) (onStore f) := h.zoom (fun _ hs => hs) fun _ _ _ ht => ht

theorem fiemapIndexBody_growth (fuel : Nat) : Keeps (XalGrowsBy g) (fiemapIndexBody E fuel) := by
  unfold fiemapIndexBody clearInodeMap
  exact (onStore_growth (onInodes_growth clear_growth).ignore).bind fun _ =>
    (onStore_growth (onExtents_growth clear_growth).ignore).bind fun _ =>
    (onStore_growth ((keeps_ret ()).ite onBe_growth)).bind fun _ =>
    (onStore_growth (onInodes_growth (claimInodes_growth _))).bind fun _ =>
    Keeps.bind (keeps_modify fun _ h => h) fun _ =>
    (onStore_growth (setInode_growth _ _)).bind fun _ =>
    (onStore_growth (processInoFiemap_growth _ _ _)).bind fun _ => keeps_modify fun _ h => h

theorem xalIndex_growth (fuel : Nat) :
    Keeps (XalGrowsBy g) (xalIndex (xalBeFiemapIndex E fuel)) := by
  unfold xalIndex xalBeFiemapIndex
  exact keeps_read.bind fun _ => (keeps_failIf _ _).bind fun _ => (keeps_failIf _ _).bind fun _ =>
    Keeps.bind (keeps_modify fun _ h => h) fun _ =>
    (fiemapIndexBody_growth fuel).onExit fun _ h => h

theorem FiemapStep.growth {x x' : Xal FiemapBe} (h : FiemapStep x x') (hx : XalGrowsBy g x) :
    XalGrowsBy g x' := by
  obtain ⟨E, -, ⟨fuel, hend⟩ | ⟨path, inode, -, hend⟩⟩ := h
  · exact (xalIndex_growth fuel).ends hx hend
  · exact (onStore_growth (processInodeFile_growth path inode)).ends hx hend

end Xallib
