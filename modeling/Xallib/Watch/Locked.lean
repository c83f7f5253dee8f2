import Xallib.Fiemap.Inotify
import Xallib.Lib.Checked
import Xallib.Xfs.Index

/-!
# The writes to the pools with the sequence lock checked

`xal_index` of both backends, and `check_events`, but for the writes to the pools: at each one the
sequence lock has to be odd (`writePool`). The lock does not change within a function on the pools,
which is passed whether it is odd. Once the slot of its inode has been written, `process_ino` and
what it calls are checked as one write, and so is `xal_be_fiemap_process_inode_file`.
-/

namespace Xallib

open Lib Lib.Cm

variable {α δ : Type}

/-- A write to a pool. -/
def writePool (odd : Bool) (f : XalPool α → XalPool α) : Cm (Option Err) (XalPool α) Unit := do
  inside (odd = true)
  modify f

section
variable [Inhabited α] (odd : Bool) (mp : Mprotect)

def xalPoolGrowLocked (growby : Nat) : Cm (Option Err) (XalPool α) Unit := do
  let pool ← read
  let growbyNbytes := growby * pool.elementSize
  let allocatedNbytes := growbyNbytes + pool.allocated * pool.elementSize
  unchecked (failIf (mp.grow allocatedNbytes ≠ 0) ⟨.mprotect, -(mp.grow allocatedNbytes : Int)⟩)
  writePool odd fun pool => { pool with
    memory := fun i => if pool.free ≤ i ∧ i < pool.free + growby then default else pool.memory i
    allocated := pool.allocated + growby }

def claimRoomLocked (count : Nat) : Cm (Option Err) (XalPool α) Unit := do
  let pool ← read
  unchecked (failIf (count > pool.growby) ⟨.claim, -EINVAL⟩)
  if pool.allocated ≤ pool.free + count then xalPoolGrowLocked odd mp pool.growby else pure ()

def xalPoolClaimInodesLocked (count : Nat) : Cm (Option Err) (XalPool α) Nat := do
  claimRoomLocked odd mp count
  let pool ← read
  unchecked (failIf (pool.free + count > UINT32_MAX) ⟨.claim, -EOVERFLOW⟩)
  writePool odd fun pool => { pool with free := pool.free + count }
  pure (pool.free % 2 ^ 32)

def xalPoolClearLocked : Cm (Option Err) (XalPool α) Unit := do
  unchecked (failIf (mp.clear ≠ 0) ⟨.mprotect, -(mp.clear : Int)⟩)
  writePool odd fun pool => { pool with
    memory := fun i => if i < pool.reserved then default else pool.memory i
    free := 0
    allocated := 0 }

end

def onInodesLocked (x : Cm (Option Err) (XalPool XalInode) α) : Cm (Option Err) (Store δ) α :=
  zoom (·.inodes) (fun s p => { s with inodes := p }) x

def onExtentsLocked (x : Cm (Option Err) (XalPool XalExtent) α) : Cm (Option Err) (Store δ) α :=
  zoom (·.extents) (fun s p => { s with extents := p }) x

/-- A function on the pools, with the lock as it is. -/
def onStoreLocked (x : Bool → Cm (Option Err) (Store δ) α) : Cm (Option Err) (Xal δ) α := fun xal =>
  zoom (·.store) (fun xal s => { xal with store := s }) (x (xal.seqLock % 2 == 1)) xal

/-- A function on the pools all of whose writes are checked at once. -/
def writeLocked (x : Cm Err (Store δ) α) : Cm (Option Err) (Xal δ) α := onStoreLocked fun odd => do
  inside (odd = true)
  unchecked x

/-! ## The index -/

def xalIndexLocked (index : Cm (Option Err) (Xal δ) Unit) : Cm (Option Err) (Xal δ) Unit := do
  let xal ← read
  unchecked (failIf (xal.sharedView = true) ⟨.argument, -EINVAL⟩)
  index

def clearPoolsLocked (mpInodes mpExtents : Mprotect) : Cm (Option Err) (Xal δ) Unit := do
  onStoreLocked fun odd => ignoreChecked (onInodesLocked (xalPoolClearLocked odd mpInodes))
  onStoreLocked fun odd => ignoreChecked (onExtentsLocked (xalPoolClearLocked odd mpExtents))

/-- The claim of the root, and its initialisation. -/
def claimRootLocked (mp : Mprotect) (sb : XalSb) : Cm (Option Err) (Xal δ) Nat := do
  let rootIdx ← onStoreLocked fun odd => onInodesLocked (xalPoolClaimInodesLocked odd mp 1)
  modify fun xal => { xal with rootIdx }
  writeLocked (setInode rootIdx (initRoot sb))
  pure rootIdx

def xalBeXfsIndexLocked (E : XfsEnv) (fuel : Nat) : Cm (Option Err) (Xal Buf) Unit := do
  unchecked (failIf (E.retrieved = false) ⟨.argument, -EINVAL⟩)
  clearPoolsLocked E.mpInodes E.mpExtents
  let rootIdx ← claimRootLocked E.mpInodes E.sb
  writeLocked (processIno E fuel E.sb.rootino rootIdx)
  modify fun xal => { xal with dirty := false }

section
variable (E : FiemapEnv)

def fiemapIndexBodyLocked (fuel : Nat) : Cm (Option Err) (Xal FiemapBe) Unit := do
  clearPoolsLocked E.mpInodes E.mpExtents
  unchecked (onStore (clearInodeMap E))
  let rootIdx ← claimRootLocked E.mpInodes E.sb
  writeLocked (processInoFiemap E fuel E.mountpoint rootIdx)
  modify fun xal => { xal with dirty := false }

def xalBeFiemapIndexLocked (fuel : Nat) : Cm (Option Err) (Xal FiemapBe) Unit := do
  unchecked (failIf (E.mountpoint.length = 0) ⟨.argument, -EINVAL⟩)
  modify addSeqLock
  onExit addSeqLock (fiemapIndexBodyLocked E fuel)

/-! ## The events -/

def refreshFileLocked (path : CStr) (inode : Nat) : Cm (Option Err) (Xal FiemapBe) Unit := do
  writeLocked (xalBeFiemapProcessInodeFile E path inode)
  match E.kernel.stat path with
  | .error errno => unchecked (fail ⟨.stat, -(errno : Int)⟩)
  | .ok st => writeLocked (setInode inode fun v => { v with size := st.stSize })

def refreshChildLocked (dirInode : XalInode) (path : CStr) :
    Cm (Option Err) (Xal FiemapBe) Unit := do
  let xal ← read
  match findChild xal dirInode path with
  | none => unchecked (fail ⟨.event, -EINVAL⟩)
  | some inode => refreshFileLocked E path inode

def checkEventLocked (event : InotifyEvent) : Cm (Option Err) (Xal FiemapBe) Bool :=
  if E.watchMode = .dirtyDetection then pure true
  else if event.has IN_UNMOUNT then unchecked (fail ⟨.event, -EINVAL⟩)
  else if event.has (IN_MODIFY ||| IN_CLOSE_WRITE) then do
    let xal ← read
    match khGetWd xal.store.be event.wd with
    | none => unchecked (fail ⟨.event, -EINVAL⟩)
    | some dir => do
      let dirInode := xal.store.inodes.memory dir
      unchecked (failIf (xalInodeIsDir dirInode = false) ⟨.event, -EINVAL⟩)
      unchecked (failIf (dirInode.namelen + 1 + event.name.length + 1 > pathMaxlen)
        ⟨.event, -EINVAL⟩)
      modify addSeqLock
      onExit addSeqLock (refreshChildLocked E dirInode (eventPath dirInode event.name))
      pure false
  else pure (event.has (IN_CREATE ||| IN_DELETE ||| IN_MOVE))

end

def checkEventsLocked : List (FiemapEnv × InotifyEvent) → Cm (Option Err) (Xal FiemapBe) Bool
  | [] => pure false
  | (E, event) :: events => do
    if ← checkEventLocked E event then pure true else checkEventsLocked events

/-! ## The checks apart, the functions are the same -/

theorem writePool_guards (odd : Bool) (f : XalPool α → XalPool α) :
    Guards (writePool odd f) (modify f) := Guards.inside fun _ => .inr rfl

section
variable [Inhabited α] (odd : Bool) (mp : Mprotect)

theorem xalPoolGrowLocked_guards (growby : Nat) :
    Guards (xalPoolGrowLocked odd mp growby : Cm (Option Err) (XalPool α) Unit)
      (xalPoolGrow mp growby) :=
  guards_read_bind fun _ => (guards_unchecked _).bind fun _ => writePool_guards odd _

theorem claimRoomLocked_guards (count : Nat) :
    Guards (claimRoomLocked odd mp count : Cm (Option Err) (XalPool α) Unit)
      (claimRoom mp count) := by
  refine guards_read_bind fun pool => (guards_unchecked _).bind fun _ => ?_
  exact guards_ite (xalPoolGrowLocked_guards odd mp _) (guards_ret ())

theorem claimInodesLocked_guards (count : Nat) :
    Guards (xalPoolClaimInodesLocked odd mp count : Cm (Option Err) (XalPool α) Nat)
      (xalPoolClaimInodes mp count) := by
  refine (claimRoomLocked_guards odd mp count).bind fun _ => guards_read_bind fun pool => ?_
  refine (guards_unchecked _).bind fun _ => (writePool_guards odd _).bind fun _ => guards_ret _

theorem clearLocked_guards :
    Guards (xalPoolClearLocked odd mp : Cm (Option Err) (XalPool α) Unit) (xalPoolClear mp) :=
  (guards_unchecked _).bind fun _ => writePool_guards odd _

end

theorem onStoreLocked_guards {y : Bool → Cm (Option Err) (Store δ) α} {x : Cm Err (Store δ) α}
    (h : ∀ odd, Guards (y odd) x) : Guards (onStoreLocked y) (onStore x) :=
  fun xal => (h _).zoom xal

theorem writeLocked_guards (x : Cm Err (Store δ) α) : Guards (writeLocked x) (onStore x) :=
  onStoreLocked_guards fun _ => (guards_unchecked x).inside

/-- The clearing of the pools, and what follows. -/
theorem clearPoolsLocked_guards (mpI mpX : Mprotect) {g : Cm (Option Err) (Xal δ) α}
    {f : Cm Err (Xal δ) α} (h : Guards g f) :
    Guards (clearPoolsLocked mpI mpX >>= fun _ => g)
      (onStore (ignore (onInodes (xalPoolClear mpI))) >>=
      fun _ => onStore (ignore (onExtents (xalPoolClear mpX))) >>= fun _ => f) := by
  intro s
  unfold clearPoolsLocked
  rw [bind_assoc_apply]
  refine Guards.bind ?_ (fun _ => Guards.bind ?_ fun _ => h) s
  · exact onStoreLocked_guards fun odd => (clearLocked_guards odd mpI).zoom.ignore
  · exact onStoreLocked_guards fun odd => (clearLocked_guards odd mpX).zoom.ignore

/-- The claim of the root, and what follows. -/
theorem claimRootLocked_guards (mp : Mprotect) (sb : XalSb) {g : Nat → Cm (Option Err) (Xal δ) α}
    {f : Nat → Cm Err (Xal δ) α} (h : ∀ rootIdx, Guards (g rootIdx) (f rootIdx)) :
    Guards (claimRootLocked mp sb >>= g) (onStore (onInodes (xalPoolClaimInodes mp 1)) >>=
      fun rootIdx => modify (fun xal => { xal with rootIdx }) >>= fun _ =>
        onStore (setInode rootIdx (initRoot sb)) >>= fun _ => f rootIdx) := by
  intro s
  unfold claimRootLocked
  rw [bind_assoc_apply]
  refine Guards.bind ?_ (fun rootIdx s => ?_) s
  · exact onStoreLocked_guards fun odd => (claimInodesLocked_guards odd mp 1).zoom
  rw [bind_assoc_apply]
  refine guards_modify_bind _ (fun s => ?_) s
  rw [bind_assoc_apply]
  exact (writeLocked_guards _).bind (fun _ => h rootIdx) s

theorem xalBeXfsIndexLocked_guards (E : XfsEnv) (fuel : Nat) :
    Guards (xalBeXfsIndexLocked E fuel) (xalBeXfsIndex E fuel) := by
  refine (guards_unchecked _).bind fun _ => clearPoolsLocked_guards _ _ ?_
  refine claimRootLocked_guards _ _ fun rootIdx => ?_
  exact (writeLocked_guards _).bind fun _ _ => .inr rfl

section
variable (E : FiemapEnv)

theorem xalBeFiemapIndexLocked_guards (fuel : Nat) :
    Guards (xalBeFiemapIndexLocked E fuel) (xalBeFiemapIndex E fuel) := by
  refine (guards_unchecked _).bind fun _ => guards_modify_bind _ (Guards.onExit ?_)
  refine clearPoolsLocked_guards _ _ ((guards_unchecked _).bind fun _ => ?_)
  refine claimRootLocked_guards _ _ fun rootIdx => ?_
  exact (writeLocked_guards _).bind fun _ _ => .inr rfl

theorem refreshChildLocked_guards (dirInode : XalInode) (path : CStr) :
    Guards (refreshChildLocked E dirInode path) (refreshChild E dirInode path) := by
  refine guards_read_bind fun xal => ?_
  cases findChild xal dirInode path with
  | none => exact guards_unchecked _
  | some inode =>
    refine (writeLocked_guards _).bind fun _ => ?_
    cases E.kernel.stat path with
    | error errno => exact guards_unchecked _
    | ok st => exact writeLocked_guards _

theorem checkEventLocked_guards (event : InotifyEvent) :
    Guards (checkEventLocked E event) (checkEvent E event) := by
  refine guards_ite (guards_ret _) (guards_ite (guards_unchecked _) (guards_ite ?_ (guards_ret _)))
  refine guards_read_bind fun xal => ?_
  cases khGetWd xal.store.be event.wd with
  | none => exact guards_unchecked _
  | some dir =>
    refine (guards_unchecked _).bind fun _ => (guards_unchecked _).bind fun _ => ?_
    refine guards_modify_bind _ ?_
    exact (refreshChildLocked_guards E _ _).onExit.bind fun _ => guards_ret _

end

theorem checkEventsLocked_guards (events : List (FiemapEnv × InotifyEvent)) :
    Guards (checkEventsLocked events) (checkEvents events) := by
  induction events with
  | nil => exact guards_ret _
  | cons c events ih =>
    refine (checkEventLocked_guards c.1 c.2).bind fun ended => ?_
    exact guards_ite (guards_ret _) ih

theorem xalIndexLocked_guards {y : Cm (Option Err) (Xal δ) Unit} {x : Cm Err (Xal δ) Unit}
    (h : Guards y x) : Guards (xalIndexLocked y) (xalIndex x) :=
  guards_read_bind fun _ => (guards_unchecked _).bind fun _ => h

end Xallib
