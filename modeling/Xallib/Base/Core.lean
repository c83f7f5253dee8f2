import Xallib.Base.Pool

/-!
# `xal.c`

Addresses, the walk over an index, the paths of its inodes, the conversion of extents and the view
of a secondary process. The `calloc` and `strdup` of `xal_from_pools` are parameters (`true`: the
memory was there).

A callback of `xal_walk` is a function on a state of its own; a nonzero return value is its
status. `walk` takes a bound on its depth.
-/

namespace Xallib

open Lib Lib.Cm

/-- `enum xal_backend`; `unset` is the zero of a `struct xal` no backend has opened. -/
inductive XalBackend
  | unset | xfs | fiemap
  deriving DecidableEq, Repr

/-- `struct xal` -/
structure Xal (δ : Type) where
  type : XalBackend
  sb : XalSb
  rootIdx : Nat
  store : Store δ
  dirty : Bool
  seqLock : Nat
  sharedView : Bool

section
variable {δ σ α : Type}

/-- A `struct xal` as the open function of a backend leaves it: nothing is indexed, and the pools
are mapped, in shared memory if `shm`. -/
structure JustOpened (type : XalBackend) (shm : Bool) (xal : Xal δ) : Prop where
  type_eq : xal.type = type
  rootIdx : xal.rootIdx = poolIdxNone
  dirty : xal.dirty = false
  seqLock : xal.seqLock = 0
  sharedView : xal.sharedView = false
  pools : ∃ (osI osX : MapAnswers) (mpI mpX : Mprotect) (nallocated : Nat) (be : δ),
    mpI.Bounded poolReserved inodeNbytes ∧ mpX.Bounded poolReserved extentNbytes ∧
      xalMapPools osI osX mpI mpX nallocated shm ⟨default, default, be⟩ = .ok () xal.store

/-- A pool mapped in shared memory. -/
def sharedPool {α : Type} [Inhabited α] (elementSize : Nat) : XalPool α :=
  ⟨poolReserved, poolReserved, poolReserved, 0, elementSize, fun _ => default⟩

/-- A `struct xal` opened in shared memory. -/
def openedXal (type : XalBackend) (sb : XalSb) (be : δ) : Xal δ where
  type
  sb
  rootIdx := poolIdxNone
  store := ⟨sharedPool inodeNbytes, sharedPool extentNbytes, be⟩
  dirty := false
  seqLock := 0
  sharedView := false

theorem openedXal_justOpened (type : XalBackend) (sb : XalSb) (be : δ) :
    JustOpened type true (openedXal type sb be) where
  type_eq := rfl
  rootIdx := rfl
  dirty := rfl
  seqLock := rfl
  sharedView := rfl
  pools := ⟨⟨0, 0, 0⟩, ⟨0, 0, 0⟩, _, _, 0, be, mprotectWithin_bounded _ _ 0,
    mprotectWithin_bounded _ _ 0, rfl⟩

def onStore (x : Cm Err (Store δ) α) : Cm Err (Xal δ) α :=
  zoom (·.store) (fun xal s => { xal with store := s }) x

/-- `(1 << agblklog) - 1`: the shift is one of `int`, whose count the processor takes modulo 32,
and `(1 << 31) - 1` wraps around to `2 ^ 31 - 1`. -/
def agblkMask (sb : XalSb) : Nat := 2 ^ (sb.agblklog % 32) - 1

/-- `xal_fsbno_offset`, in 64-bit arithmetic. -/
def xalFsbnoOffset (type : XalBackend) (sb : XalSb) (fsbno : Nat) : Nat :=
  match type with
  | .fiemap => fsbno * sb.blocksize % 2 ^ 64
  | .xfs =>
    let ag := fsbno >>> sb.agblklog
    let bno := fsbno &&& agblkMask sb
    (ag * sb.agblocks + bno) * sb.blocksize % 2 ^ 64
  | .unset => 2 ^ 64 - EINVAL.toNat

/-! ## The walk -/

/-- A callback of `xal_walk`, on a state of its own. -/
abbrev WalkCb (σ : Type) := Nat → Nat → Cm Err σ Unit

/-- `if (cb_func) cb_func(..)` -/
def callCb (cb : Option (WalkCb σ)) (inode depth : Nat) : Cm Err σ Unit :=
  match cb with
  | some f => f inode depth
  | none => pure ()

/-- `_walk`, with a bound on its depth. -/
def walk (xal : Xal δ) (cb : Option (WalkCb σ)) : Nat → Nat → Nat → Cm Err σ Unit
  | 0, _, _ => fun _ => .spin
  | fuel + 1, inode, depth => do
    failIf (xal.dirty = true) ⟨.walk, -ESTALE⟩
    callCb cb inode depth
    let v := xal.store.inodes.memory inode
    if v.ftype = ftDir then
      forUp (fun _ i => i < v.content.count)
        (fun i => walk xal cb fuel (v.content.idx + i) (depth + 1)) v.content.count 0
    else if v.ftype = ftRegFile then pure ()
    else fail ⟨.walk, -EINVAL⟩

def xalWalk (xal : Xal δ) (inode : Nat) (cb : Option (WalkCb σ)) (fuel : Nat) : Cm Err σ Unit :=
  walk xal cb fuel inode 0

/-- A callback that always returns 0, and notes the inode slots it is called with and the level. -/
def noteCalls : WalkCb (List (Nat × Nat)) :=
  fun inode level => modify (· ++ [(inode, level)])

/-- What `printf` puts out for `"%.*s"`: the name up to its terminator, at most `namelen` bytes. -/
def printedName (inode : XalInode) : CStr := (inode.name.take inode.namelen).takeWhile (· ≠ 0)

/-- `xal_inode_path_pp`, on what has been put out so far, with a bound on its depth. -/
def xalInodePathPp (xal : Xal δ) : Nat → Option Nat → Cm Err CStr Nat
  | 0, _ => fun _ => .spin
  | _ + 1, none => pure 0
  | fuel + 1, some inode => do
    let v := xal.store.inodes.memory inode
    if v.parentIdx = poolIdxNone then pure 0
    else do
      let wrtn ← xalInodePathPp xal fuel (some v.parentIdx)
      let part := slash :: printedName v
      modify (· ++ part)
      pure (wrtn + part.length)

def xalGetRoot (xal : Xal δ) : Nat := xal.rootIdx

def xalGetSb (xal : Xal δ) : XalSb := xal.sb

/-- `xal_index`, with the function of the backend. -/
def xalIndex (index : Cm Err (Xal δ) Unit) : Cm Err (Xal δ) Unit := do
  let xal ← read
  failIf (xal.sharedView = true) ⟨.argument, -EINVAL⟩
  index

/-- The root as both backends initialise it. -/
def initRoot (sb : XalSb) (v : XalInode) : XalInode :=
  { v with ino := sb.rootino, ftype := ftDir, namelen := 0, parentIdx := poolIdxNone,
           content := { v.content with count := 0 } }

/-- The file type of an inode without one, from its mode. -/
def deriveFtype (mode self : Nat) : Cm Err (Store δ) Unit := do
  let v ← inodeAt self
  if v.ftype = 0 then
    if isDirMode mode then setInode self fun v => { v with ftype := ftDir }
    else if isRegMode mode then setInode self fun v => { v with ftype := ftRegFile }
    else fail ⟨.ftype, -EINVAL⟩
  else pure ()

/-! ## Extents -/

/-- The extents of an inode, as a list, in the extent memory `X`. -/
def extentsOf (X : Nat → XalExtent) (v : XalInode) : List XalExtent :=
  (List.range v.content.count).map fun i => X (v.content.idx + i)

inductive XalExtentUnit
  | bytes | lba
  deriving DecidableEq, Repr

/-- `struct xal_extent_converted` -/
structure XalExtentConverted where
  startOffset : Nat
  startBlock : Nat
  size : Nat
  unit : XalExtentUnit
  deriving DecidableEq, Repr

def xalExtentInBytes (xal : Xal δ) (extent : Option XalExtent) : Except Int XalExtentConverted :=
  match extent with
  | none => .error (-EINVAL)
  | some extent => .ok {
      startOffset := extent.startOffset * xal.sb.blocksize % 2 ^ 64
      size := extent.nblocks * xal.sb.blocksize % 2 ^ 64
      startBlock := xalFsbnoOffset xal.type xal.sb extent.startBlock
      unit := .bytes }

/-- `lba_blksze` is the `1U << ds` of the device; with 0 in its place the division would stop the
process. -/
def xalExtentInLba (xal : Xal δ) (extent : Option XalExtent) : Except Int XalExtentConverted :=
  match extent with
  | none => .error (-EINVAL)
  | some extent => .ok {
      startOffset := extent.startOffset * xal.sb.blocksize % 2 ^ 64 / xal.sb.lbaBlksze
      size := extent.nblocks * xal.sb.blocksize % 2 ^ 64 / xal.sb.lbaBlksze
      startBlock := xalFsbnoOffset xal.type xal.sb extent.startBlock / xal.sb.lbaBlksze
      unit := .lba }

/-! ## The view of a secondary process -/

/-- `xal_from_pools`; what the backend of the view keeps is the mountpoint. -/
def xalFromPools (calloc strdup : Bool) (sb : XalSb) (mountpoint : Option CStr)
    (inodesMem : Nat → XalInode) (extentsMem : Nat → XalExtent) (dirty : Option Bool) :
    Except Int (Xal (Option CStr)) :=
  if !calloc then .error (-ENOMEM) else
  match dirty with
  | none => .error (-EINVAL)
  | some dirty =>
    if mountpoint.isSome && !strdup then .error (-ENOMEM) else
    .ok {
      type := if mountpoint.isSome then .fiemap else .unset
      sb
      rootIdx := 0
      store := {
        inodes :=
          { (default : XalPool XalInode) with memory := inodesMem, elementSize := inodeNbytes }
        extents :=
          { (default : XalPool XalExtent) with memory := extentsMem, elementSize := extentNbytes }
        be := mountpoint }
      dirty
      seqLock := 0
      sharedView := true }

end

end Xallib
