import Mathlib.Data.List.Sort
import Xallib.Fiemap.Kernel

/-!
# `xal_index` of the FIEMAP backend

`process_ino_fiemap` and what it calls. An inode is passed as its slot. A path longer than the
field `name` overflows it in `strcpy`, which stops the process. As in the XFS backend, the recursion
through `process_ino_fiemap` is the parameter `procIno`.
-/

namespace Xallib

open Lib Lib.Cm

/-- `XAL_INODE_NAME_MAXLEN` and `XAL_PATH_MAXLEN` -/
def pathMaxlen : Nat := 255

/-- `_is_directory_member` -/
def isDirectoryMember (name : CStr) : Bool := name != [46] && name != [46, 46]

/-- `strcmp(a, b) <= 0` -/
def strcmpLe : CStr → CStr → Bool
  | [], _ => true
  | _ :: _, [] => false
  | x :: a, y :: b => x < y || (x == y && strcmpLe a b)

/-- The entries of a directory, as `qsort` leaves them. -/
def sortEntries (entries : List CStr) : List CStr :=
  (entries.filter isDirectoryMember).insertionSort (fun a b => strcmpLe a b = true)

/-- `"%s/%s"` -/
def joinPath (path name : CStr) : CStr := path ++ slash :: name

section
variable (E : FiemapEnv)

/-- `xal_be_fiemap_inotify_add_watcher` -/
def xalBeFiemapInotifyAddWatcher (path : CStr) (inode : Nat) : Fm Unit := do
  let v ← inodeAt inode
  failIf (xalInodeIsDir v = false) ⟨.argument, -EINVAL⟩
  if E.watchMode = .none then pure () else
    match E.kernel.addWatch path with
    | .error errno => fail ⟨.watch, -(errno : Int)⟩
    | .ok wd => do
      failIf (E.kernel.khPutWd wd = false) ⟨.khPut, - EIO⟩
      onBe (modify fun be => { be with
        inodeMap := fun w => if w = wd then some inode else be.inodeMap w })

/-- `if (be->inotify) xal_be_fiemap_inotify_add_watcher(..)` -/
def watchDir (path : CStr) (inode : Nat) : Fm Unit :=
  if E.watchMode = .none then pure () else xalBeFiemapInotifyAddWatcher E path inode

/-- `if (be->inotify) xal_be_fiemap_inotify_clear_inode_map(..)` -/
def clearInodeMap : Fm Unit :=
  if E.watchMode = .none then pure ()
  else onBe (modify fun be => { be with inodeMap := fun _ => none })

/-- The entry of an inode in the map of paths, under its name. An index does not clear this map. -/
def putPath (inode : Nat) : Fm Unit := do
  let s ← read
  match s.be.pathInodeMap with
  | none => pure ()
  | some map => do
    failIf (E.kernel.khPutPath (inodeNames s inode) = false) ⟨.khPut, - EIO⟩
    onBe (modify fun be => { be with
      pathInodeMap := some (khPutName (inodeNames s) inode map) })

/-- The loop of `xal_be_fiemap_process_inode_dir` over the sorted entries. -/
def processEntries (procIno : CStr → Nat → Fm Unit) (path : CStr) (inode : Nat) :
    List CStr → Fm Unit
  | [] => pure ()
  | entryName :: entries => do
    let v ← inodeAt inode
    let dentry := v.content.idx + v.content.count
    let dentryPath := joinPath path entryName
    assert (dentryPath.length ≤ pathMaxlen)
    setInode dentry fun d => { d with
      name := dentryPath, namelen := dentryPath.length, parentIdx := inode }
    setInode inode fun v => { v with
      content := { v.content with count := (v.content.count + 1) % 2 ^ 32 } }
    procIno dentryPath dentry
    processEntries procIno path inode entries

def xalBeFiemapProcessInodeDir (procIno : CStr → Nat → Fm Unit) (path : CStr) (inode : Nat) :
    Fm Unit := do
  let v ← inodeAt inode
  failIf (xalInodeIsDir v = false) ⟨.argument, -EINVAL⟩
  watchDir E path inode
  match E.kernel.opendir path with
  | .error errno => fail ⟨.opendir, -(errno : Int)⟩
  | .ok names => do
    failIf (E.kernel.dirMemory path = false) ⟨.memory, -ENOMEM⟩
    let entries := sortEntries names
    let idx ← onInodes (xalPoolClaimInodes E.mpInodes entries.length)
    setInode inode fun v => { v with content := ⟨idx, 0⟩ }
    processEntries procIno path inode entries
    putPath E inode

/-- `(size_t)(int)(sizeof(struct fiemap_extent) * fm_mapped_extents)`: the size of the extents as an
`int`, here by its 32 bits. -/
def extentsSize (mapped : Nat) : Nat := 56 * mapped % 2 ^ 32

/-- `read_fiemap`: the extents the second `ioctl` reports. A negative size of the extents is a huge
argument of `realloc`; a size that wrapped around is too small for what the `ioctl` writes. Where
the second `ioctl` fails, the caller frees the block that was there before the `realloc`. -/
def readFiemap (path : CStr) : Fm (Nat × (Nat → FiemapExtent)) :=
  match E.kernel.fiemapCount path with
  | .error errno => fail ⟨.fiemap, -(errno : Int)⟩
  | .ok mapped => do
    assert (extentsSize mapped < 2 ^ 32 - 32)
    failIf (2 ^ 31 ≤ extentsSize mapped ∨ E.kernel.extentsMemory path = false) ⟨.memory, -ENOMEM⟩
    match E.kernel.fiemapRead path mapped with
    | .error errno => do
      assert (E.kernel.extentsInPlace path = true)
      fail ⟨.fiemap, -(errno : Int)⟩
    | .ok (n, extents) => do
      assert (56 * min mapped n ≤ extentsSize mapped)
      pure (n, extents)

/-- The extent stored for one the kernel reports. -/
def storedExtent (sb : XalSb) (fe : FiemapExtent) : XalExtent where
  startOffset := fe.feLogical / sb.blocksize
  startBlock := fe.fePhysical / sb.blocksize
  nblocks := fe.feLength / sb.blocksize
  flag := fe.feFlags % 2 ^ 8

/-- The loop that stores the extents, extent `i` on. -/
def storeExtents (extents : Nat → FiemapExtent) (extentIdx : Nat) : Nat → Nat → Fm Unit
  | 0, _ => pure ()
  | n + 1, i => do
    setExtent (extentIdx + i) (storedExtent E.sb (extents i))
    storeExtents extents extentIdx n (i + 1)

/-- The part of `xal_be_fiemap_process_inode_file` that stores what `read_fiemap` found. -/
def storeReported (inode mapped : Nat) (extents : Nat → FiemapExtent) : Fm Unit :=
  if 0 < mapped then do
    let extentIdx ← onExtents (xalPoolClaimExtents E.mpExtents mapped)
    setInode inode fun v => { v with content := ⟨extentIdx, mapped % 2 ^ 32⟩ }
    assert (E.sb.blocksize ≠ 0)
    storeExtents E extents extentIdx mapped 0
  else pure ()

/-- Where `malloc` fails, the source returns `err`, which is 0. -/
def xalBeFiemapProcessInodeFile (path : CStr) (inode : Nat) : Fm Unit := do
  let v ← inodeAt inode
  failIf (xalInodeIsFile v = false) ⟨.argument, -EINVAL⟩
  match E.kernel.openFile path with
  | .error errno => fail ⟨.openFile, -(errno : Int)⟩
  | .ok () =>
    if E.kernel.fiemapMemory path = false then pure () else do
    let (mapped, extents) ← readFiemap E path
    storeReported E inode mapped extents
    putPath E inode

/-- The rest of `process_ino_fiemap`, once the type is known. -/
def processTyped (procIno : CStr → Nat → Fm Unit) (st : Stat) (path : CStr) (self : Nat) :
    Fm Unit := do
  setInode self fun v => { v with ino := st.stIno, size := st.stSize }
  let v ← inodeAt self
  if v.ftype = ftDir then xalBeFiemapProcessInodeDir E procIno path self
  else if v.ftype = ftRegFile then xalBeFiemapProcessInodeFile E path self
  else fail ⟨.ftype, -ENOSYS⟩

/-- `process_ino_fiemap`; `fuel` bounds the depth. -/
def processInoFiemap : Nat → CStr → Nat → Fm Unit
  | 0, _, _ => fun _ => .spin
  | fuel + 1, path, self =>
    match E.kernel.stat path with
    | .error errno => fail ⟨.stat, if errno = ENOENT then -EAGAIN else -(errno : Int)⟩
    | .ok st => do
      deriveFtype st.stMode self
      processTyped E (processInoFiemap fuel) st path self

/-- `atomic_fetch_add(&xal->seq_lock, 1)` -/
def addSeqLock {δ : Type} (xal : Xal δ) : Xal δ :=
  { xal with seqLock := (xal.seqLock + 1) % 2 ^ 32 }

/-- The part of `xal_be_fiemap_index` between the two increments of the lock. -/
def fiemapIndexBody (fuel : Nat) : Cm Err (Xal FiemapBe) Unit := do
  onStore (ignore (onInodes (xalPoolClear E.mpInodes)))
  onStore (ignore (onExtents (xalPoolClear E.mpExtents)))
  onStore (clearInodeMap E)
  let rootIdx ← onStore (onInodes (xalPoolClaimInodes E.mpInodes 1))
  modify fun xal => { xal with rootIdx }
  onStore (setInode rootIdx (initRoot E.sb))
  onStore (processInoFiemap E fuel E.mountpoint rootIdx)
  modify fun xal => { xal with dirty := false }

def xalBeFiemapIndex (fuel : Nat) : Cm Err (Xal FiemapBe) Unit := do
  failIf (E.mountpoint.length = 0) ⟨.argument, -EINVAL⟩
  modify addSeqLock
  onExit addSeqLock (fiemapIndexBody E fuel)

end

end Xallib
