import Xallib.Fiemap.Index

/-!
# `xal_be_fiemap_open` and `xal_close`

What a `struct xal` of the FIEMAP backend holds from its opening on is counted: `held r` is the
number of resources `r` that have been acquired and not released. To release a resource through a
null pointer does nothing, but to unmap a pool through one may do harm (`xalPoolUnmap`). The shared
memory objects of the pools are never unlinked.

`isDtDir path`: the `d_type` of the directory entry at the path is `DT_DIR`.
-/

namespace Xallib

open Lib Lib.Cm

/-- What is acquired by the opening. -/
inductive Resource
  | xal | mountpoint | inotify | inotifyFd | wdMap | inodes | extents | pathMap | dirStream
  | shmInodes | shmExtents
  deriving DecidableEq, Repr

structure FiemapOpenEnv where
  kernel : Kernel
  isDtDir : CStr → Bool
  stBlksize : CStr → Nat
  callocXal : Bool
  callocMountpoint : Bool
  callocInotify : Bool
  inotifyInit1 : Except Nat Nat
  khInitWd : Bool
  khInitPath : Bool
  osInodes : MapAnswers
  osExtents : MapAnswers
  munmapNull : Bool
  mpInodes : Mprotect
  mpExtents : Mprotect
  watchMode : XalWatchmode
  hashmap : Bool
  shmName : Option CStr

/-- The candidate (its superblock, its pools, the descriptor in its `struct xal_inotify`), what it
holds, and `*xal`. -/
structure FiemapOpening where
  held : Resource → Nat
  inotifyFd : Int
  sb : XalSb
  store : Store FiemapBe
  xal : Option (Xal FiemapBe)

abbrev Fo (α : Type) := Cm Err FiemapOpening α

def acquire (r : Resource) : Fo Unit :=
  modify fun s => { s with held := fun r' => if r' = r then s.held r + 1 else s.held r' }

def release (r : Resource) : Fo Unit :=
  modify fun s => { s with held := fun r' => if r' = r then s.held r - 1 else s.held r' }

/-- `XAL_PATH_MAXLEN` as the limit of `shm_name`. -/
def fiemapShmMaxlen : Nat := 255

section
variable (E : FiemapOpenEnv)

/-- The loop of `retrieve_total_entries` over the entries that are left; `total` is the call for a
directory below. -/
def countEntries (total : CStr → Fo Int) (path : CStr) : List CStr → Int → Fo Int
  | [], count => do
    release .dirStream
    pure count
  | name :: names, count =>
    if isDirectoryMember name = false then countEntries total path names count
    else do
      assert (count + 1 < 2 ^ 31)
      if E.isDtDir (joinPath path name) then do
        let children ← total (joinPath path name)
        if children < 0 then pure (-1)
        else do
          assert (count + 1 + children < 2 ^ 31)
          countEntries total path names (count + 1 + children)
      else countEntries total path names (count + 1)

/-- `retrieve_total_entries`; `fuel` bounds the depth. -/
def retrieveTotalEntries : Nat → CStr → Fo Int
  | 0, _ => fun _ => .spin
  | fuel + 1, path =>
    match E.kernel.stat path with
    | .error errno => pure (if errno = ENOENT then -EAGAIN else -(errno : Int))
    | .ok st =>
      if isDirMode st.stMode = false then pure 0
      else
        match E.kernel.opendir path with
        | .error errno => pure (-(errno : Int))
        | .ok names => do
          acquire .dirStream
          countEntries E (retrieveTotalEntries fuel) path names 0

/-- `xal_be_fiemap_inotify_init` -/
def xalBeFiemapInotifyInit : Fo Unit :=
  if E.watchMode = .none then pure ()
  else
    match E.inotifyInit1 with
    | .error errno => do
      modify fun s => { s with inotifyFd := -1 }
      fail ⟨.watch, -(errno : Int)⟩
    | .ok fd => do
      modify fun s => { s with inotifyFd := fd }
      acquire .inotifyFd
      failIf (E.khInitWd = false) ⟨.memory, -EINVAL⟩
      acquire .wdMap

/-- A call on one of the pools of the candidate. -/
def onOpening {α : Type} (x : Cm Err (Store FiemapBe) α) : Fo α :=
  zoom (·.store) (fun s t => { s with store := t }) x

/-- `xal_be_fiemap_inotify_close`, for a watcher that does not run. -/
def xalBeFiemapInotifyClose : Fo Unit := do
  release .wdMap
  let s ← read
  if s.inotifyFd ≠ 0 then release .inotifyFd else pure ()

/-- `xal_be_fiemap_close` -/
def xalBeFiemapClose : Fo Unit := do
  release .mountpoint
  xalBeFiemapInotifyClose
  release .pathMap

/-- `xal_close` of what the backend has opened. -/
def xalClose : Fo Unit := do
  onOpening (onInodes (xalPoolUnmap E.osInodes E.shmName.isSome E.munmapNull))
  release .inodes
  onOpening (onExtents (xalPoolUnmap E.osExtents E.shmName.isSome E.munmapNull))
  release .extents
  xalBeFiemapClose
  release .xal

/-- `goto failed` -/
def closeFailed (x : Fo Unit) : Fo Unit := fun s =>
  match x s with
  | .fail e s' => (xalClose E >>= fun _ => fail e) s'
  | r => r

/-- `shm_open`, where a pool is in shared memory. -/
def createObject (object : Resource) (os : MapAnswers) : Fo Unit :=
  if E.shmName.isSome = true ∧ os.shmOpen = 0 then acquire object else pure ()

/-- `xal_pool_map` of one of the pools, which is held where it succeeds; the object is there as soon
as `shm_open` has succeeded. -/
def mapPool (r object : Resource) (os : MapAnswers) (map : Cm Err (Store FiemapBe) Unit) :
    Fo Unit := do
  createObject E object os
  onOpening map
  acquire r

/-- `if (opts->watch_mode)` -/
def openWatcher : Fo Unit :=
  if E.watchMode = .none then pure ()
  else do
    failIf (E.callocInotify = false) ⟨.memory, -ENOMEM⟩
    acquire .inotify
    xalBeFiemapInotifyInit E

/-- `if (opts->file_lookupmode == XAL_FILE_LOOKUPMODE_HASHMAP)` -/
def openPathMap : Fo Unit :=
  if E.hashmap then do
    failIf (E.khInitPath = false) ⟨.memory, -EINVAL⟩
    acquire .pathMap
    modify fun s => { s with store := { s.store with
      be := { s.store.be with pathInodeMap := some khInit } } }
  else pure ()

/-- The part of `xal_be_fiemap_open` that may `goto failed`. -/
def fiemapOpenBody (fuel : Nat) (mountpoint : CStr) : Fo Unit := do
  failIf (E.callocMountpoint = false) ⟨.memory, -ENOMEM⟩
  acquire .mountpoint
  openWatcher E
  let nallocated ← retrieveTotalEntries E fuel mountpoint
  failIf (nallocated < 0) ⟨.opendir, nallocated⟩
  match E.kernel.stat mountpoint with
  | .error errno => fail ⟨.stat, -(errno : Int)⟩
  | .ok st => do
    modify fun s => { s with sb := { s.sb with
      blocksize := E.stBlksize mountpoint % 2 ^ 32, rootino := st.stIno } }
    failIf (fiemapShmMaxlen < (E.shmName.map List.length).getD 0) ⟨.argument, -EINVAL⟩
    mapPool E .inodes .shmInodes E.osInodes (onInodes (xalPoolMap E.osInodes E.mpInodes
      poolReserved nallocated.toNat inodeNbytes E.shmName.isSome))
    mapPool E .extents .shmExtents E.osExtents (onExtents (xalPoolMap E.osExtents E.mpExtents
      poolReserved nallocated.toNat extentNbytes E.shmName.isSome))
    openPathMap E
    modify fun s => { s with xal := some {
      type := .fiemap
      sb := s.sb
      rootIdx := poolIdxNone
      store := s.store
      dirty := false
      seqLock := 0
      sharedView := false } }

/-- `xal_be_fiemap_open` -/
def xalBeFiemapOpen (fuel : Nat) : Option CStr → Fo Unit
  | none => fail ⟨.argument, -EINVAL⟩
  | some mountpoint => do
    failIf (E.callocXal = false) ⟨.memory, -ENOMEM⟩
    acquire .xal
    modify fun s => { s with inotifyFd := 0, sb := default, store := ⟨default, default,
      ⟨none, fun _ => none⟩⟩ }
    closeFailed E (fiemapOpenBody E fuel mountpoint)

end

end Xallib
