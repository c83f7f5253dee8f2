import Xallib.Fiemap.Lookup

/-!
# The events of the watcher

`check_events`, on the events its reads of the inotify descriptor return. Each comes with the
answers of the operating system while it is handled; those behind the event that ends the call are
dropped.
-/

namespace Xallib

open Lib Lib.Cm

/-- `struct inotify_event`; `name` is that of an entry of the watched directory. -/
structure InotifyEvent where
  wd : Int
  mask : Nat
  name : CStr
  deriving DecidableEq, Repr

def IN_MODIFY : Nat := 0x2
def IN_CLOSE_WRITE : Nat := 0x8
def IN_MOVE : Nat := 0xc0
def IN_CREATE : Nat := 0x100
def IN_DELETE : Nat := 0x200
def IN_UNMOUNT : Nat := 0x2000

/-- `event->mask & bits` -/
def InotifyEvent.has (event : InotifyEvent) (bits : Nat) : Bool := event.mask &&& bits != 0

/-- `kh_get(wd_to_inode, inode_map, wd)` -/
def khGetWd (be : FiemapBe) (wd : Int) : Option Nat :=
  if 0 ≤ wd then be.inodeMap wd.toNat else none

/-- The path of an event: the stored name of the directory, `'/'` and the name of the entry. -/
def eventPath (dirInode : XalInode) (name : CStr) : CStr :=
  joinPath (dirInode.name.take dirInode.namelen) name

/-- The first dentry whose stored name is `path`. -/
def findChild (x : Xal FiemapBe) (dirInode : XalInode) (path : CStr) : Option Nat :=
  ((List.range dirInode.content.count).map (dirInode.content.idx + ·)).find? fun child =>
    strcmp (x.store.inodes.memory child).name path == .eq

section
variable (E : FiemapEnv)

/-- The extents of the file, then its size. -/
def refreshFile (path : CStr) (inode : Nat) : Cm Err (Xal FiemapBe) Unit := do
  onStore (xalBeFiemapProcessInodeFile E path inode)
  match E.kernel.stat path with
  | .error errno => fail ⟨.stat, -(errno : Int)⟩
  | .ok st => onStore (setInode inode fun v => { v with size := st.stSize })

/-- What `check_events` does between the two increments of the lock. -/
def refreshChild (dirInode : XalInode) (path : CStr) : Cm Err (Xal FiemapBe) Unit := do
  let xal ← read
  match findChild xal dirInode path with
  | none => fail ⟨.event, -EINVAL⟩
  | some inode => refreshFile E path inode

/-- One round of the loop over the events: `true` where `check_events` returns 1. -/
def checkEvent (event : InotifyEvent) : Cm Err (Xal FiemapBe) Bool :=
  if E.watchMode = .dirtyDetection then pure true
  else if event.has IN_UNMOUNT then fail ⟨.event, -EINVAL⟩
  else if event.has (IN_MODIFY ||| IN_CLOSE_WRITE) then do
    let xal ← read
    match khGetWd xal.store.be event.wd with
    | none => fail ⟨.event, -EINVAL⟩
    | some dir => do
      let dirInode := xal.store.inodes.memory dir
      failIf (xalInodeIsDir dirInode = false) ⟨.event, -EINVAL⟩
      failIf (dirInode.namelen + 1 + event.name.length + 1 > pathMaxlen) ⟨.event, -EINVAL⟩
      modify addSeqLock
      onExit addSeqLock (refreshChild E dirInode (eventPath dirInode event.name))
      pure false
  else pure (event.has (IN_CREATE ||| IN_DELETE ||| IN_MOVE))

end

/-! ## The cases of an event -/

/-- What an event leads to: `check_events` returns 1, it fails, it reads a file of the directory
again, or it goes on. -/
inductive EventCase
  | breaking
  | failed
  | file (dirInode : XalInode)
  | skipped

/-- The checks of `check_events`, up to the opening increment of the lock. `dir` is the directory
that the watch descriptor leads to. -/
def eventCase (watchMode : XalWatchmode) (event : InotifyEvent) (dir : Option XalInode) :
    EventCase :=
  if watchMode = .dirtyDetection then .breaking
  else if event.has IN_UNMOUNT then .failed
  else if event.has (IN_MODIFY ||| IN_CLOSE_WRITE) then
    match dir with
    | none => .failed
    | some dirInode =>
      if xalInodeIsDir dirInode = false then .failed
      else if dirInode.namelen + 1 + event.name.length + 1 > pathMaxlen then .failed
      else .file dirInode
  else if event.has (IN_CREATE ||| IN_DELETE ||| IN_MOVE) then .breaking
  else .skipped

def eventDir (x : Xal FiemapBe) (event : InotifyEvent) : Option XalInode :=
  (khGetWd x.store.be event.wd).map x.store.inodes.memory

theorem checkEvent_case (E : FiemapEnv) (event : InotifyEvent) (x : Xal FiemapBe) :
    checkEvent E event x = match eventCase E.watchMode event (eventDir x event) with
      | .breaking => .ok true x
      | .failed => .fail ⟨.event, -EINVAL⟩ x
      | .file dirInode =>
        (onExit addSeqLock (refreshChild E dirInode (eventPath dirInode event.name)) >>= fun _ =>
          pure false) (addSeqLock x)
      | .skipped => .ok false x := by
  unfold checkEvent eventCase eventDir
  by_cases hmode : E.watchMode = .dirtyDetection
  · rw [if_pos hmode, if_pos hmode]
    rfl
  rw [if_neg hmode, if_neg hmode]
  by_cases hunmount : event.has IN_UNMOUNT = true
  · rw [if_pos hunmount, if_pos hunmount]
    rfl
  rw [if_neg hunmount, if_neg hunmount]
  by_cases hmodify : event.has (IN_MODIFY ||| IN_CLOSE_WRITE) = true
  · rw [if_pos hmodify, if_pos hmodify, read_bind]
    cases khGetWd x.store.be event.wd with
    | none => rfl
    | some dir =>
      show (failIf _ _ >>= _) x = _
      by_cases hdir : xalInodeIsDir (x.store.inodes.memory dir) = false
      · rw [bind_of_fail (failIf_true hdir _ _)]
        simp only [Option.map_some, if_pos hdir]
      · rw [bind_of_ok (failIf_false hdir _ _)]
        by_cases hlong : (x.store.inodes.memory dir).namelen + 1 +
          event.name.length + 1 > pathMaxlen
        · rw [bind_of_fail (failIf_true hlong _ _)]
          simp only [Option.map_some, if_neg hdir, if_pos hlong]
        · rw [bind_of_ok (failIf_false hlong _ _), modify_bind]
          simp only [Option.map_some, if_neg hdir, if_neg hlong]
  · rw [if_neg hmodify, if_neg hmodify]
    by_cases hbreak : event.has (IN_CREATE ||| IN_DELETE ||| IN_MOVE) = true
    · rw [if_pos hbreak, hbreak]
      rfl
    · rw [if_neg hbreak, Bool.eq_false_iff.2 hbreak]
      rfl

/-- `check_events`, where the reads return `events`. -/
def checkEvents : List (FiemapEnv × InotifyEvent) → Cm Err (Xal FiemapBe) Bool
  | [] => pure false
  | (E, event) :: events => do
    if ← checkEvent E event then pure true else checkEvents events

/-- Events that have not ended the call are followed by the next ones. -/
theorem checkEvents_append {events : List (FiemapEnv × InotifyEvent)} {x y : Xal FiemapBe}
    (h : checkEvents events x = .ok false y) (rest : List (FiemapEnv × InotifyEvent)) :
    checkEvents (events ++ rest) x = checkEvents rest y := by
  induction events generalizing x with
  | nil =>
    obtain ⟨-, rfl⟩ := Run.ok.inj h
    rfl
  | cons c events ih =>
    obtain ⟨E, event⟩ := c
    obtain ⟨ended, x', hevent, h⟩ := bind_ok.1 h
    have hcons : checkEvents ((E, event) :: events ++ rest) x = _ := bind_of_ok hevent
    rw [hcons]
    cases ended with
    | true =>
      obtain ⟨hend, -⟩ := Run.ok.inj h
      cases hend
    | false => exact ih h

end Xallib
