import Xallib.Fiemap.Inotify
import Xallib.Fiemap.Tree
import Xallib.Lib.Machine

/-!
# The watcher, the index and the file system

Structural changes of the file system, the loop of `background_thread_start` and calls of
`xal_index`, step by step. The file system is what the operating system answers (`Kernel`); a change
may be any. It appends its event to the queue, or an event of an overflow where the kernel had to
drop events, unless the queue ends with one. `xal_index` reads one directory after the other, and is
modelled where it succeeds.

The steps of the watcher are to load `dirty`, to read a batch of events, to handle one event, and to
store `dirty`; what an event leads to is `eventCase`.

`DirtyOp.after`: the state after a step; where the step cannot be taken, nothing changes.
-/

namespace Xallib

open Lib

def IN_Q_OVERFLOW : Nat := 0x4000

/-- The event the kernel appends where it drops others. -/
def overflowEvent : InotifyEvent := ⟨-1, IN_Q_OVERFLOW, []⟩

/-- The event of an entry that is created, deleted or moved; no other kind of event is in its
mask. -/
def InotifyEvent.structural (event : InotifyEvent) : Bool :=
  event.has (IN_CREATE ||| IN_DELETE ||| IN_MOVE) &&
    !event.has IN_UNMOUNT && !event.has (IN_MODIFY ||| IN_CLOSE_WRITE)

/-- A node of the tree with its path, as names from the root. -/
abbrev PathNode := List CStr × FiemapNode

/-- The entries of a directory, with their paths. -/
def entriesOf (K : Kernel) (p : PathNode) : List PathNode :=
  (fiemapKids K p.2).map fun c => (p.1 ++ [c.base], c)

/-- A call of `xal_index`: `dirty` as it was when it began, what it has found, and the directories
it has not read yet. -/
structure Indexing where
  began : Bool
  found : List PathNode
  todo : List PathNode

/-- Where the watcher stands: it is not running, not yet or no longer; at the head of the loop; in
`check_events` before `read`, and in the loop over a batch of events; before `dirty` is set. -/
inductive DirtyPc
  | off | loop | read | events | setDirty
  deriving DecidableEq, Repr

/-- `index` is what the last call of `xal_index` has stored, `app` the one in progress. -/
structure DirtyState where
  mode : XalWatchmode
  mountpoint : CStr
  kernel : Kernel
  queue : List InotifyEvent
  dirty : Bool
  pc : DirtyPc
  batch : List InotifyEvent
  index : List PathNode
  app : Option Indexing

/-- `change`: with its event, or where that is dropped; `notify`: any other event. `failed` are the
calls that fail, of `pthread_setcancelstate` or in reading a file again. -/
inductive DirtyOp
  | change (kernel : Kernel) (event : Option InotifyEvent)
  | notify (event : InotifyEvent)
  | start (failed : Bool)
  | loadDirty
  | read (n : Nat)
  | event (dir : Option XalInode) (failed : Bool)
  | setDirty
  | index
  | readDir
  | clearDirty

namespace DirtyState

variable (s : DirtyState)

def enqueue (event : InotifyEvent) : DirtyState := { s with queue := s.queue ++ [event] }

/-- The queue is full. -/
def overflow : DirtyState :=
  if s.queue.getLast? = some overflowEvent then s else s.enqueue overflowEvent

def change (kernel : Kernel) (event : Option InotifyEvent) : DirtyState :=
  match event with
  | none => { s.overflow with kernel }
  | some event => if event.structural then { s.enqueue event with kernel } else s

def notify (event : InotifyEvent) : DirtyState :=
  if event.has (IN_CREATE ||| IN_DELETE ||| IN_MOVE) ∨ event.has IN_Q_OVERFLOW then s
  else s.enqueue event

/-- `xal_watch_filesystem`, once there is an index. -/
def start (failed : Bool) : DirtyState :=
  if s.pc = .off ∧ s.app.isNone ∧ failed = false then { s with pc := .loop } else s

/-- `read` returns `n` events; where it returns none, `check_events` returns 0. -/
def read (n : Nat) : DirtyState :=
  if (s.queue.take n).isEmpty then { s with pc := .loop }
  else { s with pc := .events, batch := s.queue.take n, queue := s.queue.drop n }

/-- `check_events` returns with an error. -/
def fail : DirtyState := { s with pc := .off, batch := [] }

/-- An event of the batch; `rest` are those behind it. -/
def event (event : InotifyEvent) (rest : List InotifyEvent) (dir : Option XalInode)
    (failed : Bool) :
    DirtyState :=
  match eventCase s.mode event dir with
  | .breaking => { s with pc := .setDirty, batch := [] }
  | .failed => s.fail
  | .file _ => if failed then s.fail else { s with batch := rest }
  | .skipped => { s with batch := rest }

/-- A step of the watcher. -/
def watcher (op : DirtyOp) : DirtyState :=
  match s.pc, op with
  | .loop, .loadDirty => if s.dirty then s else { s with pc := .read }
  | .read, .read n => s.read n
  | .events, .event dir failed =>
    match s.batch with
    | [] => { s with pc := .read }
    | event :: rest => s.event event rest dir failed
  | .setDirty, .setDirty => { s with pc := .loop, dirty := true }
  | _, _ => s

/-- `xal_index` begins with the root. -/
def indexing (began : Bool) : Indexing :=
  ⟨began, [([], fiemapRoot s.mountpoint)], [([], fiemapRoot s.mountpoint)]⟩

/-- A step of `xal_index`. -/
def indexStep (call : Indexing) (op : DirtyOp) : DirtyState :=
  match op, call.todo with
  | .readDir, p :: rest =>
    match s.kernel.opendir p.2.path with
    | .error _ => s
    | .ok _ => { s with app := some { call with
        found := call.found ++ entriesOf s.kernel p
        todo := (entriesOf s.kernel p).filter (·.2.dir) ++ rest } }
  | .clearDirty, [] => { s with index := call.found, dirty := false, app := none }
  | _, _ => s

end DirtyState

def DirtyOp.after (op : DirtyOp) (s : DirtyState) : DirtyState :=
  match op, s.app with
  | change kernel e, _ => s.change kernel e
  | notify e, _ => s.notify e
  | start failed, _ => s.start failed
  | index, none => { s with app := some (s.indexing s.dirty) }
  | readDir, some call => s.indexStep call .readDir
  | clearDirty, some call => s.indexStep call .clearDirty
  | _, _ => s.watcher op

/-- Opened with a watch mode; the first call of `xal_index` has begun. -/
structure DirtyInit (s : DirtyState) : Prop where
  mode : s.mode ≠ .none
  queue : s.queue = []
  dirty : s.dirty = false
  pc : s.pc = .off
  batch : s.batch = []
  app : s.app = some (s.indexing false)

end Xallib
