import Xallib.Fiemap.Inotify
import Xallib.Lib.Machine

/-!
# The sequence lock

The watcher and `xal_be_fiemap_index`, step by step, on one `struct xal`. A step is an atomic
operation, a write to the pools, or a call that is a cancellation point; what a call answers, what
the kernel reports and what a read of the tree finds, which may race with a write, are arguments of
the step. The watcher has passed its start, the application calls `xal_index` while `dirty` is set
only, and `xal_stop_watching_filesystem` is its request of cancellation, which the watcher obeys at
the next cancellation point: `read`, `open` and `close`. The watch mode is that of extent updates.

`SeqOp.after`: the state after a step; where the step cannot be taken, nothing changes.
-/

namespace Xallib

/-- Where the watcher stands: at the head of the loop of `background_thread_start`; in
`check_events` before `read` and in the loop over a batch of events; behind the opening increment of
the lock, before `open`, before `close`, before `stat`, and before the closing increment; before
`dirty` is set; and at its end. `failed`: with an error. -/
inductive SeqPc
  | loop | read | events | find | openFile | readFile
  | closeFile (failed : Bool)
  | statFile
  | unlock (failed : Bool)
  | setDirty | ended
  deriving DecidableEq, Repr

/-- Where the application stands: before the opening increment, behind it, and before the closing
one. -/
inductive IndexPc
  | idle | lock | body | unlock
  deriving DecidableEq, Repr

/-- `batch` are the events that the loop has not passed, `inode` is the variable of
`check_events`. -/
structure SeqState where
  xal : Xal FiemapBe
  pc : SeqPc
  batch : List InotifyEvent
  inode : Nat
  cancelled : Bool
  index : IndexPc

inductive WatcherStep
  | loadDirty
  | read (events : List InotifyEvent)
  | event (dir : Option XalInode)
  | find (child : Option Nat) (isFile : Bool)
  | openFile (failed : Bool)
  | write (store : Store FiemapBe)
  | readFile (failed : Bool)
  | closeFile (khPutFailed : Bool)
  | statFile (size : Option Nat)
  | unlock
  | setDirty

inductive IndexStep
  | call (mountpoint : CStr)
  | lock
  | write (store : Store FiemapBe) (rootIdx : Nat)
  | clearDirty
  | fail
  | unlock

inductive SeqOp
  | watcher (step : WatcherStep)
  | index (step : IndexStep)
  | cancel

namespace SeqState

variable (s : SeqState)

/-- At a cancellation point: the watcher ends if it has been cancelled. -/
def unlessCancelled (s' : SeqState) : SeqState :=
  if s.cancelled then { s with pc := .ended } else s'

def setStore (store : Store FiemapBe) : SeqState := { s with xal := { s.xal with store } }

/-- `atomic_fetch_add(&xal->seq_lock, 1)` -/
def addLock : SeqState := { s with xal := addSeqLock s.xal }

/-- `atomic_store(xal->dirty, dirty)` -/
def storeDirty (dirty : Bool) : SeqState := { s with xal := { s.xal with dirty } }

/-- The checks of an event, and the opening increment where it is about a file. -/
def event (event : InotifyEvent) (batch : List InotifyEvent) (dir : Option XalInode) : SeqState :=
  match eventCase .extentUpdate event dir with
  | .breaking => { s with pc := .setDirty, batch := [] }
  | .failed => { s with pc := .ended, batch := [] }
  | .file _ => { s.addLock with pc := .find, batch }
  | .skipped => { s with batch }

def watcherStep (step : WatcherStep) : SeqState :=
  match s.pc, step with
  | .loop, .loadDirty => if s.xal.dirty then s else { s with pc := .read }
  | .read, .read events =>
    s.unlessCancelled (if events.isEmpty then { s with pc := .loop }
      else { s with pc := .events, batch := events })
  | .events, .event dir =>
    match s.batch with
    | [] => { s with pc := .read }
    | event :: batch => s.event event batch dir
  | .find, .find child isFile =>
    match child with
    | none => { s with pc := .unlock true }
    | some inode => if isFile then { s with pc := .openFile, inode }
        else { s with pc := .unlock true }
  | .openFile, .openFile failed =>
    s.unlessCancelled { s with pc := if failed then .unlock true else .readFile }
  | .readFile, .write store => s.setStore store
  | .readFile, .readFile failed => { s with pc := .closeFile failed }
  | .closeFile failed, .closeFile khPutFailed =>
    s.unlessCancelled { s with pc := if failed || khPutFailed then .unlock true else .statFile }
  | .statFile, .statFile size =>
    match size with
    | none => { s with pc := .unlock true }
    | some size =>
      { s.setStore (s.xal.store.putInode s.inode
        { s.xal.store.inodes.memory s.inode with size }) with
        pc := .unlock false }
  | .unlock failed, .unlock => { s.addLock with pc := if failed then .ended else .events }
  | .setDirty, .setDirty => { s.storeDirty true with pc := .loop }
  | _, _ => s

def indexStep (step : IndexStep) : SeqState :=
  match s.index, step with
  | .idle, .call mountpoint =>
    if s.xal.dirty = false ∨ mountpoint.length = 0 then s else { s with index := .lock }
  | .lock, .lock => { s.addLock with index := .body }
  | .body, .write store rootIdx => { s with xal := { s.xal with store, rootIdx } }
  | .body, .clearDirty => { s.storeDirty false with index := .unlock }
  | .body, .fail => { s with index := .unlock }
  | .unlock, .unlock => { s.addLock with index := .idle }
  | _, _ => s

end SeqState

def SeqOp.after (op : SeqOp) (s : SeqState) : SeqState :=
  match op with
  | watcher step => s.watcherStep step
  | index step => s.indexStep step
  | cancel => { s with cancelled := true }

/-- The watcher is running, and nobody is in a section. -/
structure SeqInit (s : SeqState) : Prop where
  seqLock : s.xal.seqLock % 2 = 0
  pc : s.pc = .loop
  index : s.index = .idle
  cancelled : s.cancelled = false

/-- Between the two increments of the watcher. -/
def SeqPc.inSection : SeqPc → Bool
  | find | openFile | readFile | closeFile _ | statFile | unlock _ => true
  | loop | read | events | setDirty | ended => false

/-- Between the two increments of `xal_be_fiemap_index`. -/
def IndexPc.inSection : IndexPc → Bool
  | body | unlock => true
  | idle | lock => false

end Xallib
