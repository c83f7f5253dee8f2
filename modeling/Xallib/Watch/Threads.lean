import Xallib.Base.Types
import Xallib.Lib.Machine

/-!
# The watcher threads

`xal_watch_filesystem` and `xal_stop_watching_filesystem`, called one after the other by an
application, and the threads of `background_thread_start`, step by step: a step is an access to what
they share (`flag`, `watch_thread_id`, `dirty`), a call of `pthread_create` or `pthread_cancel`, or
a cancellation point. A request of cancellation is deferred: it takes effect when the thread passes
a cancellation point, all of which are in `check_events`, whose first one is the `read`.

`WatchOp.after`: the state after a step; where the step cannot be taken, nothing changes.
-/

namespace Xallib

/-- `XAL_BE_FIEMAP_INOTIFY_RUNNING` -/
def inotifyRunning : Nat := 1

/-- `~XAL_BE_FIEMAP_INOTIFY_RUNNING`, on the 32 bits of the flag. -/
def inotifyOther : Nat := 2 ^ 32 - 2

/-- Where a watcher stands: before `flag |= RUNNING`, before `pthread_setcancelstate`, at the head
of the loop, in `check_events` before and behind its first cancellation point, before `flag &=
~RUNNING`, and before `pthread_exit`. -/
inductive ThreadPc
  | start | setCancel | loop | check | checked | exiting | leaving
  deriving DecidableEq, Repr

/-- A watcher that is alive. -/
structure Watcher where
  id : Nat
  pc : ThreadPc
  cancelled : Bool
  deriving DecidableEq, Repr

/-- Where the application stands: before `pthread_create`, before the two calls of `pthread_cancel`,
and before it clears the flag. -/
inductive AppPc
  | idle | create | cancel | cancelAgain | clear
  deriving DecidableEq, Repr

/-- `returned` is what the last call has returned; `idleStop` is a note, which the code does not
keep: no watcher was alive when the current call of `xal_stop_watching_filesystem` began. -/
structure WatchState where
  watchMode : Bool
  indexed : Bool
  flag : Nat
  watchThreadId : Nat
  next : Nat
  threads : List Watcher
  dirty : Bool
  app : AppPc
  returned : Option Int
  idleStop : Bool
  deriving DecidableEq, Repr

/-- The steps of a watcher, with the answers of the calls it makes. -/
inductive ThreadStep
  | setRunning
  | setcancelstate (err : Nat)
  | loadDirty
  | cancellationPoint
  | checkEvents (err : Int)
  | clearRunning
  | exit

/-- The steps of the system. `pthread_cancel` returns 0 for a watcher that is alive; `err` is what
it answers for any other. Other threads may store to `dirty`. -/
inductive WatchOp
  | watch
  | pthreadCreate (err : Nat)
  | stop
  | pthreadCancel (err : Nat)
  | pthreadCancelAgain (err : Nat)
  | clearRunning
  | index
  | storeDirty (dirty : Bool)
  | thread (id : Nat) (step : ThreadStep)

namespace WatchState

variable (s : WatchState)

def running : Bool := s.flag &&& inotifyRunning != 0

/-- The call returns. -/
def ret (err : Int) : WatchState := { s with app := .idle, returned := some err }

def put (t : Watcher) (pc : ThreadPc) : WatchState :=
  { s with threads := s.threads.map fun u => if u.id = t.id then { u with pc } else u }

def drop (t : Watcher) : WatchState :=
  { s with threads := s.threads.filter fun u => u.id ≠ t.id }

/-- `pthread_cancel(watch_thread_id)` on the threads. -/
def cancel : WatchState :=
  { s with threads := s.threads.map fun u =>
      if u.id = s.watchThreadId then { u with cancelled := true } else u }

def alive (id : Nat) : Bool := s.threads.any fun t => t.id == id

def setRunning : WatchState := { s with flag := s.flag ||| inotifyRunning }

def clearRunning : WatchState := { s with flag := s.flag &&& inotifyOther }

/-- A step of the watcher `t`, as `background_thread_start` takes it. -/
def threadStep (t : Watcher) (step : ThreadStep) : WatchState :=
  match t.pc, step with
  | .start, .setRunning => s.setRunning.put t .setCancel
  | .setCancel, .setcancelstate err => s.put t (if err ≠ 0 then .exiting else .loop)
  | .loop, .loadDirty => if s.dirty then s else s.put t .check
  | .check, .cancellationPoint => if t.cancelled then s.drop t else s.put t .checked
  | .checked, .cancellationPoint => if t.cancelled then s.drop t else s
  | .checked, .checkEvents err =>
    if err < 0 then s.put t .exiting
    else if err = 0 then s.put t .loop
    else { s with dirty := true }.put t .loop
  | .exiting, .clearRunning => s.clearRunning.put t .leaving
  | .leaving, .exit => s.drop t
  | _, _ => s

/-- `xal_watch_filesystem` up to `pthread_create`. -/
def watch : WatchState :=
  if s.watchMode = false then s.ret (-EINVAL)
  else if s.running then s.ret 0
  else if s.indexed = false then s.ret (-EINVAL)
  else { s with app := .create }

def pthreadCreate (err : Nat) : WatchState :=
  if err ≠ 0 then s.ret (-err)
  else { s with
    threads := ⟨s.next, .start, false⟩ :: s.threads
    watchThreadId := s.next
    next := s.next + 1 }.ret 0

/-- `xal_stop_watching_filesystem` up to the first `pthread_cancel`: the test is on the other bits
of the flag. -/
def stop : WatchState :=
  let s := { s with idleStop := s.threads.isEmpty }
  if s.watchMode = false then s.ret (-EINVAL)
  else if s.flag &&& inotifyOther ≠ 0 then s.ret (-EINVAL)
  else { s with app := .cancel }

def pthreadCancelAgain (err : Nat) : WatchState :=
  let err := if s.alive s.watchThreadId then 0 else err
  if err ≠ 0 then s.cancel.ret (-err) else { s.cancel with app := .clear }

end WatchState

/-- The operation, where the application can call it. -/
def WatchOp.after (op : WatchOp) (s : WatchState) : WatchState :=
  match op, s.app with
  | watch, .idle => s.watch
  | pthreadCreate err, .create => s.pthreadCreate err
  | stop, .idle => s.stop
  -- the answer of the first call is not looked at
  | pthreadCancel _, .cancel => { s.cancel with app := .cancelAgain }
  | pthreadCancelAgain err, .cancelAgain => s.pthreadCancelAgain err
  | clearRunning, .clear => s.clearRunning.ret 0
  | index, _ => { s with indexed := true }
  | storeDirty dirty, _ => { s with dirty }
  | thread id step, _ =>
    match s.threads.find? fun t => t.id == id with
    | some t => s.threadStep t step
    | none => s
  | _, _ => s

/-- Just opened, with any watch mode. -/
structure WatchInit (s : WatchState) : Prop where
  flag : s.flag = 0
  threads : s.threads = []
  app : s.app = .idle

end Xallib
