import Xallib.Watch.Threads

/-!
# At most one watcher

`WatchInv`: the invariant of the watcher threads, kept by every step that is `WatchOp.Allowed`
(`WatchInv.after`). What it rests on: a watcher that is past its start, is not leaving and has not
been cancelled has its `RUNNING` flag set, so `xal_watch_filesystem` does not start another.

`one_watcher`: in every run whose steps are all allowed, two watchers are never alive, and
`xal_stop_watching_filesystem` fails where none is.
-/

namespace Xallib

open Lib

/-- The step makes a call of `xal_stop_watching_filesystem` return `err`. -/
def WatchOp.StopReturns (op : WatchOp) (s : WatchState) (err : Int) : Prop :=
  (op = .stop ∧ s.app = .idle ∨ (∃ e, op = .pthreadCancelAgain e) ∧ s.app = .cancelAgain ∨
    op = .clearRunning ∧ s.app = .clear) ∧
  (op.after s).app = .idle ∧ (op.after s).returned = some err

structure WatchOp.Fine (op : WatchOp) (s : WatchState) : Prop where
  one : (op.after s).threads.length ≤ 1
  stop : ∀ err, op.StopReturns s err → (op.after s).idleStop = true →
    err < 0 ∧ (op.after s).threads = s.threads

/-- A watch that would start a watcher finds none that is about to set `RUNNING`, has been
cancelled, or is leaving; and `pthread_cancel` tells where there is none to cancel. -/
def WatchOp.Allowed (op : WatchOp) (s : WatchState) : Prop :=
  match op with
  | watch => s.running = true ∨
      ∀ t ∈ s.threads, t.pc ≠ .start ∧ t.pc ≠ .leaving ∧ t.cancelled = false
  | pthreadCancelAgain err => s.idleStop = true → err ≠ 0
  | _ => True

/-- At most one watcher thread, that of `watchThreadId`, and what each stage of a call relies on. -/
structure WatchInv (s : WatchState) : Prop where
  one : s.threads.length ≤ 1
  id : ∀ t ∈ s.threads, t.id = s.watchThreadId
  running : ∀ t ∈ s.threads, t.pc ≠ .start → t.pc ≠ .leaving → t.cancelled = false →
    s.running = true
  creating : s.app = .create → s.threads = []
  cancelled : s.app = .cancelAgain ∨ s.app = .clear → ∀ t ∈ s.threads, t.cancelled = true
  idleStop : s.app = .cancel ∨ s.app = .cancelAgain ∨ s.app = .clear → s.idleStop = true →
    s.threads = []
  clearing : s.app = .clear → s.idleStop = false

theorem WatchInit.inv {s : WatchState} (h : WatchInit s) : WatchInv s := by
  have hnil := h.threads
  have happ := h.app
  constructor <;> simp [hnil, happ]

theorem running_setRunning (s : WatchState) : s.setRunning.running = true := by
  have h : (s.flag ||| inotifyRunning) &&& inotifyRunning = 1 := by
    rw [Nat.and_or_distrib_right, inotifyRunning, Nat.and_self, Nat.and_one_is_mod]
    rcases Nat.mod_two_eq_zero_or_one s.flag with h | h <;> rw [h] <;> rfl
  show ((s.flag ||| inotifyRunning) &&& inotifyRunning != 0) = true
  rw [h]
  rfl

theorem WatchInv.threads_cases {s : WatchState} (h : WatchInv s) :
    s.threads = [] ∨ ∃ t, s.threads = [t] := by
  have hone := h.one
  cases ht : s.threads with
  | nil => exact .inl rfl
  | cons t l =>
    cases l with
    | nil => exact .inr ⟨t, rfl⟩
    | cons u l => rw [ht, List.length_cons, List.length_cons] at hone; omega

/-! ## The steps of a watcher -/

section
variable {s s' : WatchState} {t t' : Watcher}

/-- The watcher moves on. -/
theorem WatchInv.move (h : WatchInv s) (ht : s.threads = [t]) (ht' : s'.threads = [t'])
    (hid : t'.id = t.id) (hc : t'.cancelled = t.cancelled)
    (hrun : t'.pc ≠ .start → t'.pc ≠ .leaving → t.cancelled = false → s'.running = true)
    (happ : s'.app = s.app) (hwid : s'.watchThreadId = s.watchThreadId)
    (hidle : s'.idleStop = s.idleStop) : WatchInv s' where
  one := by rw [ht']; exact Nat.le_refl 1
  id u hu := by
    rw [ht', List.mem_singleton] at hu
    rw [hu, hid, hwid]
    exact h.id t (by rw [ht]; exact List.mem_singleton_self t)
  running u hu h1 h2 h3 := by
    rw [ht', List.mem_singleton] at hu
    subst hu
    exact hrun h1 h2 (hc ▸ h3)
  creating ha := by
    rw [happ] at ha
    rw [h.creating ha] at ht
    cases ht
  cancelled ha u hu := by
    rw [ht', List.mem_singleton] at hu
    rw [happ] at ha
    rw [hu, hc]
    exact h.cancelled ha t (by rw [ht]; exact List.mem_singleton_self t)
  idleStop ha hi := by
    rw [happ] at ha
    rw [hidle] at hi
    rw [h.idleStop ha hi] at ht
    cases ht
  clearing ha := by
    rw [happ] at ha
    rw [hidle]
    exact h.clearing ha

/-- No watcher is alive any more. -/
theorem WatchInv.ended (h : WatchInv s) (ht' : s'.threads = []) (happ : s'.app = s.app)
    (hidle : s'.idleStop = s.idleStop) : WatchInv s' where
  one := by rw [ht']; exact Nat.zero_le 1
  id u hu := by rw [ht'] at hu; cases hu
  running u hu := by rw [ht'] at hu; cases hu
  creating _ := ht'
  cancelled _ u hu := by rw [ht'] at hu; cases hu
  idleStop _ _ := ht'
  clearing ha := by
    rw [happ] at ha
    rw [hidle]
    exact h.clearing ha

theorem put_threads (ht : s.threads = [t]) (pc : ThreadPc) :
    (s.put t pc).threads = [{ t with pc }] := by
  show s.threads.map _ = _
  rw [ht]
  exact congrArg (· :: []) (if_pos rfl)

theorem drop_threads (ht : s.threads = [t]) : (s.drop t).threads = [] := by
  show s.threads.filter _ = _
  rw [ht]
  simp

/-- A watcher past its start moves on within the loop. -/
theorem WatchInv.put (h : WatchInv s) (ht : s.threads = [t]) (hs : t.pc ≠ .start)
    (hl : t.pc ≠ .leaving) (pc : ThreadPc) : WatchInv (s.put t pc) := by
  refine h.move ht (put_threads ht pc) rfl rfl (fun _ _ hc => ?_) rfl rfl rfl
  exact h.running t (by rw [ht]; exact List.mem_singleton_self t) hs hl hc

theorem WatchInv.drop (h : WatchInv s) (ht : s.threads = [t]) : WatchInv (s.drop t) :=
  h.ended (drop_threads ht) rfl rfl

theorem WatchInv.threadStep (h : WatchInv s) (ht : s.threads = [t]) (step : ThreadStep) :
    WatchInv (s.threadStep t step) := by
  unfold WatchState.threadStep
  split
  case h_1 =>
    -- the start sets the flag
    refine h.move ht (put_threads (s := s.setRunning) ht .setCancel) rfl rfl (fun _ _ _ => ?_)
      rfl rfl rfl
    exact running_setRunning s
  case h_2 err hpc => exact h.put ht (by rw [hpc]; decide) (by rw [hpc]; decide) _
  case h_3 hpc =>
    split
    · exact h
    · exact h.put ht (by rw [hpc]; decide) (by rw [hpc]; decide) _
  case h_4 hpc =>
    split
    · exact h.drop ht
    · exact h.put ht (by rw [hpc]; decide) (by rw [hpc]; decide) _
  case h_5 hpc =>
    split
    · exact h.drop ht
    · exact h
  case h_6 err hpc =>
    have hs : t.pc ≠ .start := by rw [hpc]; decide
    have hl : t.pc ≠ .leaving := by rw [hpc]; decide
    split
    · exact h.put ht hs hl _
    · split
      · exact h.put ht hs hl _
      · have hd : WatchInv { s with dirty := true } := h.move ht ht rfl rfl
          (fun _ _ hc => h.running t (by rw [ht]; exact List.mem_singleton_self t) hs hl hc)
          rfl rfl rfl
        exact hd.put ht hs hl _
  case h_7 =>
    -- the flag is cleared, and the watcher is leaving
    exact h.move ht (put_threads (s := s.clearRunning) ht .leaving) rfl rfl
      (fun _ hl => absurd rfl hl) rfl rfl rfl
  case h_8 => exact h.drop ht
  case h_9 => exact h

end

/-! ## The calls -/

section
variable {s : WatchState}

/-- A call returns; no watcher has changed. -/
theorem WatchInv.ret (h : WatchInv s) (err : Int) : WatchInv (s.ret err) where
  one := h.one
  id := h.id
  running := h.running
  creating ha := by cases ha
  cancelled ha := by rcases ha with ha | ha <;> cases ha
  idleStop ha := by rcases ha with ha | ha | ha <;> cases ha
  clearing ha := by cases ha

theorem WatchInv.watch (h : WatchInv s) (hw : WatchOp.watch.Allowed s) : WatchInv s.watch := by
  unfold WatchState.watch
  by_cases hm : s.watchMode = false
  · rw [if_pos hm]; exact h.ret _
  rw [if_neg hm]
  by_cases hr : s.running = true
  · rw [if_pos hr]; exact h.ret _
  rw [if_neg hr]
  by_cases hi : s.indexed = false
  · rw [if_pos hi]; exact h.ret _
  rw [if_neg hi]
  -- a watcher that is alive would have its flag set
  have hnil : s.threads = [] := by
    refine List.eq_nil_iff_forall_not_mem.2 fun t ht => ?_
    obtain ⟨h1, h2, h3⟩ := (hw.resolve_left hr) t ht
    exact hr (h.running t ht h1 h2 h3)
  refine ⟨h.one, h.id, h.running, fun _ => hnil, fun ha => ?_, fun ha => ?_, fun ha => ?_⟩
  · rcases ha with ha | ha <;> cases ha
  · rcases ha with ha | ha | ha <;> cases ha
  · cases ha

theorem WatchInv.pthreadCreate (h : WatchInv s) (ha : s.app = .create) (err : Nat) :
    WatchInv (s.pthreadCreate err) := by
  unfold WatchState.pthreadCreate
  by_cases he : err ≠ 0
  · rw [if_pos he]; exact h.ret _
  · rw [if_neg he]
    have hnil := h.creating ha
    have hnew : ∀ u ∈ ⟨s.next, .start, false⟩ :: s.threads, u = ⟨s.next, .start, false⟩ := by
      rw [hnil]
      exact fun u hu => List.mem_singleton.1 hu
    refine ⟨?_, fun u hu => ?_, fun u hu h1 => ?_, fun ha => ?_, fun ha => ?_, fun ha => ?_,
      fun ha => ?_⟩
    · show (_ :: s.threads).length ≤ 1
      rw [hnil]
      exact Nat.le_refl 1
    · rw [hnew u hu]
      rfl
    · rw [hnew u hu] at h1
      exact absurd rfl h1
    · cases ha
    · rcases ha with ha | ha <;> cases ha
    · rcases ha with ha | ha | ha <;> cases ha
    · cases ha

theorem WatchInv.stop (h : WatchInv s) : WatchInv s.stop := by
  have h' : WatchInv { s with idleStop := s.threads.isEmpty, app := .idle } := by
    refine ⟨h.one, h.id, h.running, fun ha => ?_, fun ha => ?_, fun ha => ?_, fun ha => ?_⟩
    · cases ha
    · rcases ha with ha | ha <;> cases ha
    · rcases ha with ha | ha | ha <;> cases ha
    · cases ha
  unfold WatchState.stop
  dsimp only
  by_cases hm : s.watchMode = false
  · rw [if_pos hm]; exact h'.ret _
  rw [if_neg hm]
  by_cases ho : s.flag &&& inotifyOther ≠ 0
  · rw [if_pos ho]; exact h'.ret _
  rw [if_neg ho]
  refine ⟨h.one, h.id, h.running, fun ha => ?_, fun ha => ?_, fun _ hi => List.isEmpty_iff.1 hi,
    fun ha => ?_⟩
  · cases ha
  · rcases ha with ha | ha <;> cases ha
  · cases ha

/-- The one watcher there may be is cancelled. -/
theorem WatchInv.cancel_threads (h : WatchInv s) : ∀ t ∈ s.cancel.threads, t.cancelled = true := by
  intro t ht
  obtain ⟨u, hu, rfl⟩ := List.mem_map.1 ht
  rw [if_pos (h.id u hu)]

theorem cancel_nil (hs : s.threads = []) : s.cancel.threads = [] := by
  show s.threads.map _ = []
  rw [hs]
  rfl

/-- The request is made, and the application goes on at `app`. -/
theorem WatchInv.cancel (h : WatchInv s) (app : AppPc) (happ : app ≠ .create)
    (hidle : s.idleStop = true → s.threads = []) (hclear : app = .clear → s.idleStop = false) :
    WatchInv { s.cancel with app } where
  one := by
    show (s.threads.map _).length ≤ 1
    rw [List.length_map]
    exact h.one
  id t ht := by
    obtain ⟨u, hu, rfl⟩ := List.mem_map.1 ht
    rw [if_pos (h.id u hu)]
    exact h.id u hu
  running t ht _ _ hc := by
    rw [h.cancel_threads t ht] at hc
    cases hc
  creating ha := absurd ha happ
  cancelled _ := h.cancel_threads
  idleStop _ hi := cancel_nil (hidle hi)
  clearing := hclear

theorem WatchInv.pthreadCancelAgain (h : WatchInv s) (ha : s.app = .cancelAgain) {err : Nat}
    (hw : (WatchOp.pthreadCancelAgain err).Allowed s) : WatchInv (s.pthreadCancelAgain err) := by
  have hidle := h.idleStop (.inr (.inl ha))
  unfold WatchState.pthreadCancelAgain
  dsimp only
  generalize he : (if s.alive s.watchThreadId = true then 0 else err) = e
  by_cases h0 : e ≠ 0
  · rw [if_pos h0]
    exact (h.cancel .cancelAgain (by decide) hidle (fun h => by cases h)).ret _
  · rw [if_neg h0]
    refine h.cancel .clear (by decide) hidle fun _ => ?_
    -- none alive would have made the call return
    by_contra hi
    have hi : s.idleStop = true := by simpa using hi
    have hdead : s.alive s.watchThreadId = false := by rw [WatchState.alive, hidle hi]; rfl
    rw [hdead, if_neg (by decide)] at he
    exact h0 (he ▸ hw hi)

theorem WatchInv.clearRunning (h : WatchInv s) (ha : s.app = .clear) :
    WatchInv (s.clearRunning.ret 0) where
  one := h.one
  id := h.id
  running t ht _ _ hc := by
    rw [h.cancelled (.inr ha) t ht] at hc
    cases hc
  creating ha := by cases ha
  cancelled ha := by rcases ha with ha | ha <;> cases ha
  idleStop ha := by rcases ha with ha | ha | ha <;> cases ha
  clearing ha := by cases ha

end

/-! ## Every run -/

variable {s : WatchState}

theorem WatchInv.after (op : WatchOp) (h : WatchInv s) (hw : op.Allowed s) :
    WatchInv (op.after s) := by
  unfold WatchOp.after
  split
  case h_1 => exact h.watch hw
  case h_2 err ha => exact h.pthreadCreate ha err
  case h_3 => exact h.stop
  case h_4 err ha =>
    exact h.cancel .cancelAgain (by decide) (h.idleStop (.inl ha)) fun h => by cases h
  case h_5 err ha => exact h.pthreadCancelAgain ha hw
  case h_6 ha => exact h.clearRunning ha
  case h_7 => exact ⟨h.one, h.id, h.running, h.creating, h.cancelled, h.idleStop, h.clearing⟩
  case h_8 => exact ⟨h.one, h.id, h.running, h.creating, h.cancelled, h.idleStop, h.clearing⟩
  case h_9 _ id step =>
    rcases h.threads_cases with hnil | ⟨t, ht⟩
    · rw [hnil]; exact h
    · rw [ht, List.find?_cons]
      cases t.id == id with
      | true => exact h.threadStep ht step
      | false => exact h
  case h_10 => exact h

theorem pthreadCancelAgain_idleStop (s : WatchState) (err : Nat) :
    (s.pthreadCancelAgain err).idleStop = s.idleStop := by
  unfold WatchState.pthreadCancelAgain
  generalize (if s.alive s.watchThreadId = true then 0 else err) = e
  dsimp only
  by_cases h : e ≠ 0
  · rw [if_pos h]; rfl
  · rw [if_neg h]; rfl

/-- A step keeps to one watcher, and a call of `xal_stop_watching_filesystem` that it ends fails
where none is alive. -/
theorem WatchInv.fine (op : WatchOp) (h : WatchInv s) (hw : op.Allowed s) : op.Fine s := by
  refine ⟨(h.after op hw).one, fun err hret hidle => ?_⟩
  obtain ⟨hop, happ, hreturned⟩ := hret
  rcases hop with ⟨rfl, ha⟩ | ⟨⟨e, rfl⟩, ha⟩ | ⟨rfl, ha⟩
  · -- the first checks have failed
    simp only [WatchOp.after, ha] at happ hreturned ⊢
    unfold WatchState.stop at happ hreturned ⊢
    dsimp only at happ hreturned ⊢
    by_cases hm : s.watchMode = false
    · rw [if_pos hm] at hreturned ⊢
      obtain rfl := Option.some.inj hreturned
      exact ⟨by decide, rfl⟩
    rw [if_neg hm] at happ hreturned ⊢
    by_cases ho : s.flag &&& inotifyOther ≠ 0
    · rw [if_pos ho] at hreturned ⊢
      obtain rfl := Option.some.inj hreturned
      exact ⟨by decide, rfl⟩
    · rw [if_neg ho] at happ
      cases happ
  · -- there is none to cancel, and the call tells so
    have hi : s.idleStop = true := by
      simp only [WatchOp.after, ha, pthreadCancelAgain_idleStop] at hidle
      exact hidle
    have hnil := h.idleStop (.inr (.inl ha)) hi
    have hdead : s.alive s.watchThreadId = false := by rw [WatchState.alive, hnil]; rfl
    have he : e ≠ 0 := hw hi
    simp only [WatchOp.after, ha, WatchState.pthreadCancelAgain, hdead, Bool.false_eq_true,
      ↓reduceIte, if_pos he] at hreturned ⊢
    obtain rfl := Option.some.inj hreturned
    refine ⟨by omega, ?_⟩
    show s.cancel.threads = s.threads
    rw [cancel_nil hnil, hnil]
  · simp only [WatchOp.after, ha] at hidle
    have hc := h.clearing ha
    have hidle : s.idleStop = true := hidle
    rw [hc] at hidle
    cases hidle

/-- In every run whose steps are all allowed, no two watchers are alive, and
`xal_stop_watching_filesystem` fails where none is. -/
theorem one_watcher (ops : List WatchOp) (s : WatchState) (hs : WatchInit s)
    (hops : ∀ x ∈ visited WatchOp.after ops s, x.1.Allowed x.2) :
    ∀ x ∈ visited WatchOp.after ops s, x.1.Fine x.2 :=
  visited_safe (fun op _ h hw => h.fine op hw) (fun op _ h hw => h.after op hw) ops s hs.inv hops

instance (op : WatchOp) (s : WatchState) : Decidable (op.Allowed s) :=
  match op with
  | .watch => inferInstanceAs (Decidable (_ ∨ _))
  | .pthreadCancelAgain _ => inferInstanceAs (Decidable (_ → _))
  | .pthreadCreate _ => .isTrue trivial
  | .stop => .isTrue trivial
  | .pthreadCancel _ => .isTrue trivial
  | .clearRunning => .isTrue trivial
  | .index => .isTrue trivial
  | .storeDirty _ => .isTrue trivial
  | .thread _ _ => .isTrue trivial

/-- Opened with a watch mode, and indexed. -/
def watchReady : WatchState := ⟨true, true, 0, 0, 1, [], false, .idle, none, false⟩

theorem watchReady_init : WatchInit watchReady := ⟨rfl, rfl, rfl⟩

/-- A watcher is started, runs, and is stopped; it is asked for twice, and stopped twice. -/
def oneWatcherRun : List WatchOp :=
  [.watch, .pthreadCreate 0, .thread 1 .setRunning, .thread 1 (.setcancelstate 0), .watch,
    .thread 1 .loadDirty, .stop, .pthreadCancel 0, .pthreadCancelAgain 0, .clearRunning,
    .thread 1 .cancellationPoint, .stop, .pthreadCancel 3, .pthreadCancelAgain 3, .watch]

theorem one_watcher_run : WatchInit watchReady ∧
    ∀ x ∈ visited WatchOp.after oneWatcherRun watchReady, x.1.Fine x.2 :=
  ⟨watchReady_init, one_watcher oneWatcherRun watchReady watchReady_init (by decide)⟩

/-- A second watch before the first watcher has set its flag. -/
def twoWatchersRun : List WatchOp := [.watch, .pthreadCreate 0, .watch, .pthreadCreate 0]

/-- A watcher ends because of an error, and is stopped. -/
def lateStopRun : List WatchOp :=
  [.watch, .pthreadCreate 0, .thread 1 .setRunning, .thread 1 (.setcancelstate 0),
    .thread 1 .loadDirty, .thread 1 .cancellationPoint, .thread 1 (.checkEvents (-EINVAL)),
    .thread 1 .clearRunning, .thread 1 .exit, .stop, .pthreadCancel 0, .pthreadCancelAgain 0,
    .clearRunning]

theorem two_watchers :
    (∃ x ∈ visited WatchOp.after twoWatchersRun watchReady,
      (x.1.after x.2).threads = [⟨2, .start, false⟩, ⟨1, .start, false⟩]) ∧
    ∃ x ∈ visited WatchOp.after lateStopRun watchReady,
      x.1.StopReturns x.2 0 ∧ (x.1.after x.2).idleStop = true := by
  constructor
  · exact ⟨_, .tail _ (.tail _ (.tail _ (.head _))), by decide⟩
  · refine ⟨_, .tail _ (.tail _ (.tail _ (.tail _ (.tail _ (.tail _ (.tail _ (.tail _ (.tail _
      (.tail _ (.tail _ (.tail _ (.head _)))))))))))), ⟨.inr (.inr ⟨rfl, rfl⟩), rfl, rfl⟩, rfl⟩

end Xallib
