import Xallib.Watch.SeqLock

/-!
# When the sequence lock is odd

`SeqInv`: the lock is odd while one of the two writers is in its section, and never are both. It
rests on `dirty`: while it is set the watcher stands at the head of its loop, and
`xal_be_fiemap_index` is called then only. What breaks it are the steps that are not
`SeqOp.Allowed`: the index clears `dirty` before its closing increment, so the watcher may open a
section in between; and a watcher that is cancelled in its section does not close it.

`seqLock_odd_iff`: the lock tells the sections in all states of a run exactly if all its steps are
allowed.
-/

namespace Xallib

open Lib Lib.Cm Lib.Run

/-- The lock is odd exactly while a thread is in a section that modifies the pools. -/
def SeqState.Bracketed (s : SeqState) : Prop :=
  s.pc.inSection = true ∨ s.index.inSection = true ↔ s.xal.seqLock % 2 = 1

/-- The watcher opens no section while the index is in its own, and is not cancelled in its
section. -/
def SeqOp.Allowed (op : SeqOp) (s : SeqState) : Prop :=
  match op with
  | watcher (.event dir) => s.pc = .events → ∀ event batch dirInode, s.batch = event :: batch →
      eventCase .extentUpdate event dir = .file dirInode → s.index.inSection = false
  | watcher (.openFile _) => s.pc = .openFile → s.cancelled = false
  | watcher (.closeFile _) => ∀ failed, s.pc = .closeFile failed → s.cancelled = false
  | _ => True

structure SeqInv (s : SeqState) : Prop where
  bracketed : s.Bracketed
  apart : s.pc.inSection = true → s.index.inSection = false
  dirty : s.xal.dirty = true → s.pc = .loop ∨ s.pc = .ended
  calling : s.index = .lock ∨ s.index = .body → s.xal.dirty = true

theorem SeqInit.inv {s : SeqState} (h : SeqInit s) : SeqInv s := by
  obtain ⟨hlock, hpc, hindex, -⟩ := h
  constructor
  · simp [SeqState.Bracketed, hpc, hindex, hlock, SeqPc.inSection, IndexPc.inSection]
  · simp [hpc, SeqPc.inSection]
  · exact fun _ => .inl hpc
  · simp [hindex]

theorem addSeqLock_odd {δ : Type} (x : Xal δ) :
    (addSeqLock x).seqLock % 2 = 1 ↔ ¬x.seqLock % 2 = 1 := by
  show (x.seqLock + 1) % 2 ^ 32 % 2 = 1 ↔ _
  omega

section
variable {s s' : SeqState}

/-- The watcher moves on, within its section or outside. -/
theorem SeqInv.move (h : SeqInv s) (hpc : s'.pc.inSection = s.pc.inSection)
    (hlock : s'.xal.seqLock = s.xal.seqLock) (hdirty : s'.xal.dirty = s.xal.dirty)
    (hat : s.xal.dirty = true → s'.pc = .loop ∨ s'.pc = .ended) (hindex : s'.index = s.index) :
    SeqInv s' where
  bracketed := by
    rw [SeqState.Bracketed, hpc, hindex, hlock]
    exact h.bracketed
  apart := by
    rw [hpc, hindex]
    exact h.apart
  dirty := by
    rw [hdirty]
    exact hat
  calling := by
    rw [hindex, hdirty]
    exact h.calling

/-- A watcher that is not at the head of its loop has found `dirty` cleared. -/
theorem SeqInv.clean (h : SeqInv s) (h1 : s.pc ≠ .loop) (h2 : s.pc ≠ .ended) :
    s.xal.dirty = false := by
  by_contra hd
  rcases h.dirty (by simpa using hd) with hpc | hpc
  · exact h1 hpc
  · exact h2 hpc

/-- The watcher opens or closes its section. -/
theorem SeqInv.lock (h : SeqInv s) (hi : s.index.inSection = false) (hd : s.xal.dirty = false)
    (hpc : s'.pc.inSection = !s.pc.inSection) (hxal : s'.xal = addSeqLock s.xal)
    (hindex : s'.index = s.index) : SeqInv s' where
  bracketed := by
    have hb := h.bracketed
    simp only [SeqState.Bracketed, hi, Bool.false_eq_true, or_false] at hb
    simp only [SeqState.Bracketed, hpc, hindex, hi, hxal, addSeqLock_odd, ← hb,
      Bool.false_eq_true, or_false]
    simp
  apart := by
    rw [hindex]
    exact fun _ => hi
  dirty := by
    rw [hxal]
    intro hd'
    rw [show s.xal.dirty = true from hd'] at hd
    cases hd
  calling := by
    rw [hindex]
    intro hc
    rw [h.calling hc] at hd
    cases hd

end

/-! ## The steps -/

section
variable {s : SeqState}

/-- The checks of an event. -/
theorem SeqInv.event (h : SeqInv s) (hpc : s.pc = .events) {event : InotifyEvent}
    {batch : List InotifyEvent} {dir : Option XalInode} (hi : ∀ dirInode,
      eventCase .extentUpdate event dir = .file dirInode → s.index.inSection = false) :
    SeqInv (s.event event batch dir) := by
  have hd := h.clean (by rw [hpc]; decide) (by rw [hpc]; decide)
  have hin : s.pc.inSection = false := by rw [hpc]; rfl
  unfold SeqState.event
  cases hcase : eventCase .extentUpdate event dir with
  | breaking => exact h.move hin.symm rfl rfl (by simp [hd]) rfl
  | failed => exact h.move hin.symm rfl rfl (by simp [hd]) rfl
  | file dirInode => exact h.lock (hi dirInode hcase) hd (by rw [hin]; rfl) rfl rfl
  | skipped => exact h.move rfl rfl rfl (by simp [hd]) rfl

/-- A watcher that stands in `check_events` moves on, within its section or outside. -/
theorem SeqInv.goOn (h : SeqInv s) {s' : SeqState} {pc : SeqPc} (hpc : s.pc = pc) (h1 : pc ≠ .loop)
    (h2 : pc ≠ .ended) (hin : s'.pc.inSection = pc.inSection)
    (hlock : s'.xal.seqLock = s.xal.seqLock)
    (hdirty : s'.xal.dirty = s.xal.dirty) (hindex : s'.index = s.index) : SeqInv s' := by
  have hd := h.clean (by rw [hpc]; exact h1) (by rw [hpc]; exact h2)
  refine h.move (by rw [hpc, hin]) hlock hdirty (by simp [hd]) hindex

theorem SeqInv.watcherStep (h : SeqInv s) {step : WatcherStep}
    (hw : (SeqOp.watcher step).Allowed s) : SeqInv (s.watcherStep step) := by
  unfold SeqState.watcherStep
  split
  case h_1 hpc =>
    by_cases hd : s.xal.dirty = true
    · rw [if_pos hd]
      exact h
    · rw [if_neg hd]
      exact h.move (by rw [hpc]; rfl) rfl rfl (fun hd' => absurd hd' hd) rfl
  case h_2 events hpc =>
    unfold SeqState.unlessCancelled
    by_cases hc : s.cancelled = true
    · rw [if_pos hc]
      exact h.goOn hpc (by decide) (by decide) rfl rfl rfl rfl
    · rw [if_neg hc]
      by_cases he : events.isEmpty = true
      · rw [if_pos he]
        exact h.goOn hpc (by decide) (by decide) rfl rfl rfl rfl
      · rw [if_neg he]
        exact h.goOn hpc (by decide) (by decide) rfl rfl rfl rfl
  case h_3 dir hpc =>
    cases hb : s.batch with
    | nil => exact h.goOn hpc (by decide) (by decide) rfl rfl rfl rfl
    | cons event batch => exact h.event hpc fun dirInode => hw hpc event batch dirInode hb
  case h_4 child isFile hpc =>
    cases child with
    | none => exact h.goOn hpc (by decide) (by decide) rfl rfl rfl rfl
    | some inode =>
      cases isFile
      · exact h.goOn hpc (by decide) (by decide) rfl rfl rfl rfl
      · exact h.goOn hpc (by decide) (by decide) rfl rfl rfl rfl
  case h_5 failed hpc =>
    rw [SeqState.unlessCancelled, hw hpc, if_neg (by decide)]
    cases failed
    · exact h.goOn hpc (by decide) (by decide) rfl rfl rfl rfl
    · exact h.goOn hpc (by decide) (by decide) rfl rfl rfl rfl
  case h_6 store hpc => exact h.goOn hpc (by decide) (by decide) (by rw [← hpc]; rfl) rfl rfl rfl
  case h_7 failed hpc => exact h.goOn hpc (by decide) (by decide) rfl rfl rfl rfl
  case h_8 failed khPutFailed hpc =>
    rw [SeqState.unlessCancelled, hw failed hpc, if_neg (by decide)]
    refine h.goOn hpc (by simp) (by simp) ?_ rfl rfl rfl
    by_cases hf : (failed || khPutFailed) = true
    · simp only [if_pos hf]
      rfl
    · simp only [if_neg hf]
      rfl
  case h_9 size hpc =>
    cases size with
    | none => exact h.goOn hpc (by decide) (by decide) rfl rfl rfl rfl
    | some size => exact h.goOn hpc (by decide) (by decide) rfl rfl rfl rfl
  case h_10 failed hpc =>
    have hin : s.pc.inSection = true := by rw [hpc]; rfl
    refine h.lock (h.apart hin) (h.clean (by rw [hpc]; simp) (by rw [hpc]; simp)) ?_ rfl rfl
    rw [hin]
    cases failed <;> rfl
  case h_11 hpc =>
    -- `dirty` is set, and the watcher is at the head of its loop
    have hd := h.clean (by rw [hpc]; decide) (by rw [hpc]; decide)
    have hin : s.pc.inSection = false := by rw [hpc]; rfl
    have hb := h.bracketed
    refine ⟨?_, fun hin' => ?_, fun _ => .inl rfl, fun _ => rfl⟩
    · rw [SeqState.Bracketed, hin] at hb
      exact hb
    · cases hin'
  case h_12 => exact h

theorem SeqInv.indexStep (h : SeqInv s) (step : IndexStep) : SeqInv (s.indexStep step) := by
  have hat : s.xal.dirty = true → s.pc.inSection = false := by
    intro hd
    rcases h.dirty hd with hpc | hpc <;> rw [hpc] <;> rfl
  unfold SeqState.indexStep
  split
  case h_1 mountpoint hi =>
    by_cases hc : s.xal.dirty = false ∨ mountpoint.length = 0
    · rw [if_pos hc]
      exact h
    · rw [if_neg hc]
      rw [not_or, Bool.not_eq_false] at hc
      have hb := h.bracketed
      rw [SeqState.Bracketed, hi] at hb
      exact ⟨hb, fun _ => rfl, h.dirty, fun _ => hc.1⟩
  case h_2 hi =>
    have hd := h.calling (.inl hi)
    have hb := h.bracketed
    refine ⟨?_, fun hin => ?_, h.dirty, fun _ => hd⟩
    · simp only [SeqState.Bracketed, hi, hat hd] at hb
      have hodd := addSeqLock_odd s.xal
      simp only [SeqState.Bracketed, SeqState.addLock, hodd, ← hb]
      simp [IndexPc.inSection]
    · rw [show s.pc.inSection = true from hin] at hat
      exact absurd (hat hd) (by decide)
  case h_3 store rootIdx hi => exact ⟨h.bracketed, h.apart, h.dirty, h.calling⟩
  case h_4 hi =>
    have hd := h.calling (.inr hi)
    have hb := h.bracketed
    rw [SeqState.Bracketed, hi] at hb
    refine ⟨hb, fun hin => ?_, fun hd' => ?_, fun hc => ?_⟩
    · rw [show s.pc.inSection = true from hin] at hat
      exact absurd (hat hd) (by decide)
    · cases hd'
    · rcases hc with hc | hc <;> cases hc
  case h_5 hi =>
    have hd := h.calling (.inr hi)
    have hb := h.bracketed
    rw [SeqState.Bracketed, hi] at hb
    refine ⟨hb, fun hin => ?_, h.dirty, fun hc => ?_⟩
    · rw [show s.pc.inSection = true from hin] at hat
      exact absurd (hat hd) (by decide)
    · rcases hc with hc | hc <;> cases hc
  case h_6 hi =>
    have hin : s.pc.inSection = false := by
      by_contra hin
      have := h.apart (by simpa using hin)
      rw [hi] at this
      cases this
    have hb := h.bracketed
    simp only [SeqState.Bracketed, hi, hin] at hb
    refine ⟨?_, fun _ => rfl, h.dirty, fun hc => ?_⟩
    · have hodd := addSeqLock_odd s.xal
      simp only [SeqState.Bracketed, SeqState.addLock, hodd, ← hb, hin]
      simp [IndexPc.inSection]
    · rcases hc with hc | hc <;> cases hc
  case h_7 => exact h

theorem SeqInv.after (h : SeqInv s) {op : SeqOp} (hw : op.Allowed s) : SeqInv (op.after s) := by
  cases op with
  | watcher step => exact h.watcherStep hw
  | index step => exact h.indexStep step
  | cancel => exact ⟨h.bracketed, h.apart, h.dirty, h.calling⟩

/-- A watcher that ends in its section leaves the lock odd. -/
theorem SeqInv.not_bracketed (h : SeqInv s) (hin : s.pc.inSection = true) :
    ¬{ s with pc := SeqPc.ended : SeqState }.Bracketed := by
  intro hb
  have hodd := h.bracketed.1 (.inl hin)
  simp only [SeqState.Bracketed, h.apart hin] at hb
  rcases hb.2 hodd with hb | hb <;> cases hb

/-- A step after which the lock tells the sections is allowed. -/
theorem SeqInv.allowed (h : SeqInv s) {op : SeqOp} (hb : (op.after s).Bracketed) :
    op.Allowed s := by
  cases op with
  | index step => exact trivial
  | cancel => exact trivial
  | watcher step =>
    cases step with
    | event dir =>
      intro hpc event batch dirInode hbatch hcase
      by_contra hi
      have hi : s.index.inSection = true := by simpa using hi
      have hafter : (SeqOp.watcher (.event dir)).after s =
          { s.addLock with pc := .find, batch } := by
        simp only [SeqOp.after, SeqState.watcherStep, hpc, hbatch, SeqState.event, hcase]
      rw [hafter] at hb
      exact (addSeqLock_odd s.xal).1 (hb.1 (.inl rfl)) (h.bracketed.1 (.inr hi))
    | openFile failed =>
      intro hpc
      by_contra hc
      have hc : s.cancelled = true := by simpa using hc
      have hafter : (SeqOp.watcher (.openFile failed)).after s = { s with pc := .ended } := by
        simp only [SeqOp.after, SeqState.watcherStep, hpc, SeqState.unlessCancelled, if_pos hc]
      rw [hafter] at hb
      exact h.not_bracketed (by rw [hpc]; rfl) hb
    | closeFile khPutFailed =>
      intro failed hpc
      by_contra hc
      have hc : s.cancelled = true := by simpa using hc
      have hafter : (SeqOp.watcher (.closeFile khPutFailed)).after s = { s with pc := .ended } := by
        simp only [SeqOp.after, SeqState.watcherStep, hpc, SeqState.unlessCancelled, if_pos hc]
      rw [hafter] at hb
      exact h.not_bracketed (by rw [hpc]; rfl) hb
    | _ => exact trivial

end

/-! ## Without interleaving -/

/-- The states of a `struct xal` that differ in what indexing writes to the pools. -/
def Touched (x x' : Xal FiemapBe) : Prop := ∃ store rootIdx, x' = { x with store, rootIdx }

section
variable {E : FiemapEnv} {fuel : Nat} {x y : Xal FiemapBe} {s : SeqState} {α : Type}

theorem touched_onStore (h : Touched x y) (m : Fm α) :
    (onStore m y).Sat (fun _ => Touched x) (fun _ => Touched x) := by
  refine sat_zoom (Run.sat_of_forall (fun _ store => ?_) fun _ store => ?_)
  · obtain ⟨_, rootIdx, rfl⟩ := h
    exact ⟨store, rootIdx, rfl⟩
  · obtain ⟨_, rootIdx, rfl⟩ := h
    exact ⟨store, rootIdx, rfl⟩

theorem fiemapIndexBody_touched (x : Xal FiemapBe) : (fiemapIndexBody E fuel x).Sat
    (fun _ x' => ∃ y, Touched x y ∧ x' = { y with dirty := false }) (fun _ => Touched x) := by
  unfold fiemapIndexBody
  refine (touched_onStore ⟨x.store, x.rootIdx, rfl⟩ _).bind fun _ x₁ h₁ => ?_
  refine (touched_onStore h₁ _).bind fun _ x₂ h₂ => ?_
  refine (touched_onStore h₂ _).bind fun _ x₃ h₃ => ?_
  refine (touched_onStore h₃ _).bind fun rootIdx x₄ h₄ => ?_
  rw [modify_bind]
  have h₅ : Touched x { x₄ with rootIdx } := by
    obtain ⟨store, _, rfl⟩ := h₄
    exact ⟨store, rootIdx, rfl⟩
  refine (touched_onStore h₅ _).bind fun _ x₆ h₆ => ?_
  refine (touched_onStore h₆ _).bind fun _ x₇ h₇ => ?_
  exact ⟨x₇, h₇, rfl⟩

/-- The steps one after the other. -/
def SeqOp.run (ops : List SeqOp) (s : SeqState) : SeqState := ops.foldl (fun s op => op.after s) s

/-- A call of `xal_be_fiemap_index`, on its own, is a run. -/
theorem xalBeFiemapIndex_run (hi : s.index = .idle) (hd : s.xal.dirty = true)
    (hm : E.mountpoint.length ≠ 0) : (xalBeFiemapIndex E fuel s.xal).Sat
      (fun _ x' => ∃ store rootIdx, SeqOp.run [.index (.call E.mountpoint), .index .lock,
        .index (.write store rootIdx), .index .clearDirty, .index .unlock] s = { s with xal := x' })
      (fun _ x' => ∃ store rootIdx, SeqOp.run [.index (.call E.mountpoint), .index .lock,
        .index (.write store rootIdx), .index .fail, .index .unlock] s = { s with xal := x' }) := by
  have hcall : s.indexStep (.call E.mountpoint) = { s with index := .lock } := by
    simp only [SeqState.indexStep, hi, hd, hm, Bool.true_eq_false, or_self, if_false]
  unfold xalBeFiemapIndex
  rw [bind_of_ok (failIf_false hm _ _), modify_bind]
  refine sat_onExit ((fiemapIndexBody_touched (addSeqLock s.xal)).mono ?_ ?_)
  · rintro _ x' ⟨_, ⟨store, rootIdx, rfl⟩, rfl⟩
    refine ⟨store, rootIdx, ?_⟩
    rw [SeqOp.run, List.foldl_cons, SeqOp.after, hcall]
    show { s with xal := _, index := .idle : SeqState } = _
    rw [← hi]
    rfl
  · rintro _ x' ⟨store, rootIdx, rfl⟩
    refine ⟨store, rootIdx, ?_⟩
    rw [SeqOp.run, List.foldl_cons, SeqOp.after, hcall]
    show { s with xal := _, index := .idle : SeqState } = _
    rw [← hi]
    rfl

/-- The part between the two increments. -/
theorem refreshChild_run {dirInode : XalInode} {path : CStr} (hpc : s.pc = .find)
    (hc : s.cancelled = false) : (refreshChild E dirInode path s.xal).Sat
      (fun _ x' => ∃ (steps : List WatcherStep) (inode : Nat),
        SeqOp.run (steps.map .watcher) s = { s with xal := addSeqLock x', pc := .events, inode })
      (fun _ x' => ∃ (steps : List WatcherStep) (inode : Nat),
        SeqOp.run (steps.map .watcher) s =
          { s with xal := addSeqLock x', pc := .ended, inode }) := by
  obtain ⟨xal, pc, batch, inode₀, cancelled, index⟩ := s
  obtain rfl : pc = .find := hpc
  obtain rfl : cancelled = false := hc
  unfold refreshChild
  rw [read_bind]
  cases findChild xal dirInode path with
  | none => exact ⟨[.find none false, .unlock], inode₀, rfl⟩
  | some inode =>
    show (refreshFile E path inode xal).Sat _ _
    unfold refreshFile
    have hstore : (onStore (xalBeFiemapProcessInodeFile E path inode) xal).Sat
        (fun _ x' => ∃ store, x' = { xal with store })
        (fun _ x' => ∃ store, x' = { xal with store }) :=
      sat_zoom (Run.sat_of_forall (fun _ store => ⟨store, rfl⟩) fun _ store => ⟨store, rfl⟩)
    refine (hstore.mono (fun _ _ h => h) ?_).bind ?_
    · rintro _ _ ⟨store, rfl⟩
      exact ⟨[.find (some inode) true, .openFile false, .write store, .readFile true,
        .closeFile false,
        .unlock], inode, rfl⟩
    · rintro _ _ ⟨store, rfl⟩
      cases E.kernel.stat path with
      | error errno =>
        exact ⟨[.find (some inode) true, .openFile false, .write store, .readFile false,
          .closeFile false, .statFile none, .unlock], inode, rfl⟩
      | ok st => exact ⟨[.find (some inode) true, .openFile false, .write store, .readFile false,
          .closeFile false, .statFile (some st.stSize), .unlock], inode, rfl⟩

/-- What `check_events` does with an event, on its own, is a run too. -/
theorem checkEvent_run {event : InotifyEvent} {batch : List InotifyEvent} (hpc : s.pc = .events)
    (hbatch : s.batch = event :: batch) (hc : s.cancelled = false)
    (hmode : E.watchMode = .extentUpdate) :
    (checkEvent E event s.xal).Sat
      (fun ended x' => ∃ (steps : List WatcherStep) (inode : Nat),
        SeqOp.run (steps.map .watcher) s =
        { s with xal := x', pc := if ended then .setDirty else .events,
                 batch := if ended then [] else batch, inode })
      (fun _ x' => ∃ (steps : List WatcherStep) (batch : List InotifyEvent) (inode : Nat),
        SeqOp.run (steps.map .watcher) s = { s with xal := x', pc := .ended, batch, inode }) := by
  have hevent : s.watcherStep (.event (eventDir s.xal event)) =
      s.event event batch (eventDir s.xal event) := by
    simp only [SeqState.watcherStep, hpc, hbatch]
  rw [checkEvent_case, hmode]
  cases hcase : eventCase .extentUpdate event (eventDir s.xal event) with
  | breaking =>
    refine ⟨[.event (eventDir s.xal event)], s.inode, ?_⟩
    show s.watcherStep _ = _
    rw [hevent, SeqState.event, hcase]
    rfl
  | failed =>
    refine ⟨[.event (eventDir s.xal event)], [], s.inode, ?_⟩
    show s.watcherStep _ = _
    rw [hevent, SeqState.event, hcase]
  | skipped =>
    refine ⟨[.event (eventDir s.xal event)], s.inode, ?_⟩
    show s.watcherStep _ = _
    rw [hevent, SeqState.event, hcase, ← hpc]
    rfl
  | file dirInode =>
    have hopen : s.watcherStep (.event (eventDir s.xal event)) =
        { s.addLock with pc := .find, batch } := by
      rw [hevent, SeqState.event, hcase]
    have hrun := @refreshChild_run E { s.addLock with pc := .find, batch } dirInode
      (eventPath dirInode event.name) rfl hc
    refine (sat_onExit (f := addSeqLock) (hrun.mono ?_ ?_)).bind fun _ _ h => h
    · rintro _ x' ⟨steps, inode, hsteps⟩
      refine ⟨.event (eventDir s.xal event) :: steps, inode, ?_⟩
      show SeqOp.run (steps.map .watcher) (s.watcherStep _) = _
      rw [hopen, hsteps]
      rfl
    · rintro _ x' ⟨steps, inode, hsteps⟩
      refine ⟨.event (eventDir s.xal event) :: steps, batch, inode, ?_⟩
      show SeqOp.run (steps.map .watcher) (s.watcherStep _) = _
      rw [hopen, hsteps]
      rfl

end

/-! ## Every run -/

/-- The lock tells the sections in all states of a run exactly if all its steps are allowed. -/
theorem seqLock_odd_iff (ops : List SeqOp) (s : SeqState) (hs : SeqInit s) :
    (∀ x ∈ visited SeqOp.after ops s, (x.1.after x.2).Bracketed) ↔
      ∀ x ∈ visited SeqOp.after ops s, x.1.Allowed x.2 :=
  visited_iff (fun _ _ h => ⟨h.allowed, fun hw => (h.after hw).bracketed⟩)
    (fun _ _ h hw => h.after hw)
    ops s hs.inv

instance (s : SeqState) : Decidable s.Bracketed := inferInstanceAs (Decidable (_ ↔ _))

/-! ## A re-index, a watcher that is too early, and one that is cancelled -/

/-- The watcher runs over an index of the mountpoint `/m`. -/
def seqStart : SeqState where
  xal := ⟨.fiemap, default, 0, ⟨default, default, ⟨none, fun _ => none⟩⟩, false, 2, false⟩
  pc := .loop
  batch := []
  inode := 0
  cancelled := false
  index := .idle

/-- A file `/m/d/a` is created; then one is written. -/
def createdEvent : InotifyEvent := ⟨1, IN_CREATE, [97]⟩

def writtenEvent : InotifyEvent := ⟨1, IN_MODIFY, [97]⟩

/-- The directory `/m/d`. -/
def seqDir : XalInode :=
  { (default : XalInode) with ftype := ftDir, namelen := 4, name := [47, 109, 47, 100] }

/-- The watcher finds the structure changed, and the application begins to index again. -/
def reindexOps : List SeqOp :=
  [.watcher .loadDirty, .watcher (.read [createdEvent]), .watcher (.event none), .watcher .setDirty,
    .index (.call [47, 109]), .index .lock, .index (.write seqStart.xal.store 0),
      .index .clearDirty]

/-- The watcher reads a file again. -/
def refreshOps : List SeqOp :=
  [.watcher .loadDirty, .watcher (.read [writtenEvent]), .watcher (.event (some seqDir))]

def finishRefreshOps : List SeqOp :=
  [.watcher (.find (some 2) true), .watcher (.openFile false), .watcher (.write seqStart.xal.store),
    .watcher (.readFile false), .watcher (.closeFile false), .watcher (.statFile (some 1)),
    .watcher .unlock]

theorem seqStart_init : SeqInit seqStart := ⟨rfl, rfl, rfl, rfl⟩

/-- The index closes its section before the watcher opens its own. -/
theorem seqLock_odd_iff_reindex : SeqInit seqStart ∧
    ∀ x ∈ visited SeqOp.after (reindexOps ++ .index .unlock :: refreshOps ++
      finishRefreshOps) seqStart,
      x.1.Allowed x.2 :=
  ⟨seqStart_init, (seqLock_odd_iff _ _ seqStart_init).1 (by decide +kernel)⟩

/-- The lock is even while the watcher is in its section, as the index has not closed its own; and
it is odd when the watcher has been cancelled before `open`. -/
theorem seqLock_even_in_section : SeqInit seqStart ∧
    (∃ x ∈ visited SeqOp.after (reindexOps ++ refreshOps) seqStart,
      (x.1.after x.2).pc.inSection = true ∧ (x.1.after x.2).xal.seqLock % 2 = 0) ∧
    ∃ x ∈ visited SeqOp.after (refreshOps ++ [.watcher (.find (some 2) true), .cancel,
        .watcher (.openFile false)]) seqStart,
      (x.1.after x.2).pc = .ended ∧ (x.1.after x.2).index = .idle ∧
        (x.1.after x.2).xal.seqLock % 2 = 1 :=
  ⟨seqStart_init, by decide +kernel, by decide +kernel⟩

end Xallib
