import Xallib.E2E.Paths
import Xallib.Watch.Dirty

/-!
# No structural change goes unnoticed

`DirtyState.Noticed`: where the queue is empty, no batch and no call of `xal_index` is in progress
and `dirty` is clear, the index has the structure of the file system. `no_change_unnoticed`: this
holds in every state of a run whose steps are all `DirtyOp.Allowed`. The others are:

* a call of `xal_index` clears `dirty`, which the watcher has set since it began: the change may be
  to a directory that was read before;
* in the mode of extent updates, an overflow event is handled, which no branch of `check_events` is
  for;
* the watcher ends with an error while events are left in its batch.

`DirtyInv` carries the proof: while a change is not in the index, or not in what a call of it has
found, its event is still to be handled, or `dirty` is set and is not going to be cleared.
-/

namespace Xallib

open Lib Lib.Cm Lib.Run

/-! ## What a call finds -/

/-- What a call has found, and what it has not read yet, is as `K` answers. -/
structure Consistent (K : Kernel) (mountpoint : CStr) (found todo : List PathNode) : Prop where
  root : ([], fiemapRoot mountpoint) ∈ found
  left : ∀ p ∈ todo, p ∈ found
  listed : ∀ p ∈ found, FiemapListed K mountpoint p.1 p.2
  entries : ∀ p ∈ found, p.2.dir = true → p ∉ todo → ∀ c ∈ entriesOf K p, c ∈ found

section
variable {K : Kernel} {mountpoint : CStr} {found todo : List PathNode} {p c : PathNode}

theorem mem_entriesOf : c ∈ entriesOf K p ↔ c.2 ∈ fiemapKids K p.2 ∧ c.1 = p.1 ++ [c.2.base] := by
  obtain ⟨q, d⟩ := c
  simp only [entriesOf, List.mem_map, Prod.mk.injEq]
  constructor
  · rintro ⟨d, hd, rfl, rfl⟩
    exact ⟨hd, rfl⟩
  · rintro ⟨hd, rfl⟩
    exact ⟨d, hd, rfl, rfl⟩

theorem Consistent.begin (K : Kernel) (mountpoint : CStr) : Consistent K mountpoint
    [([], fiemapRoot mountpoint)] [([], fiemapRoot mountpoint)] where
  root := List.mem_singleton_self _
  left _ h := h
  listed p hp := by
    obtain rfl := List.mem_singleton.1 hp
    exact .root
  entries p hp _ hn := absurd hp hn

/-- Reading one directory. -/
theorem Consistent.read (h : Consistent K mountpoint found (p :: todo)) : Consistent K mountpoint
    (found ++ entriesOf K p) ((entriesOf K p).filter (·.2.dir) ++ todo) where
  root := List.mem_append_left _ h.root
  left c hc := by
    rw [List.mem_append] at hc ⊢
    rcases hc with hc | hc
    · exact .inr (List.mem_filter.1 hc).1
    · exact .inl (h.left c (List.mem_cons_of_mem _ hc))
  listed c hc := by
    rcases List.mem_append.1 hc with hc | hc
    · exact h.listed c hc
    · obtain ⟨hkid, hpath⟩ := mem_entriesOf.1 hc
      rw [hpath]
      exact (h.listed p (h.left p List.mem_cons_self)).kid hkid
  entries c hc hdir hn d hd := by
    rw [List.mem_append, not_or] at hn
    rw [List.mem_append]
    by_cases hcp : c = p
    · subst hcp
      exact .inr hd
    · rcases List.mem_append.1 hc with hc | hc
      · refine .inl (h.entries c hc hdir (fun hmem => ?_) d hd)
        rcases List.mem_cons.1 hmem with h0 | h0
        · exact hcp h0
        · exact hn.2 h0
      · exact absurd (List.mem_filter.2 ⟨hc, hdir⟩) hn.1

/-- A call that has read all directories has found what the file system lists. -/
theorem Consistent.found_iff (h : Consistent K mountpoint found []) {q : List CStr}
    {d : FiemapNode} :
    (q, d) ∈ found ↔ FiemapListed K mountpoint q d := by
  constructor
  · exact h.listed (q, d)
  · intro hl
    induction hl with
    | root => exact h.root
    | @kid q c c' _ hc ih =>
      have hdir : c.dir = true := by
        by_contra hdir
        rw [fiemapKids, if_neg hdir] at hc
        cases hc
      exact h.entries _ ih hdir List.not_mem_nil _ (mem_entriesOf.2 ⟨hc, rfl⟩)

/-- Where the operating system gives the same answers throughout, `xal_index` has an inode for each
node that such a call finds. -/
theorem Consistent.indexed {shm : Bool} {E : FiemapEnv} {x y : Xal FiemapBe} {fuel : Nat}
    (h : Consistent E.kernel E.mountpoint found []) (hx : FiemapReach shm x) (hE : FiemapCall E x)
    (hr : xalIndex (xalBeFiemapIndex E fuel) x = .ok () y) {q : List CStr} {d : FiemapNode} :
    (∃ i, SlotAt y (fiemapKids E.kernel) FiemapNode.base (fiemapRoot E.mountpoint) q i d) ↔
      (q, d) ∈ found := by
  obtain ⟨⟨-, -, hroot, -, -⟩, k, hk⟩ := hx.done hE hr
  rw [h.found_iff]
  exact (hk.tree hroot).listed_iff

end

/-! ## Events -/

/-- The event tells of a structural change, or stands for events that were dropped. -/
def InotifyEvent.Telling (event : InotifyEvent) : Prop :=
  event.structural = true ∨ event.has IN_Q_OVERFLOW = true

/-- Handling the event, `check_events` returns with an error. -/
def EventFails (mode : XalWatchmode) (event : InotifyEvent) (dir : Option XalInode)
    (failed : Bool) :
    Prop :=
  match eventCase mode event dir with
  | .failed => True
  | .file _ => failed = true
  | .breaking | .skipped => False

theorem eventCase_of_structural {mode : XalWatchmode} {event : InotifyEvent}
    (h : event.structural = true) (dir : Option XalInode) :
    eventCase mode event dir = .breaking := by
  simp only [InotifyEvent.structural, Bool.and_eq_true, Bool.not_eq_true'] at h
  obtain ⟨⟨hbreak, hunmount⟩, hmodify⟩ := h
  unfold eventCase
  by_cases hm : mode = .dirtyDetection
  · rw [if_pos hm]
  · rw [if_neg hm, hunmount, hmodify, if_neg Bool.false_ne_true, if_neg Bool.false_ne_true,
      if_pos hbreak]

theorem overflowEvent_telling : overflowEvent.Telling := .inr (by decide)

/-! ## The invariant -/

namespace DirtyState

/-- An event is still to be handled, or has been and `dirty` is about to be set. -/
def Pending (s : DirtyState) : Prop :=
  (∃ event ∈ s.queue ++ s.batch, event.Telling) ∨ s.pc = .setDirty

/-- Paths and types of the index are those of the file system. -/
def SameStructure (s : DirtyState) : Prop := ∀ q dir,
  (∃ c, (q, c) ∈ s.index ∧ c.dir = dir) ↔ ∃ c, FiemapListed s.kernel s.mountpoint q c ∧ c.dir = dir

/-- At rest with `dirty` clear, the index is that of the file system (module doc). -/
def Noticed (s : DirtyState) : Prop := s.queue = [] → s.pc ≠ .events → s.pc ≠ .setDirty →
  s.app = none → s.dirty = false → s.SameStructure

end DirtyState

/-- The step is none of those that lose a change (module doc). -/
def DirtyOp.Allowed (op : DirtyOp) (s : DirtyState) : Prop :=
  match op with
  | clearDirty => ∀ call, s.app = some call → call.todo = [] → s.dirty = true → call.began = true
  | event dir failed => s.pc = .events → ∀ e rest, s.batch = e :: rest →
      (s.mode = .extentUpdate → e.has IN_Q_OVERFLOW = false) ∧
        (EventFails s.mode e dir failed → ∀ e' ∈ rest, ¬e'.Telling)
  | _ => True

/-- The invariant (module doc). -/
structure DirtyInv (s : DirtyState) : Prop where
  mode : s.mode ≠ .none
  dirty : s.dirty = true → s.pc = .loop ∨ s.pc = .off
  batch : s.pc ≠ .events → s.batch = []
  began : ∀ call, s.app = some call → call.began = true → s.dirty = true
  rest : s.app = none → Consistent s.kernel s.mountpoint s.index [] ∨ s.Pending ∨ s.dirty = true
  call : ∀ call, s.app = some call → Consistent s.kernel s.mountpoint call.found call.todo ∨
    s.Pending ∨ s.dirty = true ∧ call.began = false

theorem DirtyInit.inv {s : DirtyState} (h : DirtyInit s) : DirtyInv s := by
  obtain ⟨hmode, -, hdirty, hpc, hbatch, happ⟩ := h
  refine ⟨hmode, fun _ => .inr hpc, fun _ => hbatch, ?_, ?_, ?_⟩
  · intro call hcall hb
    obtain rfl := Option.some.inj (happ.symm.trans hcall)
    cases hb
  · intro h0
    rw [happ] at h0
    cases h0
  · intro call hcall
    obtain rfl := Option.some.inj (happ.symm.trans hcall)
    exact .inl (.begin _ _)

theorem DirtyInv.noticed {s : DirtyState} (h : DirtyInv s) : s.Noticed := by
  intro hqueue hevents hset happ hdirty
  have hno : ¬s.Pending := by
    rintro (⟨e, he, -⟩ | h0)
    · rw [hqueue, h.batch hevents] at he
      cases he
    · exact hset h0
  rcases h.rest happ with hc | hp | hd
  · intro q dir
    simp only [hc.found_iff]
  · exact absurd hp hno
  · rw [hdirty] at hd
    cases hd

section
variable {s s' : DirtyState}

/-- A step of the watcher or the kernel: the call of `xal_index` and what it has stored stay. What
is pending stays pending, or `dirty` is set. -/
theorem DirtyInv.move (h : DirtyInv s) (hmode : s'.mode = s.mode)
    (hmnt : s'.mountpoint = s.mountpoint)
    (hindex : s'.index = s.index) (happ : s'.app = s.app)
    (hdirty : s'.dirty = true → s'.pc = .loop ∨ s'.pc = .off)
    (hbatch : s'.pc ≠ .events → s'.batch = [])
    (hkeep : s.dirty = true → s'.dirty = true)
    (hchange : s'.kernel = s.kernel ∨ s'.Pending)
    (hpending : s.Pending → s'.Pending ∨ s.dirty = false ∧ s'.dirty = true) : DirtyInv s' := by
  refine ⟨by rw [hmode]; exact h.mode, hdirty, hbatch, ?_, ?_, ?_⟩
  · rw [happ]
    exact fun call hcall hb => hkeep (h.began call hcall hb)
  · rw [happ, hindex, hmnt]
    intro h0
    rcases hchange with hk | hp
    · rw [hk]
      rcases h.rest h0 with hc | hp | hd
      · exact .inl hc
      · rcases hpending hp with hp' | ⟨-, hd'⟩
        · exact .inr (.inl hp')
        · exact .inr (.inr hd')
      · exact .inr (.inr (hkeep hd))
    · exact .inr (.inl hp)
  · rw [happ, hmnt]
    intro call hcall
    rcases hchange with hk | hp
    · rw [hk]
      rcases h.call call hcall with hc | hp | ⟨hd, hb⟩
      · exact .inl hc
      · rcases hpending hp with hp' | ⟨hd, hd'⟩
        · exact .inr (.inl hp')
        · refine .inr (.inr ⟨hd', Bool.eq_false_iff.2 fun h0 => ?_⟩)
          rw [h.began call hcall h0] at hd
          cases hd
      · exact .inr (.inr ⟨hkeep hd, hb⟩)
    · exact .inr (.inl hp)

theorem DirtyState.Pending.mono (h : s.Pending)
    (hevents : ∀ e ∈ s.queue ++ s.batch, e.Telling → e ∈ s'.queue ++ s'.batch)
    (hpc : s.pc = .setDirty → s'.pc = .setDirty) : s'.Pending := by
  rcases h with ⟨e, he, ht⟩ | h
  · exact .inl ⟨e, hevents e he ht, ht⟩
  · exact .inr (hpc h)

/-! ### The file system and the kernel -/

theorem mem_enqueue {e e' : InotifyEvent} (h : e ∈ s.queue ++ s.batch) :
    e ∈ (s.enqueue e').queue ++ (s.enqueue e').batch := by
  rw [List.mem_append] at h
  show e ∈ s.queue ++ [e'] ++ s.batch
  rw [List.mem_append, List.mem_append]
  rcases h with h | h
  · exact .inl (.inl h)
  · exact .inr h

theorem DirtyInv.enqueue (h : DirtyInv s) {kernel : Kernel} {e : InotifyEvent}
    (hk : kernel = s.kernel ∨ e.Telling) : DirtyInv { s.enqueue e with kernel } := by
  refine h.move rfl rfl rfl rfl h.dirty h.batch id ?_ fun hp =>
    .inl (hp.mono (fun _ he _ => mem_enqueue he) id)
  rcases hk with rfl | ht
  · exact .inl rfl
  · exact .inr (.inl ⟨e, List.mem_append_left _
      (List.mem_append_right _ (List.mem_singleton_self e)), ht⟩)

theorem DirtyInv.change (h : DirtyInv s) (kernel : Kernel) (event : Option InotifyEvent) :
    DirtyInv (s.change kernel event) := by
  cases event with
  | none =>
    show DirtyInv { s.overflow with kernel }
    unfold DirtyState.overflow
    by_cases hlast : s.queue.getLast? = some overflowEvent
    · rw [if_pos hlast]
      have hmem : overflowEvent ∈ s.queue ++ s.batch :=
        List.mem_append_left _ (List.mem_of_getLast? hlast)
      exact h.move rfl rfl rfl rfl h.dirty h.batch id
        (.inr (.inl ⟨_, hmem, overflowEvent_telling⟩)) .inl
    · rw [if_neg hlast]
      exact h.enqueue (.inr overflowEvent_telling)
  | some e =>
    show DirtyInv (if e.structural then { s.enqueue e with kernel } else s)
    by_cases hs : e.structural = true
    · rw [if_pos hs]
      exact h.enqueue (.inr (.inl hs))
    · rw [if_neg hs]
      exact h

theorem DirtyInv.notify (h : DirtyInv s) (e : InotifyEvent) : DirtyInv (s.notify e) := by
  unfold DirtyState.notify
  split
  · exact h
  · exact h.enqueue (.inl rfl)

/-! ### The watcher -/

/-- A watcher that is not at the head of its loop has found `dirty` cleared. -/
theorem DirtyInv.clean (h : DirtyInv s) (h1 : s.pc ≠ .loop) (h2 : s.pc ≠ .off) :
    s.dirty = false := by
  by_contra hd
  rcases h.dirty (by simpa using hd) with hpc | hpc
  · exact h1 hpc
  · exact h2 hpc

/-- The watcher moves on without an event. -/
theorem DirtyInv.goto (h : DirtyInv s) {pc : DirtyPc} (hset : s.pc ≠ .setDirty)
    (hbatch : s.batch = [])
    (hdirty : s.dirty = true → pc = .loop ∨ pc = .off) : DirtyInv { s with pc } :=
  h.move rfl rfl rfl rfl hdirty (fun _ => hbatch) id (.inl rfl) fun hp =>
    .inl (hp.mono (fun _ he _ => he) fun h0 => absurd h0 hset)

theorem DirtyInv.start (h : DirtyInv s) (failed : Bool) : DirtyInv (s.start failed) := by
  unfold DirtyState.start
  by_cases hc : s.pc = .off ∧ s.app.isNone ∧ failed = false
  · rw [if_pos hc]
    exact h.goto (by rw [hc.1]; decide) (h.batch (by rw [hc.1]; decide)) fun _ => .inl rfl
  · rw [if_neg hc]
    exact h

theorem DirtyInv.read (h : DirtyInv s) (hpc : s.pc = .read) (n : Nat) : DirtyInv (s.read n) := by
  have hset : s.pc ≠ .setDirty := by rw [hpc]; decide
  have hbatch : s.batch = [] := h.batch (by rw [hpc]; decide)
  have hclean : s.dirty = false := h.clean (by rw [hpc]; decide) (by rw [hpc]; decide)
  unfold DirtyState.read
  by_cases hn : (s.queue.take n).isEmpty = true
  · rw [if_pos hn]
    exact h.goto hset hbatch fun _ => .inl rfl
  · rw [if_neg hn]
    refine h.move rfl rfl rfl rfl (fun hd => absurd (hclean.symm.trans hd) Bool.false_ne_true)
      (fun h0 => absurd rfl h0) id (.inl rfl)
      fun hp => .inl (hp.mono (fun e he _ => ?_) fun h0 => absurd h0 hset)
    rw [hbatch, List.append_nil, ← List.take_append_drop n s.queue] at he
    show e ∈ s.queue.drop n ++ s.queue.take n
    rw [List.mem_append] at he ⊢
    exact he.symm

/-- Handling the first event of the batch. -/
theorem DirtyInv.event (h : DirtyInv s) (hpc : s.pc = .events) {e : InotifyEvent}
    {rest : List InotifyEvent} (hb : s.batch = e :: rest) {dir : Option XalInode} {failed : Bool}
    (hoverflow : s.mode = .extentUpdate → e.has IN_Q_OVERFLOW = false)
    (hfails : EventFails s.mode e dir failed → ∀ e' ∈ rest, ¬e'.Telling) :
    DirtyInv (s.event e rest dir failed) := by
  have hset : s.pc ≠ .setDirty := by rw [hpc]; decide
  have hclean : s.dirty = false := h.clean (by rw [hpc]; decide) (by rw [hpc]; decide)
  -- an event that does not end `check_events` with 1 tells of nothing
  have hquiet : eventCase s.mode e dir ≠ .breaking → ¬e.Telling := by
    intro hne ht
    have hmode : s.mode = .extentUpdate := by
      cases hm : s.mode with
      | none => exact absurd hm h.mode
      | dirtyDetection => exact absurd (by rw [hm]; rfl) hne
      | extentUpdate => rfl
    rcases ht with hs | ho
    · exact hne (eventCase_of_structural hs dir)
    · rw [hoverflow hmode] at ho
      cases ho
  have hpass : ¬e.Telling → DirtyInv { s with batch := rest } := fun ht =>
    h.move rfl rfl rfl rfl h.dirty (fun h0 => absurd hpc h0) id (.inl rfl) fun hp =>
      .inl (hp.mono (fun e' he' ht' => by
        rw [hb, List.mem_append, List.mem_cons] at he'
        rcases he' with h0 | rfl | h0
        · exact List.mem_append_left _ h0
        · exact absurd ht' ht
        · exact List.mem_append_right _ h0) id)
  have hfail : ¬e.Telling → (∀ e' ∈ rest, ¬e'.Telling) → DirtyInv s.fail := fun ht hrest =>
    h.move rfl rfl rfl rfl (fun hd => absurd (hclean.symm.trans hd) Bool.false_ne_true)
      (fun _ => rfl) id (.inl rfl) fun hp =>
      .inl (hp.mono (fun e' he' ht' => by
        rw [hb, List.mem_append, List.mem_cons] at he'
        rcases he' with h0 | rfl | h0
        · exact List.mem_append_left _ h0
        · exact absurd ht' ht
        · exact absurd ht' (hrest e' h0)) fun h0 => absurd h0 hset)
  unfold EventFails at hfails
  unfold DirtyState.event
  cases hcase : eventCase s.mode e dir with
  | breaking =>
    exact h.move rfl rfl rfl rfl (fun hd => absurd (hclean.symm.trans hd) Bool.false_ne_true)
      (fun _ => rfl) id (.inl rfl) fun _ =>
      .inl (.inr rfl)
  | failed =>
    rw [hcase] at hfails
    exact hfail (hquiet (by rw [hcase]; exact EventCase.noConfusion)) (hfails trivial)
  | file dirInode =>
    rw [hcase] at hfails
    have ht := hquiet (by rw [hcase]; exact EventCase.noConfusion)
    cases failed with
    | true => exact hfail ht (hfails rfl)
    | false => exact hpass ht
  | skipped => exact hpass (hquiet (by rw [hcase]; exact EventCase.noConfusion))

theorem DirtyInv.setDirty (h : DirtyInv s) (hpc : s.pc = .setDirty) :
    DirtyInv { s with pc := .loop, dirty := true } := by
  have hclean : s.dirty = false := h.clean (by rw [hpc]; decide) (by rw [hpc]; decide)
  exact h.move rfl rfl rfl rfl (fun _ => .inl rfl) (fun _ => h.batch (by rw [hpc]; decide))
    (fun _ => rfl) (.inl rfl) fun _ => .inr ⟨hclean, rfl⟩

theorem DirtyInv.watcher (h : DirtyInv s) {op : DirtyOp} (ha : op.Allowed s) :
    DirtyInv (s.watcher op) := by
  unfold DirtyState.watcher
  split
  · next hpc =>
    by_cases hd : s.dirty = true
    · rw [if_pos hd]
      exact h
    · rw [if_neg hd]
      exact h.goto (by rw [hpc]; decide) (h.batch (by rw [hpc]; decide)) fun h0 => absurd h0 hd
  · next hpc => exact h.read hpc _
  · next dir failed hpc =>
    have hclean : s.dirty = false := h.clean (by rw [hpc]; decide) (by rw [hpc]; decide)
    split
    · next hb =>
        exact h.goto (by rw [hpc]; decide) hb fun hd =>
          absurd (hclean.symm.trans hd) Bool.false_ne_true
    · next e rest hb =>
      obtain ⟨hoverflow, hfails⟩ := ha hpc e rest hb
      exact h.event hpc hb hoverflow hfails
  · next hpc => exact h.setDirty hpc
  · exact h

/-! ### The index -/

theorem DirtyInv.index (h : DirtyInv s) :
    DirtyInv { s with app := some (s.indexing s.dirty) } where
  mode := h.mode
  dirty := h.dirty
  batch := h.batch
  began call hcall hb := by
    obtain rfl := Option.some.inj hcall
    exact hb
  rest h0 := by cases h0
  call call hcall := by
    obtain rfl := Option.some.inj hcall
    exact .inl (.begin _ _)

theorem DirtyInv.readDir (h : DirtyInv s) {call : Indexing} (hcall : s.app = some call)
    {p : PathNode}
    {rest : List PathNode} (htodo : call.todo = p :: rest) :
    DirtyInv { s with app := some { call with
      found := call.found ++ entriesOf s.kernel p
      todo := (entriesOf s.kernel p).filter (·.2.dir) ++ rest } } where
  mode := h.mode
  dirty := h.dirty
  batch := h.batch
  began c hc hb := by
    obtain rfl := Option.some.inj hc
    exact h.began call hcall hb
  rest h0 := by cases h0
  call c hc := by
    obtain rfl := Option.some.inj hc
    rcases h.call call hcall with hfound | hp | hd
    · rw [htodo] at hfound
      exact .inl hfound.read
    · exact .inr (.inl hp)
    · exact .inr (.inr hd)

theorem DirtyInv.clearDirty (h : DirtyInv s) {call : Indexing} (hcall : s.app = some call)
    (htodo : call.todo = []) (ha : s.dirty = true → call.began = true) :
    DirtyInv { s with index := call.found, dirty := false, app := none } where
  mode := h.mode
  dirty hd := by cases hd
  batch := h.batch
  began c hc := by cases hc
  rest _ := by
    rcases h.call call hcall with hfound | hp | ⟨hd, hb⟩
    · rw [htodo] at hfound
      exact .inl hfound
    · exact .inr (.inl hp)
    · rw [ha hd] at hb
      cases hb
  call c hc := by cases hc

theorem DirtyInv.step (h : DirtyInv s) {op : DirtyOp} (ha : op.Allowed s) :
    DirtyInv (op.after s) := by
  unfold DirtyOp.after
  split
  · exact h.change _ _
  · exact h.notify _
  · exact h.start _
  · exact h.index
  · next call hcall =>
    unfold DirtyState.indexStep
    split
    · next p rest _ htodo =>
      split
      · exact h
      · exact h.readDir hcall htodo
    · next h0 _ => cases h0
    · exact h
  · next call hcall =>
    unfold DirtyState.indexStep
    split
    · next h0 _ => cases h0
    · next htodo => exact h.clearDirty hcall htodo (ha call hcall htodo)
    · exact h
  · exact h.watcher ha

end

/-- In a run whose steps are allowed, no structural change goes unnoticed. -/
theorem no_change_unnoticed (s : DirtyState)
    (h : Reach DirtyInit (fun s s' => ∃ op : DirtyOp, op.Allowed s ∧ s' = op.after s) s) :
    s.Noticed := by
  refine DirtyInv.noticed (h.invariant (fun _ h0 => h0.inv) ?_)
  rintro s _ hI ⟨op, ha, rfl⟩
  exact hI.step ha

/-! ## Runs -/

/-- `/m`, and the same with the file `a`. -/
def emptyKernel : Kernel := tableKernel [([47, 109], [])] []

def fileKernel : Kernel := tableKernel [([47, 109], [[97]])] [([47, 109, 47, 97], [])]

def createEvent : InotifyEvent := ⟨0, IN_CREATE, [97]⟩

def writeEvent : InotifyEvent := ⟨0, IN_CLOSE_WRITE, [97]⟩

def deleteEvent : InotifyEvent := ⟨0, IN_DELETE, [97]⟩

/-- The first call of `xal_index` on `/m` has begun. -/
def dirtyOpened (mode : XalWatchmode) (kernel : Kernel) : DirtyState :=
  ⟨mode, [47, 109], kernel, [], false, .off, [], [],
    some ⟨false, [([], fiemapRoot [47, 109])], [([], fiemapRoot [47, 109])]⟩⟩

theorem dirtyOpened_init {mode : XalWatchmode} (h : mode ≠ .none) (kernel : Kernel) :
    DirtyInit (dirtyOpened mode kernel) :=
  ⟨h, rfl, rfl, rfl, rfl, rfl⟩

def runDirty (mode : XalWatchmode) (kernel : Kernel) (ops : List DirtyOp) : DirtyState :=
  ops.foldl (fun s op => op.after s) (dirtyOpened mode kernel)

/-- Some run, with any steps. -/
def DirtyReach : DirtyState → Prop := Reach DirtyInit fun s s' => ∃ op : DirtyOp, s' = op.after s

theorem runDirty_reach {mode : XalWatchmode} (h : mode ≠ .none) (kernel : Kernel)
    (ops : List DirtyOp) :
    DirtyReach (runDirty mode kernel ops) := by
  have hrun : Reach DirtyInit (fun s s' => ∃ op : DirtyOp, True ∧ s' = op.after s)
      (runDirty mode kernel ops) :=
    reach_of_visited ops (.init (dirtyOpened_init h kernel)) fun _ _ => trivial
  exact hrun.mono fun _ _ ⟨op, _, hs⟩ => ⟨op, hs⟩

/-- A file is created; the watcher sets `dirty`, and `xal_index` clears it. -/
def createdOps : List DirtyOp :=
  [.readDir, .clearDirty, .start false, .change fileKernel (some createEvent), .loadDirty, .read 1,
    .event none false, .setDirty, .index, .readDir, .clearDirty]

theorem createdOps_allowed :
    ∀ x ∈ visited DirtyOp.after createdOps (dirtyOpened .extentUpdate emptyKernel),
      x.1.Allowed x.2 := by
  simp only [createdOps, visited, List.forall_mem_cons]
  refine ⟨trivial, fun _ _ _ hd => ?_, trivial, trivial, trivial, trivial, fun _ e rest hb => ?_,
    trivial, trivial, trivial, fun call hcall _ _ => ?_, fun _ h => absurd h List.not_mem_nil⟩
  · cases hd
  · obtain ⟨rfl, rfl⟩ := List.cons.inj hb
    exact ⟨fun _ => rfl, fun _ _ h => absurd h List.not_mem_nil⟩
  · obtain rfl := Option.some.inj hcall
    rfl

theorem no_change_unnoticed_created : (runDirty .extentUpdate emptyKernel createdOps).Noticed :=
  no_change_unnoticed _ (reach_of_visited createdOps (.init (dirtyOpened_init (by decide) _))
    createdOps_allowed)

/-! ## Changes that are lost -/

/-- The event of a file that is created is dropped, and the one in its place is skipped. -/
def droppedOps : List DirtyOp :=
  [.readDir, .clearDirty, .start false, .change fileKernel none, .loadDirty, .read 1,
    .event none false,
    .event none false, .read 0]

/-- `xal_index` has read the directory when the file is created, and the watcher sets `dirty` before
it is cleared. -/
def clearedOps : List DirtyOp :=
  [.readDir, .clearDirty, .start false, .index, .readDir, .change fileKernel (some createEvent),
    .loadDirty, .read 1, .event none false, .setDirty, .clearDirty]

/-- A file is written, and deleted; the watcher cannot read it again, and drops the second event. -/
def failedOps : List DirtyOp :=
  [.readDir, .clearDirty, .start false, .notify writeEvent, .change emptyKernel (some deleteEvent),
    .loadDirty, .read 2, .event (some { (default : XalInode) with ftype := ftDir }) true]

theorem fileKernel_listed : FiemapListed fileKernel [47, 109] [[97]]
    (fiemapEntry fileKernel [47, 109] [97]) := by
  have hkid : fiemapEntry fileKernel [47, 109] [97] ∈
      fiemapKids fileKernel (fiemapRoot [47, 109]) :=
    List.mem_singleton_self _
  exact Found.root.kid hkid

theorem emptyKernel_listed {q : List CStr} {c : FiemapNode}
    (h : FiemapListed emptyKernel [47, 109] q c) :
    q = [] := by
  have hkids : fiemapKids emptyKernel (fiemapRoot [47, 109]) = [] := rfl
  rcases (listed_flat (by simp [hkids])).1 h with ⟨hq, -⟩ | ⟨hc, -⟩
  · exact hq
  · rw [hkids] at hc
    cases hc

section
variable {s : DirtyState} (hqueue : s.queue = []) (hevents : s.pc ≠ .events)
  (hset : s.pc ≠ .setDirty)
  (happ : s.app = none) (hdirty : s.dirty = false) (hmnt : s.mountpoint = [47, 109])
include hqueue hevents hset happ hdirty hmnt

theorem not_noticed_created (hindex : s.index = [([], fiemapRoot [47, 109])])
    (hkernel : s.kernel = fileKernel) : ¬s.Noticed := by
  intro h
  have hsame := h hqueue hevents hset happ hdirty [[97]] false
  rw [hindex, hkernel, hmnt] at hsame
  obtain ⟨c, hc, -⟩ := hsame.2 ⟨_, fileKernel_listed, rfl⟩
  cases List.mem_singleton.1 hc

theorem not_noticed_deleted
    (hindex : s.index = ([], fiemapRoot [47, 109]) :: entriesOf fileKernel
      ([], fiemapRoot [47, 109]))
    (hkernel : s.kernel = emptyKernel) : ¬s.Noticed := by
  intro h
  have hsame := h hqueue hevents hset happ hdirty [[97]] false
  rw [hindex, hkernel, hmnt] at hsame
  obtain ⟨c, hc, -⟩ := hsame.1 ⟨fiemapEntry fileKernel [47, 109] [97],
    List.mem_cons_of_mem _ (List.mem_singleton_self _), rfl⟩
  cases emptyKernel_listed hc

end

/-- Steps that are not allowed, one of each kind, leave a change unnoticed. -/
theorem no_change_unnoticed_lost :
    (∃ s, DirtyReach s ∧ s.mode = .extentUpdate ∧ s.pc = .loop ∧ ¬s.Noticed) ∧
    (∀ mode ≠ .none, ∃ s, DirtyReach s ∧ s.mode = mode ∧ s.pc = .loop ∧ ¬s.Noticed) ∧
    ∃ s, DirtyReach s ∧ s.mode = .extentUpdate ∧ s.pc = .off ∧ ¬s.Noticed := by
  have hext : XalWatchmode.extentUpdate ≠ .none := by decide
  refine ⟨⟨runDirty .extentUpdate emptyKernel droppedOps, runDirty_reach hext _ _, rfl, rfl, ?_⟩,
    fun mode hmode => ⟨runDirty mode emptyKernel clearedOps, runDirty_reach hmode _ _, ?_⟩,
    ⟨runDirty .extentUpdate fileKernel failedOps, runDirty_reach hext _ _, by decide +kernel,
      by decide +kernel, ?_⟩⟩
  · exact not_noticed_created rfl DirtyPc.noConfusion DirtyPc.noConfusion rfl rfl rfl rfl rfl
  · cases mode with
    | none => exact absurd rfl hmode
    | dirtyDetection =>
      exact ⟨rfl, rfl,
        not_noticed_created rfl DirtyPc.noConfusion DirtyPc.noConfusion rfl rfl rfl rfl rfl⟩
    | extentUpdate =>
      exact ⟨rfl, rfl,
        not_noticed_created rfl DirtyPc.noConfusion DirtyPc.noConfusion rfl rfl rfl rfl rfl⟩
  · refine not_noticed_deleted ?_ ?_ ?_ ?_ ?_ ?_ ?_ ?_
    · decide +kernel
    · decide +kernel
    · decide +kernel
    · rfl
    · decide +kernel
    · decide +kernel
    · rfl
    · rfl

end Xallib
