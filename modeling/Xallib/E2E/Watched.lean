import Xallib.E2E.Lookup
import Xallib.Fiemap.Proof.Refresh

/-!
# An index under the watcher

`Watched E₀ x₀ x₁ x`: `x₁` has been indexed from `x₀`, and `x` is what events of the watcher have
made of it. `WatchReach`: the states of a `struct xal` over its life, which calls of `xal_index` and
these events make up.

`Tended x₁ x`: the invariant of `x`. The watcher only writes sizes and extents of regular files, and
the map of watch descriptors leads to directories of the tree (`FiemapRooted.watch_cases`), so that
the children it finds are in the tree as well (`Tended.child`).
-/

namespace Xallib

open Lib Lib.Forest Lib.Cm Lib.Run

/-! ## The map of watch descriptors -/

section
variable {E : FiemapEnv} {mem : Nat → XalInode} {wd d : Nat} {map : Nat → Option Nat}

theorem watchInode_cases {path : CStr} {v : XalInode} {slot : Nat}
    (h : watchInode E path v slot map wd = some d) :
    map wd = some d ∨ d = slot ∧ v.ftype = ftDir := by
  unfold watchInode at h
  by_cases hd : v.ftype = ftDir ∧ E.watchMode ≠ .none
  · rw [if_pos hd] at h
    cases hw : E.kernel.addWatch path with
    | error errno =>
      rw [hw] at h
      exact .inl h
    | ok wd' =>
      rw [hw] at h
      by_cases hwd : wd = wd'
      · have hslot : some slot = some d := by simpa [hwd] using h
        exact .inr ⟨(Option.some.inj hslot).symm, hd.1⟩
      · exact .inl (by simpa [hwd] using h)
  · rw [if_neg hd] at h
    exact .inl h

/-- Indexing watches the directories of the tree. -/
theorem watchAll_cases {f : Forest XalInode} {p slot lo : Nat} (hp : Placed Node mem f p slot lo)
    (hs : slot + f.width ≤ lo) (h : watchAll E f slot lo map wd = some d) :
    map wd = some d ∨ Occ f slot lo d ∧ (mem d).ftype = ftDir := by
  induction f generalizing p slot lo map with
  | nil => exact .inl h
  | cons v k r ihk ihr =>
    obtain ⟨hv, -, hk, hr⟩ := hp
    have hks := size_eq k
    simp only [width_cons] at hs
    simp only [Occ, width_cons, deep_cons]
    rcases ihr hr (by omega) h with h | ⟨hocc, hd⟩
    · rcases ihk hk (Nat.le_refl _) h with h | ⟨hocc, hd⟩
      · rcases watchInode_cases h with h | ⟨rfl, hd⟩
        · exact .inl h
        · exact .inr ⟨by omega, by rw [hv]; exact hd⟩
      · simp only [Occ] at hocc
        exact .inr ⟨by omega, hd⟩
    · simp only [Occ] at hocc
      exact .inr ⟨by omega, hd⟩

end

section
variable {E : FiemapEnv} {be : FiemapBe} {slot wd d i : Nat} {x : Xal FiemapBe}
  {k : Forest XalInode}

theorem FiemapRooted.watch_cases (h : FiemapRooted E (beCleared E be) slot x k)
    (hmode : E.watchMode ≠ .none) (hwd : x.store.be.inodeMap wd = some d) :
    slot ≤ d ∧ d < x.store.inodes.free ∧ (x.store.inodes.memory d).ftype = ftDir := by
  obtain ⟨-, -, hkids, -⟩ := h.placed
  have hks := size_eq k
  rw [h.watched] at hwd
  rw [h.free]
  rcases watchAll_cases hkids (Nat.le_refl _) hwd with hwd | ⟨hocc, hd⟩
  · rcases watchInode_cases hwd with hwd | ⟨rfl, -⟩
    · rw [beCleared, if_neg hmode] at hwd
      cases hwd
    · exact ⟨Nat.le_refl _, by omega, h.ftype⟩
  · simp only [Occ] at hocc
    exact ⟨by omega, by omega, hd⟩

/-- The extents of a file of the tree are claimed. -/
theorem FiemapRooted.extents_le (h : FiemapRooted E be slot x k) (h1 : slot ≤ i)
    (h2 : i < x.store.inodes.free) (hfile : (x.store.inodes.memory i).ftype = ftRegFile)
    (hcount : (x.store.inodes.memory i).content.count ≠ 0) :
    (x.store.inodes.memory i).content.idx + (x.store.inodes.memory i).content.count ≤
      x.store.extents.free := by
  obtain ⟨e, hstaged⟩ := h.staged
  have hocc : Occ (.cons (x.store.inodes.memory slot) k .nil) slot (slot + 1) i := by
    simp only [Occ, width_cons, width_nil, deep_cons, deep_nil]
    rw [h.free] at h2
    omega
  obtain ⟨l, hl⟩ := (mem_visits (d := 0) (by simp)).2 hocc
  have hmem : x.store.inodes.memory i ∈
      (Forest.cons (x.store.inodes.memory slot) k .nil).nodes := by
    rw [← h.placed.map_visits 0]
    exact List.mem_map_of_mem hl
  have hbound := (hstaged.bound _ hmem (by rw [exts_file hfile]; exact hcount)).2
  rw [exts_file hfile] at hbound
  exact hbound

end

/-! ## Events -/

/-- The index `x₁` after some events (module doc). -/
structure Tended (x₁ x : Xal FiemapBe) : Prop where
  ok : StoreOk x.store
  type_eq : x.type = x₁.type
  sb : x.sb = x₁.sb
  sharedView : x.sharedView = x₁.sharedView
  rootIdx : x.rootIdx = x₁.rootIdx
  free : x.store.inodes.free = x₁.store.inodes.free
  same : ∀ i, ∃ size content, x.store.inodes.memory i =
    { x₁.store.inodes.memory i with size := size, content := content }
  others : ∀ i, (x₁.store.inodes.memory i).ftype ≠ ftRegFile →
    x.store.inodes.memory i = x₁.store.inodes.memory i
  extents_le : ∀ i, x.rootIdx ≤ i → i < x.store.inodes.free →
    (x.store.inodes.memory i).ftype = ftRegFile →
    (x.store.inodes.memory i).content.count ≠ 0 →
    (x.store.inodes.memory i).content.idx + (x.store.inodes.memory i).content.count ≤
      x.store.extents.free
  inodeMap : x.store.be.inodeMap = x₁.store.be.inodeMap

section
variable {E : FiemapEnv} {be : FiemapBe} {slot i d : Nat} {x₁ x : Xal FiemapBe}
  {k : Forest XalInode} {s' : Store FiemapBe}

theorem Tended.refl (hok : StoreOk x.store) (h : FiemapRooted E be slot x k)
    (hroot : x.rootIdx = slot) : Tended x x where
  ok := hok
  type_eq := rfl
  sb := rfl
  sharedView := rfl
  rootIdx := rfl
  free := rfl
  same i := ⟨_, _, rfl⟩
  others _ _ := rfl
  extents_le i h1 h2 := h.extents_le (by omega) h2
  inodeMap := rfl

theorem Tended.ftype (h : Tended x₁ x) (i : Nat) :
    (x.store.inodes.memory i).ftype = (x₁.store.inodes.memory i).ftype := by
  obtain ⟨_, _, hi⟩ := h.same i
  rw [hi]

theorem Tended.name (h : Tended x₁ x) (i : Nat) :
    (x.store.inodes.memory i).name = (x₁.store.inodes.memory i).name := by
  obtain ⟨_, _, hi⟩ := h.same i
  rw [hi]

/-- The lock plays no part. -/
theorem Tended.addSeqLock (h : Tended x₁ x) : Tended x₁ (Xallib.addSeqLock x) :=
  ⟨h.ok, h.type_eq, h.sb, h.sharedView, h.rootIdx, h.free, h.same, h.others,
    h.extents_le, h.inodeMap⟩

/-- The size and the extents of a file have been written. -/
theorem Tended.file (h : Tended x₁ x) (hfile : (x.store.inodes.memory i).ftype = ftRegFile)
    (hok : StoreOk s') (hfree : s'.inodes.free = x.store.inodes.free)
    (hkeep : ∀ j, j ≠ i → s'.inodes.memory j = x.store.inodes.memory j) {size : Nat}
    {content : XalContent} (hi : s'.inodes.memory i =
      { x.store.inodes.memory i with size := size, content := content })
    (hle : x.store.extents.free ≤ s'.extents.free)
    (hcontent : content = (x.store.inodes.memory i).content ∨
      content.idx + content.count ≤ s'.extents.free)
    (hmap : s'.be.inodeMap = x.store.be.inodeMap) : Tended x₁ { x with store := s' } where
  ok := hok
  type_eq := h.type_eq
  sb := h.sb
  sharedView := h.sharedView
  rootIdx := h.rootIdx
  free := hfree.trans h.free
  same j := by
    obtain ⟨size', content', hj⟩ := h.same j
    by_cases hji : j = i
    · subst hji
      exact ⟨size, content, by rw [hi, hj]⟩
    · exact ⟨size', content', (hkeep j hji).trans hj⟩
  others j hj := by
    have hji : j ≠ i := fun h0 => hj (by rw [h0, ← h.ftype]; exact hfile)
    exact (hkeep j hji).trans (h.others j hj)
  extents_le j h1 h2 hf hcount := by
    change (s'.inodes.memory j).ftype = ftRegFile at hf
    change (s'.inodes.memory j).content.count ≠ 0 at hcount
    show (s'.inodes.memory j).content.idx + (s'.inodes.memory j).content.count ≤ s'.extents.free
    have hold := h.extents_le j h1 (by rw [← hfree]; exact h2)
    by_cases hji : j = i
    · subst hji
      rw [hi] at hcount ⊢
      rcases hcontent with rfl | hcontent
      · exact Nat.le_trans (hold hfile hcount) hle
      · exact hcontent
    · rw [hkeep j hji] at hf hcount ⊢
      exact Nat.le_trans (hold hf hcount) hle
  inodeMap := hmap.trans h.inodeMap

theorem Tended.stored (h : Tended x₁ x) (hfile : (x.store.inodes.memory i).ftype = ftRegFile)
    {l : List XalExtent} (hs : FileStored l i x.store s') : Tended x₁ { x with store := s' } := by
  have hle := hs.extents_free
  refine h.file hfile hs.ok hs.free hs.keep hs.file (by omega) ?_ (by rw [hs.be])
  by_cases hl : l = []
  · exact .inl (if_pos hl)
  · refine .inr ?_
    rw [contentAfter, if_neg hl]
    show x.store.extents.free + l.length ≤ _
    omega

theorem Tended.resized (h : Tended x₁ x) (hfile : (x.store.inodes.memory i).ftype = ftRegFile)
    (hlt : i < x.store.inodes.free) (size : Nat) :
    Tended x₁ { x with store := x.store.putInode i { x.store.inodes.memory i with size } } :=
  h.file hfile (h.ok.putInode hlt _) rfl (fun _ hj => putInode_other _ _ _ hj)
    (putInode_same _ _ _) (Nat.le_refl _) (.inl rfl) rfl

/-- The map of paths has been written. -/
theorem Tended.maps (h : Tended x₁ x) {be : FiemapBe} (hbe : be.inodeMap = x.store.be.inodeMap) :
    Tended x₁ { x with store := { x.store with be } } :=
  ⟨⟨h.ok.inodes, h.ok.extents⟩, h.type_eq, h.sb, h.sharedView, h.rootIdx, h.free, h.same, h.others,
    h.extents_le, hbe.trans h.inodeMap⟩

end

theorem findChild_some {x : Xal FiemapBe} {v : XalInode} {path : CStr} {i : Nat}
    (h : findChild x v path = some i) : v.content.idx ≤ i ∧ i < v.content.idx + v.content.count ∧
      (x.store.inodes.memory i).name = path := by
  have hmem := List.mem_of_find?_eq_some h
  have hname := List.find?_some h
  obtain ⟨j, hj, rfl⟩ := List.mem_map.1 hmem
  rw [List.mem_range] at hj
  exact ⟨by omega, by omega, Std.compare_eq_iff_eq.1 (beq_iff_eq.1 hname)⟩

theorem findChild_isSome {x : Xal FiemapBe} {v : XalInode} {i : Nat} (h1 : v.content.idx ≤ i)
    (h2 : i < v.content.idx + v.content.count) :
    (findChild x v (x.store.inodes.memory i).name).isSome := by
  unfold findChild
  rw [List.find?_isSome]
  refine ⟨i, List.mem_map.2 ⟨i - v.content.idx, List.mem_range.2 (by omega), by omega⟩, ?_⟩
  exact beq_iff_eq.2 (Std.compare_eq_iff_eq.2 rfl)

section
variable {E E₀ : FiemapEnv} {be : FiemapBe} {i d : Nat} {x₁ x x' : Xal FiemapBe}
  {k : Forest XalInode} {path : CStr}

/-- Reading a file again. -/
theorem Tended.process (h : Tended x₁ x) (hE : FiemapCall E x) (hlt : i < x.store.inodes.free) :
    (onStore (xalBeFiemapProcessInodeFile E path i) x).Sat
      (fun _ x' => Tended x₁ x' ∧ (x'.store.inodes.memory i).ftype = ftRegFile)
        (fun _ => Tended x₁) := by
  by_cases hfile : (x.store.inodes.memory i).ftype = ftRegFile
  · refine sat_zoom ((processInodeFile_stored hE.extents h.ok hlt).mono (fun _ s' hs => ?_)
      fun _ s' hs => ?_)
    · have hstored := (h.stored hfile hs.toFileStored).maps hs.inodeMap
      exact ⟨hstored, by rw [hstored.ftype, ← h.ftype]; exact hfile⟩
    · rcases hs with rfl | hs
      · exact h
      · exact h.stored hfile hs
  · refine sat_zoom ?_
    unfold xalBeFiemapProcessInodeFile
    rw [inodeAt_bind]
    refine sat_failIf_bind (fun _ => h) fun hf => ?_
    exact absurd (by simpa [xalInodeIsFile] using hf) hfile

theorem Tended.refresh (h : Tended x₁ x) (hE : FiemapCall E x) (hlt : i < x.store.inodes.free) :
    (refreshFile E path i x).Sat (fun _ => Tended x₁) (fun _ => Tended x₁) := by
  refine (h.process hE hlt).bind fun _ x' hx' => ?_
  cases hst : E.kernel.stat path with
  | error errno => exact hx'.1
  | ok st =>
    refine hx'.1.resized hx'.2 ?_ _
    rw [hx'.1.free, ← h.free]
    exact hlt

/-- The entries of a directory of the tree are in the tree, and have it as their parent. -/
theorem Tended.entry (h : Tended x₁ x)
    (hk : FiemapRooted E₀ (beCleared E₀ be) x₁.rootIdx x₁ k)
    (hslot : x.rootIdx ≤ d ∧ d < x.store.inodes.free)
    (hd : (x.store.inodes.memory d).ftype = ftDir)
    (hlo : (x.store.inodes.memory d).content.idx ≤ i)
    (hhi : i < (x.store.inodes.memory d).content.idx + (x.store.inodes.memory d).content.count) :
    (x.store.inodes.memory i).parentIdx = d ∧ x.rootIdx ≤ i ∧ i < x.store.inodes.free := by
  obtain ⟨h1, h2⟩ := hslot
  have hsame := h.others d (by rw [← h.ftype, hd]; exact ftDir_ne_ftRegFile)
  rw [h.free, hk.free] at h2
  rw [h.rootIdx] at h1
  rw [hsame] at hlo hhi hd
  have hin : InRange (fun v => (dents v).1) (fun v => (dents v).2)
      (x₁.store.inodes.memory d) i := by
    rw [InRange, dents_dir hd]
    exact ⟨hlo, hhi⟩
  obtain ⟨hparent, hlt, hsize⟩ := (hk.tree rfl).child h1 h2 hin
  obtain ⟨_, _, hi⟩ := h.same i
  rw [h.rootIdx, h.free, hk.free]
  exact ⟨by rw [hi]; exact hparent, by omega, hsize⟩

section
variable (hk : FiemapRooted E₀ (beCleared E₀ be) x₁.rootIdx x₁ k) (hmode : E₀.watchMode ≠ .none)
include hk hmode

/-- An event is about a directory of the tree. -/
theorem Tended.watched (h : Tended x₁ x) {wd : Int} (hwd : khGetWd x.store.be wd = some d) :
    x.rootIdx ≤ d ∧ d < x.store.inodes.free ∧ (x.store.inodes.memory d).ftype = ftDir ∧
      x.store.inodes.memory d = x₁.store.inodes.memory d := by
  unfold khGetWd at hwd
  by_cases h0 : 0 ≤ wd
  · rw [if_pos h0, h.inodeMap] at hwd
    obtain ⟨h1, h2, hd⟩ := hk.watch_cases hmode hwd
    exact ⟨by rw [h.rootIdx]; exact h1, by rw [h.free]; exact h2, by rw [h.ftype]; exact hd,
      h.others d (by rw [hd]; exact ftDir_ne_ftRegFile)⟩
  · rw [if_neg h0] at hwd
    cases hwd

/-- The entries of its directory are in the tree. -/
theorem Tended.dentry (h : Tended x₁ x) {wd : Int} (hwd : khGetWd x.store.be wd = some d)
    (hlo : (x.store.inodes.memory d).content.idx ≤ i)
    (hhi : i < (x.store.inodes.memory d).content.idx + (x.store.inodes.memory d).content.count) :
    x.rootIdx ≤ i ∧ i < x.store.inodes.free := by
  obtain ⟨h1, h2, hd, -⟩ := h.watched hk hmode hwd
  exact (h.entry hk ⟨h1, h2⟩ hd hlo hhi).2

/-- The child an event names is in the tree. -/
theorem Tended.child (h : Tended x₁ x) {wd : Int} (hwd : khGetWd x.store.be wd = some d)
    (hchild : findChild x (x.store.inodes.memory d) path = some i) :
    x.rootIdx ≤ i ∧ i < x.store.inodes.free := by
  obtain ⟨hlo, hhi, -⟩ := findChild_some hchild
  exact h.dentry hk hmode hwd hlo hhi

/-- An event keeps the index in order. -/
theorem Tended.checkEvent (h : Tended x₁ x) (hE : FiemapCall E x) (event : InotifyEvent) :
    (checkEvent E event x).Sat (fun _ => Tended x₁) (fun _ => Tended x₁) := by
  unfold Xallib.checkEvent
  by_cases hm : E.watchMode = .dirtyDetection
  · rw [if_pos hm]; exact h
  rw [if_neg hm]
  by_cases hu : event.has IN_UNMOUNT = true
  · rw [if_pos hu]; exact h
  rw [if_neg hu]
  by_cases hf : event.has (IN_MODIFY ||| IN_CLOSE_WRITE) = true
  · rw [if_pos hf, read_bind]
    cases hwd : khGetWd x.store.be event.wd with
    | none => exact h
    | some d =>
      refine sat_failIf_bind (fun _ => h) fun _ => sat_failIf_bind (fun _ => h) fun _ => ?_
      rw [modify_bind]
      have hE' : FiemapCall E (Xallib.addSeqLock x) := ⟨hE.sb, hE.inodes, hE.extents⟩
      refine Sat.bind (sat_onExit ?_) fun _ x' (hx' : Tended x₁ x') => hx'
      unfold refreshChild
      rw [read_bind]
      cases hchild : findChild (Xallib.addSeqLock x) (x.store.inodes.memory d)
          (eventPath (x.store.inodes.memory d) event.name) with
      | none => exact h.addSeqLock.addSeqLock
      | some i =>
        exact (h.addSeqLock.refresh hE' (h.child hk hmode hwd hchild).2).mono
          (fun _ _ h => h.addSeqLock) fun _ _ h => h.addSeqLock
  · rw [if_neg hf]; exact h

end

end

/-! ## Runs -/

/-- An event has been handled, with whatever outcome. -/
def EventStep (x x' : Xal FiemapBe) : Prop :=
  ∃ E event, FiemapCall E x ∧ (checkEvent E event x).Ends x'

/-- `x₁` has been indexed from `x₀` with watch descriptors, and `x` is what the events make of
it. -/
structure Watched (E₀ : FiemapEnv) (x₀ x₁ x : Xal FiemapBe) : Prop where
  call : FiemapCall E₀ x₀
  mode : E₀.watchMode ≠ .none
  index : ∃ fuel, xalIndex (xalBeFiemapIndex E₀ fuel) x₀ = .ok () x₁
  events : Reach (· = x₁) EventStep x

/-- A call of `xal_index`, with whatever outcome; or a successful one, and events of the watcher. -/
def WatchStep (x x' : Xal FiemapBe) : Prop :=
  (∃ E fuel, FiemapCall E x ∧ (xalIndex (xalBeFiemapIndex E fuel) x).Ends x') ∨
    ∃ E x₁, Watched E x x₁ x'

abbrev WatchReach (shm : Bool) : Xal FiemapBe → Prop := Reach (JustOpened .fiemap shm) WatchStep

section
variable {E₀ : FiemapEnv} {x₀ x₁ x : Xal FiemapBe}

theorem Watched.rooted (h : Watched E₀ x₀ x₁ x) (hx₀ : Alive .fiemap x₀) :
    Alive .fiemap x₁ ∧
      ∃ k, FiemapRooted E₀ (beCleared E₀ x₀.store.be) x₁.rootIdx x₁ k := by
  obtain ⟨fuel, hr⟩ := h.index
  obtain ⟨hrooted, k, hk⟩ := (xalIndex_fiemap h.call hx₀.storeOk fuel).ok hr
  exact ⟨hx₀.of_kept hrooted.ok hrooted.kept, k, by rw [hrooted.rootIdx]; exact hk⟩

theorem Watched.tended (h : Watched E₀ x₀ x₁ x) (hx₀ : Alive .fiemap x₀) : Tended x₁ x := by
  obtain ⟨halive, k, hk⟩ := h.rooted hx₀
  refine h.events.invariant (fun _ h0 => ?_) fun y y' hy hstep => ?_
  · rw [h0]
    exact .refl halive.storeOk hk rfl
  · obtain ⟨E, event, hE, hend⟩ := hstep
    exact (hy.checkEvent hk h.mode hE event).ends hend

/-- Events that have not ended a call of `check_events`. -/
theorem Watched.checkEvents {events : List (FiemapEnv × InotifyEvent)} {y : Xal FiemapBe}
    (h : Watched E₀ x₀ x₁ x) (hx₀ : Alive .fiemap x₀) (hcalls : ∀ c ∈ events, FiemapCall c.1 x)
    (hr : checkEvents events x = .ok false y) : Watched E₀ x₀ x₁ y ∧ y.sb = x.sb := by
  induction events generalizing x with
  | nil =>
    obtain ⟨-, rfl⟩ := Run.ok.inj hr
    exact ⟨h, rfl⟩
  | cons c events ih =>
    obtain ⟨E, event⟩ := c
    obtain ⟨hE, hcalls⟩ := List.forall_mem_cons.1 hcalls
    obtain ⟨ended, z, hevent, hr⟩ := bind_ok.1 hr
    cases ended with
    | true =>
      obtain ⟨hend, -⟩ := Run.ok.inj hr
      cases hend
    | false =>
      have hz : Watched E₀ x₀ x₁ z :=
        ⟨h.call, h.mode, h.index, h.events.step ⟨E, event, hE, .inl ⟨false, hevent⟩⟩⟩
      have hsb : z.sb = x.sb := (hz.tended hx₀).sb.trans (h.tended hx₀).sb.symm
      obtain ⟨hy, hysb⟩ := ih hz (fun c hc =>
        ⟨(hcalls c hc).sb.trans hsb.symm, (hcalls c hc).inodes,
        (hcalls c hc).extents⟩) hr
      exact ⟨hy, hysb.trans hsb⟩

theorem WatchReach.alive {shm : Bool} (h : WatchReach shm x) : Alive .fiemap x := by
  refine h.invariant (fun _ h => h.alive) fun x x' hx hstep => ?_
  rcases hstep with ⟨E, fuel, hE, hend⟩ | ⟨E, x₁, hw⟩
  · exact FiemapStep.alive ⟨E, hE, .inl ⟨fuel, hend⟩⟩ hx
  · obtain ⟨halive, -⟩ := hw.rooted hx
    have ht := hw.tended hx
    exact ⟨ht.ok, ht.type_eq.trans halive.type_eq, ht.sharedView.trans halive.sharedView⟩

end

end Xallib
