import Xallib.Base.Proof.Reservation
import Xallib.Fiemap.Open
import Xallib.Xfs.Proof.Open

/-!
# What opening a FIEMAP file system holds, and what closing it leaves

`s.held` counts a list of resources (`Holding`): to acquire one puts it in front.
`fiemap_open_closed`: whatever the operating system answers, `xal_be_fiemap_open` comes back if
counting the entries does, unless it unmaps a pool through a null pointer. It returns a negative
status or sets `*xal` to a `struct xal` that indexing may begin with, and `xal_close` releases all
that is held but the `struct xal_inotify`, a descriptor 0, the shared memory objects, and the
directories that are open where counting the entries fails (`leftBehind`).
-/

namespace Xallib

open Lib Lib.Cm Lib.Run

/-- The resources held are those of the list. -/
def Holding (l : List Resource) (s : FiemapOpening) : Prop := s.held = fun r => l.count r

/-- What is held once all that `xal_close` releases is released. -/
def closedHeld (s : FiemapOpening) (r : Resource) : Nat :=
  if r = .inotify ∨ r = .dirStream ∨ (r = .shmInodes ∨ r = .shmExtents) ∨
      r = .inotifyFd ∧ s.inotifyFd = 0 then s.held r
  else s.held r - 1

/-- What `xal_close` leaves of what was acquired, with `n` directories that are open and the first
`objects` of the two shared memory objects. -/
def leftBehind (E : FiemapOpenEnv) (n objects : Nat) : Resource → Nat
  | .inotify => if E.watchMode ≠ .none ∧ E.callocXal ∧ E.callocMountpoint ∧ E.callocInotify
      then 1 else 0
  | .inotifyFd => if (E.watchMode ≠ .none ∧ E.callocXal ∧ E.callocMountpoint ∧ E.callocInotify) ∧
      E.inotifyInit1.toOption = some 0 then 1 else 0
  | .dirStream => n
  | .shmInodes => if 0 < objects then 1 else 0
  | .shmExtents => if 1 < objects then 1 else 0
  | _ => 0

/-- The objects of both pools, where they are in shared memory. -/
def FiemapOpenEnv.objects (E : FiemapOpenEnv) : Nat := if E.shmName.isSome then 2 else 0

/-- Where `xal_close` unmaps a pool through a null pointer, the process goes on. -/
def FiemapOpenEnv.UnmapsSafely (E : FiemapOpenEnv) : Prop :=
  E.osInodes.LeavesNull E.shmName.isSome ∨ E.osExtents.LeavesNull E.shmName.isSome →
    E.munmapNull = true

/-- The error numbers of the calls are positive. -/
structure FiemapOpenEnv.Errnos (E : FiemapOpenEnv) : Prop where
  stat : ∀ path errno, E.kernel.stat path = .error errno → 0 < errno
  opendir : ∀ path errno, E.kernel.opendir path = .error errno → 0 < errno
  inotify : ∀ errno, E.inotifyInit1 = .error errno → 0 < errno

section
variable {E : FiemapOpenEnv} {s s' : FiemapOpening} {l : List Resource} {r : Resource}

/-! ## Acquiring and releasing -/

theorem Holding.acquired (h : Holding l s) (r : Resource) :
    ∃ s', acquire r s = .ok () s' ∧ Holding (r :: l) s' ∧ s' = { s with held := s'.held } := by
  refine ⟨_, rfl, ?_, rfl⟩
  unfold Holding at h
  show (fun r' => if r' = r then s.held r + 1 else s.held r') = _
  funext r'
  rw [h]
  by_cases hr : r' = r
  · rw [if_pos hr, hr, List.count_cons_self]
  · rw [if_neg hr, List.count_cons_of_ne (Ne.symm hr)]

theorem Holding.perm {l' : List Resource} (h : Holding l s) (hp : l.Perm l') : Holding l' s := by
  unfold Holding at h ⊢
  rw [h]
  funext r
  exact hp.count_eq r

theorem closed_apply (s : FiemapOpening) :
    (do release .inodes; release .extents; xalBeFiemapClose; release .xal : Fo Unit) s =
      .ok () { s with held := closedHeld s } := by
  unfold xalBeFiemapClose xalBeFiemapInotifyClose release
  simp only [bind_assoc_apply, modify_bind, read_bind]
  by_cases hfd : s.inotifyFd = 0
  · rw [if_neg (not_not.2 hfd)]
    simp only [ret_bind, modify_bind, modify_apply]
    congr 2
    funext r
    cases r <;> simp [closedHeld, hfd]
  · rw [if_pos hfd]
    simp only [modify_bind, modify_apply]
    congr 2
    funext r
    cases r <;> simp [closedHeld, hfd]

theorem onOpening_unmap {α : Type} {x : Cm Err (Store FiemapBe) α} {a : α}
    (h : x s.store = .ok a s.store) : onOpening x s = .ok a s := zoom_of_ok h

/-- `xal_close` does what it does, unless the process does not get over a null pointer. -/
theorem xalClose_apply (h : UnmapsNull E.osInodes E.osExtents E.shmName.isSome s.store →
    E.munmapNull = true) : xalClose E s = .ok () { s with held := closedHeld s } := by
  have hi : onOpening (onInodes (xalPoolUnmap E.osInodes E.shmName.isSome E.munmapNull)) s =
      .ok () s := onOpening_unmap (zoom_of_ok (poolUnmap_ok.2 ⟨fun h0 => h (.inl h0), rfl⟩))
  have hx : ∀ held, onOpening (onExtents (xalPoolUnmap E.osExtents E.shmName.isSome E.munmapNull))
      { s with held } = .ok () { s with held } := fun held =>
    onOpening_unmap (zoom_of_ok (poolUnmap_ok.2 ⟨fun h0 => h (.inr h0), rfl⟩))
  unfold xalClose
  rw [bind_of_ok hi, release, modify_bind, bind_of_ok (hx _)]
  exact closed_apply s

theorem xalClose_sat (s : FiemapOpening) : (xalClose E s).Sat
    (fun _ s' => s' = { s with held := closedHeld s }) fun _ _ => False := by
  by_cases h : UnmapsNull E.osInodes E.osExtents E.shmName.isSome s.store → E.munmapNull = true
  · rw [xalClose_apply h]
    rfl
  · obtain ⟨hnull, hno⟩ := Classical.not_imp.1 h
    have hcrash : xalClose E s = .crash := by
      unfold xalClose
      by_cases hi : s.store.inodes.reserved ≠ 0 ∧ E.osInodes.LeavesNull E.shmName.isSome
      · refine bind_of_crash (zoom_of_crash (zoom_of_crash ?_))
        unfold xalPoolUnmap
        rw [read_bind, assert_false fun h => hno (h hi)]
      · have hx := hnull.resolve_left hi
        have hok : onOpening (onInodes (xalPoolUnmap E.osInodes E.shmName.isSome E.munmapNull)) s =
            .ok () s := onOpening_unmap (zoom_of_ok (poolUnmap_ok.2 ⟨fun h => absurd h hi, rfl⟩))
        rw [bind_of_ok hok, release, modify_bind]
        refine bind_of_crash (zoom_of_crash (zoom_of_crash ?_))
        unfold xalPoolUnmap
        rw [read_bind, assert_false fun h => hno (h hx)]
    rw [hcrash]
    trivial

theorem closeFailed_sat {x : Fo Unit} {Q : Unit → FiemapOpening → Prop}
    {F : Err → FiemapOpening → Prop}
    (h : (x s).Sat Q fun e s' => F e { s' with held := closedHeld s' }) :
    (closeFailed E x s).Sat Q F := by
  unfold closeFailed
  cases hx : x s with
  | ok u s' => exact h.ok hx
  | fail e s' =>
    refine ((xalClose_sat s').mono (fun _ _ h => h) fun _ _ h => h.elim).bind fun _ t ht => ?_
    rw [ht]
    exact h.fail hx
  | crash => trivial
  | spin => trivial

/-! ## Counting the entries -/

/-- The same, with `n` more directories open. -/
def FiemapOpening.streams (s : FiemapOpening) (n : Nat) : FiemapOpening :=
  { s with held := fun r => if r = .dirStream then s.held .dirStream + n else s.held r }

theorem streams_zero (s : FiemapOpening) : s.streams 0 = s := by
  have hheld : (s.streams 0).held = s.held := by
    funext r
    cases r <;> rfl
  show { s with held := (s.streams 0).held } = s
  rw [hheld]

theorem streams_streams (s : FiemapOpening) (n m : Nat) :
    (s.streams n).streams m = s.streams (n + m) := by
  have hheld : ((s.streams n).streams m).held = (s.streams (n + m)).held := by
    funext r
    cases r <;> simp [FiemapOpening.streams, Nat.add_assoc]
  show { s with held := ((s.streams n).streams m).held } = { s with held := _ }
  rw [hheld]
  rfl

theorem acquire_stream (s : FiemapOpening) : acquire .dirStream s = .ok () (s.streams 1) := rfl

theorem release_stream (s : FiemapOpening) : release .dirStream (s.streams 1) = .ok () s := by
  have hheld : (fun r => if r = .dirStream then (s.streams 1).held .dirStream - 1
      else (s.streams 1).held r) = s.held := by
    funext r
    cases r <;> simp [FiemapOpening.streams]
  show Run.ok () { s with held := _ } = _
  rw [hheld]

/-- What a call of `retrieve_total_entries` leaves open: nothing if it returns a number, and the
directories on the way to the one that fails if it is below the first one. -/
def TotalFrom (s : FiemapOpening) (total : Int) (s' : FiemapOpening) : Prop :=
  ∃ n, s' = s.streams n ∧ (n = 0 ∨ total = -1)

theorem countEntries_sat {total : CStr → Fo Int} {path : CStr}
    (htotal : ∀ p t, (total p t).Sat (TotalFrom t) fun _ _ => False) (names : List CStr) :
    ∀ count : Int, 0 ≤ count → (countEntries E total path names count (s.streams 1)).Sat
      (TotalFrom s) fun _ _ => False := by
  induction names with
  | nil =>
    intro count _
    unfold countEntries
    rw [bind_of_ok (release_stream s), ret_apply]
    exact ⟨0, (streams_zero s).symm, .inl rfl⟩
  | cons name names ih =>
    intro count hcount
    unfold countEntries
    by_cases hmember : isDirectoryMember name = false
    · rw [if_pos hmember]
      exact ih count hcount
    · rw [if_neg hmember]
      refine sat_assert_bind fun _ => ?_
      by_cases hdir : E.isDtDir (joinPath path name) = true
      · rw [if_pos hdir]
        refine (htotal (joinPath path name) (s.streams 1)).bind fun children t ht => ?_
        obtain ⟨n, rfl, hn⟩ := ht
        by_cases hneg : children < 0
        · rw [if_pos hneg, streams_streams]
          exact ⟨1 + n, rfl, .inr rfl⟩
        · obtain rfl : n = 0 := hn.resolve_right (by omega)
          rw [if_neg hneg, streams_zero]
          exact sat_assert_bind fun _ => ih _ (by omega)
      · rw [if_neg hdir]
        exact ih _ (by omega)

theorem retrieveTotalEntries_sat (fuel : Nat) : ∀ (path : CStr) (s : FiemapOpening),
    (retrieveTotalEntries E fuel path s).Sat (TotalFrom s) fun _ _ => False := by
  induction fuel with
  | zero => exact fun _ _ => trivial
  | succ fuel ih =>
    intro path s
    have hnone (total : Int) : TotalFrom s total s := ⟨0, (streams_zero s).symm, .inl rfl⟩
    unfold retrieveTotalEntries
    cases E.kernel.stat path with
    | error errno => exact hnone _
    | ok st =>
      show Run.Sat ((if _ then _ else _ : Fo Int) s) _ _
      by_cases hdir : isDirMode st.stMode = false
      · rw [if_pos hdir]
        exact hnone _
      · rw [if_neg hdir]
        cases E.kernel.opendir path with
        | error errno => exact hnone _
        | ok names =>
          show Run.Sat ((acquire .dirStream >>= _) s) _ _
          rw [bind_of_ok (acquire_stream s)]
          exact countEntries_sat ih names 0 (Int.le_refl 0)

/-! ## The candidate -/

/-- What is acquired for a watcher. -/
def watchHeld (E : FiemapOpenEnv) : List Resource :=
  if E.watchMode = .none then [] else [.wdMap, .inotifyFd, .inotify]

/-- The first objects that are created in shared memory. -/
def shmObjects : Nat → List Resource
  | 0 => []
  | 1 => [.shmInodes]
  | _ => [.shmExtents, .shmInodes]

/-- The candidate holds the resources of its pools and its map, `top`, behind the objects of its
pools and what its watcher has acquired. -/
structure FiemapCandidate (E : FiemapOpenEnv) (objects : Nat) (top : List Resource)
    (s : FiemapOpening) : Prop where
  held : Holding (top ++ (shmObjects objects ++ (watchHeld E ++ [.mountpoint, .xal]))) s
  fd : E.watchMode ≠ .none → ∃ fd : Nat, E.inotifyInit1 = .ok fd ∧ s.inotifyFd = fd
  nodup : top.Nodup
  top : ∀ r ∈ top, r = .inodes ∨ r = .extents ∨ r = .pathMap
  alloc : E.callocXal = true ∧ E.callocMountpoint = true
  inotify : E.watchMode ≠ .none → E.callocInotify = true
  objects_le : objects ≤ E.objects

theorem FiemapCandidate.closed {objects : Nat} {top : List Resource}
    (h : FiemapCandidate E objects top s) (n : Nat) :
    closedHeld (s.streams n) = leftBehind E n objects := by
  have hheld : s.held = _ := h.held
  have hone (r : Resource) : top.count r - 1 = 0 := by
    have := List.nodup_iff_count_le_one.1 h.nodup r
    omega
  have hnone (r : Resource) (hr : r ≠ .inodes ∧ r ≠ .extents ∧ r ≠ .pathMap) : top.count r = 0 := by
    refine List.count_eq_zero.2 fun hmem => ?_
    rcases h.top r hmem with h | h | h
    · exact hr.1 h
    · exact hr.2.1 h
    · exact hr.2.2 h
  obtain ⟨hx, hm⟩ := h.alloc
  obtain ⟨shm, hshm, hcount⟩ : ∃ shm, shmObjects objects = shm ∧ ∀ r,
      shm.count r = if r = .shmInodes ∧ 0 < objects ∨ r = .shmExtents ∧ 1 < objects then 1
        else 0 := by
    refine ⟨_, rfl, fun r => ?_⟩
    rcases objects with - | - | n <;> cases r <;> simp [shmObjects]
  rw [hshm] at hheld
  funext r
  by_cases hw : E.watchMode = .none
  · cases r <;> simp [closedHeld, leftBehind, FiemapOpening.streams, hheld, watchHeld, hw, hone,
      hnone, hcount, List.count_cons]
  · obtain ⟨fd, hinit, hfd⟩ := h.fd hw
    have hi := h.inotify hw
    cases r <;> simp [closedHeld, leftBehind, FiemapOpening.streams, hheld, watchHeld, hw, hone,
      hnone, hcount, List.count_cons, hx, hm, hi, hinit, hfd, Except.toOption]

/-- What a failure leaves once the candidate is closed. -/
def OpenFailed (E : FiemapOpenEnv) (s₀ : FiemapOpening) (e : Err) (s : FiemapOpening) : Prop :=
  e.code < 0 ∧ s.xal = s₀.xal ∧ ∃ n objects, s.held = leftBehind E n objects ∧
    (n = 0 ∨ e.code = -1) ∧ objects ≤ E.objects

theorem OpenFailed.of_xal {e : Err} {t : FiemapOpening} (h : OpenFailed E s' e t)
    (hxal : s'.xal = s.xal) : OpenFailed E s e t := by
  obtain ⟨hneg, h, hn⟩ := h
  exact ⟨hneg, h.trans hxal, hn⟩

theorem FiemapCandidate.failed {objects : Nat} {top : List Resource}
    (h : FiemapCandidate E objects top s) {e : Err} (he : e.code < 0) :
    OpenFailed E s e { s with held := closedHeld s } := by
  refine ⟨he, rfl, 0, objects, ?_, .inl rfl, h.objects_le⟩
  rw [← streams_zero s]
  exact h.closed 0

/-- A change of what the candidate does not look at. -/
theorem FiemapCandidate.congr {objects : Nat} {top : List Resource}
    (h : FiemapCandidate E objects top s) (hheld : s'.held = s.held)
    (hfd : s'.inotifyFd = s.inotifyFd) : FiemapCandidate E objects top s' :=
  ⟨hheld.trans h.held, fun hw => by rw [hfd]; exact h.fd hw, h.nodup, h.top, h.alloc, h.inotify,
    h.objects_le⟩

theorem FiemapCandidate.acquired {objects : Nat} {top : List Resource}
    (h : FiemapCandidate E objects top s) {r : Resource}
    (hr : r = .inodes ∨ r = .extents ∨ r = .pathMap) (hne : r ∉ top) :
    ∃ s', acquire r s = .ok () s' ∧ FiemapCandidate E objects (r :: top) s' ∧
      s' = { s with held := s'.held } := by
  obtain ⟨s', hs', hheld, hkept⟩ := h.held.acquired r
  refine ⟨s', hs', ⟨hheld, fun hw => ?_, List.nodup_cons.2 ⟨hne, h.nodup⟩, ?_, h.alloc, h.inotify,
    h.objects_le⟩, hkept⟩
  · rw [hkept]
    exact h.fd hw
  · rw [List.forall_mem_cons]
    exact ⟨hr, h.top⟩

/-- One more object is created. -/
theorem FiemapCandidate.created {objects : Nat} {top : List Resource}
    (h : FiemapCandidate E objects top s) (hle : objects + 1 ≤ E.objects) {object : Resource}
    (hobject : shmObjects (objects + 1) = object :: shmObjects objects) :
    ∃ s', acquire object s = .ok () s' ∧ FiemapCandidate E (objects + 1) top s' ∧
      s' = { s with held := s'.held } := by
  obtain ⟨s', hs', hheld, hkept⟩ := h.held.acquired object
  refine ⟨s', hs', ⟨?_, fun hw => ?_, h.nodup, h.top, h.alloc, h.inotify, hle⟩, hkept⟩
  · rw [hobject]
    exact hheld.perm List.perm_middle.symm
  · rw [hkept]
    exact h.fd hw

/-- The watcher, whose resources are acquired behind the mountpoint. -/
theorem openWatcher_sat (herr : E.Errnos) (hx : E.callocXal = true) (hm : E.callocMountpoint = true)
    (h : Holding [.mountpoint, .xal] s) :
    (openWatcher E s).Sat
      (fun _ s' => FiemapCandidate E 0 [] s' ∧
        s' = { s with held := s'.held, inotifyFd := s'.inotifyFd })
      fun e s' => OpenFailed E s e { s' with held := closedHeld s' } := by
  have hheld : s.held = _ := h
  unfold openWatcher
  by_cases hw : E.watchMode = .none
  · rw [if_pos hw]
    refine ⟨⟨?_, fun h0 => absurd hw h0, List.nodup_nil, fun r hr => absurd hr List.not_mem_nil,
      ⟨hx, hm⟩, fun h0 => absurd hw h0, Nat.zero_le _⟩, rfl⟩
    rw [watchHeld, if_pos hw]
    exact h
  · rw [if_neg hw]
    refine sat_failIf_bind
      (fun hi => ⟨by decide, rfl, 0, 0, ?_, .inl rfl, Nat.zero_le _⟩) fun hi => ?_
    · funext r
      cases r <;> simp [closedHeld, leftBehind, hheld, hi]
    · obtain ⟨s₁, h₁, hheld₁, hkept₁⟩ := h.acquired .inotify
      rw [bind_of_ok h₁]
      have hi : E.callocInotify = true := by simpa using hi
      have hheld₁ : s₁.held = _ := hheld₁
      unfold xalBeFiemapInotifyInit
      rw [if_neg hw]
      cases hinit : E.inotifyInit1 with
      | error errno =>
        have hpos := herr.inotify errno hinit
        refine ⟨by show -(errno : Int) < 0; omega, by rw [hkept₁], 0, 0, ?_, .inl rfl,
          Nat.zero_le _⟩
        funext r
        cases r <;> simp [closedHeld, leftBehind, hheld₁, hw, hx, hm, hi, hinit, Except.toOption]
      | ok fd =>
        simp only [modify_bind]
        have hholds : Holding [.inotify, .mountpoint, .xal] { s₁ with inotifyFd := (fd : Int) } :=
          hheld₁
        obtain ⟨s₂, h₂, hheld₂, hkept₂⟩ := hholds.acquired .inotifyFd
        rw [bind_of_ok h₂]
        have hfd₂ : s₂.inotifyFd = fd := by rw [hkept₂]
        refine sat_failIf_bind (fun _ => ⟨by decide, ?_, 0, 0, ?_, .inl rfl, Nat.zero_le _⟩)
          fun _ => ?_
        · show s₂.xal = s.xal
          rw [hkept₂, hkept₁]
        · have hheld₂ : s₂.held = _ := hheld₂
          funext r
          cases r <;> simp [closedHeld, leftBehind, hheld₂, hw, hx, hm, hi, hinit, hfd₂,
            Except.toOption]
        · obtain ⟨s₃, h₃, hheld₃, hkept₃⟩ := hheld₂.acquired .wdMap
          rw [h₃]
          refine ⟨⟨?_, fun _ => ⟨fd, hinit, by rw [hkept₃]; exact hfd₂⟩, List.nodup_nil,
            fun r hr => absurd hr List.not_mem_nil, ⟨hx, hm⟩, fun _ => hi, Nat.zero_le _⟩, ?_⟩
          · rw [watchHeld, if_neg hw]
            exact hheld₃
          · rw [hkept₃, hkept₂, hkept₁]

/-- One of the pools. -/
theorem mapPool_sat (r object : Resource) {objects : Nat} {top : List Resource} {os : MapAnswers}
    {map : Cm Err (Store FiemapBe) Unit} (h : FiemapCandidate E objects top s)
    (hle : E.shmName.isSome = true → objects + 1 ≤ E.objects ∧
      shmObjects (objects + 1) = object :: shmObjects objects)
    (hr : r = .inodes ∨ r = .extents ∨ r = .pathMap) (hne : r ∉ top)
    (hneg : Negative (map s.store))
    (hmap : ∀ u t, map s.store = .ok u t → ¬os.LeavesNull E.shmName.isSome) :
    (mapPool E r object os map s).Sat
      (fun _ s' => ∃ t, map s.store = .ok () t ∧
        FiemapCandidate E (if E.shmName.isSome then objects + 1 else objects) (r :: top) s' ∧
        s' = { s with held := s'.held, store := t })
      fun e s' => OpenFailed E s e { s' with held := closedHeld s' } := by
  -- the object is created, or it is not
  obtain ⟨n, s₁, hs₁, hc₁, hkept₁, hn⟩ : ∃ n s₁, createObject E object os s = .ok () s₁ ∧
      FiemapCandidate E n top s₁ ∧ s₁ = { s with held := s₁.held } ∧
      ((E.shmName.isSome = true → os.shmOpen = 0) →
        n = if E.shmName.isSome then objects + 1 else objects) := by
    unfold createObject
    by_cases hshm : E.shmName.isSome = true ∧ os.shmOpen = 0
    · obtain ⟨hle, hobject⟩ := hle hshm.1
      obtain ⟨s₁, hs₁, hc₁, hkept₁⟩ := h.created hle hobject
      refine ⟨objects + 1, s₁, ?_, hc₁, hkept₁, fun _ => by rw [if_pos hshm.1]⟩
      rw [if_pos hshm]
      exact hs₁
    · refine ⟨objects, s, by rw [if_neg hshm]; rfl, h, rfl, fun h0 => ?_⟩
      rw [if_neg fun h1 => hshm ⟨h1, h0 h1⟩]
  have hstore₁ : s₁.store = s.store := by rw [hkept₁]
  have hxal₁ : s₁.xal = s.xal := by rw [hkept₁]
  have hstored (t : Store FiemapBe) : FiemapCandidate E n top { s₁ with store := t } :=
    hc₁.congr rfl rfl
  unfold mapPool onOpening
  rw [bind_of_ok hs₁]
  cases hm : map s.store with
  | ok u t =>
    rw [bind_of_ok (zoom_of_ok (by rw [hstore₁]; exact hm))]
    obtain ⟨s', hs', hc, hkept⟩ := (hstored t).acquired hr hne
    rw [hs']
    refine ⟨t, rfl, ?_, ?_⟩
    · rw [← hn fun hshm => not_not.1 fun h0 => hmap u t hm ⟨hshm, .inl h0⟩]
      exact hc
    · rw [hkept, hkept₁]
  | fail e t =>
    rw [bind_of_fail (zoom_of_fail (by rw [hstore₁]; exact hm))]
    exact ((hstored t).failed (hneg.fail hm)).of_xal hxal₁
  | crash =>
    rw [bind_of_crash (zoom_of_crash (by rw [hstore₁]; exact hm))]
    trivial
  | spin =>
    rw [bind_apply, zoom, hstore₁, hm]
    trivial

/-- The backend that is opened: an empty map where paths are looked up by hash. -/
def openedBe (E : FiemapOpenEnv) (be : FiemapBe) : FiemapBe :=
  if E.hashmap then { be with pathInodeMap := some khInit } else be

theorem openPathMap_sat {objects : Nat} {top : List Resource} (h : FiemapCandidate E objects top s)
    (hne : .pathMap ∉ top) : (openPathMap E s).Sat
      (fun _ s' => (∃ top, FiemapCandidate E objects top s') ∧ s' = { s with
        held := s'.held
        store := { s.store with be := openedBe E s.store.be } })
      fun e s' => OpenFailed E s e { s' with held := closedHeld s' } := by
  unfold openPathMap openedBe
  by_cases hh : E.hashmap = true
  · rw [if_pos hh, if_pos hh]
    refine sat_failIf_bind (fun _ => h.failed (by decide)) fun _ => ?_
    obtain ⟨s', hs', hc, hkept⟩ := h.acquired (.inr (.inr rfl)) hne
    rw [bind_of_ok hs', modify_apply]
    refine ⟨⟨_, hc.congr rfl rfl⟩, ?_⟩
    rw [hkept]
  · rw [if_neg hh, if_neg hh]
    exact ⟨⟨top, h⟩, rfl⟩

/-- What the backend keeps beside the pools plays no part when they are mapped. -/
theorem xalMapPools_withBe {δ : Type} {osI osX : MapAnswers} {mpI mpX : Mprotect} {n : Nat}
    {shm : Bool} {p p' : XalPool XalInode} {q q' : XalPool XalExtent} {b b' : δ}
    (h : xalMapPools osI osX mpI mpX n shm ⟨p, q, b⟩ = .ok () ⟨p', q', b'⟩) (c : δ) :
    xalMapPools osI osX mpI mpX n shm ⟨p, q, c⟩ = .ok () ⟨p', q', c⟩ := by
  unfold xalMapPools at h ⊢
  obtain ⟨_, t₁, hi, hx⟩ := bind_ok.1 h
  obtain ⟨p₁, hp, rfl⟩ := zoom_ok.1 hi
  obtain ⟨q₁, hq, heq⟩ := zoom_ok.1 hx
  injection heq with h1 h2 h3
  subst h1 h2
  refine (bind_of_ok (zoom_of_ok (s := (⟨p, q, c⟩ : Store δ)) hp)).trans ?_
  exact zoom_of_ok (s := (⟨p', q, c⟩ : Store δ)) hq

/-- What a successful `xal_be_fiemap_open` has set. The pools are mapped for the entries that were
counted. -/
structure FiemapOpened (E : FiemapOpenEnv) (fuel : Nat) (mountpoint : CStr) (s : FiemapOpening)
    (x : Xal FiemapBe) : Prop where
  xal : s.xal = some x
  candidate : ∃ top, FiemapCandidate E E.objects top s
  sb : ∃ st, E.kernel.stat mountpoint = .ok st ∧ x.sb = { (default : XalSb) with
    blocksize := E.stBlksize mountpoint % 2 ^ 32, rootino := st.stIno }
  opened : JustOpened .fiemap E.shmName.isSome x
  sized : ∃ (t : FiemapOpening) (total : Nat),
    retrieveTotalEntries E fuel mountpoint t = .ok (total : Int) t ∧
      xalMapPools E.osInodes E.osExtents E.mpInodes E.mpExtents total E.shmName.isSome
        ⟨default, default, x.store.be⟩ = .ok () x.store
  be : x.store.be = openedBe E ⟨none, fun _ => none⟩

theorem fiemapOpenBody_sat (herr : E.Errnos) (hI : E.mpInodes.Bounded poolReserved inodeNbytes)
    (hX : E.mpExtents.Bounded poolReserved extentNbytes) (hx : E.callocXal = true)
    (h : Holding [.xal] s) (hsb : s.sb = default)
    (hstore : s.store = ⟨default, default, ⟨none, fun _ => none⟩⟩) (fuel : Nat)
    (mountpoint : CStr) : (fiemapOpenBody E fuel mountpoint s).Sat
      (fun _ s' => ∃ x, FiemapOpened E fuel mountpoint s' x)
      fun e s' => OpenFailed E s e { s' with held := closedHeld s' } := by
  have hheld : s.held = _ := h
  unfold fiemapOpenBody
  refine sat_failIf_bind (fun hm => ⟨by decide, rfl, 0, 0, ?_, .inl rfl, Nat.zero_le _⟩)
    fun hm => ?_
  · funext r
    cases r <;> simp [closedHeld, leftBehind, hheld, hm]
  have hm : E.callocMountpoint = true := by simpa using hm
  obtain ⟨s₁, h₁, hheld₁, hkept₁⟩ := h.acquired .mountpoint
  rw [bind_of_ok h₁]
  refine ((openWatcher_sat herr hx hm hheld₁).mono (fun _ _ h => h) fun e s' he => ?_).bind
    fun _ s₂ h₂ => ?_
  · exact he.of_xal (by rw [hkept₁])
  obtain ⟨hc₂, hkept₂⟩ := h₂
  have hxal₂ : s₂.xal = s.xal := by rw [hkept₂, hkept₁]
  refine ((retrieveTotalEntries_sat fuel mountpoint s₂).with_eq.mono (fun _ _ h => h)
    fun _ _ h => h.elim).bind fun total t ht => ?_
  obtain ⟨hcount, n, rfl, hn⟩ := ht
  refine sat_failIf_bind (fun hneg => ⟨hneg, hxal₂, n, 0, hc₂.closed n, hn, Nat.zero_le _⟩)
    fun hneg => ?_
  obtain rfl : n = 0 := hn.resolve_right (by omega)
  rw [streams_zero] at hcount ⊢
  obtain ⟨total, rfl⟩ := Int.eq_ofNat_of_zero_le (Int.not_lt.1 hneg)
  cases hst : E.kernel.stat mountpoint with
  | error errno =>
    have hpos := herr.stat mountpoint errno hst
    have hneg : (Err.mk .stat (-(errno : Int))).code < 0 := by
      show -(errno : Int) < 0
      omega
    exact (hc₂.failed hneg).of_xal hxal₂
  | ok st =>
    simp only [modify_bind]
    have hc₃ : FiemapCandidate E 0 [] { s₂ with sb := { s₂.sb with
        blocksize := E.stBlksize mountpoint % 2 ^ 32, rootino := st.stIno } } := hc₂.congr rfl rfl
    refine sat_failIf_bind (fun _ => (hc₃.failed (e := ⟨.argument, -EINVAL⟩) (by decide)).of_xal
      hxal₂) fun _ => ?_
    refine ((mapPool_sat .inodes .shmInodes hc₃ (fun hshm => ?_) (.inl rfl) List.not_mem_nil
      (sat_zoom (xalPoolMap_negative _ _ _ _ _ _ _)) fun _ _ hr => ?_).mono (fun _ _ h => h)
        fun e s' he => he.of_xal hxal₂).bind fun _ s₄ h₄ => ?_
    · exact ⟨by rw [FiemapOpenEnv.objects, if_pos hshm]; decide, rfl⟩
    · obtain ⟨_, hr, -⟩ := zoom_ok.1 hr
      exact xalPoolMap_mapped hr
    obtain ⟨t₄, hmap₄, hc₄, hkept₄⟩ := h₄
    have hxal₄ : s₄.xal = s.xal := by rw [hkept₄, ← hxal₂]
    refine ((mapPool_sat .extents .shmExtents hc₄ (fun hshm => ?_) (.inr (.inl rfl)) (by simp)
      (sat_zoom (xalPoolMap_negative _ _ _ _ _ _ _)) fun _ _ hr => ?_).mono (fun _ _ h => h)
        fun e s' he => he.of_xal hxal₄).bind fun _ s₅ h₅ => ?_
    · rw [if_pos hshm]
      exact ⟨by rw [FiemapOpenEnv.objects, if_pos hshm], rfl⟩
    · obtain ⟨_, hr, -⟩ := zoom_ok.1 hr
      exact xalPoolMap_mapped hr
    obtain ⟨t₅, hmap₅, hc₅, hkept₅⟩ := h₅
    have hobjects : (if E.shmName.isSome then (if E.shmName.isSome then 0 + 1 else 0) + 1
        else if E.shmName.isSome then 0 + 1 else 0) = E.objects := by
      unfold FiemapOpenEnv.objects
      split <;> rfl
    rw [hobjects] at hc₅
    have hxal₅ : s₅.xal = s.xal := by rw [hkept₅, ← hxal₄]
    refine ((openPathMap_sat hc₅ (by simp)).mono (fun _ _ h => h) fun e s' he =>
      he.of_xal hxal₅).bind fun _ s₆ h₆ => ?_
    obtain ⟨⟨top, hc₆⟩, hkept₆⟩ := h₆
    rw [modify_apply]
    have hstore₃ : s₂.store = ⟨default, default, ⟨none, fun _ => none⟩⟩ := by
      rw [hkept₂, hkept₁]
      exact hstore
    have hpools : xalMapPools E.osInodes E.osExtents E.mpInodes E.mpExtents total
        E.shmName.isSome ⟨default, default, ⟨none, fun _ => none⟩⟩ = .ok () s₅.store := by
      rw [hkept₄] at hmap₅
      rw [hkept₅, ← hstore₃]
      exact (bind_of_ok hmap₄).trans hmap₅
    have hbe₅ : s₅.store.be = ⟨none, fun _ => none⟩ := by
      have := xalMapPools_withBe (p := default) (q := default) hpools ⟨none, fun _ => none⟩
      rw [hpools] at this
      injection this with _ h
      exact congrArg Store.be h
    have hstore₆ : s₆.store = { s₅.store with be := openedBe E ⟨none, fun _ => none⟩ } := by
      rw [hkept₆, hbe₅]
    have hsb₆ : s₆.sb = { (default : XalSb) with
        blocksize := E.stBlksize mountpoint % 2 ^ 32, rootino := st.stIno } := by
      rw [hkept₆, hkept₅, hkept₄, ← hsb, ← show s₂.sb = s.sb by rw [hkept₂, hkept₁]]
    have hmapped : xalMapPools E.osInodes E.osExtents E.mpInodes E.mpExtents total
        E.shmName.isSome ⟨default, default, openedBe E ⟨none, fun _ => none⟩⟩ =
          .ok () s₆.store :=
      (xalMapPools_withBe hpools (openedBe E ⟨none, fun _ => none⟩)).trans
        (congrArg (Run.ok ()) hstore₆.symm)
    have hbe₆ : s₆.store.be = openedBe E ⟨none, fun _ => none⟩ := congrArg Store.be hstore₆
    refine ⟨_, rfl, ⟨top, hc₆.congr rfl rfl⟩, ⟨st, hst, hsb₆⟩, ⟨rfl, rfl, rfl, rfl, rfl, ?_⟩,
      ⟨s₂, total, hcount, ?_⟩, hbe₆⟩
    · exact ⟨E.osInodes, E.osExtents, E.mpInodes, E.mpExtents, total, _, hI, hX, hmapped⟩
    · rw [hbe₆]
      exact hmapped

/-- Before the call nothing is held. -/
def NothingHeld (s : FiemapOpening) : Prop := s.held = fun _ => 0

theorem xalBeFiemapOpen_sat (herr : E.Errnos) (hI : E.mpInodes.Bounded poolReserved inodeNbytes)
    (hX : E.mpExtents.Bounded poolReserved extentNbytes) (h : NothingHeld s) (fuel : Nat)
    (mountpoint : Option CStr) : (xalBeFiemapOpen E fuel mountpoint s).Sat
      (fun _ s' => ∃ path x, mountpoint = some path ∧ FiemapOpened E fuel path s' x)
      fun e s' => e.code < 0 ∧ s'.xal = s.xal ∧ ∃ n objects, (n = 0 ∨ e.code = -1) ∧
        objects ≤ E.objects ∧
        s'.held = if mountpoint.isSome then leftBehind E n objects else fun _ => 0 := by
  have hheld : s.held = _ := h
  cases mountpoint with
  | none => exact ⟨by decide, rfl, 0, 0, .inl rfl, Nat.zero_le _, h⟩
  | some path =>
    unfold xalBeFiemapOpen
    refine sat_failIf_bind (fun hx => ⟨by decide, rfl, 0, 0, .inl rfl, Nat.zero_le _, ?_⟩)
      fun hx => ?_
    · funext r
      cases r <;> simp [leftBehind, hheld, hx]
    · have hx : E.callocXal = true := by simpa using hx
      have hnil : Holding [] s := hheld
      obtain ⟨s₁, h₁, hheld₁, hkept₁⟩ := hnil.acquired .xal
      rw [bind_of_ok h₁, modify_bind]
      have hset : Holding [.xal] { s₁ with
          inotifyFd := 0
          sb := default
          store := ⟨default, default, ⟨none, fun _ => none⟩⟩ } := hheld₁
      refine closeFailed_sat ((fiemapOpenBody_sat herr hI hX hx hset rfl rfl fuel path).mono
        (fun _ s' hs' => ?_) fun e s' hs' => ?_)
      · obtain ⟨x, hx⟩ := hs'
        exact ⟨path, x, rfl, hx⟩
      · obtain ⟨hneg, hxal, n, objects, hleft, hn, hle⟩ := hs'
        refine ⟨hneg, hxal.trans ?_, n, objects, hn, hle, hleft⟩
        rw [hkept₁]

/-- A candidate that was opened is released by `xal_close`. -/
theorem FiemapOpened.closed {mountpoint : CStr} {x : Xal FiemapBe}
    (h : FiemapOpened E fuel mountpoint s x) :
    xalClose E s = .ok () { s with held := leftBehind E 0 E.objects } := by
  obtain ⟨top, hc⟩ := h.candidate
  obtain ⟨t, total, -, hmap⟩ := h.sized
  obtain ⟨hi, hx⟩ := xalMapPools_mapped hmap
  have hclosed := hc.closed 0
  rw [streams_zero] at hclosed
  rw [xalClose_apply fun h0 => absurd h0 fun h0 => h0.elim (fun h0 => hi h0.2) fun h0 => hx h0.2,
    hclosed]

/-! ## It comes back -/

theorem returns_modify {f : FiemapOpening → FiemapOpening} :
    ((modify f : Fo Unit) s).Returns := returns_ok () _

theorem openWatcher_returns : (openWatcher E s).Returns := by
  unfold openWatcher xalBeFiemapInotifyInit
  by_cases hw : E.watchMode = .none
  · rw [if_pos hw]
    exact returns_ok _ _
  · simp only [if_neg hw]
    refine (returns_failIf _ _).bind fun _ _ _ => returns_modify.bind fun _ _ _ => ?_
    cases E.inotifyInit1 with
    | error errno => exact returns_modify.bind fun _ _ _ => returns_fail _ _
    | ok fd =>
      refine returns_modify.bind fun _ _ _ => returns_modify.bind fun _ _ _ => ?_
      exact (returns_failIf _ _).bind fun _ _ _ => returns_modify

theorem mapPool_returns {r object : Resource} {os : MapAnswers}
    {map : Cm Err (Store FiemapBe) Unit} (h : ∀ t, (map t).Returns) :
    (mapPool E r object os map s).Returns := by
  have hobject : (createObject E object os s).Returns := by
    unfold createObject
    split
    · exact returns_modify
    · exact returns_ok _ _
  exact hobject.bind fun _ _ _ => (returns_zoom (h _)).bind fun _ _ _ => returns_modify

theorem openPathMap_returns : (openPathMap E s).Returns := by
  unfold openPathMap
  split
  · exact (returns_failIf _ _).bind fun _ _ _ => returns_modify.bind fun _ _ _ => returns_modify
  · exact returns_ok _ _

/-- The opening comes back if counting the entries does, and the process gets over the null pointer
of a pool. -/
theorem xalBeFiemapOpen_returns {mountpoint : Option CStr} {fuel : Nat}
    (hcount : ∀ path, mountpoint = some path → ∀ t, (retrieveTotalEntries E fuel path t).Returns)
    (hnull : E.UnmapsSafely) : (xalBeFiemapOpen E fuel mountpoint s).Returns := by
  cases mountpoint with
  | none => exact returns_fail _ _
  | some path =>
    unfold xalBeFiemapOpen
    refine (returns_failIf _ _).bind fun _ _ _ => returns_modify.bind fun _ _ _ => ?_
    refine returns_modify.bind fun _ s₁ _ => ?_
    have hbody : (fiemapOpenBody E fuel path s₁).Returns := by
      unfold fiemapOpenBody
      refine (returns_failIf _ _).bind fun _ _ _ => returns_modify.bind fun _ _ _ => ?_
      refine openWatcher_returns.bind fun _ t _ => (hcount path rfl t).bind fun total _ _ => ?_
      refine (returns_failIf _ _).bind fun _ _ _ => ?_
      cases E.kernel.stat path with
      | error errno => exact returns_fail _ _
      | ok st =>
        refine returns_modify.bind fun _ _ _ => (returns_failIf _ _).bind fun _ _ _ => ?_
        refine (mapPool_returns fun _ => returns_zoom (map_returns _ _ _ _ _ _ _)).bind
          fun _ _ _ => ?_
        refine (mapPool_returns fun _ => returns_zoom (map_returns _ _ _ _ _ _ _)).bind
          fun _ _ _ => ?_
        exact openPathMap_returns.bind fun _ _ _ => returns_modify
    unfold closeFailed
    rcases hbody.cases with ⟨_, t, hb⟩ | ⟨e, t, hb⟩
    · rw [hb]
      exact returns_ok _ _
    · rw [hb]
      show ((xalClose E >>= fun _ => Cm.fail e) t).Returns
      rw [bind_of_ok (xalClose_apply fun h => hnull (h.imp And.right And.right))]
      exact returns_fail _ _

/-- A watcher of `/m`, which holds one file, on a descriptor 0. -/
def watchedOpenEnv : FiemapOpenEnv where
  kernel := tableKernel [([47, 109], [[97]])] [([47, 109, 47, 97], [])]
  isDtDir _ := false
  stBlksize _ := 4096
  callocXal := true
  callocMountpoint := true
  callocInotify := true
  inotifyInit1 := .ok 0
  khInitWd := true
  khInitPath := true
  osInodes := ⟨0, 0, 0⟩
  osExtents := ⟨0, 0, 0⟩
  munmapNull := true
  mpInodes := mprotectWithin poolReserved inodeNbytes 0
  mpExtents := mprotectWithin poolReserved extentNbytes 0
  watchMode := .dirtyDetection
  hashmap := true
  shmName := none

/-- Nothing held yet. -/
def beforeOpening : FiemapOpening where
  held _ := 0
  inotifyFd := 0
  sb := default
  store := ⟨default, default, ⟨none, fun _ => none⟩⟩
  xal := none

/-- The same, with the pools in the shared memory objects of `s`. -/
def sharedOpenEnv : FiemapOpenEnv := { watchedOpenEnv with shmName := some [115] }

end

end Xallib
