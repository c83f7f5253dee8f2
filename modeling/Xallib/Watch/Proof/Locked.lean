import Xallib.E2E.Paths
import Xallib.Watch.Locked

/-!
# The sequence lock brackets the writes

A call is bracketed (`Brackets`) if the lock is odd at each write to the pools, and even when it
returns. Between the two increments, a function keeps the lock as it is (`KeepsLock`), whichever of
its steps fails.

`lock_brackets`: calls of `xal_index` for FIEMAP and of `check_events` are bracketed, one after the
other. `xal_be_xfs_index` does not know of the lock: a call is bracketed exactly if it writes
nothing (`XfsQuiet`).
-/

namespace Xallib

open Lib Lib.Cm Lib.Run

variable {α δ : Type}

/-- The call `x` is bracketed; `y` is the same with its writes checked. -/
structure Brackets (y : Cm (Option Err) (Xal δ) α) (x : Cm Err (Xal δ) α) (s : Xal δ) : Prop where
  odd : y s = (x s).checked
  even : ∀ s', (x s).Ends s' → s'.seqLock % 2 = 0

/-- The call makes no write with an even lock, and leaves the lock at `n`. -/
abbrev KeepsLock (n : Nat) (r : Run (Option Err) (Xal δ) α) : Prop :=
  r.Sat (fun _ s => s.seqLock = n) fun e s => e ≠ none ∧ s.seqLock = n

/-- The call makes no write with an even lock, and leaves the lock even. -/
abbrev LeavesEven (r : Run (Option Err) (Xal δ) α) : Prop :=
  r.Sat (fun _ s => s.seqLock % 2 = 0) fun e s => e ≠ none ∧ s.seqLock % 2 = 0

theorem brackets_of_leavesEven {y : Cm (Option Err) (Xal δ) α} {x : Cm Err (Xal δ) α} {s : Xal δ}
    (hg : Guards y x) (h : LeavesEven (y s)) : Brackets y x s := by
  have hodd : y s = (x s).checked := by
    rw [hg.eq_iff]
    rintro ⟨t, hr⟩
    exact (h.fail hr).1 rfl
  refine ⟨hodd, fun s' hs' => ?_⟩
  rw [hodd] at h
  rcases hs' with ⟨a, hr⟩ | ⟨e, hr⟩
  · rw [hr] at h
    exact h
  · rw [hr] at h
    exact h.2

/-! ## Between the increments -/

theorem writePool_inside (f : XalPool α → XalPool α) (p : XalPool α) :
    (writePool true f p).Inside := inside_bind rfl trivial

section
variable [Inhabited α] (mp : Mprotect)

theorem clearLocked_inside (p : XalPool α) : (xalPoolClearLocked true mp p).Inside :=
  inside_unchecked_bind fun _ => writePool_inside _

theorem claimInodesLocked_inside (count : Nat) (p : XalPool α) :
    (xalPoolClaimInodesLocked true mp count p).Inside := by
  unfold xalPoolClaimInodesLocked claimRoomLocked xalPoolGrowLocked
  refine Sat.bind (Q := fun _ _ => True) ?_ fun _ p₁ _ => ?_
  · rw [read_bind]
    refine inside_unchecked_bind fun _ p₁ => ?_
    by_cases hroom : p.allocated ≤ p.free + count
    · rw [if_pos hroom, read_bind]
      exact inside_unchecked_bind fun _ => writePool_inside _
    · rw [if_neg hroom]
      trivial
  · rw [read_bind]
    refine inside_unchecked_bind fun _ p₂ => ?_
    exact (writePool_inside _ p₂).bind fun _ _ _ => trivial

end

theorem inside_zoom {σ τ : Type} {get : σ → τ} {set : σ → τ → σ} {y : Cm (Option Err) τ α} {s : σ}
    (h : (y (get s)).Inside) : (zoom get set y s).Inside :=
  sat_zoom (h.mono (fun _ _ h => h) fun _ _ h => h)

theorem inside_ignore {σ : Type} {y : Cm (Option Err) σ Unit} {s : σ} (h : (y s).Inside) :
    (ignoreChecked y s).Inside := by
  unfold ignoreChecked
  cases hy : y s with
  | ok _ _ => trivial
  | fail e t =>
    cases e with
    | none => exact absurd rfl (h.fail hy)
    | some e => trivial
  | crash => trivial
  | spin => trivial

section
variable {x : Xal δ} {n : Nat}

theorem onStoreLocked_keeps {y : Bool → Cm (Option Err) (Store δ) α} (hodd : n % 2 = 1)
    (hx : x.seqLock = n) (h : (y true x.store).Inside) : KeepsLock n (onStoreLocked y x) := by
  subst hx
  unfold onStoreLocked
  rw [beq_iff_eq.2 hodd]
  exact sat_zoom (h.mono (fun _ _ _ => rfl) fun _ _ he => ⟨he, rfl⟩)

theorem writeLocked_keeps (y : Cm Err (Store δ) α) (hodd : n % 2 = 1) (hx : x.seqLock = n) :
    KeepsLock n (writeLocked y x) :=
  onStoreLocked_keeps hodd hx (inside_bind rfl (inside_unchecked y _))

theorem clearPoolsLocked_keeps (mpI mpX : Mprotect) (hodd : n % 2 = 1) (hx : x.seqLock = n) :
    KeepsLock n (clearPoolsLocked mpI mpX x) := by
  refine Sat.bind (onStoreLocked_keeps hodd hx ?_) fun _ x₁ hx₁ => onStoreLocked_keeps hodd hx₁ ?_
  · exact inside_ignore (inside_zoom (clearLocked_inside mpI _))
  · exact inside_ignore (inside_zoom (clearLocked_inside mpX _))

theorem claimRootLocked_keeps (mp : Mprotect) (sb : XalSb) (hodd : n % 2 = 1) (hx : x.seqLock = n) :
    KeepsLock n (claimRootLocked mp sb x) := by
  have hclaim : (onInodesLocked (xalPoolClaimInodesLocked true mp 1) x.store).Inside :=
    inside_zoom (claimInodesLocked_inside mp 1 _)
  refine Sat.bind (onStoreLocked_keeps hodd hx hclaim) fun rootIdx x₁ hx₁ => ?_
  rw [modify_bind]
  refine Sat.bind (writeLocked_keeps _ hodd ?_) fun _ _ hx₂ => ?_
  · exact hx₁
  · exact hx₂

/-- A check, before anything is written. -/
theorem leavesEven_failIf_bind {c : Prop} [Decidable c] {e : Err} (heven : x.seqLock % 2 = 0)
    {y : Unit → Cm (Option Err) (Xal δ) α} (h : ¬c → LeavesEven (y () x)) :
    LeavesEven ((unchecked (failIf c e) >>= y) x) := by
  by_cases hc : c
  · rw [bind_of_fail (show unchecked (failIf c e) x = .fail (some e) x by
      rw [unchecked, failIf_true hc, checked])]
    exact ⟨Option.some_ne_none e, heven⟩
  · rw [bind_of_ok (checked_ok.2 (failIf_false hc e x))]
    exact h hc

/-- The two increments around a function that keeps the lock. -/
theorem onExit_even {y : Cm (Option Err) (Xal δ) α} (heven : x.seqLock % 2 = 0)
    (h : ∀ n, n % 2 = 1 → ∀ z : Xal δ, z.seqLock = n → KeepsLock n (y z)) :
    LeavesEven (onExit addSeqLock y (addSeqLock x)) := by
  have hodd : (x.seqLock + 1) % 2 ^ 32 % 2 = 1 := by omega
  have hnext : ∀ z : Xal δ, z.seqLock = (x.seqLock + 1) % 2 ^ 32 →
      (addSeqLock z).seqLock % 2 = 0 := by
    intro z hz
    rw [addSeqLock, hz]
    simp only
    omega
  refine sat_onExit ((h _ hodd (addSeqLock x) rfl).mono (fun _ z hz => hnext z hz) fun _ z hz => ?_)
  exact ⟨hz.1, hnext z hz.2⟩

end

section
variable {E : FiemapEnv} {x : Xal FiemapBe} {n : Nat}

theorem fiemapIndexBodyLocked_keeps (fuel : Nat) (hodd : n % 2 = 1) (hx : x.seqLock = n) :
    KeepsLock n (fiemapIndexBodyLocked E fuel x) := by
  refine Sat.bind (clearPoolsLocked_keeps _ _ hodd hx) fun _ x₁ hx₁ => ?_
  have hmap : unchecked (onStore (clearInodeMap E)) x₁ =
      .ok () { x₁ with store := { x₁.store with be := beCleared E x₁.store.be } } := by
    rw [unchecked, checked_ok]
    exact zoom_of_ok clearInodeMap_eq
  rw [bind_of_ok hmap]
  refine Sat.bind (claimRootLocked_keeps _ _ hodd ?_) fun rootIdx x₂ hx₂ => ?_
  · exact hx₁
  · exact Sat.bind (writeLocked_keeps _ hodd hx₂) fun _ _ hx₃ => hx₃

theorem indexLocked_even (fuel : Nat) (heven : x.seqLock % 2 = 0) :
    LeavesEven (xalIndexLocked (xalBeFiemapIndexLocked E fuel) x) := by
  refine leavesEven_failIf_bind heven fun _ => leavesEven_failIf_bind heven fun _ => ?_
  rw [modify_bind]
  exact onExit_even heven fun n hodd z hz => fiemapIndexBodyLocked_keeps fuel hodd hz

theorem refreshChildLocked_keeps (dirInode : XalInode) (path : CStr) (hodd : n % 2 = 1)
    (hx : x.seqLock = n) : KeepsLock n (refreshChildLocked E dirInode path x) := by
  unfold refreshChildLocked
  rw [read_bind]
  cases findChild x dirInode path with
  | none => exact ⟨Option.some_ne_none _, hx⟩
  | some inode =>
    refine Sat.bind (writeLocked_keeps _ hodd hx) fun _ x₁ hx₁ => ?_
    cases E.kernel.stat path with
    | error errno => exact ⟨Option.some_ne_none _, hx₁⟩
    | ok st => exact writeLocked_keeps _ hodd hx₁

theorem checkEventLocked_even (event : InotifyEvent) (heven : x.seqLock % 2 = 0) :
    LeavesEven (checkEventLocked E event x) := by
  unfold checkEventLocked
  by_cases hmode : E.watchMode = .dirtyDetection
  · rw [if_pos hmode]
    exact heven
  rw [if_neg hmode]
  by_cases hunmount : event.has IN_UNMOUNT = true
  · rw [if_pos hunmount]
    exact ⟨Option.some_ne_none _, heven⟩
  rw [if_neg hunmount]
  by_cases hmodify : event.has (IN_MODIFY ||| IN_CLOSE_WRITE) = true
  · rw [if_pos hmodify, read_bind]
    cases khGetWd x.store.be event.wd with
    | none => exact ⟨Option.some_ne_none _, heven⟩
    | some dir =>
      refine leavesEven_failIf_bind heven fun _ => leavesEven_failIf_bind heven fun _ => ?_
      rw [modify_bind]
      refine Sat.bind (onExit_even heven fun n hodd z hz => ?_) fun _ _ h => h
      exact refreshChildLocked_keeps _ _ hodd hz
  · rw [if_neg hmodify]
    exact heven

/-- The events, one after the other. -/
theorem checkEventsLocked_even (events : List (FiemapEnv × InotifyEvent)) :
    ∀ {x : Xal FiemapBe}, x.seqLock % 2 = 0 → LeavesEven (checkEventsLocked events x) := by
  induction events with
  | nil => exact fun heven => heven
  | cons c events ih =>
    intro x heven
    refine Sat.bind (checkEventLocked_even c.2 heven) fun ended x₁ hx₁ => ?_
    cases ended with
    | true => exact hx₁
    | false => exact ih hx₁

end

/-! ## Without increments -/

/-- The claim of one inode writes nothing. -/
def RootFails (mp : Mprotect) (p : XalPool XalInode) : Prop :=
  ClaimFails mp 1 p ∨ ¬p.allocated ≤ p.free + 1 ∧ UINT32_MAX < p.free + 1

/-- `xal_index` writes nothing for XFS: it is refused, or `mprotect` does not let it. -/
def XfsQuiet (E : XfsEnv) (x : Xal Buf) : Prop :=
  x.sharedView = true ∨ E.retrieved = false ∨
    E.mpInodes.clear ≠ 0 ∧ E.mpExtents.clear ≠ 0 ∧ RootFails E.mpInodes x.store.inodes

/-- The run ends where it has begun, with `some` status, or, if `c`, at a write. -/
def FailsWhen {σ : Type} (s : σ) (c : Prop) (r : Run (Option Err) σ α) : Prop :=
  ∃ e, r = .fail e s ∧ (e = none ↔ c)

theorem FailsWhen.outside_iff {σ : Type} {s : σ} {c : Prop} {r : Run (Option Err) σ α}
    (h : FailsWhen s c r) : r.Outside ↔ c := by
  obtain ⟨e, rfl, he⟩ := h
  rw [← he]
  constructor
  · rintro ⟨_, hr⟩
    cases hr
    rfl
  · rintro rfl
    exact ⟨s, rfl⟩

theorem writePool_fails (f : XalPool α → XalPool α) (p : XalPool α) :
    writePool false f p = .fail none p := rfl

theorem clearLocked_fails [Inhabited α] (mp : Mprotect) (p : XalPool α) :
    FailsWhen p (mp.clear = 0) (xalPoolClearLocked false mp p) := by
  unfold xalPoolClearLocked
  by_cases hclear : mp.clear = 0
  · rw [bind_of_ok (checked_ok.2 (failIf_false (not_not.2 hclear) _ p)), writePool_fails]
    exact ⟨none, rfl, by simp [hclear]⟩
  · refine ⟨some ⟨.mprotect, -(mp.clear : Int)⟩, bind_of_fail ?_, by simp [hclear]⟩
    rw [unchecked, failIf_true hclear, checked]

theorem claimLocked_fails (mp : Mprotect) (p : XalPool XalInode) :
    FailsWhen p (¬RootFails mp p) (xalPoolClaimInodesLocked false mp 1 p) := by
  have hcheck : ∀ (c : Prop) [Decidable c] (e : Err), c →
      (unchecked (failIf c e) : Cm (Option Err) (XalPool XalInode) Unit) p = .fail (some e) p := by
    intro c _ e hc
    rw [unchecked, failIf_true hc, checked]
  have hpass : ∀ (c : Prop) [Decidable c] (e : Err), ¬c →
      (unchecked (failIf c e) : Cm (Option Err) (XalPool XalInode) Unit) p = .ok () p :=
    fun c _ e hc => checked_ok.2 (failIf_false hc e p)
  unfold xalPoolClaimInodesLocked claimRoomLocked xalPoolGrowLocked RootFails ClaimFails
  rw [bind_assoc_apply, read_bind, bind_assoc_apply]
  by_cases hcount : 1 > p.growby
  · exact ⟨_, bind_of_fail (hcheck _ _ hcount), by simp [hcount]⟩
  rw [bind_of_ok (hpass _ _ hcount)]
  by_cases hroom : p.allocated ≤ p.free + 1
  · rw [if_pos hroom, bind_assoc_apply, read_bind, bind_assoc_apply]
    by_cases hgrow : mp.grow (p.growby * p.elementSize + p.allocated * p.elementSize) ≠ 0
    · exact ⟨_, bind_of_fail (hcheck _ _ hgrow), by simp [hroom, hgrow]⟩
    · rw [bind_of_ok (hpass _ _ hgrow), bind_of_fail (writePool_fails _ p)]
      exact ⟨none, rfl, by simp [hcount, hroom, hgrow]⟩
  · rw [if_neg hroom, ret_bind, read_bind]
    by_cases hmax : p.free + 1 > UINT32_MAX
    · exact ⟨_, bind_of_fail (hcheck _ _ hmax), by simp [hroom, hmax]⟩
    · rw [bind_of_ok (hpass _ _ hmax), bind_of_fail (writePool_fails _ p)]
      exact ⟨none, rfl, by simp [hcount, hroom, hmax]⟩

theorem FailsWhen.zoom {σ τ : Type} {get : σ → τ} {set : σ → τ → σ}
    {y : Cm (Option Err) τ α} {s : σ}
    {c : Prop} (h : FailsWhen (get s) c (y (get s))) (hset : set s (get s) = s) :
    FailsWhen s c (zoom get set y s) := by
  obtain ⟨e, hr, he⟩ := h
  refine ⟨e, ?_, he⟩
  rw [zoom_of_fail hr, hset]

section
variable {x : Xal δ} {c : Prop}

theorem onStoreLocked_even {y : Bool → Cm (Option Err) (Store δ) α} (heven : x.seqLock % 2 = 0) :
    onStoreLocked y x = zoom (·.store) (fun xal s => { xal with store := s }) (y false) x := by
  unfold onStoreLocked
  rw [heven]
  rfl

/-- A function whose status is not looked at. -/
theorem ignoreLocked_fails {y : Bool → Cm (Option Err) (Store δ) Unit} (heven : x.seqLock % 2 = 0)
    (h : FailsWhen x.store c (y false x.store)) :
    (c ∧ onStoreLocked (fun odd => ignoreChecked (y odd)) x = .fail none x) ∨
      ¬c ∧ onStoreLocked (fun odd => ignoreChecked (y odd)) x = .ok () x := by
  obtain ⟨e, hr, he⟩ := h
  rw [onStoreLocked_even heven]
  cases e with
  | none =>
    refine .inl ⟨he.1 rfl, zoom_of_fail ?_⟩
    rw [ignoreChecked, hr]
  | some e =>
    refine .inr ⟨fun hc => ?_, zoom_of_ok ?_⟩
    · cases he.2 hc
    · rw [ignoreChecked, hr]

theorem clearPoolsLocked_fails (mpI mpX : Mprotect) (heven : x.seqLock % 2 = 0) :
    (¬(mpI.clear ≠ 0 ∧ mpX.clear ≠ 0) ∧ clearPoolsLocked mpI mpX x = .fail none x) ∨
      (mpI.clear ≠ 0 ∧ mpX.clear ≠ 0) ∧ clearPoolsLocked mpI mpX x = .ok () x := by
  unfold clearPoolsLocked
  have hI : FailsWhen x.store (mpI.clear = 0)
      (onInodesLocked (xalPoolClearLocked false mpI) x.store) :=
    (clearLocked_fails mpI x.store.inodes).zoom rfl
  have hX : FailsWhen x.store (mpX.clear = 0)
      (onExtentsLocked (xalPoolClearLocked false mpX) x.store) :=
    (clearLocked_fails mpX x.store.extents).zoom rfl
  rcases ignoreLocked_fails (y := fun odd => onInodesLocked (xalPoolClearLocked odd mpI)) heven hI
    with ⟨hc, hr⟩ | ⟨hc, hr⟩
  · exact .inl ⟨fun h => h.1 hc, bind_of_fail hr⟩
  rw [bind_of_ok hr]
  rcases ignoreLocked_fails (y := fun odd => onExtentsLocked (xalPoolClearLocked odd mpX)) heven hX
    with ⟨hc', hr'⟩ | ⟨hc', hr'⟩
  · exact .inl ⟨fun h => h.2 hc', hr'⟩
  · exact .inr ⟨⟨hc, hc'⟩, hr'⟩

theorem claimRootLocked_fails (mp : Mprotect) (sb : XalSb) (heven : x.seqLock % 2 = 0) :
    FailsWhen x (¬RootFails mp x.store.inodes) (claimRootLocked mp sb x) := by
  have hclaim : FailsWhen x.store (¬RootFails mp x.store.inodes)
      (onInodesLocked (xalPoolClaimInodesLocked false mp 1) x.store) :=
    (claimLocked_fails mp x.store.inodes).zoom rfl
  obtain ⟨e, hr, he⟩ := hclaim
  refine ⟨e, bind_of_fail ?_, he⟩
  rw [onStoreLocked_even heven]
  exact zoom_of_fail hr

end

/-- Without the lock, the call fails at once, at a write if it makes one. -/
theorem xfsIndexLocked_fails (E : XfsEnv) (fuel : Nat) {x : Xal Buf} (heven : x.seqLock % 2 = 0) :
    FailsWhen x (¬XfsQuiet E x) (xalIndexLocked (xalBeXfsIndexLocked E fuel) x) := by
  unfold xalIndexLocked xalBeXfsIndexLocked XfsQuiet
  rw [read_bind]
  by_cases hview : x.sharedView = true
  · refine ⟨some ⟨.argument, -EINVAL⟩, bind_of_fail ?_, by simp [hview]⟩
    rw [unchecked, failIf_true hview, checked]
  rw [bind_of_ok (checked_ok.2 (failIf_false hview _ x))]
  by_cases hret : E.retrieved = false
  · refine ⟨some ⟨.argument, -EINVAL⟩, bind_of_fail ?_, by simp [hret]⟩
    rw [unchecked, failIf_true hret, checked]
  rw [bind_of_ok (checked_ok.2 (failIf_false hret _ x))]
  rcases clearPoolsLocked_fails E.mpInodes E.mpExtents heven with ⟨hclear, hr⟩ | ⟨hclear, hr⟩
  · rw [bind_of_fail hr]
    refine ⟨none, rfl, ⟨fun _ => ?_, fun _ => rfl⟩⟩
    rintro (h | h | h)
    · exact hview h
    · exact hret h
    · exact hclear ⟨h.1, h.2.1⟩
  · rw [bind_of_ok hr]
    obtain ⟨e, hr', he⟩ := claimRootLocked_fails E.mpInodes E.sb heven
    rw [bind_of_fail hr']
    refine ⟨e, rfl, he.trans (not_congr ?_)⟩
    exact ⟨fun h => .inr (.inr ⟨hclear.1, hclear.2, h⟩), fun h =>
      ((h.resolve_left hview).resolve_left hret).2.2⟩

/-- The backend leaves the lock as it is. -/
theorem xalIndex_xfs_seqLock (E : XfsEnv) (fuel : Nat) (x : Xal Buf) :
    (xalIndex (xalBeXfsIndex E fuel) x).Sat (fun _ x' => x'.seqLock = x.seqLock)
      (fun _ x' => x'.seqLock = x.seqLock) := by
  have hstore : ∀ {α : Type} (y : Cm Err (Store Buf) α) (z : Xal Buf), z.seqLock = x.seqLock →
      (onStore y z).Sat (fun _ x' => x'.seqLock = x.seqLock) (fun _ x' => x'.seqLock = x.seqLock) :=
    fun y z hz => sat_zoom (sat_of_forall (fun _ _ => hz) fun _ _ => hz)
  unfold xalIndex xalBeXfsIndex
  rw [read_bind]
  refine sat_failIf_bind (fun _ => rfl) fun _ => sat_failIf_bind (fun _ => rfl) fun _ => ?_
  refine (hstore _ _ rfl).bind fun _ x₁ h₁ => (hstore _ _ h₁).bind fun _ x₂ h₂ => ?_
  refine (hstore _ _ h₂).bind fun rootIdx x₃ h₃ => ?_
  rw [modify_bind]
  refine (hstore _ { x₃ with rootIdx } h₃).bind fun _ x₄ h₄ => ?_
  exact (hstore _ _ h₄).bind fun _ x₅ h₅ => h₅

/-! ## Runs -/

/-- A call of `xal_index` for XFS. -/
def XfsIndexed (x x' : Xal Buf) : Prop := ∃ E fuel, (xalIndex (xalBeXfsIndex E fuel) x).Ends x'

/-- A call of `xal_index` for FIEMAP, or of `check_events`. -/
def FiemapCalled (x x' : Xal FiemapBe) : Prop :=
  (∃ E fuel, (xalIndex (xalBeFiemapIndex E fuel) x).Ends x') ∨
    ∃ events, (checkEvents events x).Ends x'

theorem fiemapCalls_bracketed {x : Xal FiemapBe} (heven : x.seqLock % 2 = 0) :
    (∀ E fuel, Brackets (xalIndexLocked (xalBeFiemapIndexLocked E fuel))
      (xalIndex (xalBeFiemapIndex E fuel)) x) ∧
    ∀ events, Brackets (checkEventsLocked events) (checkEvents events) x :=
  ⟨fun E fuel => brackets_of_leavesEven (xalIndexLocked_guards
    (xalBeFiemapIndexLocked_guards E fuel))
      (indexLocked_even fuel heven),
    fun events => brackets_of_leavesEven (checkEventsLocked_guards events)
      (checkEventsLocked_even events heven)⟩

def LockEven (x : Xal δ) : Prop := x.seqLock % 2 = 0

theorem JustOpened.lockEven {type : XalBackend} {shm : Bool} {x : Xal δ}
    (h : JustOpened type shm x) :
    LockEven x := by rw [LockEven, h.seqLock]

theorem fiemapRun_even {shm : Bool} {x : Xal FiemapBe}
    (h : Reach (JustOpened .fiemap shm) FiemapCalled x) : LockEven x := by
  refine h.invariant (fun _ h => h.lockEven) fun x x' heven hstep => ?_
  rcases hstep with ⟨E, fuel, hend⟩ | ⟨events, hend⟩
  · exact ((fiemapCalls_bracketed heven).1 E fuel).even x' hend
  · exact ((fiemapCalls_bracketed heven).2 events).even x' hend

theorem xfsRun_even {shm : Bool} {x : Xal Buf} (h : Reach (JustOpened .xfs shm) XfsIndexed x) :
    LockEven x := by
  refine h.invariant (fun _ h => h.lockEven) fun x x' heven hstep => ?_
  obtain ⟨E, fuel, hend⟩ := hstep
  rw [LockEven, (xalIndex_xfs_seqLock E fuel x).ends hend]
  exact heven

/-- The calls for FIEMAP are bracketed, those for XFS exactly if they write nothing. -/
theorem lock_brackets_iff (shm : Bool) :
    (∀ x, Reach (JustOpened .fiemap shm) FiemapCalled x →
      (∀ E fuel, Brackets (xalIndexLocked (xalBeFiemapIndexLocked E fuel))
        (xalIndex (xalBeFiemapIndex E fuel)) x) ∧
      ∀ events, Brackets (checkEventsLocked events) (checkEvents events) x) ∧
    ∀ x, Reach (JustOpened .xfs shm) XfsIndexed x → ∀ E fuel,
      (Brackets (xalIndexLocked (xalBeXfsIndexLocked E fuel)) (xalIndex (xalBeXfsIndex E fuel)) x ↔
        XfsQuiet E x) := by
  refine ⟨fun x hx => fiemapCalls_bracketed (fiemapRun_even hx), fun x hx E fuel => ?_⟩
  have heven := xfsRun_even hx
  have hguards := xalIndexLocked_guards (xalBeXfsIndexLocked_guards E fuel)
  have hiff : xalIndexLocked (xalBeXfsIndexLocked E fuel) x =
      (xalIndex (xalBeXfsIndex E fuel) x).checked ↔ XfsQuiet E x := by
    rw [hguards.eq_iff, (xfsIndexLocked_fails E fuel heven).outside_iff, Classical.not_not]
  constructor
  · exact fun h => hiff.1 h.odd
  · intro h
    refine ⟨hiff.2 h, fun x' hx' => ?_⟩
    rw [(xalIndex_xfs_seqLock E fuel x).ends hx']
    exact heven

/-! ## A first index -/

/-- The device before its dinodes have been retrieved. -/
def unretrievedXfs : XfsEnv := { treeDisk with retrieved := false }

theorem lock_brackets_first :
    Brackets (xalIndexLocked (xalBeFiemapIndexLocked oneFile 2))
      (xalIndex (xalBeFiemapIndex oneFile 2))
      (fiemapOpened default false) ∧
    Brackets (xalIndexLocked (xalBeXfsIndexLocked unretrievedXfs 3))
      (xalIndex (xalBeXfsIndex unretrievedXfs 3)) (xfsOpened treeDisk.sb) := by
  obtain ⟨hfiemap, hxfs⟩ := lock_brackets_iff true
  constructor
  · exact (hfiemap _ (.init (openedXal_justOpened _ _ _))).1 oneFile 2
  · exact (hxfs _ (.init (openedXal_justOpened _ _ _)) unretrievedXfs 3).2 (.inr (.inl rfl))

/-- The index of an XFS file system is written with an even lock. -/
theorem lock_not_bracketed :
    ¬Brackets (xalIndexLocked (xalBeXfsIndexLocked treeDisk 3))
      (xalIndex (xalBeXfsIndex treeDisk 3))
      (xfsOpened treeDisk.sb) := by
  intro h
  have hout :
      (xalIndexLocked (xalBeXfsIndexLocked treeDisk 3) (xfsOpened treeDisk.sb)).Outside := by
    decide +kernel
  exact (xalIndexLocked_guards (xalBeXfsIndexLocked_guards treeDisk 3)).eq_iff.1 h.odd hout

end Xallib
