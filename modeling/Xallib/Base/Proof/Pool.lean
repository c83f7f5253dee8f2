import Xallib.Base.Core

/-!
# The pools

`PoolOk mp p`: what holds of a pool from `xal_pool_map` on, given that `mprotect` fails beyond the
reservation. The claimed elements are allocated, the allocated ones reserved, and the elements not
yet claimed are zero. So a claim changes no element (`claimInodes_spec`, `claimExtents_spec`), and
its index fits 32 bits.
-/

namespace Xallib

open Lib Lib.Cm Run

variable {α δ : Type} [Inhabited α]

/-- The invariant of a pool (module doc). -/
structure PoolOk (reserved elementSize : Nat) (p : XalPool α) : Prop where
  free_le : p.free ≤ p.allocated
  allocated_le : p.allocated ≤ reserved
  reserved_eq : p.reserved = reserved
  elementSize_eq : p.elementSize = elementSize
  clean : ∀ i, p.free ≤ i → p.memory i = default

/-- The same pool, with `n` more elements claimed. -/
def Claimed (n : Nat) (p p' : XalPool α) : Prop :=
  p'.free = p.free + n ∧ p'.memory = p.memory

section
variable {mp : Mprotect} {reserved elementSize : Nat} {p : XalPool α}

theorem grow_spec (hmp : mp.Bounded reserved elementSize) (hs : 0 < elementSize)
    (hp : PoolOk reserved elementSize p) (growby : Nat) :
    (xalPoolGrow mp growby p).Sat
      (fun _ p' => PoolOk reserved elementSize p' ∧ Claimed 0 p p' ∧
        p'.allocated = p.allocated + growby ∧ p'.growby = p.growby)
      (fun _ p' => p' = p) := by
  unfold xalPoolGrow
  rw [read_bind]
  refine sat_failIf_bind (fun _ => rfl) fun h => ?_
  have hle := hmp _ (not_not.1 h)
  rw [hp.elementSize_eq, ← Nat.add_mul] at hle
  have hle := Nat.le_of_mul_le_mul_right hle hs
  have hmem : (fun i => if p.free ≤ i ∧ i < p.free + growby then default else p.memory i)
      = p.memory := by
    funext i
    by_cases hi : p.free ≤ i ∧ i < p.free + growby
    · rw [if_pos hi, hp.clean i hi.1]
    · rw [if_neg hi]
  refine ⟨⟨?_, ?_, hp.reserved_eq, hp.elementSize_eq, ?_⟩, ⟨rfl, hmem⟩, rfl, rfl⟩
  · have := hp.free_le
    show p.free ≤ p.allocated + growby
    omega
  · show p.allocated + growby ≤ reserved
    omega
  · intro i hi
    show (fun i => if p.free ≤ i ∧ i < p.free + growby then default else p.memory i) i = default
    rw [hmem]
    exact hp.clean i hi

theorem claimRoom_spec (hmp : mp.Bounded reserved elementSize) (hs : 0 < elementSize)
    (hp : PoolOk reserved elementSize p) (count : Nat) :
    (claimRoom mp count p).Sat
      (fun _ p' => PoolOk reserved elementSize p' ∧ Claimed 0 p p' ∧
        p.free + count ≤ p'.allocated)
      (fun _ p' => p' = p) := by
  unfold claimRoom
  rw [read_bind]
  refine sat_failIf_bind (fun _ => rfl) fun h => ?_
  by_cases ha : p.allocated ≤ p.free + count
  · rw [if_pos ha]
    refine (grow_spec hmp hs hp p.growby).mono (fun _ p' hp' => ?_) (fun _ _ h => h)
    obtain ⟨hok, hc, hall, -⟩ := hp'
    have := hp.free_le
    exact ⟨hok, hc, by omega⟩
  · rw [if_neg ha]
    exact ⟨hp, ⟨rfl, rfl⟩, by omega⟩

/-- The pool after a claim of `count` elements. -/
theorem PoolOk.claim (hp : PoolOk reserved elementSize p) {count : Nat}
    (h : p.free + count ≤ p.allocated) :
    PoolOk reserved elementSize { p with free := p.free + count } :=
  ⟨h, hp.allocated_le, hp.reserved_eq, hp.elementSize_eq, fun i hi => hp.clean i (by
    simp only at hi; omega)⟩

/-- What a claim of `count` elements does. -/
def ClaimPost (reserved elementSize count : Nat) (p : XalPool α) (idx : Nat) (p' : XalPool α) :
    Prop :=
  PoolOk reserved elementSize p' ∧ Claimed count p p' ∧ idx = p.free

theorem claimExtents_spec (hmp : mp.Bounded reserved elementSize) (hs : 0 < elementSize)
    (hr : reserved < 2 ^ 32) (hp : PoolOk reserved elementSize p) (count : Nat) :
    (xalPoolClaimExtents mp count p).Sat (ClaimPost reserved elementSize count p)
      (fun _ p' => p' = p) := by
  unfold xalPoolClaimExtents
  refine (claimRoom_spec hmp hs hp count).bind fun _ p' hp' => ?_
  obtain ⟨hok, ⟨hf, hm⟩, hroom⟩ := hp'
  rw [Nat.add_zero] at hf
  have := hok.allocated_le
  refine ⟨hok.claim (by omega), ⟨by show p'.free + count = _; omega, hm⟩, ?_⟩
  show p'.free % 2 ^ 32 = p.free
  rw [hf, Nat.mod_eq_of_lt (by omega)]

theorem claimInodes_spec (hmp : mp.Bounded reserved elementSize) (hs : 0 < elementSize)
    (hr : reserved < 2 ^ 32) (hp : PoolOk reserved elementSize p) (count : Nat) :
    (xalPoolClaimInodes mp count p).Sat (ClaimPost reserved elementSize count p)
      (fun _ p' => PoolOk reserved elementSize p' ∧ Claimed 0 p p') := by
  unfold xalPoolClaimInodes
  refine ((claimRoom_spec hmp hs hp count).mono (fun _ _ h => h)
    (fun _ p' (h : p' = p) => ?_)).bind fun _ p' hp' => ?_
  · subst h
    exact ⟨hp, rfl, rfl⟩
  obtain ⟨hok, ⟨hf, hm⟩, hroom⟩ := hp'
  rw [Nat.add_zero] at hf
  have := hok.allocated_le
  rw [read_bind]
  refine sat_failIf_bind (fun _ => ⟨hok, hf, hm⟩) fun _ => ?_
  refine ⟨hok.claim (by omega), ⟨by show p'.free + count = _; omega, hm⟩, ?_⟩
  show p'.free % 2 ^ 32 = p.free
  rw [hf, Nat.mod_eq_of_lt (by omega)]

/-- A claim comes back, with slots or with a status. -/
theorem claimRoom_returns (count : Nat) (p : XalPool α) : (claimRoom mp count p).Returns := by
  unfold claimRoom
  rw [read_bind]
  refine (returns_failIf _ _).bind fun _ p' _ => ?_
  by_cases h : p.allocated ≤ p.free + count
  · rw [if_pos h]
    exact (returns_failIf _ _).bind fun _ _ _ => returns_ok _ _
  · rw [if_neg h]
    exact returns_ok _ _

theorem claimInodes_returns (count : Nat) (p : XalPool α) :
    (xalPoolClaimInodes mp count p).Returns := by
  unfold xalPoolClaimInodes
  refine (claimRoom_returns count p).bind fun _ p' _ => ?_
  rw [read_bind]
  exact (returns_failIf _ _).bind fun _ _ _ => returns_ok _ _

theorem claimExtents_returns (count : Nat) (p : XalPool α) :
    (xalPoolClaimExtents mp count p).Returns := by
  unfold xalPoolClaimExtents
  exact (claimRoom_returns count p).bind fun _ _ _ => returns_ok _ _

/-- A claim is larger than the pool grows by, or `mprotect` fails. -/
def ClaimFails (mp : Mprotect) (count : Nat) (p : XalPool α) : Prop :=
  p.growby < count ∨ p.allocated ≤ p.free + count ∧
    mp.grow (p.growby * p.elementSize + p.allocated * p.elementSize) ≠ 0

instance (count : Nat) : Decidable (ClaimFails mp count p) :=
  inferInstanceAs (Decidable (_ ∨ _ ∧ _))

theorem claimExtents_of_fails {count : Nat} (h : ClaimFails mp count p) :
    ∃ e, xalPoolClaimExtents mp count p = .fail e p ∧ e.code < 0 := by
  have hroom : ∃ e, claimRoom mp count p = .fail e p ∧ e.code < 0 := by
    unfold claimRoom
    rw [read_bind]
    by_cases hc : count > p.growby
    · exact ⟨_, bind_of_fail (failIf_true hc _ _), by decide⟩
    · rw [bind_of_ok (failIf_false hc _ _)]
      obtain ⟨ha, hg⟩ := h.resolve_left hc
      rw [if_pos ha, xalPoolGrow, read_bind]
      exact ⟨_, bind_of_fail (failIf_true hg _ _), by simp only; omega⟩
  obtain ⟨e, he, hneg⟩ := hroom
  exact ⟨e, bind_of_fail he, hneg⟩

/-- The pool after a claim that does not fail. -/
theorem claimExtents_of_not_fails {count : Nat} (h : ¬ClaimFails mp count p) :
    ∃ memory, xalPoolClaimExtents mp count p = .ok (p.free % 2 ^ 32) { p with
      memory, free := p.free + count
      allocated := if p.allocated ≤ p.free + count then p.allocated + p.growby
        else p.allocated } := by
  simp only [ClaimFails, not_or, not_and, not_not] at h
  have hroom : ∃ memory, claimRoom mp count p = .ok () { p with
      memory
      allocated := if p.allocated ≤ p.free + count then p.allocated + p.growby
        else p.allocated } := by
    unfold claimRoom
    rw [read_bind, bind_of_ok (failIf_false (by omega) _ _)]
    by_cases ha : p.allocated ≤ p.free + count
    · rw [if_pos ha, if_pos ha, xalPoolGrow, read_bind,
        bind_of_ok (failIf_false (not_not.2 (h.2 ha)) _ _)]
      exact ⟨_, rfl⟩
    · rw [if_neg ha, if_neg ha]
      exact ⟨_, rfl⟩
  obtain ⟨memory, hr⟩ := hroom
  exact ⟨memory, bind_of_ok hr⟩

/-- Clearing a pool empties it, or leaves it as it is where `mprotect` fails. -/
theorem clear_spec (hp : PoolOk reserved elementSize p) :
    (xalPoolClear mp p).Sat
      (fun _ p' => mp.clear = 0 ∧ PoolOk reserved elementSize p' ∧ p'.free = 0)
      (fun _ p' => mp.clear ≠ 0 ∧ p' = p) := by
  unfold xalPoolClear
  refine sat_failIf_bind (fun h => ⟨h, rfl⟩) fun h => ?_
  refine ⟨not_not.1 h, ⟨Nat.le_refl _, Nat.zero_le _, hp.reserved_eq, hp.elementSize_eq,
    fun i _ => ?_⟩, rfl⟩
  show (if i < p.reserved then default else p.memory i) = default
  by_cases hi : i < p.reserved
  · rw [if_pos hi]
  · have h1 := hp.free_le
    have h2 := hp.allocated_le
    have h3 := hp.reserved_eq
    rw [if_neg hi, hp.clean i (by omega)]

/-- A pool is in order when it has been mapped. -/
theorem map_spec {os : MapAnswers} {allocated : Nat} {shm : Bool}
    (hmp : mp.Bounded reserved elementSize) (hs : 0 < elementSize) :
    (xalPoolMap os mp reserved allocated elementSize shm p).Sat
      (fun _ p' => PoolOk reserved elementSize p' ∧ p'.free = 0) (fun _ _ => True) := by
  unfold xalPoolMap
  rw [read_bind]
  refine sat_failIf_bind (fun _ => trivial) fun _ => ?_
  rw [modify_bind]
  cases shm with
  | true =>
    refine sat_failIf_bind (fun _ => trivial) fun _ => ?_
    refine sat_failIf_bind (fun _ => trivial) fun _ => ?_
    refine sat_failIf_bind (fun _ => trivial) fun _ => ?_
    exact ⟨⟨Nat.zero_le _, Nat.le_refl _, rfl, rfl, fun _ _ => rfl⟩, rfl⟩
  | false =>
    refine sat_failIf_bind (fun _ => trivial) fun _ => ?_
    rw [modify_bind]
    refine sat_failIf_bind (fun _ => trivial) fun _ => ?_
    rw [modify_bind]
    refine (grow_spec hmp hs ?_ allocated).mono (fun _ p' hp' => ?_) (fun _ _ _ => trivial)
    · exact ⟨Nat.le_refl _, Nat.zero_le _, rfl, rfl, fun _ _ => rfl⟩
    · exact ⟨hp'.1, hp'.2.1.1⟩

end

/-! ## Both pools of a `struct xal` -/

structure StoreOk (s : Store δ) : Prop where
  inodes : PoolOk poolReserved inodeNbytes s.inodes
  extents : PoolOk poolReserved extentNbytes s.extents

section
variable {mp mp' : Mprotect} {s : Store δ}

theorem onInodes_claim (hmp : mp.Bounded poolReserved inodeNbytes) (hs : StoreOk s) (count : Nat) :
    (onInodes (xalPoolClaimInodes mp count) s).Sat
      (fun idx s' => StoreOk s' ∧ idx = s.inodes.free ∧ s'.inodes.free = s.inodes.free + count ∧
        s'.inodes.memory = s.inodes.memory ∧ s'.extents = s.extents ∧ s'.be = s.be)
      (fun _ s' => StoreOk s' ∧ s'.inodes.free = s.inodes.free ∧
        s'.inodes.memory = s.inodes.memory ∧ s'.extents = s.extents ∧ s'.be = s.be) := by
  apply sat_zoom
  refine (claimInodes_spec hmp (by decide) (by decide) hs.inodes count).mono ?_ ?_
  · rintro idx p ⟨hok, ⟨hf, hm⟩, hi⟩
    exact ⟨⟨hok, hs.extents⟩, hi, hf, hm, rfl, rfl⟩
  · rintro e p ⟨hok, hf, hm⟩
    exact ⟨⟨hok, hs.extents⟩, hf, hm, rfl, rfl⟩

theorem onExtents_claim (hmp : mp.Bounded poolReserved extentNbytes) (hs : StoreOk s)
    (count : Nat) :
    (onExtents (xalPoolClaimExtents mp count) s).Sat
      (fun idx s' => StoreOk s' ∧ idx = s.extents.free ∧
        s'.extents.free = s.extents.free + count ∧ s'.extents.memory = s.extents.memory ∧
        s'.inodes = s.inodes ∧ s'.be = s.be)
      (fun _ s' => s' = s) := by
  apply sat_zoom
  refine (claimExtents_spec hmp (by decide) (by decide) hs.extents count).mono ?_ ?_
  · rintro idx p ⟨hok, ⟨hf, hm⟩, hi⟩
    exact ⟨⟨hs.inodes, hok⟩, hi, hf, hm, rfl, rfl⟩
  · rintro e p rfl
    rfl

/-- A claimed inode may be written. -/
theorem StoreOk.putInode (hs : StoreOk s) {i : Nat} (hi : i < s.inodes.free) (v : XalInode) :
    StoreOk (s.putInode i v) :=
  ⟨⟨hs.inodes.free_le, hs.inodes.allocated_le, hs.inodes.reserved_eq, hs.inodes.elementSize_eq,
    fun j hj => by
      have hj : s.inodes.free ≤ j := hj
      rw [putInode_other s i v (by omega)]
      exact hs.inodes.clean j hj⟩, hs.extents⟩

/-- A claimed extent may be written. -/
theorem StoreOk.putExtent (hs : StoreOk s) {i : Nat} (hi : i < s.extents.free) (v : XalExtent) :
    StoreOk (s.putExtent i v) :=
  ⟨hs.inodes, ⟨hs.extents.free_le, hs.extents.allocated_le, hs.extents.reserved_eq,
    hs.extents.elementSize_eq, fun j hj => by
      have hj : s.extents.free ≤ j := hj
      rw [putExtent_other s i v (by omega)]
      exact hs.extents.clean j hj⟩⟩

/-- Indices of inodes fit 32 bits. -/
theorem StoreOk.free_lt (h : StoreOk s) : s.inodes.free < 2 ^ 32 := by
  have h1 := h.inodes.free_le
  have h2 := h.inodes.allocated_le
  simp only [poolReserved] at h2
  omega

theorem StoreOk.extents_free_lt (h : StoreOk s) : s.extents.free < 2 ^ 32 := by
  have h1 := h.extents.free_le
  have h2 := h.extents.allocated_le
  simp only [poolReserved] at h2
  omega

/-- Both pools are in order when they have been mapped. -/
theorem xalMapPools_spec {osI osX : MapAnswers} {nallocated : Nat} {shm : Bool}
    (hI : mp.Bounded poolReserved inodeNbytes) (hX : mp'.Bounded poolReserved extentNbytes) :
    (xalMapPools osI osX mp mp' nallocated shm s).Sat
      (fun _ s' => StoreOk s' ∧ s'.inodes.free = 0 ∧ s'.extents.free = 0) (fun _ _ => True) := by
  unfold xalMapPools
  refine (sat_zoom ((map_spec hI (by decide)).mono (fun _ p hp => ?_) fun _ _ _ => trivial) :
    (onInodes _ s).Sat (fun _ s' => PoolOk poolReserved inodeNbytes s'.inodes ∧ s'.inodes.free = 0)
      (fun _ _ => True)).bind fun _ s₁ h₁ => ?_
  · exact hp
  · exact sat_zoom ((map_spec hX (by decide)).mono (fun _ p hp => ⟨⟨h₁.1, hp.1⟩, h₁.2, hp.2⟩)
      fun _ _ _ => trivial)

end

/-! ## Null pointers -/

section
/-- What mapping a pool leaves of a null pointer. -/
theorem xalPoolMap_null (os : MapAnswers) (mp : Mprotect) (reserved allocated elementSize : Nat)
    (shm : Bool) {p : XalPool α} (hp : p.reserved = 0) :
    (xalPoolMap os mp reserved allocated elementSize shm p).Sat
      (fun _ _ => ¬os.LeavesNull shm ∧ (shm = true → os.mmap = 0))
      (fun _ p' => p'.reserved = reserved ∧ (shm = true → os.mmap = 0 → os.LeavesNull shm)) := by
  unfold xalPoolMap
  rw [read_bind]
  refine sat_failIf_bind (fun h => absurd hp h) fun _ => ?_
  rw [modify_bind]
  cases shm with
  | true =>
    refine sat_failIf_bind (fun h => ⟨rfl, fun _ _ => ⟨rfl, .inl h⟩⟩) fun hopen => ?_
    refine sat_failIf_bind (fun h => ⟨rfl, fun _ _ => ⟨rfl, .inr h⟩⟩) fun htrunc => ?_
    refine sat_failIf_bind (fun h => ⟨rfl, fun _ h0 => absurd h0 h⟩) fun hmap => ?_
    exact ⟨fun h => h.2.elim hopen htrunc, fun _ => not_not.1 hmap⟩
  | false =>
    have hno : ¬os.LeavesNull false := fun h => nomatch h.1
    refine sat_failIf_bind (fun _ => ⟨rfl, fun h => nomatch h⟩) fun _ => ?_
    rw [modify_bind]
    refine sat_failIf_bind (fun _ => ⟨rfl, fun h => nomatch h⟩) fun _ => ?_
    rw [modify_bind]
    unfold xalPoolGrow
    rw [read_bind]
    refine sat_failIf_bind (fun _ => ⟨rfl, fun h => nomatch h⟩) fun _ => ?_
    exact ⟨hno, fun h => nomatch h⟩

/-- A pool that is mapped has no null pointer. -/
theorem xalPoolMap_mapped {os : MapAnswers} {mp : Mprotect} {reserved allocated elementSize : Nat}
    {shm : Bool} {p p' : XalPool α} {u : Unit}
    (h : xalPoolMap os mp reserved allocated elementSize shm p = .ok u p') :
    ¬os.LeavesNull shm := by
  have hp : p.reserved = 0 := by
    unfold xalPoolMap at h
    rw [read_bind] at h
    exact not_not.1 (failIf_bind_ok.1 h).1
  exact ((xalPoolMap_null os mp reserved allocated elementSize shm hp).ok h).1

theorem xalMapPools_mapped {osI osX : MapAnswers} {mpI mpX : Mprotect} {n : Nat} {shm : Bool}
    {s s' : Store δ} {u : Unit} (h : xalMapPools osI osX mpI mpX n shm s = .ok u s') :
    ¬osI.LeavesNull shm ∧ ¬osX.LeavesNull shm := by
  unfold xalMapPools at h
  obtain ⟨_, t, hi, hx⟩ := bind_ok.1 h
  obtain ⟨_, hi, -⟩ := zoom_ok.1 hi
  obtain ⟨_, hx, -⟩ := zoom_ok.1 hx
  exact ⟨xalPoolMap_mapped hi, xalPoolMap_mapped hx⟩

omit [Inhabited α] in
theorem poolUnmap_ok {os : MapAnswers} {shm munmapNull : Bool} {p p' : XalPool α} {u : Unit} :
    xalPoolUnmap os shm munmapNull p = .ok u p' ↔
      (p.reserved ≠ 0 ∧ os.LeavesNull shm → munmapNull = true) ∧ p' = p := by
  unfold xalPoolUnmap
  rw [read_bind, assert_ok]

/-- One of the pools is unmapped through a null pointer. -/
def UnmapsNull (osI osX : MapAnswers) (shm : Bool) (t : Store δ) : Prop :=
  t.inodes.reserved ≠ 0 ∧ osI.LeavesNull shm ∨ t.extents.reserved ≠ 0 ∧ osX.LeavesNull shm

/-- Pools that are not mapped yet are not unmapped. -/
theorem not_unmapsNull {osI osX : MapAnswers} {shm : Bool} {t : Store δ}
    (hi : t.inodes.reserved = 0) (hx : t.extents.reserved = 0) : ¬UnmapsNull osI osX shm t :=
  fun h => h.elim (fun h => h.1 hi) fun h => h.1 hx

end

end Xallib
