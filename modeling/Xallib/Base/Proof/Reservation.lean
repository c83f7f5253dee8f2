import Xallib.Base.Proof.Pool
import Xallib.Lib.Machine

/-!
# Pools and their reservations

A pool over its life (`PoolOp`, from a pool of zero bytes on), where `mprotect` may succeed on any
range. `PoolBounds` is what should hold throughout. `xal_pool_map` checks the first growth against
the reservation; `xal_pool_grow` checks nothing, so the bounds hold exactly as long as no claim
grows the pool past its reservation (`pool_within_reservation`).
-/

namespace Xallib

open Lib Lib.Cm Lib.Run

/-- The calls on a pool, with the answers of the operating system. -/
inductive PoolOp
  | map (os : MapAnswers) (mp : Mprotect) (reserved allocated elementSize : Nat) (shm : Bool)
  | claimInodes (mp : Mprotect) (count : Nat)
  | claimExtents (mp : Mprotect) (count : Nat)
  | clear (mp : Mprotect)

section
variable {α : Type} [Inhabited α]

/-- A call; the result is the index that a claim returns. -/
def PoolOp.call : PoolOp → Cm Err (XalPool α) (Option Nat)
  | map os mp reserved allocated elementSize shm => do
    xalPoolMap os mp reserved allocated elementSize shm
    pure none
  | claimInodes mp count => do
    let idx ← xalPoolClaimInodes mp count
    pure (some idx)
  | claimExtents mp count => do
    let idx ← xalPoolClaimExtents mp count
    pure (some idx)
  | clear mp => do
    xalPoolClear mp
    pure none

/-- The state a call leaves behind. -/
def PoolOp.after (op : PoolOp) (pool : XalPool α) : XalPool α :=
  match op.call pool with
  | .ok _ pool' => pool'
  | .fail _ pool' => pool'
  | _ => pool

/-- The count of a claim. -/
def PoolOp.count : PoolOp → Nat
  | claimInodes _ count => count
  | claimExtents _ count => count
  | _ => 0

/-- A claim of `count` elements grows the pool. -/
def ClaimGrows (mp : Mprotect) (count : Nat) (pool : XalPool α) : Prop :=
  count ≤ pool.growby ∧ pool.allocated ≤ pool.free + count ∧
    mp.grow (pool.growby * pool.elementSize + pool.allocated * pool.elementSize) = 0

def PoolOp.Grows : PoolOp → XalPool α → Prop
  | claimInodes mp count, pool => ClaimGrows mp count pool
  | claimExtents mp count, pool => ClaimGrows mp count pool
  | _, _ => False

/-- The pool does not grow past its reservation. -/
def PoolOp.Within (op : PoolOp) (pool : XalPool α) : Prop :=
  op.Grows pool → pool.allocated + pool.growby ≤ pool.reserved

structure PoolBounds (pool : XalPool α) : Prop where
  free_le : pool.free ≤ pool.allocated
  allocated_le : pool.allocated ≤ pool.reserved

/-- A call keeps the bounds, its `memset` (from `free` on, over the elements to grow by) stays in
the reservation, and so does the range of elements it returns. -/
structure PoolOp.Safe (op : PoolOp) (pool : XalPool α) : Prop where
  bounds : PoolBounds (op.after pool)
  memset : op.Grows pool → pool.free + pool.growby ≤ pool.reserved
  returned : ∀ idx pool', op.call pool = .ok (some idx) pool' → idx + op.count ≤ pool'.reserved

variable {mp : Mprotect} {pool : XalPool α}

/-! ## One call -/

theorem PoolOp.after_of_sat {op : PoolOp} {P : XalPool α → Prop} (hr : (op.call pool).Returns)
    (h : (op.call pool).Sat (fun _ => P) (fun _ => P)) : P (op.after pool) := by
  unfold after
  rcases hr.cases with ⟨a, s, hr⟩ | ⟨e, s, hr⟩
  · rw [hr] at h ⊢; exact h
  · rw [hr] at h ⊢; exact h

/-- Room for a claim: the pool grows, or it does not. -/
theorem claimRoom_bounds (mp : Mprotect) (count : Nat) {pool : XalPool α} (hb : PoolBounds pool) :
    (claimRoom mp count pool).Sat
      (fun _ p => p.free = pool.free ∧ p.reserved = pool.reserved ∧
        pool.free + count ≤ p.allocated ∧
        (ClaimGrows mp count pool → p.allocated = pool.allocated + pool.growby) ∧
        (¬ClaimGrows mp count pool → p.allocated = pool.allocated))
      (fun _ p => p = pool ∧ ¬ClaimGrows mp count pool) := by
  have hle := hb.free_le
  unfold claimRoom
  rw [read_bind]
  refine sat_failIf_bind (fun hc => ⟨rfl, fun h => ?_⟩) fun hc => ?_
  · have := h.1
    omega
  by_cases ha : pool.allocated ≤ pool.free + count
  · rw [if_pos ha, xalPoolGrow, read_bind]
    refine sat_failIf_bind (fun hg => ⟨rfl, fun h => hg h.2.2⟩) fun hg => ?_
    have hgrows : ClaimGrows mp count pool := ⟨by omega, ha, not_not.1 hg⟩
    refine ⟨rfl, rfl, ?_, fun _ => rfl, fun h => absurd hgrows h⟩
    show pool.free + count ≤ pool.allocated + pool.growby
    omega
  · rw [if_neg ha]
    exact ⟨rfl, rfl, by omega, fun h => absurd h.2.1 ha, fun _ => rfl⟩

/-- What is left of a claim: it fails, or returns the index and counts the elements. -/
def Counts (count : Nat) (x : Cm Err (XalPool α) (Option Nat)) : Prop :=
  ∀ p, (∃ e, x p = .fail e p) ∨
    x p = .ok (some (p.free % 2 ^ 32)) { p with free := p.free + count }

/-- A claim, as far as the bounds are concerned. -/
theorem claim_spec (mp : Mprotect) {count : Nat} {x : Cm Err (XalPool α) (Option Nat)}
    (hx : Counts count x) {pool : XalPool α} (hb : PoolBounds pool) :
    ((claimRoom mp count >>= fun _ => x) pool).Returns ∧
    ((claimRoom mp count >>= fun _ => x) pool).Sat
      (fun r p => (ClaimGrows mp count pool → p.allocated = pool.allocated + pool.growby) ∧
        p.reserved = pool.reserved ∧
        ((ClaimGrows mp count pool → pool.allocated + pool.growby ≤ pool.reserved) →
          PoolBounds p ∧ ∀ idx, r = some idx → idx + count ≤ p.reserved))
      (fun _ p => (ClaimGrows mp count pool → p.allocated = pool.allocated + pool.growby) ∧
        p.reserved = pool.reserved ∧
        ((ClaimGrows mp count pool → pool.allocated + pool.growby ≤ pool.reserved) →
          PoolBounds p)) := by
  have hle := hb.free_le
  have hal := hb.allocated_le
  constructor
  · refine (claimRoom_returns count pool).bind fun _ p _ => ?_
    rcases hx p with ⟨e, h⟩ | h
    · rw [h]; exact returns_fail _ _
    · rw [h]; exact returns_ok _ _
  · refine ((claimRoom_bounds mp count hb).mono (fun _ _ h => h) ?_).bind ?_
    · rintro _ p ⟨rfl, hn⟩
      exact ⟨fun h => absurd h hn, rfl, fun _ => hb⟩
    · rintro _ p ⟨hfree, hres, hroom, hgrow, hstay⟩
      have hbound : (ClaimGrows mp count pool → pool.allocated + pool.growby ≤ pool.reserved) →
          p.allocated ≤ p.reserved := by
        intro hw
        by_cases hg : ClaimGrows mp count pool
        · rw [hgrow hg, hres]; exact hw hg
        · rw [hstay hg, hres]; exact hal
      have hmod := Nat.mod_le p.free (2 ^ 32)
      rcases hx p with ⟨e, h⟩ | h
      · rw [h]
        exact ⟨hgrow, hres, fun hw => ⟨by omega, hbound hw⟩⟩
      · rw [h]
        refine ⟨hgrow, hres, fun hw => ⟨⟨?_, hbound hw⟩, fun idx hi => ?_⟩⟩
        · show p.free + count ≤ p.allocated
          omega
        · have := hbound hw
          obtain rfl := Option.some.inj hi
          show p.free % 2 ^ 32 + count ≤ p.reserved
          omega

theorem claimInodes_call (mp : Mprotect) (count : Nat) :
    ∃ x, (PoolOp.claimInodes mp count).call = (claimRoom mp count >>= fun _ => x) ∧
      Counts (α := α) count x := by
  refine ⟨do
    let pool ← read
    failIf (pool.free + count > UINT32_MAX) ⟨.claim, -EOVERFLOW⟩
    modify fun pool => { pool with free := pool.free + count }
    pure (some (pool.free % 2 ^ 32)), funext fun p => ?_, fun p => ?_⟩
  · unfold PoolOp.call xalPoolClaimInodes
    simp only [bind_assoc_apply]
    refine bind_congr_apply p fun _ p' => ?_
    rw [bind_assoc_apply, read_bind, read_bind, bind_assoc_apply]
    exact bind_congr_apply p' fun _ _ => rfl
  · rw [read_bind]
    by_cases h : p.free + count > UINT32_MAX
    · exact .inl ⟨_, bind_of_fail (failIf_true h _ _)⟩
    · rw [bind_of_ok (failIf_false h _ _)]
      exact .inr rfl

theorem claimExtents_call (mp : Mprotect) (count : Nat) :
    ∃ x, (PoolOp.claimExtents mp count).call = (claimRoom mp count >>= fun _ => x) ∧
      Counts (α := α) count x := by
  refine ⟨do
    let pool ← read
    modify fun pool => { pool with free := pool.free + count }
    pure (some (pool.free % 2 ^ 32)), funext fun p => ?_, fun p => .inr rfl⟩
  show (xalPoolClaimExtents mp count >>= fun idx => pure (some idx)) p = _
  rw [xalPoolClaimExtents, bind_assoc_apply]
  exact bind_congr_apply p fun _ _ => rfl

/-- A claim is safe exactly if it does not grow the pool past its reservation. -/
theorem claim_safe_iff {op : PoolOp} {x : Cm Err (XalPool α) (Option Nat)} {mp : Mprotect}
    {pool : XalPool α} (hcall : op.call = (claimRoom mp op.count >>= fun _ => x))
    (hx : Counts op.count x) (hg : op.Grows pool ↔ ClaimGrows mp op.count pool)
    (hb : PoolBounds pool) : op.Safe pool ↔ op.Within pool := by
  obtain ⟨hret, hsat⟩ := claim_spec mp hx hb
  rw [← hcall] at hret hsat
  have hle := hb.free_le
  constructor
  · intro hs hgrows
    have hafter := op.after_of_sat (P := fun p => p.allocated = pool.allocated + pool.growby ∧
      p.reserved = pool.reserved) hret (hsat.mono (fun _ _ h => ⟨h.1 (hg.1 hgrows), h.2.1⟩)
        fun _ _ h => ⟨h.1 (hg.1 hgrows), h.2.1⟩)
    rw [← hafter.1, ← hafter.2]
    exact hs.bounds.allocated_le
  · intro hw
    have hw' : ClaimGrows mp op.count pool → pool.allocated + pool.growby ≤ pool.reserved :=
      fun h => hw (hg.2 h)
    refine ⟨op.after_of_sat hret (hsat.mono (fun _ _ h => (h.2.2 hw').1) fun _ _ h => h.2.2 hw'),
      fun h => ?_, fun idx pool' hr => ((hsat.ok hr).2.2 hw').2 idx rfl⟩
    have := hw h
    omega

theorem grow_returns (mp : Mprotect) (growby : Nat) (p : XalPool α) :
    (xalPoolGrow mp growby p).Returns := by
  unfold xalPoolGrow
  rw [read_bind]
  exact (returns_failIf _ _).bind fun _ _ _ => returns_ok _ _

theorem map_returns (os : MapAnswers) (mp : Mprotect) (reserved allocated elementSize : Nat)
    (shm : Bool) (p : XalPool α) :
    (xalPoolMap os mp reserved allocated elementSize shm p).Returns := by
  unfold xalPoolMap
  rw [read_bind]
  refine (returns_failIf _ _).bind fun _ p₁ _ => ?_
  rw [modify_bind]
  cases shm with
  | true =>
    refine (returns_failIf _ _).bind fun _ p₂ _ => ?_
    refine (returns_failIf _ _).bind fun _ p₃ _ => ?_
    exact (returns_failIf _ _).bind fun _ p₄ _ => returns_ok _ _
  | false =>
    refine (returns_failIf _ _).bind fun _ p₂ _ => ?_
    rw [modify_bind]
    refine (returns_failIf _ _).bind fun _ p₃ _ => ?_
    rw [modify_bind]
    exact grow_returns _ _ _

/-- Mapping a pool keeps the bounds: the first growth is checked. -/
theorem map_bounds (os : MapAnswers) (mp : Mprotect) (reserved allocated elementSize : Nat)
    (shm : Bool) {pool : XalPool α} (hb : PoolBounds pool) :
    (xalPoolMap os mp reserved allocated elementSize shm pool).Sat (fun _ => PoolBounds)
      (fun _ => PoolBounds) := by
  have hfree := hb.free_le
  have halloc := hb.allocated_le
  unfold xalPoolMap
  rw [read_bind]
  refine sat_failIf_bind (fun _ => hb) fun hr => ?_
  -- nothing was allocated before
  have hzero : pool.allocated = 0 := by omega
  have hmapped (growby : Nat) (memory : Nat → α) : PoolBounds { pool with
      reserved, elementSize, free := 0, growby, memory } :=
    ⟨Nat.zero_le _, by rw [hzero]; exact Nat.zero_le _⟩
  rw [modify_bind]
  cases shm with
  | true =>
    refine sat_failIf_bind (fun _ => hmapped _ _) fun _ => ?_
    refine sat_failIf_bind (fun _ => hmapped _ _) fun _ => ?_
    refine sat_failIf_bind (fun _ => hmapped _ _) fun _ => ?_
    exact ⟨Nat.zero_le _, Nat.le_refl _⟩
  | false =>
    refine sat_failIf_bind (fun _ => hmapped _ _) fun hle => ?_
    rw [modify_bind]
    have hmapped' (memory : Nat → α) : PoolBounds { pool with
        reserved, elementSize, free := 0, growby := allocated, allocated := 0, memory } :=
      ⟨Nat.le_refl _, Nat.zero_le _⟩
    refine sat_failIf_bind (fun _ => hmapped' _) fun _ => ?_
    rw [modify_bind, xalPoolGrow, read_bind]
    refine sat_failIf_bind (fun _ => hmapped' _) fun _ => ?_
    refine ⟨Nat.zero_le _, ?_⟩
    show 0 + allocated ≤ reserved
    omega

/-- A call that returns no index and does not grow the pool. -/
theorem plain_safe {op : PoolOp} {x : Cm Err (XalPool α) Unit} {pool : XalPool α}
    (hcall : op.call = (x >>= fun _ => pure none)) (hg : ¬op.Grows pool) (hret : (x pool).Returns)
    (hsat : (x pool).Sat (fun _ => PoolBounds) fun _ => PoolBounds) : op.Safe pool := by
  have hret' : (op.call pool).Returns := by
    rw [hcall]
    exact hret.bind fun _ _ _ => returns_ok _ _
  have hsat' : (op.call pool).Sat (fun r p => PoolBounds p ∧ r = none) fun _ => PoolBounds := by
    rw [hcall]
    exact hsat.bind fun _ _ h => ⟨h, rfl⟩
  refine ⟨op.after_of_sat hret' (hsat'.mono (fun _ _ h => h.1) fun _ _ h => h),
    fun h => absurd h hg, fun idx pool' hr => ?_⟩
  cases (hsat'.ok hr).2

/-- One call keeps the bounds and stays in the reservation, exactly if it does not grow past it. -/
theorem PoolOp.safe_iff (op : PoolOp) {pool : XalPool α} (hb : PoolBounds pool) :
    op.Safe pool ↔ op.Within pool := by
  cases op with
  | map os mp reserved allocated elementSize shm =>
    have hs : (PoolOp.map os mp reserved allocated elementSize shm).Safe pool :=
      plain_safe rfl id (map_returns os mp reserved allocated elementSize shm pool)
        (map_bounds os mp reserved allocated elementSize shm hb)
    exact iff_of_true hs fun h => h.elim
  | claimInodes mp count =>
    obtain ⟨x, hcall, hx⟩ := claimInodes_call (α := α) mp count
    exact claim_safe_iff hcall hx Iff.rfl hb
  | claimExtents mp count =>
    obtain ⟨x, hcall, hx⟩ := claimExtents_call (α := α) mp count
    exact claim_safe_iff hcall hx Iff.rfl hb
  | clear mp =>
    have hs : (PoolOp.clear mp).Safe pool := by
      refine plain_safe rfl id ((returns_failIf _ _).bind fun _ _ _ => returns_ok _ _) ?_
      exact sat_failIf_bind (fun _ => hb) fun _ => ⟨Nat.le_refl _, Nat.zero_le _⟩
    exact iff_of_true hs fun h => h.elim

/-! ## Every run -/

/-- The calls of a run that begins with a pool of zero bytes, each with the pool it is made on. -/
def poolRun (α : Type) [Inhabited α] (ops : List PoolOp) : List (PoolOp × XalPool α) :=
  visited PoolOp.after ops default

/-- All calls of a run keep the bounds and stay in the reservation, exactly if none grows the pool
past it. The byte counts of the run are to fit `size_t`. -/
theorem pool_within_reservation (α : Type) [Inhabited α] (ops : List PoolOp) :
    (∀ x ∈ poolRun α ops, x.1.Safe x.2) ↔ ∀ x ∈ poolRun α ops, x.1.Within x.2 :=
  visited_iff (fun op _ hb => op.safe_iff hb) (fun op _ hb hw => ((op.safe_iff hb).2 hw).bounds) ops
    default ⟨Nat.le_refl _, Nat.le_refl _⟩

/-- A pool of four inodes that grows by two: the second claim of two grows it to six, where
`mprotect` finds the other pool behind it. -/
def overgrownRun : List PoolOp :=
  [.map ⟨0, 0, 0⟩ ⟨fun _ => 0, 0⟩ 4 2 inodeNbytes false, .claimInodes ⟨fun _ => 0, 0⟩ 2,
    .claimInodes ⟨fun _ => 0, 0⟩ 2]

theorem pool_overgrown : ∃ x ∈ poolRun XalInode overgrownRun,
    (x.1.after x.2).reserved = 4 ∧ (x.1.after x.2).allocated = 6 ∧ ¬x.1.Safe x.2 := by
  refine ⟨(.claimInodes ⟨fun _ => 0, 0⟩ 2, _), .tail _ (.tail _ (.head _)), rfl, rfl, fun h => ?_⟩
  have : 6 ≤ 4 := h.bounds.allocated_le
  omega

end

end Xallib
