import Xallib.Base.Proof.Reservation

/-!
# When a claim succeeds, and what it returns

`MappedPool`: the pools after a successful `xal_pool_map` and any number of claims and clears, where
`mprotect` succeeds inside the reservation and fails beyond it. A claim that fits the reservation
succeeds exactly if it is not larger than one step of growth, and the step that it may take ends
inside the reservation (`claim_fits_iff`).

`Handed`: a pool with the ranges that its users were given since the last clear. `Orderly` is what
should hold of every use. It does as long as the pool stays in its reservation and an index fits the
32 bits it is returned in (`pool_use_orderly`).
-/

namespace Xallib

open Lib Lib.Cm Lib.Run

variable {α : Type} [Inhabited α]

/-! ## Claims that fit -/

/-- `mprotect` succeeds on the ranges inside the reservation, and on no other. -/
structure Mprotect.Exact (mp : Mprotect) (reserved elementSize : Nat) : Prop where
  grow : ∀ n, mp.grow n = 0 ↔ n ≤ reserved * elementSize
  clear : mp.clear = 0

theorem mprotectWithin_exact (reserved elementSize : Nat) :
    (mprotectWithin reserved elementSize 0).Exact reserved elementSize where
  grow n := by
    by_cases h : n ≤ reserved * elementSize <;> simp [mprotectWithin, h]
  clear := rfl

/-- A claim or a clear. -/
def PoolOp.OnMapped (reserved elementSize : Nat) : PoolOp → Prop
  | map .. => False
  | claimInodes mp _ => mp.Exact reserved elementSize
  | claimExtents mp _ => mp.Exact reserved elementSize
  | clear mp => mp.Exact reserved elementSize

/-- The pool has been mapped with these arguments. -/
def JustMapped (reserved allocated elementSize : Nat) (shm : Bool) (p : XalPool α) : Prop :=
  ∃ os mp p₀, mp.Exact reserved elementSize ∧
    xalPoolMap os mp reserved allocated elementSize shm p₀ = .ok () p

/-- The pools reached from there. -/
abbrev MappedPool (reserved allocated elementSize : Nat) (shm : Bool) : XalPool α → Prop :=
  Reach (JustMapped reserved allocated elementSize shm) fun p p' =>
    ∃ op : PoolOp, op.OnMapped reserved elementSize ∧ p' = op.after p

/-- By how many elements a pool grows at a time. -/
def growthStep (reserved allocated : Nat) (shm : Bool) : Nat := if shm then reserved else allocated

/-- What no claim and no clear changes. -/
structure PoolShape (reserved growby elementSize : Nat) (p : XalPool α) : Prop where
  reserved_eq : p.reserved = reserved
  growby_eq : p.growby = growby
  elementSize_eq : p.elementSize = elementSize

section
variable {reserved allocated growby elementSize count : Nat} {shm : Bool} {mp : Mprotect}
  {p p' : XalPool α}

theorem grow_shape (h : PoolShape reserved growby elementSize p) (n : Nat) :
    (xalPoolGrow mp n p).Sat (fun _ => PoolShape reserved growby elementSize)
      fun _ => PoolShape reserved growby elementSize := by
  unfold xalPoolGrow
  rw [read_bind]
  exact sat_failIf_bind (fun _ => h) fun _ => ⟨h.1, h.2, h.3⟩

theorem claimRoom_shape (h : PoolShape reserved growby elementSize p) (count : Nat) :
    (claimRoom mp count p).Sat (fun _ => PoolShape reserved growby elementSize)
      fun _ => PoolShape reserved growby elementSize := by
  unfold claimRoom
  rw [read_bind]
  refine sat_failIf_bind (fun _ => h) fun _ => ?_
  by_cases ha : p.allocated ≤ p.free + count
  · rw [if_pos ha]
    exact grow_shape h p.growby
  · rw [if_neg ha]
    exact h

theorem map_shape {os : MapAnswers} {p₀ : XalPool α}
    (h : xalPoolMap os mp reserved allocated elementSize shm p₀ = .ok () p) :
    PoolShape reserved (growthStep reserved allocated shm) elementSize p := by
  unfold xalPoolMap at h
  rw [read_bind] at h
  obtain ⟨-, h⟩ := failIf_bind_ok.1 h
  rw [modify_bind] at h
  cases shm with
  | true =>
    obtain ⟨-, h⟩ := failIf_bind_ok.1 h
    obtain ⟨-, h⟩ := failIf_bind_ok.1 h
    obtain ⟨-, h⟩ := failIf_bind_ok.1 h
    obtain ⟨-, rfl⟩ := Run.ok.inj h
    exact ⟨rfl, rfl, rfl⟩
  | false =>
    obtain ⟨-, h⟩ := failIf_bind_ok.1 h
    rw [modify_bind] at h
    obtain ⟨-, h⟩ := failIf_bind_ok.1 h
    rw [modify_bind] at h
    exact (grow_shape ⟨rfl, rfl, rfl⟩ allocated).ok h

theorem PoolOp.after_shape {op : PoolOp} (hop : op.OnMapped reserved elementSize)
    (h : PoolShape reserved growby elementSize p) :
    PoolShape reserved growby elementSize (op.after p) := by
  have hcount : ∀ {mp count x}, op.call = (claimRoom mp count >>= fun _ => x) →
      Counts (α := α) count x →
      PoolShape reserved growby elementSize (op.after p) := by
    intro mp count x hcall hx
    refine op.after_of_sat ?_ ?_
    · rw [hcall]
      refine (claimRoom_returns count p).bind fun _ p' _ => ?_
      rcases hx p' with ⟨e, h⟩ | h
      · rw [h]; exact returns_fail _ _
      · rw [h]; exact returns_ok _ _
    · rw [hcall]
      refine (claimRoom_shape h count).bind fun _ p' h' => ?_
      rcases hx p' with ⟨e, hr⟩ | hr
      · rw [hr]; exact h'
      · rw [hr]; exact ⟨h'.1, h'.2, h'.3⟩
  cases op with
  | map => exact hop.elim
  | claimInodes mp count =>
    obtain ⟨x, hcall, hx⟩ := claimInodes_call (α := α) mp count
    exact hcount hcall hx
  | claimExtents mp count =>
    obtain ⟨x, hcall, hx⟩ := claimExtents_call (α := α) mp count
    exact hcount hcall hx
  | clear mp =>
    have hret : (xalPoolClear mp p).Returns := (returns_failIf _ _).bind fun _ _ _ => returns_ok _ _
    have hsat : (xalPoolClear mp p).Sat (fun _ => PoolShape reserved growby elementSize)
        fun _ => PoolShape reserved growby elementSize :=
      sat_failIf_bind (fun _ => h) fun _ => ⟨h.1, h.2, h.3⟩
    exact PoolOp.after_of_sat (hret.bind fun _ _ _ => returns_ok _ _) (hsat.bind fun _ _ h => h)

theorem MappedPool.shape (h : MappedPool reserved allocated elementSize shm p) :
    PoolShape reserved (growthStep reserved allocated shm) elementSize p := by
  refine h.invariant ?_ ?_
  · rintro p ⟨os, mp, p₀, -, hm⟩
    exact map_shape hm
  · rintro p _ hp ⟨op, hop, rfl⟩
    exact PoolOp.after_shape hop hp

theorem claimRoom_free {u : Unit} (h : claimRoom mp count p = .ok u p') : p'.free = p.free := by
  unfold claimRoom at h
  rw [read_bind] at h
  obtain ⟨-, h⟩ := failIf_bind_ok.1 h
  by_cases ha : p.allocated ≤ p.free + count
  · rw [if_pos ha, xalPoolGrow, read_bind] at h
    obtain ⟨-, h⟩ := failIf_bind_ok.1 h
    obtain ⟨-, rfl⟩ := Run.ok.inj h
    rfl
  · rw [if_neg ha] at h
    obtain ⟨-, rfl⟩ := Run.ok.inj h
    rfl

/-- There is room for a claim exactly if it is within a step, and the growth it may need
succeeds. -/
theorem claimRoom_iff (hmp : mp.Exact reserved elementSize)
    (h : PoolShape reserved growby elementSize p) :
    (∃ p', claimRoom mp count p = .ok () p') ↔ count ≤ growby ∧
      (p.free + count < p.allocated ∨
        (p.allocated + growby) * elementSize ≤ reserved * elementSize) := by
  have hgrow : mp.grow (p.growby * p.elementSize + p.allocated * p.elementSize) = 0 ↔
      (p.allocated + growby) * elementSize ≤ reserved * elementSize := by
    rw [hmp.grow, h.growby_eq, h.elementSize_eq, ← Nat.add_mul, Nat.add_comm]
  rw [← hgrow, ← h.growby_eq]
  unfold claimRoom
  rw [read_bind]
  by_cases hc : count > p.growby
  · rw [bind_of_fail (failIf_true hc _ _)]
    constructor
    · rintro ⟨_, hr⟩
      cases hr
    · rintro ⟨hle, -⟩
      omega
  rw [bind_of_ok (failIf_false hc _ _)]
  by_cases ha : p.allocated ≤ p.free + count
  · rw [if_pos ha, xalPoolGrow, read_bind]
    constructor
    · rintro ⟨_, hr⟩
      obtain ⟨hg, -⟩ := failIf_bind_ok.1 hr
      exact ⟨by omega, .inr (not_not.1 hg)⟩
    · rintro ⟨-, hlt | hg⟩
      · omega
      · rw [bind_of_ok (failIf_false (not_not.2 hg) _ _)]
        exact ⟨_, rfl⟩
  · rw [if_neg ha]
    exact iff_of_true ⟨p, rfl⟩ ⟨by omega, .inl (by omega)⟩

/-- A claim that fits the reservation succeeds exactly if it asks for no more than one step of
growth and, where it needs a step, that step ends inside the reservation. The byte count of the
reservation is to fit `size_t`. -/
theorem claim_fits_iff (h : MappedPool reserved allocated elementSize shm p)
    (hmp : mp.Exact reserved elementSize) :
    ∀ count, p.free + count ≤ reserved → p.free + count ≤ UINT32_MAX →
      ((∃ idx p', xalPoolClaimInodes mp count p = .ok idx p') ↔
        count ≤ growthStep reserved allocated shm ∧ (p.free + count < p.allocated ∨
          (p.allocated + growthStep reserved allocated shm) * elementSize ≤
            reserved * elementSize)) ∧
      ((∃ idx p', xalPoolClaimExtents mp count p = .ok idx p') ↔
        count ≤ growthStep reserved allocated shm ∧ (p.free + count < p.allocated ∨
          (p.allocated + growthStep reserved allocated shm) * elementSize ≤
            reserved * elementSize)) := by
  intro count _ hmax
  rw [← claimRoom_iff hmp h.shape]
  constructor
  · constructor
    · rintro ⟨idx, p', hr⟩
      obtain ⟨_, p₁, hroom, -⟩ := bind_ok.1 hr
      exact ⟨p₁, hroom⟩
    · rintro ⟨p₁, hroom⟩
      have hle : ¬p₁.free + count > UINT32_MAX := by
        rw [claimRoom_free hroom]
        omega
      refine ⟨p₁.free % 2 ^ 32, { p₁ with free := p₁.free + count }, ?_⟩
      rw [xalPoolClaimInodes, bind_of_ok hroom, read_bind, bind_of_ok (failIf_false hle _ _)]
      rfl
  · constructor
    · rintro ⟨idx, p', hr⟩
      obtain ⟨_, p₁, hroom, -⟩ := bind_ok.1 hr
      exact ⟨p₁, hroom⟩
    · rintro ⟨p₁, hroom⟩
      refine ⟨p₁.free % 2 ^ 32, { p₁ with free := p₁.free + count }, ?_⟩
      rw [xalPoolClaimExtents, bind_of_ok hroom]
      rfl

end

/-! ### Pools of four inodes -/

/-- A pool of zero bytes, mapped. -/
theorem xalPoolMap_fresh {mp : Mprotect} {reserved allocated elementSize : Nat}
    (hle : allocated ≤ reserved) (hmp : mp.grow (allocated * elementSize) = 0) :
    xalPoolMap ⟨0, 0, 0⟩ mp reserved allocated elementSize false (default : XalPool α) =
      .ok () ⟨reserved, allocated, allocated, 0, elementSize, fun _ => default⟩ := by
  have hdefault : (default : XalPool α).reserved = 0 := rfl
  have hgrow : mp.grow (allocated * elementSize + 0 * elementSize) = 0 := by
    rw [Nat.zero_mul, Nat.add_zero]
    exact hmp
  rw [xalPoolMap, read_bind, bind_of_ok (failIf_false (not_not.2 hdefault) _ _), modify_bind,
    if_neg Bool.false_ne_true, bind_of_ok (failIf_false (by omega) _ _), modify_bind,
    bind_of_ok (failIf_false (not_not.2 rfl) _ _), modify_bind, xalPoolGrow, read_bind,
    bind_of_ok (failIf_false (not_not.2 hgrow) _ _)]
  simp only [modify_apply, ite_self, Nat.zero_add]

def fourMprotect : Mprotect := mprotectWithin 4 inodeNbytes 0

/-- A pool of four inodes, mapped, of which `allocated` are allocated at a time. -/
def fourInodes (allocated : Nat) : XalPool XalInode :=
  ⟨4, allocated, allocated, 0, inodeNbytes, fun _ => default⟩

theorem fourInodes_mapped {allocated : Nat} (h : allocated ≤ 4) :
    MappedPool 4 allocated inodeNbytes false (fourInodes allocated) :=
  .init ⟨⟨0, 0, 0⟩, fourMprotect, default, mprotectWithin_exact _ _, xalPoolMap_fresh h
    (((mprotectWithin_exact 4 inodeNbytes).grow _).2 (Nat.mul_le_mul_right _ h))⟩

theorem claim_fits_two : ∃ idx p', xalPoolClaimInodes fourMprotect 1 (fourInodes 2) = .ok idx p' :=
  (claim_fits_iff (fourInodes_mapped (by decide)) (mprotectWithin_exact _ _) 1 (by decide)
    (by decide)).1.2 ⟨by decide, .inl (by decide)⟩

/-- The pool of a file system that was empty is given nothing; of four inodes that are allocated two
at a time, three are too many, and the last two need a step past the end. -/
theorem claim_fits_fails :
    (MappedPool 4 0 inodeNbytes false (fourInodes 0) ∧
      xalPoolClaimInodes fourMprotect 1 (fourInodes 0) = .fail ⟨.claim, -EINVAL⟩ (fourInodes 0)) ∧
    (MappedPool 4 2 inodeNbytes false (fourInodes 2) ∧
      xalPoolClaimExtents fourMprotect 3 (fourInodes 2) = .fail ⟨.claim, -EINVAL⟩ (fourInodes 2)) ∧
    ∃ p : XalPool XalInode, MappedPool 4 2 inodeNbytes false p ∧ p.free + 2 ≤ 4 ∧
      xalPoolClaimInodes fourMprotect 2 p = .fail ⟨.mprotect, -12⟩ p := by
  have hmp := mprotectWithin_exact 4 inodeNbytes
  have htwo := fourInodes_mapped (show 2 ≤ 4 by decide)
  refine ⟨⟨fourInodes_mapped (by decide), rfl⟩, ⟨htwo, rfl⟩, ?_⟩
  exact ⟨_, .step htwo ⟨.claimInodes fourMprotect 2, hmp, rfl⟩, Nat.le_refl 4, rfl⟩

/-! ## What the users of a pool are given -/

/-- A call on the pool, or a write to an element. -/
inductive PoolUse (α : Type)
  | call (op : PoolOp)
  | write (i : Nat) (v : α)

/-- A pool, with the ranges that were returned since it was mapped or cleared. -/
structure Handed (α : Type) where
  pool : XalPool α
  ranges : List (Nat × Nat)

/-- The ranges follow one another from `a` to `b`. -/
def Adjacent : Nat → List (Nat × Nat) → Nat → Prop
  | a, [], b => a = b
  | a, r :: ranges, b => r.1 = a ∧ r.1 ≤ r.2 ∧ Adjacent r.2 ranges b

theorem Adjacent.append {ranges : List (Nat × Nat)} {b c : Nat} (hc : b ≤ c) :
    ∀ {a : Nat}, Adjacent a ranges b → Adjacent a (ranges ++ [(b, c)]) c := by
  induction ranges with
  | nil =>
    rintro a rfl
    exact ⟨rfl, hc, rfl⟩
  | cons r ranges ih => exact fun h => ⟨h.1, h.2.1, ih h.2.2⟩

theorem Adjacent.bounds {ranges : List (Nat × Nat)} {b : Nat} : ∀ {a : Nat}, Adjacent a ranges b →
    a ≤ b ∧ ∀ r ∈ ranges, a ≤ r.1 ∧ r.2 ≤ b := by
  induction ranges with
  | nil =>
    rintro a rfl
    exact ⟨Nat.le_refl a, fun _ h => absurd h List.not_mem_nil⟩
  | cons r ranges ih =>
    rintro a ⟨rfl, hle, h⟩
    obtain ⟨hb, hall⟩ := ih h
    refine ⟨Nat.le_trans hle hb, List.forall_mem_cons.2 ⟨⟨Nat.le_refl _, hb⟩, fun q hq => ?_⟩⟩
    exact ⟨Nat.le_trans hle (hall q hq).1, (hall q hq).2⟩

theorem Adjacent.disjoint {ranges : List (Nat × Nat)} {b : Nat} : ∀ {a : Nat}, Adjacent a ranges b →
    ranges.Pairwise fun q r => q.2 ≤ r.1 := by
  induction ranges with
  | nil => exact fun _ => .nil
  | cons r ranges ih =>
    rintro a ⟨-, -, h⟩
    exact .cons (fun q hq => (h.bounds.2 q hq).1) (ih h)

def PoolUse.step : PoolUse α → Handed α → Handed α
  | call op, h =>
    match op.call h.pool with
    | .ok (some idx) p => ⟨p, h.ranges ++ [(idx, idx + op.count)]⟩
    | .ok none p => ⟨p, []⟩
    | .fail _ p => ⟨p, h.ranges⟩
    | _ => h
  | write i v, h => ⟨h.pool.set i v, h.ranges⟩

/-- The users write to what they have been given; the pool has been mapped before. -/
def PoolUse.Proper : PoolUse α → Handed α → Prop
  | call (.map ..), _ => False
  | call _, _ => True
  | write i _, h => ∃ r ∈ h.ranges, r.1 ≤ i ∧ i < r.2

/-- The pool does not grow past its reservation, and the index of a claim of extents fits 32
bits. -/
def PoolUse.Fits : PoolUse α → Handed α → Prop
  | call op, h => op.Within h.pool ∧ ∀ mp count, op = .claimExtents mp count →
      h.pool.free ≤ UINT32_MAX
  | write .., _ => True

/-- What should hold of a use (module doc). -/
structure PoolUse.Orderly (u : PoolUse α) (h : Handed α) : Prop where
  adjacent : Adjacent 0 (u.step h).ranges (u.step h).pool.free
  disjoint : (u.step h).ranges.Pairwise fun q r => q.2 ≤ r.1
  clean : ∀ op idx p, u = .call op → op.call h.pool = .ok (some idx) p →
    ∀ i, idx ≤ i → i < idx + op.count → p.memory i = default
  kept : ∀ op idx p, u = .call op → op.call h.pool = .ok (some idx) p →
    ∀ i < h.pool.free, p.memory i = h.pool.memory i
  failed : ∀ op e p, u = .call op → op.call h.pool = .fail e p → (u.step h).ranges = h.ranges ∧
    p.free = h.pool.free ∧ ∀ i < h.pool.free, p.memory i = h.pool.memory i

/-- The invariant: the ranges cover what is claimed, and the rest of the reservation is zero. -/
structure Tidy (h : Handed α) : Prop extends PoolBounds h.pool where
  adjacent : Adjacent 0 h.ranges h.pool.free
  clean : ∀ i, h.pool.free ≤ i → i < h.pool.reserved → h.pool.memory i = default

/-- Mapped, and nothing returned yet. What is behind the reservation is not the pool's. -/
def JustHanded (h : Handed α) : Prop :=
  ∃ os mp reserved allocated elementSize shm p₀ p, ∃ foreign : Nat → α,
    xalPoolMap os mp reserved allocated elementSize shm p₀ = .ok () p ∧
    h = ⟨{ p with memory := fun i => if i < reserved then p.memory i else foreign i }, []⟩

section
variable {mp : Mprotect} {count : Nat} {p : XalPool α} {h : Handed α}

/-- The pool after room was made: what is claimed is as it was, the rest of the reservation is
zero. -/
structure Grown (p q : XalPool α) : Prop extends PoolBounds q where
  free_eq : q.free = p.free
  reserved_eq : q.reserved = p.reserved
  clean : ∀ i, p.free ≤ i → i < p.reserved → q.memory i = default
  kept : ∀ i < p.free, q.memory i = p.memory i

theorem claimRoom_grown (hb : PoolBounds p)
    (hclean : ∀ i, p.free ≤ i → i < p.reserved → p.memory i = default)
    (hw : ClaimGrows mp count p → p.allocated + p.growby ≤ p.reserved) :
    (claimRoom mp count p).Sat (fun _ q => Grown p q ∧ p.free + count ≤ q.allocated)
      (fun _ q => q = p) := by
  have hfree := hb.free_le
  unfold claimRoom
  rw [read_bind]
  refine sat_failIf_bind (fun _ => rfl) fun hc => ?_
  by_cases ha : p.allocated ≤ p.free + count
  · rw [if_pos ha, xalPoolGrow, read_bind]
    refine sat_failIf_bind (fun _ => rfl) fun hg => ?_
    have hle := hw ⟨by omega, ha, not_not.1 hg⟩
    refine ⟨⟨⟨?_, hle⟩, rfl, rfl, fun i hi hr => ?_, fun i hi => ?_⟩, ?_⟩
    · show p.free ≤ p.allocated + p.growby
      omega
    · show (if _ then default else p.memory i) = default
      rw [hclean i hi hr, ite_self]
    · exact if_neg (by omega)
    · show p.free + count ≤ p.allocated + p.growby
      omega
  · rw [if_neg ha]
    exact ⟨⟨hb, rfl, rfl, hclean, fun _ _ => rfl⟩, by omega⟩

/-- What a claim does: it fails, or returns the first element that is not claimed. -/
theorem claim_grown {x : Cm Err (XalPool α) (Option Nat)} (hx : Counts count x) (hb : PoolBounds p)
    (hclean : ∀ i, p.free ≤ i → i < p.reserved → p.memory i = default)
    (hw : ClaimGrows mp count p → p.allocated + p.growby ≤ p.reserved) :
    ((claimRoom mp count >>= fun _ => x) p).Sat
      (fun r q => r = some (p.free % 2 ^ 32) ∧ ∃ g, Grown p g ∧ p.free + count ≤ g.allocated ∧
        q = { g with free := p.free + count })
      (fun _ q => Grown p q) := by
  refine ((claimRoom_grown hb hclean hw).mono (fun _ _ h => h) ?_).bind ?_
  · rintro _ q rfl
    exact ⟨hb, rfl, rfl, hclean, fun _ _ => rfl⟩
  · rintro _ g ⟨hg, hroom⟩
    rcases hx g with ⟨e, hr⟩ | hr
    · rw [hr]
      exact hg
    · rw [hr]
      exact ⟨by rw [hg.free_eq], g, hg, hroom, by rw [hg.free_eq]⟩

theorem claim_returns {x : Cm Err (XalPool α) (Option Nat)} (hx : Counts count x) (p : XalPool α) :
    ((claimRoom mp count >>= fun _ => x) p).Returns := by
  refine (claimRoom_returns count p).bind fun _ q _ => ?_
  rcases hx q with ⟨e, hr⟩ | hr
  · rw [hr]; exact returns_fail _ _
  · rw [hr]; exact returns_ok _ _

/-- A claim whose index fits is orderly, and keeps the invariant. -/
theorem claim_orderly {op : PoolOp} {x : Cm Err (XalPool α) (Option Nat)}
    (hcall : op.call = (claimRoom mp op.count >>= fun _ => x)) (hx : Counts op.count x)
    (hg : op.Grows h.pool ↔ ClaimGrows mp op.count h.pool) (ht : Tidy h) (hw : op.Within h.pool)
    (hidx : ∀ idx p, op.call h.pool = .ok (some idx) p → h.pool.free < 2 ^ 32) :
    (PoolUse.call op).Orderly h ∧ Tidy ((PoolUse.call op).step h) := by
  have hsat := claim_grown hx ht.toPoolBounds ht.clean fun h => hw (hg.2 h)
  have hret : ((claimRoom mp op.count >>= fun _ => x) h.pool).Returns := claim_returns hx h.pool
  rw [← hcall] at hsat hret
  rcases hret.cases with ⟨r, q, hr⟩ | ⟨e, q, hr⟩
  · obtain ⟨rfl, g, hgrown, hroom, rfl⟩ := hsat.ok hr
    rw [Nat.mod_eq_of_lt (hidx _ _ hr)] at hr
    have hstep : (PoolUse.call op).step h =
        ⟨{ g with free := h.pool.free + op.count },
          h.ranges ++ [(h.pool.free, h.pool.free + op.count)]⟩ := by
      rw [PoolUse.step, hr]
    have hadj := ht.adjacent.append (Nat.le_add_right h.pool.free op.count)
    have hle := hgrown.allocated_le
    rw [hgrown.reserved_eq] at hle
    refine ⟨⟨?_, ?_, ?_, ?_, ?_⟩, ?_⟩
    · rw [hstep]
      exact hadj
    · rw [hstep]
      exact hadj.disjoint
    · rintro _ idx p ⟨⟩ hok i hi hlt
      rw [hr] at hok
      obtain ⟨hsome, rfl⟩ := Run.ok.inj hok
      obtain rfl := Option.some.inj hsome
      exact hgrown.clean i hi (by omega)
    · rintro _ idx p ⟨⟩ hok i hi
      rw [hr] at hok
      obtain ⟨-, rfl⟩ := Run.ok.inj hok
      exact hgrown.kept i hi
    · rintro _ e p ⟨⟩ hfail
      rw [hr] at hfail
      cases hfail
    · rw [hstep]
      refine ⟨⟨hroom, hgrown.allocated_le⟩, hadj, fun i hi hlt => hgrown.clean i ?_ ?_⟩
      · exact Nat.le_trans (Nat.le_add_right _ _) hi
      · rw [← hgrown.reserved_eq]
        exact hlt
  · have hgrown := hsat.fail hr
    have hstep : (PoolUse.call op).step h = ⟨q, h.ranges⟩ := by rw [PoolUse.step, hr]
    have hadj : Adjacent 0 h.ranges q.free := by
      rw [hgrown.free_eq]
      exact ht.adjacent
    refine ⟨⟨?_, ?_, ?_, ?_, ?_⟩, ?_⟩
    · rw [hstep]
      exact hadj
    · rw [hstep]
      exact hadj.disjoint
    · rintro _ idx p ⟨⟩ hok
      rw [hr] at hok
      cases hok
    · rintro _ idx p ⟨⟩ hok
      rw [hr] at hok
      cases hok
    · rintro _ e' p ⟨⟩ hfail
      rw [hr] at hfail
      obtain ⟨-, rfl⟩ := Run.fail.inj hfail
      exact ⟨by rw [hstep], hgrown.free_eq, hgrown.kept⟩
    · rw [hstep]
      refine ⟨hgrown.toPoolBounds, hadj, fun i hi hlt => hgrown.clean i ?_ ?_⟩
      · rw [← hgrown.free_eq]
        exact hi
      · rw [← hgrown.reserved_eq]
        exact hlt

theorem clear_orderly (ht : Tidy h) :
    (PoolUse.call (.clear mp)).Orderly h ∧ Tidy ((PoolUse.call (.clear mp)).step h) := by
  by_cases hmp : mp.clear = 0
  · have hr : ∃ q, (PoolOp.clear mp).call h.pool = .ok none q ∧ q.free = 0 ∧ q.allocated = 0 ∧
        q.reserved = h.pool.reserved ∧ ∀ i < h.pool.reserved, q.memory i = default := by
      refine ⟨{ h.pool with
        memory := fun i => if i < h.pool.reserved then default else h.pool.memory i
        free := 0
        allocated := 0 }, ?_, rfl, rfl, rfl, fun i hi => if_pos hi⟩
      show (xalPoolClear mp >>= fun _ => pure none) h.pool = _
      rw [xalPoolClear, bind_assoc_apply, bind_of_ok (failIf_false (not_not.2 hmp) _ _)]
      rfl
    obtain ⟨q, hr, hfree, halloc, hres, hzero⟩ := hr
    have hstep : (PoolUse.call (.clear mp)).step h = ⟨q, []⟩ := by rw [PoolUse.step, hr]
    refine ⟨⟨?_, ?_, ?_, ?_, ?_⟩, ?_⟩
    · rw [hstep]
      exact hfree.symm
    · rw [hstep]
      exact .nil
    · rintro _ idx p ⟨⟩ hok
      rw [hr] at hok
      cases hok
    · rintro _ idx p ⟨⟩ hok
      rw [hr] at hok
      cases hok
    · rintro _ e p ⟨⟩ hfail
      rw [hr] at hfail
      cases hfail
    · rw [hstep]
      refine ⟨⟨?_, ?_⟩, hfree.symm, fun i _ hi => hzero i ?_⟩
      · show q.free ≤ q.allocated
        omega
      · show q.allocated ≤ q.reserved
        omega
      · rw [← hres]
        exact hi
  · have hr : (PoolOp.clear mp).call h.pool = .fail ⟨.mprotect, -(mp.clear : Int)⟩ h.pool := by
      show (xalPoolClear mp >>= fun _ => pure none) h.pool = _
      rw [xalPoolClear, bind_assoc_apply, bind_of_fail (failIf_true hmp _ _)]
    have hstep : (PoolUse.call (.clear mp)).step h = h := by rw [PoolUse.step, hr]
    refine ⟨⟨?_, ?_, ?_, ?_, ?_⟩, ?_⟩
    · rw [hstep]
      exact ht.adjacent
    · rw [hstep]
      exact ht.adjacent.disjoint
    · rintro _ idx p ⟨⟩ hok
      rw [hr] at hok
      cases hok
    · rintro _ idx p ⟨⟩ hok
      rw [hr] at hok
      cases hok
    · rintro _ e p ⟨⟩ hfail
      rw [hr] at hfail
      obtain ⟨-, rfl⟩ := Run.fail.inj hfail
      exact ⟨by rw [hstep], rfl, fun _ _ => rfl⟩
    · rw [hstep]
      exact ht

theorem write_orderly {i : Nat} (v : α) (ht : Tidy h) (hi : i < h.pool.free) :
    (PoolUse.write i v).Orderly h ∧ Tidy ((PoolUse.write i v).step h) := by
  have hadj : Adjacent 0 ((PoolUse.write i v).step h).ranges
      ((PoolUse.write i v).step h).pool.free :=
    ht.adjacent
  refine ⟨⟨hadj, hadj.disjoint, ?_, ?_, ?_⟩, ⟨ht.free_le, ht.allocated_le⟩, hadj,
    fun j hj hlt => ?_⟩
  · rintro _ _ _ ⟨⟩
  · rintro _ _ _ ⟨⟩
  · rintro _ _ _ ⟨⟩
  · have hj : h.pool.free ≤ j := hj
    exact (XalPool.set_other _ _ (by omega)).trans (ht.clean j hj hlt)

theorem claimInodes_free {idx : Nat} {q : XalPool α}
    (hr : (PoolOp.claimInodes mp count).call p = .ok (some idx) q) : p.free < 2 ^ 32 := by
  obtain ⟨a, q', hr, -⟩ := bind_ok.1 hr
  obtain ⟨_, g, hroom, hr⟩ := bind_ok.1 hr
  rw [read_bind] at hr
  obtain ⟨hmax, -⟩ := failIf_bind_ok.1 hr
  rw [claimRoom_free hroom, UINT32_MAX] at hmax
  omega

/-- One use keeps the invariant, and is orderly. -/
theorem PoolUse.orderly {u : PoolUse α} (ht : Tidy h) (hp : u.Proper h) (hf : u.Fits h) :
    u.Orderly h ∧ Tidy (u.step h) := by
  cases u with
  | write i v =>
    obtain ⟨r, hr, h1, h2⟩ := hp
    exact write_orderly v ht (Nat.lt_of_lt_of_le h2 (ht.adjacent.bounds.2 r hr).2)
  | call op =>
    cases op with
    | map => exact hp.elim
    | claimInodes mp count =>
      obtain ⟨x, hcall, hx⟩ := claimInodes_call (α := α) mp count
      exact claim_orderly hcall hx Iff.rfl ht hf.1 fun _ _ hr => claimInodes_free hr
    | claimExtents mp count =>
      obtain ⟨x, hcall, hx⟩ := claimExtents_call (α := α) mp count
      refine claim_orderly hcall hx Iff.rfl ht hf.1 fun _ _ _ => ?_
      have hle := hf.2 mp count rfl
      rw [UINT32_MAX] at hle
      omega
    | clear mp => exact clear_orderly ht

theorem JustHanded.tidy (hh : JustHanded h) : Tidy h := by
  obtain ⟨os, mp, reserved, allocated, elementSize, shm, p₀, p, foreign, hr, rfl⟩ := hh
  unfold xalPoolMap at hr
  rw [read_bind] at hr
  obtain ⟨-, hr⟩ := failIf_bind_ok.1 hr
  rw [modify_bind] at hr
  cases shm with
  | true =>
    obtain ⟨-, hr⟩ := failIf_bind_ok.1 hr
    obtain ⟨-, hr⟩ := failIf_bind_ok.1 hr
    obtain ⟨-, hr⟩ := failIf_bind_ok.1 hr
    obtain ⟨-, rfl⟩ := Run.ok.inj hr
    exact ⟨⟨Nat.zero_le _, Nat.le_refl _⟩, rfl, fun i _ hi => if_pos hi⟩
  | false =>
    obtain ⟨hle, hr⟩ := failIf_bind_ok.1 hr
    rw [modify_bind] at hr
    obtain ⟨-, hr⟩ := failIf_bind_ok.1 hr
    rw [modify_bind, xalPoolGrow, read_bind] at hr
    obtain ⟨-, hr⟩ := failIf_bind_ok.1 hr
    obtain ⟨-, rfl⟩ := Run.ok.inj hr
    refine ⟨⟨Nat.zero_le _, ?_⟩, rfl, fun i _ hi => ?_⟩
    · show 0 + allocated ≤ reserved
      omega
    · show (if i < reserved then if _ then default else default else _) = default
      rw [ite_self, if_pos hi]

/-- As long as a mapped pool stays in its reservation and indices fit 32 bits, claims are disjoint,
follow one another, and are zero when they are returned; growth and failed claims change nothing.
The byte count of the reservation is to fit `size_t`. -/
theorem pool_use_orderly (hh : JustHanded h) (uses : List (PoolUse α))
    (hproper : ∀ x ∈ visited PoolUse.step uses h, x.1.Proper x.2)
    (hfits : ∀ x ∈ visited PoolUse.step uses h, x.1.Fits x.2) :
    ∀ x ∈ visited PoolUse.step uses h, x.1.Orderly x.2 := by
  have hsafe : ∀ (u : PoolUse α) (h : Handed α), Tidy h → u.Proper h ∧ u.Fits h → u.Orderly h :=
    fun u _ ht ha => (u.orderly ht ha.1 ha.2).1
  have hkeep : ∀ (u : PoolUse α) (h : Handed α), Tidy h → u.Proper h ∧ u.Fits h → Tidy (u.step h) :=
    fun u _ ht ha => (u.orderly ht ha.1 ha.2).2
  exact visited_safe hsafe hkeep uses h hh.tidy fun x hx => ⟨hproper x hx, hfits x hx⟩

end

/-! ### A large pool, and one that grows over its end -/

/-- `mprotect` succeeds on every range. -/
def mprotectAlways : Mprotect := ⟨fun _ => 0, 0⟩

/-- A pool of bytes, mapped, where what is behind the reservation is all ones. -/
def byteHanded (reserved allocated : Nat) : Handed UInt8 :=
  ⟨⟨reserved, allocated, allocated, 0, 1, fun i => if i < reserved then 0 else 255⟩, []⟩

theorem byteHanded_justHanded {reserved allocated : Nat} (h : allocated ≤ reserved) :
    JustHanded (byteHanded reserved allocated) :=
  ⟨⟨0, 0, 0⟩, mprotectAlways, reserved, allocated, 1, false, default, _, fun _ => 255,
    xalPoolMap_fresh h rfl, rfl⟩

/-- Two claims, a write to the first element, and a clear. -/
def smallUses : List (PoolUse UInt8) :=
  [.call (.claimExtents mprotectAlways 1), .write 0 7, .call (.claimInodes mprotectAlways 2),
    .call (.clear mprotectAlways)]

theorem pool_use_orderly_small :
    JustHanded (byteHanded 8 2) ∧
      ∀ x ∈ visited PoolUse.step smallUses (byteHanded 8 2), x.1.Orderly x.2 := by
  refine ⟨byteHanded_justHanded (by decide), ?_⟩
  apply pool_use_orderly (byteHanded_justHanded (by decide))
  · simp only [smallUses, visited, List.forall_mem_cons]
    exact ⟨trivial, ⟨(0, 1), .head _, by decide, by decide⟩, trivial, trivial,
      fun _ h => absurd h List.not_mem_nil⟩
  · simp only [smallUses, visited, List.forall_mem_cons]
    refine ⟨⟨fun _ => by decide, fun _ _ _ => by decide⟩, trivial, ⟨fun _ => by decide, ?_⟩,
      ⟨fun h => h.elim, ?_⟩, fun _ h => absurd h List.not_mem_nil⟩
    · rintro _ _ ⟨⟩
    · rintro _ _ ⟨⟩

/-- Behind `2 ^ 32` extents a claim begins again at index 0; and a claim that has grown the pool
over its end leaves elements that are not zero to the next one. -/
theorem pool_use_disorderly :
    (JustHanded (byteHanded (2 ^ 33) (2 ^ 32)) ∧
      ∃ x ∈ visited PoolUse.step [.call (.claimExtents mprotectAlways (2 ^ 32)),
          .call (.claimExtents mprotectAlways 1)] (byteHanded (2 ^ 33) (2 ^ 32)),
        x.1.Proper x.2 ∧ (x.1.step x.2).ranges = [(0, 2 ^ 32), (0, 1)] ∧ ¬x.1.Orderly x.2) ∧
    (JustHanded (byteHanded 4 3) ∧
      ∃ x ∈ visited PoolUse.step [.call (.claimExtents mprotectAlways 3),
          .call (.claimExtents mprotectAlways 2)] (byteHanded 4 3),
        x.1.Proper x.2 ∧ (x.1.step x.2).pool.memory 4 = 255 ∧ ¬x.1.Orderly x.2) := by
  refine ⟨⟨byteHanded_justHanded (by decide), _, .tail _ (.head _), trivial, rfl, fun h => ?_⟩,
    byteHanded_justHanded (by decide), _, .tail _ (.head _), trivial, rfl, fun h => ?_⟩
  · have hadj : 0 = 2 ^ 32 ∧ _ := h.adjacent.2.2
    exact absurd hadj.1 (by decide)
  · have hclean := h.clean (.claimExtents mprotectAlways 2) 3 _ rfl rfl 4 (by decide) (by decide)
    exact absurd hclean (by decide)

end Xallib
