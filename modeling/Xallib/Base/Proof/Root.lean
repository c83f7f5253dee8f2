import Xallib.Base.Proof.Tree

/-!
# The beginning and the end of an index

What `xal_be_xfs_index` and `xal_be_fiemap_index` have in common. The pools are cleared, as far as
`mprotect` allows (`clearInodes_spec`, `clearExtents_spec`), the next slot is claimed for the root
and initialised (`claimRoot_bind`), and `process_ino` runs on it. What is built is `Rooted` at this
slot, which is 0 where the inodes have been cleared; a failure leaves `Halted`.
-/

namespace Xallib

open Lib Lib.Forest Lib.Cm Lib.Run

variable {δ α : Type}

/-! ## Clearing the pools -/

/-- The number of claimed inodes after the pool has been cleared, if it has. -/
def freeAfterClear (mp : Mprotect) (s : Store δ) : Nat :=
  if mp.clear = 0 then 0 else s.inodes.free

section
variable {mp : Mprotect} {s : Store δ} {x : Xal δ} {Q : Unit → Xal δ → Prop}
  {F : Err → Xal δ → Prop}

theorem clearInodes_spec (hs : StoreOk s) :
    (ignore (onInodes (xalPoolClear mp)) s).Sat
      (fun _ s' => StoreOk s' ∧ s'.inodes.free = freeAfterClear mp s ∧ s'.be = s.be)
      (fun _ _ => False) := by
  refine sat_ignore (sat_zoom ((clear_spec hs.inodes).mono ?_ ?_))
  · rintro _ p ⟨hc, hok, hf⟩
    exact ⟨⟨hok, hs.extents⟩, by rw [freeAfterClear, if_pos hc]; exact hf, rfl⟩
  · rintro _ p ⟨hc, rfl⟩
    exact ⟨hs, by rw [freeAfterClear, if_neg hc], rfl⟩

theorem clearExtents_spec (hs : StoreOk s) :
    (ignore (onExtents (xalPoolClear mp)) s).Sat
      (fun _ s' => StoreOk s' ∧ s'.inodes = s.inodes ∧ s'.be = s.be) (fun _ _ => False) := by
  refine sat_ignore (sat_zoom ((clear_spec hs.extents).mono ?_ ?_))
  · rintro _ p ⟨-, hok, -⟩
    exact ⟨⟨hs.inodes, hok⟩, rfl, rfl⟩
  · rintro _ p ⟨-, rfl⟩
    exact ⟨hs, rfl, rfl⟩

/-! ## The root -/

/-- The root is at `slot`, initialised. -/
structure Begun (sb : XalSb) (slot : Nat) (s s' : Store δ) : Prop where
  ok : StoreOk s'
  free : s'.inodes.free = slot + 1
  root : s'.inodes.memory slot = initRoot sb default
  be : s'.be = s.be

theorem Begun.ready {sb : XalSb} {slot : Nat} {s' : Store δ} (h : Begun sb slot s s') :
    Ready slot s' :=
  ⟨h.ok, by rw [h.free]; exact Nat.lt_succ_self _, by rw [h.root]; rfl⟩

/-- The claim of the root. -/
theorem claimRoot_bind {sb : XalSb} {f : Nat → Cm Err (Xal δ) Unit}
    (hI : mp.Bounded poolReserved inodeNbytes) (hok : StoreOk x.store)
    (hf : ∀ s, Begun sb x.store.inodes.free x.store s →
      (f x.store.inodes.free { x with store := s, rootIdx := x.store.inodes.free }).Sat Q F)
    (hfail : ∀ e s, StoreOk s → s.inodes.free = x.store.inodes.free → F e { x with store := s }) :
    ((onStore (onInodes (xalPoolClaimInodes mp 1)) >>= fun rootIdx =>
      modify (fun xal => { xal with rootIdx }) >>= fun _ =>
        onStore (setInode rootIdx (initRoot sb)) >>= fun _ => f rootIdx) x).Sat Q F := by
  refine (sat_zoom ((onInodes_claim hI hok 1).mono ?_ ?_) : (onStore _ x).Sat
    (fun idx x' => idx = x.store.inodes.free ∧ ∃ s, x' = { x with store := s } ∧ StoreOk s ∧
      s.inodes.free = idx + 1 ∧ s.inodes.memory = x.store.inodes.memory ∧ s.be = x.store.be)
    F).bind ?_
  · rintro idx s ⟨hs, rfl, hfree, hmem, -, hbe⟩
    exact ⟨rfl, s, rfl, hs, hfree, hmem, hbe⟩
  · rintro e s ⟨hs, hfree, -⟩
    exact hfail e s hs hfree
  · rintro idx x' ⟨rfl, s, rfl, hs, hfree, hmem, hbe⟩
    rw [modify_bind]
    refine hf _ ⟨hs.putInode (by omega) _, hfree, ?_, hbe⟩
    rw [putInode_same, hmem, hok.inodes.clean _ (Nat.le_refl _)]

end

/-! ## The outcome -/

/-- What indexing leaves as it is. -/
def Kept (x x' : Xal δ) : Prop :=
  x' = { x with
    store := x'.store, rootIdx := x'.rootIdx, dirty := x'.dirty, seqLock := x'.seqLock }

/-- `x` has become a complete index whose root is at `slot`. -/
structure Rooted (slot : Nat) (x x' : Xal δ) : Prop where
  ok : StoreOk x'.store
  kept : Kept x x'
  rootIdx : x'.rootIdx = slot
  dirty : x'.dirty = false
  tree : ∃ k e, Placed Node x'.store.inodes.memory
      (.cons (x'.store.inodes.memory slot) k .nil) poolIdxNone slot (slot + 1) ∧
    x'.store.inodes.free = slot + 1 + k.size ∧
    Staged exts (.cons (x'.store.inodes.memory slot) k .nil) e x'.store.extents.free

/-- What a failed index leaves, where `slot` is the next free one after the clearing: nothing, or
a part of a tree at `slot`. -/
structure Halted (slot : Nat) (x x' : Xal δ) : Prop where
  ok : StoreOk x'.store
  kept : Kept x x'
  dirty : x'.dirty = x.dirty
  tree : x'.store.inodes.free = slot ∨ x'.rootIdx = slot ∧
    ∃ k, Placed Partial x'.store.inodes.memory
      (.cons (x'.store.inodes.memory slot) k .nil) poolIdxNone slot (slot + 1) ∧
    slot + 1 + k.size ≤ x'.store.inodes.free

section
variable {sb : XalSb} {slot : Nat} {x : Xal δ} {s₀ s s' : Store δ}

theorem Begun.rooted (h : Begun sb slot s₀ s)
    (hp : Processed (s.inodes.memory slot).parentIdx slot s s') :
    Rooted slot x { x with store := s', rootIdx := slot, dirty := false } := by
  obtain ⟨-, k, hk⟩ := hp
  have hplaced := hk.placed
  have hfree := hk.free_eq
  rw [h.root, h.free] at hplaced
  rw [deep_cons, deep_nil, h.free] at hfree
  exact ⟨hk.ok, rfl, rfl, rfl, k, s.extents.free, hplaced, hfree, hk.staged⟩

theorem Begun.halted (h : Begun sb slot s₀ s)
    (hp : Stopped (s.inodes.memory slot).parentIdx slot s s') :
    Halted slot x { x with store := s', rootIdx := slot } := by
  obtain ⟨-, k, hk⟩ := hp
  have hplaced := hk.placed
  have hroom := hk.room
  rw [h.root, h.free] at hplaced
  rw [deep_cons, deep_nil, h.free] at hroom
  exact ⟨hk.ok, rfl, rfl, .inr ⟨rfl, k, hplaced, hroom⟩⟩

end

end Xallib
