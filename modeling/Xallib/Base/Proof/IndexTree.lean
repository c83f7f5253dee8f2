import Xallib.Base.Proof.Walk
import Mathlib.Data.List.Pairwise

/-!
# An index is a tree

`IndexTree xal`: the claimed inodes form a tree rooted at slot 0, as its parents and its child
ranges say; the extents of its files do not meet; and the walk calls its callback once for each
slot, parents first, with the depth of the slot. `indexTree_of_placed` reads this off the forest
that indexing has built.
-/

namespace Xallib

open Lib Lib.Forest Lib.Cm Run

variable {δ : Type}

/-- The walk over the claimed inodes (module doc). -/
structure WalksOnce (xal : Xal δ) (calls : List (Nat × Nat)) : Prop where
  once : (calls.map Prod.fst).Nodup
  every : ∀ i, i ∈ calls.map Prod.fst ↔ i < xal.store.inodes.free
  parents : ∀ (before : List (Nat × Nat)) (c : Nat × Nat) (after : List (Nat × Nat)),
    calls = before ++ c :: after →
      c.1 = 0 ∨ (xal.store.inodes.memory c.1).parentIdx ∈ before.map Prod.fst
  level : ∀ c ∈ calls, Depth (fun i => (xal.store.inodes.memory i).parentIdx) 0 c.1 c.2
  run : ∀ (fuel : Nat), xal.store.inodes.free ≤ fuel → ∀ (σ : Type) (cb : WalkCb σ) (t : σ),
    xalWalk xal (xalGetRoot xal) (some cb) fuel t = runCalls (some cb) calls t

structure IndexTree (xal : Xal δ) : Prop where
  root : xalGetRoot xal = 0
  claimed : 0 < xal.store.inodes.free
  parent : ∀ i, 0 < i → i < xal.store.inodes.free →
    (xal.store.inodes.memory i).parentIdx < i ∧
      ∀ d < xal.store.inodes.free, InDents (xal.store.inodes.memory d) i ↔
        d = (xal.store.inodes.memory i).parentIdx
  range : ∀ d < xal.store.inodes.free, ∀ i, InDents (xal.store.inodes.memory d) i →
    0 < i ∧ i < xal.store.inodes.free
  apart : ∀ d < xal.store.inodes.free, ∀ d' < xal.store.inodes.free, d ≠ d' →
    ∀ i, InDents (xal.store.inodes.memory d) i → ¬InDents (xal.store.inodes.memory d') i
  extents_lt : ∀ i < xal.store.inodes.free, (exts (xal.store.inodes.memory i)).2 ≠ 0 →
    (exts (xal.store.inodes.memory i)).1 + (exts (xal.store.inodes.memory i)).2 ≤
      xal.store.extents.free
  extents_apart : ∀ i < xal.store.inodes.free, ∀ j < xal.store.inodes.free, i ≠ j →
    Apart exts (xal.store.inodes.memory i) (xal.store.inodes.memory j)
  walk : (∀ i < xal.store.inodes.free, Typed (xal.store.inodes.memory i)) → xal.dirty = false →
    ∃ calls, WalksOnce xal calls

section
variable {xal : Xal δ} {v : XalInode} {k : Forest XalInode} {p e : Nat}

theorem runCalls_note (calls : List (Nat × Nat)) (l : List (Nat × Nat)) :
    runCalls (some noteCalls) calls l = .ok () (l ++ calls) := by
  induction calls generalizing l with
  | nil => simp [runCalls]
  | cons c calls ih =>
    show (noteCalls c.1 c.2 >>= fun _ => runCalls (some noteCalls) calls) l = _
    rw [noteCalls, modify_bind, ih]
    simp

/-- The slots of a tree whose root is at slot 0 and whose other nodes follow it. -/
theorem occ_root {i : Nat} : Occ (.cons v k .nil) 0 1 i ↔ i < 1 + k.size := by
  simp only [Occ, width_cons, width_nil, deep_cons, deep_nil]
  omega

theorem visits_root :
    visits (.cons v k .nil) 0 1 0 = (0, 0) :: visits k 1 (1 + k.width) 1 := by
  rw [visits, visits, List.append_nil]

/-- What indexing has built at slot 0 is a tree (module doc). -/
theorem indexTree_of_placed (hroot : xal.rootIdx = 0)
    (hp : Placed Node xal.store.inodes.memory (.cons v k .nil) p 0 1)
    (hfree : xal.store.inodes.free = 1 + k.size)
    (hst : Staged exts (.cons v k .nil) e xal.store.extents.free) : IndexTree xal := by
  have hocc : ∀ {i}, i < xal.store.inodes.free ↔ Occ (.cons v k .nil) 0 1 i := by
    intro i; rw [hfree]; exact occ_root.symm
  have hchild : ∀ {d i}, d < xal.store.inodes.free → InDents (xal.store.inodes.memory d) i →
      (xal.store.inodes.memory i).parentIdx = d ∧ (1 ≤ i ∧ i < 1 + k.size) ∧ d < i := by
    intro d i hd hi
    simpa using hp.child (Nat.le_refl 1) (hocc.1 hd) hi
  have hvisit : ∀ {i}, i < xal.store.inodes.free ↔
      ∃ l, (i, l) ∈ visits (.cons v k .nil) 0 1 0 := by
    intro i
    rw [mem_visits (by simp), hocc]
  have hnodes := hp.map_visits 0
  have hkids : Placed Node xal.store.inodes.memory k 0 1 (1 + k.width) := hp.2.2.1
  refine ⟨hroot, by omega, fun i h0 hi => ?_, fun d hd i hi => ?_,
    fun d hd d' hd' hne i hi hi' => ?_,
    fun i hi => ?_, fun i hi j hj hne => ?_, fun ht hd => ⟨visits (.cons v k .nil) 0 1 0, ?_⟩⟩
  · obtain ⟨hd, hr⟩ := hp.covered (Nat.le_refl 1) (i := i) (by
      simp only [deep_cons, deep_nil]; omega)
    have hd := hocc.2 hd
    refine ⟨(hchild hd hr).2.2, fun d hd' => ⟨fun h => (hchild hd' h).1.symm, fun h => h ▸ hr⟩⟩
  · obtain ⟨-, h1, -⟩ := hchild hd hi
    omega
  · exact hne ((hchild hd hi).1.symm.trans (hchild hd' hi').1)
  · refine fun h0 => (hst.bound _ ?_ h0).2
    obtain ⟨l, hl⟩ := hvisit.1 hi
    rw [← hnodes]
    exact List.mem_map.2 ⟨_, hl, rfl⟩
  · obtain ⟨l, hl⟩ := hvisit.1 hi
    obtain ⟨m, hm⟩ := hvisit.1 hj
    have hpair := hst.pairwise
    rw [← hnodes, List.pairwise_map] at hpair
    have : Std.Symm fun x y : Nat × Nat =>
        Apart exts (xal.store.inodes.memory x.1) (xal.store.inodes.memory y.1) :=
      ⟨fun _ _ h => h.symm⟩
    exact hpair.forall hl hm fun h => hne (congrArg Prod.fst h)
  · have hn : (Forest.cons v k .nil).size ≤ xal.store.inodes.free := by
      rw [hfree, size_cons, size_nil]; omega
    refine ⟨nodup_visits (by simp), fun i => ?_, fun before c after he => ?_, fun c hc => ?_,
      fun fuel hfuel σ cb t => ?_⟩
    · rw [hvisit]
      simp
    · rw [visits_root] at he
      cases before with
      | nil => exact .inl (congrArg Prod.fst (List.cons.inj he).1.symm)
      | cons b before =>
        obtain ⟨hb, hrest⟩ := List.cons.inj he
        right
        rcases parents_first hkids hrest with h0 | h0
        · rw [h0, ← hb]; exact List.mem_cons_self
        · exact List.mem_cons_of_mem _ h0
    · rw [visits_root] at hc
      rcases List.mem_cons.1 hc with rfl | hc
      · exact .root
      · exact visits_depth hkids (Nat.le_refl _) Nat.one_pos .root c hc
    · show walk xal (some cb) fuel xal.rootIdx 0 t = _
      rw [hroot]
      refine walk_visits hd hp (fun u hu => ?_) (by rw [size_cons, size_nil] at hn; omega)
      rw [← hnodes] at hu
      obtain ⟨c, hc, rfl⟩ := List.mem_map.1 hu
      exact ht c.1 (hvisit.2 ⟨c.2, hc⟩)

end

end Xallib
