import Xallib.Base.Proof.IndexTree
import Xallib.E2E.Machine

/-!
# An index is a tree, if the pools were cleared

`xal_index` does not look at what the two `xal_pool_clear` return. Where the clearing of the inodes
fails, the next index is built behind the one before, and its root is not at slot 0. `index_tree`:
this is the only way in which a successful `xal_index` leaves anything but an `IndexTree`.
-/

namespace Xallib

open Lib Lib.Cm Lib.Run

section
variable {δ : Type} {mp : Mprotect} {x x' : Xal δ}

theorem freeAfterClear_eq_zero {s : Store δ} :
    freeAfterClear mp s = 0 ↔ mp.clear = 0 ∨ s.inodes.free = 0 := by
  unfold freeAfterClear
  by_cases h : mp.clear = 0
  · simp [h]
  · simp [h]

/-- What is rooted at slot 0 is a tree, and nothing else is. -/
theorem Rooted.indexTree_iff {slot : Nat} (h : Rooted slot x x') : IndexTree x' ↔ slot = 0 := by
  constructor
  · intro ht
    exact h.rootIdx.symm.trans ht.root
  · rintro rfl
    obtain ⟨k, e, hp, hfree, hst⟩ := h.tree
    exact indexTree_of_placed h.rootIdx hp (by omega) hst

end

/-- After a successful index: a tree, exactly where the inodes were cleared or there were none. -/
theorem index_tree (shm : Bool) (fuel : Nat) :
    (∀ (E : XfsEnv) (x x' : Xal Buf), XfsReach shm x → XfsCall E x →
      xalIndex (xalBeXfsIndex E fuel) x = .ok () x' →
        (IndexTree x' ↔ E.mpInodes.clear = 0 ∨ x.store.inodes.free = 0)) ∧
    ∀ (E : FiemapEnv) (x x' : Xal FiemapBe), FiemapReach shm x → FiemapCall E x →
      xalIndex (xalBeFiemapIndex E fuel) x = .ok () x' →
        (IndexTree x' ↔ E.mpInodes.clear = 0 ∨ x.store.inodes.free = 0) := by
  constructor
  · intro E x x' hx hE hr
    rw [← freeAfterClear_eq_zero]
    exact (hx.rooted hE hr).indexTree_iff
  · intro E x x' hx hE hr
    rw [← freeAfterClear_eq_zero]
    exact (hx.done hE hr).toRooted.indexTree_iff

/-! ## A directory with a subdirectory and files -/

/-- The types of the slots, their parents and how many children or extents they have. -/
def treeShape {δ : Type} (x : Xal δ) : List (Nat × Nat × Nat) :=
  (List.range x.store.inodes.free).map fun i =>
    let v := x.store.inodes.memory i
    (v.ftype, v.parentIdx, v.content.count)

/-- The root, `a` and `d` in it, and `b` and `c` in `d`. -/
theorem index_tree_nested :
    (∃ x', xalIndex (xalBeXfsIndex treeDisk 3) (xfsOpened treeDisk.sb) = .ok () x' ∧
      treeShape x' = [(2, poolIdxNone, 2), (1, 0, 2), (2, 0, 2), (1, 2, 1), (1, 2, 0)] ∧
      IndexTree x') ∧
    ∃ x', xalIndex (xalBeFiemapIndex (treeDir 0) 3) (fiemapOpened (treeDir 0).sb false) =
        .ok () x' ∧
      treeShape x' = [(2, poolIdxNone, 2), (1, 0, 2), (2, 0, 2), (1, 2, 1), (1, 2, 0)] ∧
      IndexTree x' := by
  constructor
  · have hrun : ((xalIndex (xalBeXfsIndex treeDisk 3) (xfsOpened treeDisk.sb)).okWith
        fun x => treeShape x == [(2, poolIdxNone, 2), (1, 0, 2), (2, 0, 2), (1, 2, 1), (1, 2, 0)]) =
        true := by decide +kernel
    obtain ⟨_, x', h, hshape⟩ := exists_of_okWith hrun
    exact ⟨x', h, eq_of_beq hshape, ((index_tree true 3).1 treeDisk _ x' (xfsOpened_reach _)
      (xfsTableEnv_call _ _ _) h).2 (.inl rfl)⟩
  · have hrun : ((xalIndex (xalBeFiemapIndex (treeDir 0) 3)
        (fiemapOpened (treeDir 0).sb false)).okWith fun x =>
          treeShape x == [(2, poolIdxNone, 2), (1, 0, 2), (2, 0, 2), (1, 2, 1), (1, 2, 0)]) =
        true := by decide +kernel
    obtain ⟨_, x', h, hshape⟩ := exists_of_okWith hrun
    exact ⟨x', h, eq_of_beq hshape, ((index_tree true 3).2 (treeDir 0) _ x' (fiemapOpened_reach _ _)
      (tableEnv_call rfl) h).2 (.inl rfl)⟩

/-- The calls on an empty directory `/m`; `clear` is the answer of `mprotect` to a clearing. -/
def emptyDir (clear : Nat) : FiemapEnv :=
  tableEnv (tableKernel [([47, 109], [])] []) [47, 109] default .none clear

/-- Indexing an empty directory again where the clearing fails gives no tree. -/
theorem index_tree_counterexample :
    ∃ x x', FiemapReach true x ∧ FiemapCall (emptyDir 12) x ∧
      xalIndex (xalBeFiemapIndex (emptyDir 12) 1) x = .ok () x' ∧ ¬IndexTree x' := by
  have hrun : ((xalIndex (xalBeFiemapIndex (emptyDir 0) 1) >>= fun _ =>
      xalIndex (xalBeFiemapIndex (emptyDir 12) 1)) (fiemapOpened default false)).okWith
        (·.rootIdx == 1) = true := by decide +kernel
  obtain ⟨_, x', hrun, hroot⟩ := exists_of_okWith hrun
  obtain ⟨_, x, h1, h2⟩ := bind_ok.1 hrun
  have hreach := fiemapOpened_reach default false
  have hcall : FiemapCall (emptyDir 0) (fiemapOpened default false) := tableEnv_call rfl
  have hkept := (hreach.done hcall h1).kept
  have hroot : x'.rootIdx = 1 := by simpa using hroot
  refine ⟨x, x', hreach.index hcall h1, tableEnv_call (by rw [hkept]; rfl), h2, fun h => ?_⟩
  exact absurd (hroot.symm.trans h.root) (by decide)

end Xallib
