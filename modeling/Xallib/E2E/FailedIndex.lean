import Xallib.Base.Proof.Walk
import Xallib.E2E.Machine

/-!
# The walk after a failed index

A failed `xal_index` tells so by its return value and leaves `dirty` as it was: `dirty` says that
the file system has changed since. What is left is a part of the tree, and the walk over it returns
0 wherever what it meets is in order (`Walkable`). `failed_index` says exactly when.
-/

namespace Xallib

open Lib Lib.Forest Lib.Cm Lib.Run

variable {δ : Type}

/-- What `xal_walk` from the root does after `x` has become `x'` in a failed index. -/
structure FailedIndex (x x' : Xal δ) : Prop where
  dirty : x'.dirty = x.dirty
  stale : x.dirty = true → ∀ (σ : Type) (cb : Option (WalkCb σ)) (fuel : Nat) (t : σ),
    xalWalk x' (xalGetRoot x') cb (fuel + 1) t = .fail ⟨.walk, -ESTALE⟩ t
  walk : ∀ (σ : Type) (cb : Option (WalkCb σ)) (t : σ), ReturnsZero cb →
    ((∃ fuel t', xalWalk x' (xalGetRoot x') cb fuel t = .ok () t') ↔
      x.dirty = false ∧ Walkable x'.store.inodes.memory (xalGetRoot x'))

/-- Without a root there is nothing to walk. -/
theorem not_walkable_of_free {x : Xal δ} (hok : StoreOk x.store) (h0 : x.store.inodes.free = 0)
    (root : Nat) : ¬Walkable x.store.inodes.memory root := by
  intro h
  have ht := h.typed root .root
  rw [hok.inodes.clean root (by rw [h0]; exact Nat.zero_le _)] at ht
  exact absurd ht (by decide : ¬((0 : Nat) = ftDir ∨ (0 : Nat) = ftRegFile))

theorem Halted.failedIndex {x x' : Xal δ} (h : Halted 0 x x') : FailedIndex x x' where
  dirty := h.dirty
  stale hd σ cb fuel t := bind_of_fail (failIf_true (h.dirty.trans hd) _ _)
  walk σ cb t hcb := by
    constructor
    · rintro ⟨fuel, t', hw⟩
      have := walk_returns ⟨0, t, t', hw⟩
      exact ⟨h.dirty.symm.trans this.1, this.2⟩
    · rintro ⟨hd, hw⟩
      rcases h.tree with h0 | ⟨hroot, k, hp, -⟩
      · exact absurd hw (not_walkable_of_free h.ok h0 _)
      · have hroot : xalGetRoot x' = 0 := hroot
        rw [hroot] at hw ⊢
        obtain ⟨t', ht⟩ : ∃ t', walk x' cb (k.size + 1) 0 0 t = .ok () t' :=
          walk_partial (h.dirty.trans hd) hcb hw t hp (Nat.le_refl _)
        exact ⟨k.size + 1, t', ht⟩

/-- The directory `/m` with the file `a`, which cannot be opened. -/
def lockedFile : FiemapEnv :=
  tableEnv { tableKernel [([47, 109], [[97]])] [([47, 109, 47, 97], [])] with
    openFile := fun _ => .error 13 } [47, 109] default .none 0

/-- An XFS file system whose root inode is missing. -/
def rootlessDisk : XfsEnv := xfsTableEnv default (fun _ => 0) fun _ => none

end Xallib
