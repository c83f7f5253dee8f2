import Xallib.Lib.Label

/-!
# Trees whose values are written to

A tree in an arena, where the values of slots have changed but not where they say they are.
`reread mem' f slot lo` is the tree of the new values; it lies where `f` lay
(`Placed.reread`), and stands for what `f` stood for (`LabelTree.reread`).
-/

namespace Lib

open Forest

section
variable {β : Type} (mem : Nat → β)

/-- The tree of the shape `f` with the values of its slots. -/
def reread : Forest β → Nat → Nat → Forest β
  | .nil, _, _ => .nil
  | .cons _ k r, slot, lo => .cons (mem slot) (reread k lo (lo + k.width))
      (reread r (slot + 1) (lo + k.size))

@[simp] theorem width_reread (f : Forest β) :
    ∀ slot lo, (reread mem f slot lo).width = f.width := by
  induction f with
  | nil => exact fun _ _ => rfl
  | cons v k r _ ihr =>
    intro slot lo
    rw [reread, width_cons, width_cons, ihr]

@[simp] theorem size_reread (f : Forest β) : ∀ slot lo, (reread mem f slot lo).size = f.size := by
  induction f with
  | nil => exact fun _ _ => rfl
  | cons v k r ihk ihr =>
    intro slot lo
    rw [reread, size_cons, size_cons, ihk, ihr]

end

variable {β ν : Type} {kids : ν → List ν} {F F' : β → ν → Prop} {parent first count : β → Nat}
  {mem mem' : Nat → β} {root p : Nat} {r : ν} {k : Forest β}

/-- The place of a value is all that matters. -/
theorem Placed.reread {f : Forest β} {p slot lo : Nat}
    (h : Placed (Fits parent first count) mem f p slot lo)
    (hparent : ∀ i, parent (mem' i) = parent (mem i)) (hfirst : ∀ i, first (mem' i) = first (mem i))
    (hcount : ∀ i, count (mem' i) = count (mem i)) :
    Placed (Fits parent first count) mem' (Lib.reread mem' f slot lo) p slot lo := by
  induction f generalizing p slot lo with
  | nil => trivial
  | cons v k r ihk ihr =>
    obtain ⟨rfl, ⟨hp, hc, hf⟩, hkids, hrest⟩ := h
    refine ⟨rfl, ⟨(hparent slot).trans hp, ?_, fun hw => (hfirst slot).trans (hf ?_)⟩, ?_, ?_⟩
    · rw [width_reread]
      exact (hcount slot).trans hc
    · rwa [width_reread] at hw
    · rw [width_reread]
      exact ihk hkids
    · rw [size_reread]
      exact ihr hrest

/-- So does the node that it stands for. -/
theorem Labels.reread {f : Forest β} {p slot lo : Nat} {l : List ν}
    (hp : Placed (Fits parent first count) mem f p slot lo) (hl : Labels kids F f l)
    (hF : ∀ i c, F (mem i) c → F' (mem' i) c) :
    Labels kids F' (Lib.reread mem' f slot lo) l := by
  induction f generalizing p slot lo l with
  | nil => exact hl
  | cons v k r ihk ihr =>
    obtain ⟨rfl, -, hkids, hrest⟩ := hp
    obtain ⟨c, rest, rfl, hv, hk, hr⟩ := hl
    exact ⟨c, rest, rfl, hF slot c hv, ihk hkids hk, ihr hrest hr⟩

/-- A tree stands for the same nodes after a change of its values that keeps their places. -/
theorem LabelTree.reread (h : LabelTree kids F parent first count mem root p r k)
    (hparent : ∀ i, parent (mem' i) = parent (mem i)) (hfirst : ∀ i, first (mem' i) = first (mem i))
    (hcount : ∀ i, count (mem' i) = count (mem i)) (hF : ∀ i c, F (mem i) c → F' (mem' i) c) :
    ∃ k', LabelTree kids F' parent first count mem' root p r k' ∧ k'.size = k.size := by
  have hplaced := h.placed.reread hparent hfirst hcount
  have hlabels := Labels.reread h.placed h.labels hF
  exact ⟨_, ⟨hplaced, hlabels⟩, size_reread mem' k _ _⟩

end Lib
