import Xallib.Lib.Arena

/-!
# Trees in an arena that stand for other trees

An outside tree is given by its root `r : ν`, the ordered lists `kids : ν → List ν` and the names of
its nodes. The forest `f` is `Labels kids F f l` if its siblings stand for the nodes `l`, one for
one, with `F v c` between a value and its node, and their children for the `kids` of these nodes.

* `Stands`: a slot stands for a node, at a path from the root. Each slot of a placed tree does
  (`LabelTree.stands`), for one node at one path only (`LabelTree.unique`).
* `Found`: the nodes below the root with their paths; each has a slot (`LabelTree.listed_iff`).
-/

namespace Lib

open Forest

section
variable {β ν ι : Type} (kids : ν → List ν) (F : β → ν → Prop) (name : ν → ι)

/-- The trees stand for the nodes `l`, in order, down to their last descendants. -/
def Labels : Forest β → List ν → Prop
  | .nil, l => l = []
  | .cons v k r, l => ∃ c rest, l = c :: rest ∧ F v c ∧ Labels k (kids c) ∧ Labels r rest

/-- Slot `i` stands for the node `c`, at the names `q` below the root. -/
inductive Stands (first count : β → Nat) (mem : Nat → β) (root : Nat) (r : ν) :
    List ι → Nat → ν → Prop
  | root : Stands first count mem root r [] root r
  | kid {q : List ι} {d j : Nat} {c c' : ν} : Stands first count mem root r q d c →
      j < count (mem d) → (kids c)[j]? = some c' →
      Stands first count mem root r (q ++ [name c']) (first (mem d) + j) c'

/-- The nodes below `r`, with their paths. -/
inductive Found (r : ν) : List ι → ν → Prop
  | root : Found r [] r
  | kid {q : List ι} {c c' : ν} : Found r q c → c' ∈ kids c → Found r (q ++ [name c']) c'

/-- What holds between the value of a slot and its node. -/
structure LabelAt (count : β → Nat) (v : β) (c : ν) : Prop where
  fact : F v c
  count_eq : count v = (kids c).length

/-- A placed tree that stands for the tree below `r`. -/
structure LabelTree (parent first count : β → Nat) (mem : Nat → β) (root p : Nat) (r : ν)
    (k : Forest β) : Prop where
  placed : Placed (Fits parent first count) mem (.cons (mem root) k .nil) p root (root + 1)
  labels : Labels kids F (.cons (mem root) k .nil) [r]

end

variable {β ν ι : Type} {kids : ν → List ν} {F : β → ν → Prop} {name : ν → ι}

theorem Labels.width {f : Forest β} {l : List ν} (h : Labels kids F f l) : f.width = l.length := by
  induction f generalizing l with
  | nil =>
    subst h
    rfl
  | cons v k r _ ihr =>
    obtain ⟨c, rest, rfl, -, -, hr⟩ := h
    rw [width_cons, ihr hr, List.length_cons]

theorem Labels.mono {F' : β → ν → Prop} (hF : ∀ v c, F v c → F' v c) {f : Forest β} {l : List ν}
    (h : Labels kids F f l) : Labels kids F' f l := by
  induction f generalizing l with
  | nil => exact h
  | cons v k r ihk ihr =>
    obtain ⟨c, rest, rfl, hv, hk, hr⟩ := h
    exact ⟨c, rest, rfl, hF v c hv, ihk hk, ihr hr⟩

/-- Trees are finite: below a node that a tree stands for there is no endless chain. -/
theorem Labels.acc {f : Forest β} {l : List ν} (h : Labels kids F f l) :
    ∀ c ∈ l, Acc (fun b a => b ∈ kids a) c := by
  induction f generalizing l with
  | nil =>
    subst h
    exact fun _ hc => absurd hc List.not_mem_nil
  | cons v k r ihk ihr =>
    obtain ⟨c, rest, rfl, -, hk, hr⟩ := h
    rw [List.forall_mem_cons]
    exact ⟨.intro c (ihk hk), ihr hr⟩

variable {parent first count : β → Nat} {mem : Nat → β} {root p : Nat} {r : ν} {k : Forest β}

/-- The slots of siblings that stand for nodes, and the slots below them, stand for nodes. -/
theorem stands_of_siblings {f : Forest β} {slot lo : Nat} {l : List ν}
    (hp : Placed (Fits parent first count) mem f p slot lo) (hl : Labels kids F f l)
    (htop : ∀ j c, l[j]? = some c → ∃ q, Stands kids name first count mem root r q (slot + j) c) :
    ∀ i, Occ f slot lo i → ∃ q c, Stands kids name first count mem root r q i c ∧
      LabelAt kids F count (mem i) c := by
  induction f generalizing p slot lo l with
  | nil =>
    intro i hi
    simp only [Occ, width_nil, deep_nil] at hi
    omega
  | cons v k r' ihk ihr =>
    obtain ⟨c, rest, rfl, hF, hk, hr⟩ := hl
    obtain ⟨hv, ⟨-, hcount, hfirst⟩, hkids, hrest⟩ := hp
    obtain ⟨q, hself⟩ : ∃ q, Stands kids name first count mem root r q slot c := htop 0 c rfl
    have hw := hk.width
    have hks := size_eq k
    intro i hi
    by_cases h0 : i = slot
    · subst h0
      exact ⟨q, c, hself, by rw [hv]; exact hF, by rw [hv, hcount, hw]⟩
    · by_cases hik : Occ k lo (lo + k.width) i
      · refine ihk hkids hk (fun j c' hj => ?_) i hik
        obtain ⟨hlt, -⟩ := List.getElem?_eq_some_iff.1 hj
        have hlo : first (mem slot) = lo := by rw [hv, hfirst (by omega)]
        rw [← hlo]
        exact ⟨_, hself.kid (by rw [hv, hcount, hw]; exact hlt) hj⟩
      · refine ihr hrest hr (fun j c' hj => ?_) i ?_
        · rw [show slot + 1 + j = slot + (j + 1) by omega]
          exact htop (j + 1) c' hj
        · simp only [Occ, width_cons, deep_cons] at hi hik ⊢
          omega

/-- A path below one of the kids of the root. -/
theorem Found.under {r c c' : ν} {q : List ι} (h : Found kids name c q c') (hc : c ∈ kids r) :
    Found kids name r (name c :: q) c' := by
  induction h with
  | root => exact Found.root.kid hc
  | kid _ hc' ih => exact ih.kid hc'

/-- The paths where nothing is below the kids of the root. -/
theorem listed_flat {r c : ν} {q : List ι} (hflat : ∀ c ∈ kids r, kids c = []) :
    Found kids name r q c ↔ q = [] ∧ c = r ∨ c ∈ kids r ∧ q = [name c] := by
  constructor
  · intro h
    induction h with
    | root => exact .inl ⟨rfl, rfl⟩
    | @kid q c c' _ hc ih =>
      rcases ih with ⟨rfl, rfl⟩ | ⟨hk, -⟩
      · exact .inr ⟨hc, rfl⟩
      · rw [hflat c hk] at hc
        cases hc
  · rintro (⟨rfl, rfl⟩ | ⟨hc, rfl⟩)
    · exact .root
    · exact Found.root.kid hc

theorem Stands.cases {q : List ι} {i : Nat} {c : ν}
    (hs : Stands kids name first count mem root r q i c) :
    (q = [] ∧ i = root ∧ c = r) ∨ ∃ q₀ d j c₀, Stands kids name first count mem root r q₀ d c₀ ∧
      j < count (mem d) ∧ (kids c₀)[j]? = some c ∧ i = first (mem d) + j ∧ q = q₀ ++ [name c] := by
  cases hs with
  | root => exact .inl ⟨rfl, rfl, rfl⟩
  | kid hd hj hc => exact .inr ⟨_, _, _, _, hd, hj, hc, rfl, rfl⟩

/-- The same slot, with other names on its path. -/
theorem Stands.renamed {κ : Type} (name' : ν → κ) (R : ι → κ → Prop) {q : List ι} {i : Nat} {c : ν}
    (hs : Stands kids name first count mem root r q i c)
    (hR : ∀ c, ∀ c' ∈ kids c, R (name c') (name' c')) :
    ∃ q', Stands kids name' first count mem root r q' i c ∧ List.Forall₂ R q q' := by
  induction hs with
  | root => exact ⟨[], .root, .nil⟩
  | kid _ hj hc ih =>
    obtain ⟨q', hs', hall⟩ := ih
    exact ⟨_, hs'.kid hj hc,
      List.rel_append hall (.cons (hR _ _ (List.mem_of_getElem? hc)) .nil)⟩

namespace LabelTree

theorem occ {i : Nat} :
    Occ (.cons (mem root) k .nil) root (root + 1) i ↔ root ≤ i ∧ i < root + 1 + k.size := by
  simp only [Occ, width_cons, width_nil, deep_cons, deep_nil]
  omega

variable {q q' : List ι} {d i j : Nat} {c c' : ν}
  (h : LabelTree kids F parent first count mem root p r k)
include h

/-- Every slot of the tree stands for a node. -/
theorem stands (name : ν → ι) (h1 : root ≤ i) (h2 : i < root + 1 + k.size) :
    ∃ q c, Stands kids name first count mem root r q i c ∧ LabelAt kids F count (mem i) c := by
  refine stands_of_siblings h.placed h.labels (fun j c hj => ?_) i (occ.2 ⟨h1, h2⟩)
  cases j with
  | zero =>
    obtain rfl := Option.some.inj hj
    exact ⟨[], .root⟩
  | succ j => simp at hj

/-- A child of a slot of the tree. -/
theorem child (h1 : root ≤ d) (h2 : d < root + 1 + k.size) (hi : InRange first count (mem d) i) :
    parent (mem i) = d ∧ d < i ∧ i < root + 1 + k.size := by
  obtain ⟨hpar, hr, hlt⟩ := h.placed.child (by simp) (occ.2 ⟨h1, h2⟩) hi
  simp only [deep_cons, deep_nil] at hr
  exact ⟨hpar, hlt, by omega⟩

/-- A slot that stands for a node is one of the tree. -/
theorem slot_of_stands (hs : Stands kids name first count mem root r q i c) :
    root ≤ i ∧ i < root + 1 + k.size := by
  induction hs with
  | root => exact ⟨Nat.le_refl _, by omega⟩
  | @kid q d j c c' _ hj _ ih =>
    obtain ⟨-, hlt, hsize⟩ := h.child ih.1 ih.2 (i := first (mem d) + j) ⟨by omega, by omega⟩
    exact ⟨by omega, hsize⟩

theorem child_of_stands (hd : Stands kids name first count mem root r q d c)
    (hj : j < count (mem d)) :
    parent (mem (first (mem d) + j)) = d ∧ root ≤ d ∧ d < first (mem d) + j := by
  obtain ⟨h1, h2⟩ := h.slot_of_stands hd
  obtain ⟨hpar, hlt, -⟩ := h.child h1 h2 (i := first (mem d) + j) ⟨by omega, by omega⟩
  exact ⟨hpar, h1, hlt⟩

/-- A slot stands for one node only, at one path. -/
theorem unique (hs : Stands kids name first count mem root r q i c) :
    ∀ {q' c'}, Stands kids name first count mem root r q' i c' → q' = q ∧ c' = c := by
  induction hs with
  | root =>
    intro q' c' hs'
    rcases hs'.cases with ⟨rfl, -, rfl⟩ | ⟨q₀, d, j, c₀, hd, hj, -, hi, -⟩
    · exact ⟨rfl, rfl⟩
    · -- the root is no child
      obtain ⟨-, h1, h2⟩ := h.child_of_stands hd hj
      omega
  | @kid q d j c c₁ hd hj hc ih =>
    intro q' c' hs'
    obtain ⟨hpar, h1, h2⟩ := h.child_of_stands hd hj
    rcases hs'.cases with ⟨-, hi, -⟩ | ⟨q₀, d', j', c₀, hd', hj', hc', hi, rfl⟩
    · omega
    · obtain ⟨hpar', -, -⟩ := h.child_of_stands hd' hj'
      obtain rfl : d = d' := by rw [← hpar, ← hpar', hi]
      obtain rfl : j = j' := by omega
      obtain ⟨rfl, rfl⟩ := ih hd'
      obtain rfl := Option.some.inj (hc.symm.trans hc')
      exact ⟨rfl, rfl⟩

theorem labelAt (hs : Stands kids name first count mem root r q i c) :
    LabelAt kids F count (mem i) c := by
  obtain ⟨h1, h2⟩ := h.slot_of_stands hs
  obtain ⟨q', c', hs', hl⟩ := h.stands name h1 h2
  obtain ⟨-, rfl⟩ := h.unique hs hs'
  exact hl

/-- The nodes that the slots stand for are those below the root, at the same paths. -/
theorem listed_iff :
    (∃ i, Stands kids name first count mem root r q i c) ↔ Found kids name r q c := by
  constructor
  · rintro ⟨i, hs⟩
    induction hs with
    | root => exact .root
    | kid _ _ hc ih => exact ih.kid (List.mem_of_getElem? hc)
  · intro hl
    induction hl with
    | root => exact ⟨root, .root⟩
    | @kid q c₀ c _ hc ih =>
      obtain ⟨d, hd⟩ := ih
      obtain ⟨j, hj⟩ := List.getElem?_of_mem hc
      obtain ⟨hlt, -⟩ := List.getElem?_eq_some_iff.1 hj
      exact ⟨_, hd.kid (by rw [(h.labelAt hd).count_eq]; exact hlt) hj⟩

end LabelTree

end Lib
