import Mathlib.Data.List.Pairwise
import Mathlib.Data.List.Nodup
import Mathlib.Tactic.Ring

/-!
# Trees claimed block by block in an arena

An arena is a memory `mem : Nat → β` from which slots are claimed in ascending order. A tree is
built in it by claiming, for each node in preorder, one block of consecutive slots for all of its
children. `Forest β` is the abstract tree (an ordered list of siblings), and
`Placed K mem f p slot lo` says where it lies: the siblings of `f`, children of slot `p`, at
`slot, slot + 1, …`, and everything below them from `lo` on. `K v p lo w` is what the value of a
node says about its place (parent `p`, `w` children at `lo`); `Fits` is the exact form of it.

* `Placed.congr`: only the slots of the tree matter (`Occ`).
* `Placed.child`, `Placed.covered`: a slot lies in the child range of `d` exactly when it names
  `d` as its parent, and parents are smaller than their children; so every slot but the top ones
  lies in exactly one child range, and child ranges are disjoint.
* `visits`: the slots in preorder with their levels; each slot once (`nodup_visits`, `mem_visits`),
  parents first (`parents_first`), with its depth as level (`visits_depth`).
* `Staged own f a b`: the nodes of `f` own intervals between `a` and `b`, claimed in preorder;
  they are disjoint (`Staged.pairwise`).
-/

namespace Lib

/-- An ordered list of siblings, each with the list of its children. -/
inductive Forest (β : Type) where
  | nil
  | cons (v : β) (kids rest : Forest β)

namespace Forest

variable {β : Type}

/-- The number of siblings. -/
def width : Forest β → Nat
  | nil => 0
  | cons _ _ r => r.width + 1

/-- The number of nodes. -/
def size : Forest β → Nat
  | nil => 0
  | cons _ k r => k.size + r.size + 1

/-- The values in preorder. -/
def nodes : Forest β → List β
  | nil => []
  | cons v k r => v :: (k.nodes ++ r.nodes)

/-- The nodes below the siblings. -/
def deep (f : Forest β) : Nat := f.size - f.width

/-- `n` childless siblings, with the values of `mem` from `slot` on. -/
def leaves (mem : Nat → β) (slot : Nat) : Nat → Forest β
  | 0 => nil
  | n + 1 => cons (mem slot) nil (leaves mem (slot + 1) n)

@[simp] theorem width_nil : (nil : Forest β).width = 0 := rfl
@[simp] theorem size_nil : (nil : Forest β).size = 0 := rfl
@[simp] theorem width_cons (v : β) (k r : Forest β) : (cons v k r).width = r.width + 1 := rfl
@[simp] theorem size_cons (v : β) (k r : Forest β) :
    (cons v k r).size = k.size + r.size + 1 := rfl

theorem width_le_size (f : Forest β) : f.width ≤ f.size := by
  induction f with
  | nil => simp
  | cons v k r _ ih => simp only [width_cons, size_cons]; omega

@[simp] theorem deep_nil : (nil : Forest β).deep = 0 := rfl

@[simp] theorem deep_cons (v : β) (k r : Forest β) :
    (cons v k r).deep = k.size + r.deep := by
  have := width_le_size r
  simp only [deep, size_cons, width_cons]
  omega

theorem size_eq (f : Forest β) : f.size = f.width + f.deep := by
  have := width_le_size f
  simp only [deep]
  omega

@[simp] theorem width_leaves (mem : Nat → β) (slot n : Nat) : (leaves mem slot n).width = n := by
  induction n generalizing slot with
  | zero => rfl
  | succ n ih => simp [leaves, ih]

@[simp] theorem deep_leaves (mem : Nat → β) (slot n : Nat) : (leaves mem slot n).deep = 0 := by
  induction n generalizing slot with
  | zero => rfl
  | succ n ih => simp [leaves, ih]

end Forest

open Forest

/-! ## Where a tree lies -/

section
variable {β : Type} (K : β → Nat → Nat → Nat → Prop) (mem : Nat → β)

/-- The siblings of `f` are at `slot, slot + 1, …`, everything below them from `lo` on, and each
value agrees with its place (module doc). -/
def Placed : Forest β → Nat → Nat → Nat → Prop
  | .nil, _, _, _ => True
  | .cons v k r, p, slot, lo => mem slot = v ∧ K v p lo k.width ∧
      Placed k slot lo (lo + k.width) ∧ Placed r p (slot + 1) (lo + k.size)

/-- The slots a tree at `slot`, `lo` takes. -/
def Occ (f : Forest β) (slot lo i : Nat) : Prop :=
  (slot ≤ i ∧ i < slot + f.width) ∨ (lo ≤ i ∧ i < lo + f.deep)

/-- The slots in preorder, with their levels. -/
def visits : Forest β → Nat → Nat → Nat → List (Nat × Nat)
  | .nil, _, _, _ => []
  | .cons _ k r, slot, lo, d =>
    (slot, d) :: (visits k lo (lo + k.width) (d + 1) ++ visits r (slot + 1) (lo + k.size) d)

end

variable {β : Type} {K K' : β → Nat → Nat → Nat → Prop} {mem mem' : Nat → β}

theorem Placed.mono (hK : ∀ v p lo w, K v p lo w → K' v p lo w) :
    ∀ {f : Forest β} {p slot lo : Nat}, Placed K mem f p slot lo → Placed K' mem f p slot lo
  | .nil, _, _, _, _ => trivial
  | .cons _ _ _, _, _, _, ⟨hv, hk, hkids, hrest⟩ =>
      ⟨hv, hK _ _ _ _ hk, hkids.mono hK, hrest.mono hK⟩

/-- Only the slots of the tree matter. -/
theorem Placed.congr {f : Forest β} {p slot lo : Nat} (h : Placed K mem f p slot lo)
    (he : ∀ i, Occ f slot lo i → mem' i = mem i) : Placed K mem' f p slot lo := by
  induction f generalizing p slot lo with
  | nil => trivial
  | cons v k r ihk ihr =>
    obtain ⟨hv, hk, hkids, hrest⟩ := h
    have hks := size_eq k
    refine ⟨?_, hk, ihk hkids fun i hi => he i ?_, ihr hrest fun i hi => he i ?_⟩
    · rw [he slot (.inl (by simp)), hv]
    · simp only [Occ, width_cons, deep_cons] at hi ⊢; omega
    · simp only [Occ, width_cons, deep_cons] at hi ⊢; omega

/-- From each slot of a tree on, there is a tree. -/
theorem Placed.subtree {f : Forest β} {p slot lo i : Nat} (h : Placed K mem f p slot lo)
    (hs : slot + f.width ≤ lo) (hi : Occ f slot lo i) :
    ∃ k q lo', Placed K mem (.cons (mem i) k .nil) q i lo' ∧ i + 1 ≤ lo' := by
  induction f generalizing p slot lo with
  | nil => simp only [Occ, width_nil, deep_nil] at hi; omega
  | cons v k r ihk ihr =>
    obtain ⟨rfl, hk, hkids, hrest⟩ := h
    have hks := size_eq k
    simp only [Occ, width_cons, deep_cons] at hs hi
    by_cases h0 : i = slot
    · subst h0
      exact ⟨k, p, lo, ⟨rfl, hk, hkids, trivial⟩, by omega⟩
    · by_cases hik : Occ k lo (lo + k.width) i
      · exact ihk hkids (Nat.le_refl _) hik
      · refine ihr hrest (by omega) ?_
        simp only [Occ] at hik ⊢
        omega

/-- Childless siblings lie wherever their values allow it. -/
theorem placed_leaves {p lo : Nat} (n : Nat) {slot : Nat}
    (h : ∀ i, slot ≤ i → i < slot + n → K (mem i) p lo 0) :
    Placed K mem (leaves mem slot n) p slot lo := by
  induction n generalizing slot with
  | zero => trivial
  | succ n ih =>
    exact ⟨rfl, h slot (Nat.le_refl _) (by omega), trivial,
      ih fun i h1 h2 => h i (by omega) (by omega)⟩

theorem mem_visits {f : Forest β} {slot lo d i : Nat} (hs : slot + f.width ≤ lo) :
    (∃ l, (i, l) ∈ visits f slot lo d) ↔ Occ f slot lo i := by
  induction f generalizing slot lo d with
  | nil => simp [visits, Occ]
  | cons v k r ihk ihr =>
    have hks := size_eq k
    simp only [width_cons] at hs
    have hk := @ihk lo (lo + k.width) (d + 1) (Nat.le_refl _)
    have hr := @ihr (slot + 1) (lo + k.size) d (by omega)
    simp only [visits, List.mem_cons, List.mem_append, exists_or, hk, hr, Prod.mk.injEq]
    simp only [Occ, width_cons, deep_cons]
    constructor
    · rintro (⟨l, rfl, -⟩ | h | h) <;> omega
    · intro h
      by_cases hi : i = slot
      · exact .inl ⟨d, hi, rfl⟩
      · omega

theorem nodup_visits {f : Forest β} {slot lo d : Nat} (hs : slot + f.width ≤ lo) :
    ((visits f slot lo d).map Prod.fst).Nodup := by
  induction f generalizing slot lo d with
  | nil => simp [visits]
  | cons v k r ihk ihr =>
    have hks := size_eq k
    simp only [width_cons] at hs
    have hk := fun i => @mem_visits _ k lo (lo + k.width) (d + 1) i (Nat.le_refl _)
    have hr := fun i => @mem_visits _ r (slot + 1) (lo + k.size) d i (by omega)
    simp only [visits, List.map_cons, List.map_append, List.nodup_cons, List.mem_append,
      List.mem_map, Prod.exists]
    simp only [Occ] at hk hr
    refine ⟨?_, List.nodup_append.2 ⟨ihk (Nat.le_refl _), ihr (by omega), ?_⟩⟩
    · rintro (⟨a, l, h, rfl⟩ | ⟨a, l, h, rfl⟩)
      · have := (hk _).1 ⟨l, h⟩; omega
      · have := (hr _).1 ⟨l, h⟩; omega
    · intro a ha b hb hab
      simp only [List.mem_map, Prod.exists] at ha hb
      obtain ⟨a, l, ha, rfl⟩ := ha
      obtain ⟨b, l', hb, rfl⟩ := hb
      subst hab
      have h1 := (hk _).1 ⟨l, ha⟩
      have h2 := (hr _).1 ⟨l', hb⟩
      omega

/-- The values at the visited slots are the nodes in preorder. -/
theorem Placed.map_visits {f : Forest β} {p slot lo : Nat}
    (h : Placed K mem f p slot lo) (d : Nat) :
    (visits f slot lo d).map (fun x => mem x.1) = f.nodes := by
  induction f generalizing p slot lo d with
  | nil => rfl
  | cons v k r ihk ihr =>
    obtain ⟨hv, -, hkids, hrest⟩ := h
    simp [visits, Forest.nodes, hv, ihk hkids, ihr hrest]

/-! ## Parents and child ranges -/

section
variable (parent first count : β → Nat)

/-- The exact form of a node's place: its parent, and the range of its children. -/
def Fits (v : β) (p lo w : Nat) : Prop := parent v = p ∧ count v = w ∧ (w ≠ 0 → first v = lo)

/-- `i` lies in the child range of the value `v`. -/
def InRange (v : β) (i : Nat) : Prop := first v ≤ i ∧ i < first v + count v

end

/-- The depth of a slot below `root`, along the parents `par`. -/
inductive Depth (par : Nat → Nat) (root : Nat) : Nat → Nat → Prop
  | root : Depth par root root 0
  | step {i n : Nat} : i ≠ root → Depth par root (par i) n → Depth par root i (n + 1)

variable {parent first count : β → Nat}

/-- Siblings name their parent. -/
theorem Placed.parent_eq {f : Forest β} {p slot lo : Nat}
    (h : Placed (Fits parent first count) mem f p slot lo) {i : Nat} (h1 : slot ≤ i)
    (h2 : i < slot + f.width) : parent (mem i) = p := by
  induction f generalizing slot lo with
  | nil => simp only [width_nil] at h2; omega
  | cons v k r _ ihr =>
    obtain ⟨hv, hk, -, hrest⟩ := h
    simp only [width_cons] at h2
    by_cases hi : i = slot
    · rw [hi, hv]; exact hk.1
    · exact ihr hrest (by omega) (by omega)

/-- A slot in the child range of a node has that node as its parent, and comes after it. -/
theorem Placed.child {f : Forest β} {p slot lo : Nat} (hs : slot + f.width ≤ lo)
    (h : Placed (Fits parent first count) mem f p slot lo) {d i : Nat} (hd : Occ f slot lo d)
    (hi : InRange first count (mem d) i) :
    parent (mem i) = d ∧ (lo ≤ i ∧ i < lo + f.deep) ∧ d < i := by
  induction f generalizing p slot lo with
  | nil => simp only [Occ, width_nil, deep_nil] at hd; omega
  | cons v k r ihk ihr =>
    obtain ⟨hv, hk, hkids, hrest⟩ := h
    have hks := size_eq k
    simp only [Occ, width_cons, deep_cons] at hs hd ⊢
    by_cases hd0 : d = slot
    · subst hd0
      rw [hv] at hi
      obtain ⟨-, hcount, hfirst⟩ := hk
      obtain ⟨hi1, hi2⟩ := hi
      rw [hcount] at hi2
      have hw : k.width ≠ 0 := by
        intro h0; omega
      rw [hfirst hw] at hi1 hi2
      exact ⟨hkids.parent_eq hi1 hi2, by omega, by omega⟩
    · by_cases hdk : Occ k lo (lo + k.width) d
      · obtain ⟨h1, h2, h3⟩ := ihk (Nat.le_refl _) hkids hdk
        exact ⟨h1, by omega, h3⟩
      · obtain ⟨h1, h2, h3⟩ := ihr (by omega) hrest (by
          simp only [Occ] at hdk ⊢; omega)
        exact ⟨h1, by omega, h3⟩

/-- A slot below the top siblings lies in the child range of its parent, a smaller slot. -/
theorem Placed.covered {f : Forest β} {p slot lo : Nat} (hs : slot + f.width ≤ lo)
    (h : Placed (Fits parent first count) mem f p slot lo) {i : Nat}
    (hi : lo ≤ i ∧ i < lo + f.deep) :
    Occ f slot lo (parent (mem i)) ∧ InRange first count (mem (parent (mem i))) i := by
  induction f generalizing p slot lo with
  | nil => simp only [deep_nil] at hi; omega
  | cons v k r ihk ihr =>
    obtain ⟨hv, hk, hkids, hrest⟩ := h
    have hks := size_eq k
    simp only [Occ, width_cons, deep_cons] at hs hi ⊢
    by_cases htop : i < lo + k.width
    · rw [hkids.parent_eq hi.1 htop, hv]
      obtain ⟨-, hcount, hfirst⟩ := hk
      refine ⟨by omega, ?_⟩
      rw [InRange, hcount, hfirst (by omega)]
      exact ⟨hi.1, htop⟩
    · by_cases hik : i < lo + k.size
      · obtain ⟨h1, h2⟩ := ihk (Nat.le_refl _) hkids (by omega)
        refine ⟨?_, h2⟩
        simp only [Occ] at h1; omega
      · obtain ⟨h1, h2⟩ := ihr (by omega) hrest (by omega)
        refine ⟨?_, h2⟩
        simp only [Occ] at h1; omega

/-- In preorder, the parent of a visited slot is the parent of the siblings or was visited
before. -/
theorem parents_first {f : Forest β} {p slot lo d : Nat}
    (h : Placed (Fits parent first count) mem f p slot lo) :
    ∀ {l₁ : List (Nat × Nat)} {x : Nat × Nat} {l₂ : List (Nat × Nat)},
      visits f slot lo d = l₁ ++ x :: l₂ →
      parent (mem x.1) = p ∨ parent (mem x.1) ∈ l₁.map Prod.fst := by
  induction f generalizing p slot lo d with
  | nil => intro l₁ x l₂ he; simp [visits] at he
  | cons v k r ihk ihr =>
    obtain ⟨hv, hk, hkids, hrest⟩ := h
    intro l₁ x l₂ he
    simp only [visits] at he
    cases l₁ with
    | nil =>
      simp only [List.nil_append, List.cons.injEq] at he
      left
      rw [← he.1, hv]
      exact hk.1
    | cons y l₁ =>
      simp only [List.cons_append, List.cons.injEq] at he
      obtain ⟨rfl, he⟩ := he
      rcases List.append_eq_append_iff.1 he with ⟨t, ht, he'⟩ | ⟨t, ht, he'⟩
      · -- `x` comes after the children
        rcases ihr hrest he' with h1 | h1
        · exact .inl h1
        · right
          rw [ht]
          simp only [List.map_cons, List.map_append, List.mem_cons, List.mem_append]
          exact .inr (.inr h1)
      · cases t with
        | nil =>
          rcases @ihr _ _ _ _ hrest [] x l₂ (by simpa using he'.symm) with h1 | h1
          · exact .inl h1
          · simp at h1
        | cons z t =>
          simp only [List.cons_append, List.cons.injEq] at he'
          obtain ⟨rfl, -⟩ := he'
          rcases ihk hkids ht with h1 | h1
          · exact .inr (by simp [h1])
          · exact .inr (by simp only [List.map_cons, List.mem_cons]; exact .inr h1)

/-- The level of a visited slot is its depth. -/
theorem visits_depth {f : Forest β} {root p slot lo d : Nat}
    (h : Placed (Fits parent first count) mem f p slot lo) (hs : slot + f.width ≤ lo)
    (hr : root < slot) (hp : Depth (fun i => parent (mem i)) root p d) :
    ∀ x ∈ visits f slot lo (d + 1), Depth (fun i => parent (mem i)) root x.1 x.2 := by
  induction f generalizing p slot lo d with
  | nil => intro x hx; simp [visits] at hx
  | cons v k r ihk ihr =>
    obtain ⟨hv, hk, hkids, hrest⟩ := h
    have hks := size_eq k
    simp only [width_cons] at hs
    have hslot : Depth (fun i => parent (mem i)) root slot (d + 1) :=
      .step (by omega) (by simp only [hv, hk.1]; exact hp)
    intro x hx
    simp only [visits, List.mem_cons, List.mem_append] at hx
    rcases hx with rfl | hx | hx
    · exact hslot
    · exact ihk hkids (Nat.le_refl _) (by omega) hslot x hx
    · exact ihr hrest (by omega) (by omega) hp x hx

/-! ## Intervals owned by the nodes -/

/-- Each node of `f` that owns anything (`own v = (first, count)`, `count ≠ 0`) owns an interval
between `a` and `b`, and the intervals follow each other in preorder. -/
def Staged (own : β → Nat × Nat) : Forest β → Nat → Nat → Prop
  | .nil, a, b => a ≤ b
  | .cons v k r, a, b => ∃ m m', a ≤ m ∧
      ((own v).2 ≠ 0 → a ≤ (own v).1 ∧ (own v).1 + (own v).2 ≤ m) ∧
      Staged own k m m' ∧ Staged own r m' b

theorem Staged.le {own : β → Nat × Nat} {f : Forest β} {a b : Nat} (h : Staged own f a b) :
    a ≤ b := by
  induction f generalizing a b with
  | nil => exact h
  | cons v k r ihk ihr =>
    obtain ⟨m, m', h1, -, h2, h3⟩ := h
    exact Nat.le_trans h1 (Nat.le_trans (ihk h2) (ihr h3))

theorem Staged.mono_left {own : β → Nat × Nat} {f : Forest β} {a a' b : Nat}
    (h : Staged own f a b) (ha : a' ≤ a) : Staged own f a' b := by
  cases f with
  | nil => exact Nat.le_trans ha h
  | cons v k r =>
    obtain ⟨m, m', h1, hv, h2, h3⟩ := h
    exact ⟨m, m', Nat.le_trans ha h1, fun h0 => ⟨Nat.le_trans ha (hv h0).1, (hv h0).2⟩, h2, h3⟩

/-- One sibling, then the ones after it. -/
theorem Staged.cons_nil {own : β → Nat × Nat} {v : β} {k g : Forest β} {a m b : Nat}
    (hv : Staged own (.cons v k .nil) a m) (hg : Staged own g m b) :
    Staged own (.cons v k g) a b := by
  obtain ⟨m₁, m₂, h1, hown, hk, h2⟩ := hv
  exact ⟨m₁, m₂, h1, hown, hk, hg.mono_left h2⟩

theorem Staged.bound {own : β → Nat × Nat} {f : Forest β} {a b : Nat} (h : Staged own f a b) :
    ∀ v ∈ f.nodes, (own v).2 ≠ 0 → a ≤ (own v).1 ∧ (own v).1 + (own v).2 ≤ b := by
  induction f generalizing a b with
  | nil => intro v hv; simp [nodes] at hv
  | cons u k r ihk ihr =>
    obtain ⟨m, m', h1, hu, h2, h3⟩ := h
    have hk := h2.le
    have hr := h3.le
    intro v hv h0
    simp only [nodes, List.mem_cons, List.mem_append] at hv
    rcases hv with rfl | hv | hv
    · have := hu h0; omega
    · have := ihk h2 v hv h0; omega
    · have := ihr h3 v hv h0; omega

/-- Two owned intervals that do not meet. -/
def Apart (own : β → Nat × Nat) (u v : β) : Prop :=
  (own u).2 ≠ 0 → (own v).2 ≠ 0 →
    (own u).1 + (own u).2 ≤ (own v).1 ∨ (own v).1 + (own v).2 ≤ (own u).1

theorem Apart.symm {own : β → Nat × Nat} {u v : β} (h : Apart own u v) : Apart own v u :=
  fun hv hu => (h hu hv).symm

theorem Staged.pairwise {own : β → Nat × Nat} {f : Forest β} {a b : Nat} (h : Staged own f a b) :
    f.nodes.Pairwise (Apart own) := by
  induction f generalizing a b with
  | nil => simp [nodes]
  | cons u k r ihk ihr =>
    obtain ⟨m, m', h1, hu, h2, h3⟩ := h
    have hk := h2.le
    simp only [nodes, List.pairwise_cons, List.pairwise_append, List.mem_append]
    refine ⟨fun v hv hu0 hv0 => .inl ?_, ihk h2, ihr h3, fun v hv w hw hv0 hw0 => .inl ?_⟩
    · have := hu hu0
      rcases hv with hv | hv
      · have := h2.bound v hv hv0; omega
      · have := h3.bound v hv hv0; omega
    · have := h2.bound v hv hv0
      have := h3.bound w hw hw0
      omega

end Lib
