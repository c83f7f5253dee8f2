import Mathlib.Algebra.Order.BigOperators.Group.List
import Xallib.Lib.Listing

/-!
# How many nodes are below a node

`below kids enter n c`: the nodes listed below `c`, where only those with `enter` are entered; `n`
bounds the depth, which is enough where `HasDepth kids n c`. A tree in an arena that stands for what
is below `c` is never smaller, and as large exactly where all nodes with kids are entered
(`Labels.listed_below`). Where all are, these are the kids of all nodes (`below_eq_summed`).
-/

namespace Lib

open Forest

section
variable {ν : Type} (kids : ν → List ν) (enter : ν → Bool)

/-- The nodes of the list, and `g` of those that are entered. -/
def listed (g : ν → Nat) (l : List ν) : Nat :=
  (l.map fun c => if enter c then g c + 1 else 1).sum

def below : Nat → ν → Nat
  | 0, _ => 0
  | n + 1, c => listed enter (below n) (kids c)

/-- The sum of `w` over `c` and the nodes below it. -/
def summed (w : ν → Nat) : Nat → ν → Nat
  | 0, _ => 0
  | n + 1, c => w c + ((kids c).map (summed w n)).sum

/-- No path down from `c` has more than `n` nodes. -/
def HasDepth : Nat → ν → Prop
  | 0, _ => False
  | n + 1, c => ∀ c' ∈ kids c, HasDepth n c'

end

variable {ν β ι : Type} {kids : ν → List ν} {enter : ν → Bool} {F : β → ν → Prop} {name : ν → ι}

theorem listed_cons (g : ν → Nat) (c : ν) (l : List ν) :
    listed enter g (c :: l) = (if enter c then g c + 1 else 1) + listed enter g l := by
  rw [listed, List.map_cons, List.sum_cons]
  rfl

theorem listed_perm (g : ν → Nat) {l l' : List ν} (h : l.Perm l') :
    listed enter g l = listed enter g l' := (h.map _).sum_nat

/-- The nodes of a list whose nodes with kids are entered. -/
theorem listed_eq_length {g w : ν → Nat} {l : List ν}
    (h : ∀ c ∈ l, if enter c then g c = w c else w c = 0) :
    listed enter g l = l.length + (l.map w).sum := by
  induction l with
  | nil => rfl
  | cons c l ih =>
    rw [List.forall_mem_cons] at h
    rw [listed_cons, ih h.2, List.length_cons, List.map_cons, List.sum_cons]
    have hc := h.1
    split at hc <;> split <;> first | omega | contradiction

/-- Where the nodes with kids are entered, all nodes below are counted. -/
theorem below_eq_summed (n : Nat) : ∀ c : ν,
    (∀ c' ∈ kids c, ∀ b, Linked kids c' b → kids b ≠ [] → enter b = true) →
      below kids enter n c = summed kids (fun c => (kids c).length) n c := by
  induction n with
  | zero => exact fun _ _ => rfl
  | succ n ih =>
    intro c h
    rw [below, summed]
    refine listed_eq_length fun c' hc => ?_
    split
    · exact ih c' fun c₂ hc₂ b hb => h c' hc b (.head hc₂ hb)
    · next henter =>
      have hnil : kids c' = [] := not_not.1 fun hne => henter (h c' hc c' .refl hne)
      cases n with
      | zero => rfl
      | succ n =>
        rw [summed, hnil]
        rfl

theorem Labels.hasDepth {f : Forest β} {l : List ν} {n : Nat} (h : Labels kids F f l)
    (hn : f.size ≤ n) : ∀ c ∈ l, HasDepth kids n c := by
  induction f generalizing l n with
  | nil =>
    subst h
    exact fun _ hc => absurd hc List.not_mem_nil
  | cons v k r ihk ihr =>
    obtain ⟨c, rest, rfl, -, hk, hr⟩ := h
    simp only [size_cons] at hn
    obtain ⟨m, rfl⟩ : ∃ m, n = m + 1 := ⟨n - 1, by omega⟩
    rw [List.forall_mem_cons]
    exact ⟨ihk hk (by omega), ihr hr (by omega)⟩

theorem Labels.eq_nil_iff {f : Forest β} {l : List ν} (h : Labels kids F f l) :
    f.size = 0 ↔ l = [] := by
  cases f with
  | nil => exact iff_of_true rfl h
  | cons v k r =>
    obtain ⟨c, rest, rfl, -⟩ := h
    rw [size_cons]
    exact iff_of_false (by omega) (List.cons_ne_nil c rest)

/-- Each node below has its part of the sum. -/
theorem HasDepth.le_summed {w : ν → Nat} {n : Nat} : ∀ {c b : ν}, HasDepth kids n c →
    Linked kids c b → w b ≤ summed kids w n c := by
  induction n with
  | zero => exact fun h => h.elim
  | succ n ih =>
    intro c b h hl
    rw [summed]
    rcases Relation.ReflTransGen.cases_head hl with rfl | ⟨c', hc, hb⟩
    · exact Nat.le_add_right _ _
    · have hle := List.le_sum_of_mem (List.mem_map_of_mem (f := summed kids w n) hc)
      have := ih (h c' hc) hb
      omega

/-- What is linked from a node is the node, or linked from one of its kids. -/
theorem forall_linked_iff {P : ν → Prop} {c : ν} :
    (∀ b, Linked kids c b → P b) ↔ P c ∧ ∀ c' ∈ kids c, ∀ b, Linked kids c' b → P b := by
  constructor
  · intro h
    exact ⟨h c .refl, fun c' hc b hb => h b (.head hc hb)⟩
  · rintro ⟨hself, hkids⟩ b hb
    rcases Relation.ReflTransGen.cases_head hb with rfl | ⟨c', hc, hb⟩
    · exact hself
    · exact hkids c' hc b hb

/-- What is linked from a node that a tree stands for has a value in it. -/
theorem Labels.linked {f : Forest β} {l : List ν} (h : Labels kids F f l) :
    ∀ c ∈ l, ∀ b, Linked kids c b → ∃ v, F v b := by
  induction f generalizing l with
  | nil =>
    subst h
    exact fun _ hc => absurd hc List.not_mem_nil
  | cons v k r ihk ihr =>
    obtain ⟨c, rest, rfl, hv, hk, hr⟩ := h
    rw [List.forall_mem_cons]
    exact ⟨forall_linked_iff.2 ⟨⟨v, hv⟩, ihk hk⟩, ihr hr⟩

/-- The nodes that are counted are at most those of the tree, and all of them exactly where each
node with kids is entered. -/
theorem Labels.listed_below (enter : ν → Bool) {f : Forest β} {l : List ν} {n : Nat}
    (h : Labels kids F f l) (hn : f.size ≤ n) : listed enter (below kids enter n) l ≤ f.size ∧
      (listed enter (below kids enter n) l = f.size ↔
        ∀ c ∈ l, ∀ b, Linked kids c b → kids b ≠ [] → enter b = true) := by
  induction f generalizing l n with
  | nil =>
    subst h
    exact ⟨Nat.le_refl 0, iff_of_true rfl fun _ hc => absurd hc List.not_mem_nil⟩
  | cons v k r ihk ihr =>
    obtain ⟨c, rest, rfl, -, hk, hr⟩ := h
    rw [size_cons] at hn ⊢
    obtain ⟨m, rfl⟩ : ∃ m, n = m + 1 := ⟨n - 1, by omega⟩
    obtain ⟨hle₁, heq₁⟩ := ihk hk (by omega : k.size ≤ m)
    obtain ⟨hle₂, heq₂⟩ := ihr hr (by omega : r.size ≤ m + 1)
    rw [listed_cons, List.forall_mem_cons, @forall_linked_iff ν kids _ c, ← heq₂, below]
    cases henter : enter c with
    | true =>
      rw [if_pos rfl, ← heq₁]
      refine ⟨by omega, ?_⟩
      constructor
      · intro h
        exact ⟨⟨fun _ => rfl, by omega⟩, by omega⟩
      · rintro ⟨⟨-, h1⟩, h2⟩
        omega
    | false =>
      rw [if_neg Bool.false_ne_true, ← heq₁]
      refine ⟨by omega, ?_⟩
      constructor
      · intro h
        have hsize : k.size = 0 := by omega
        have hnil := hk.eq_nil_iff.1 hsize
        refine ⟨⟨fun h0 => absurd hnil h0, ?_⟩, by omega⟩
        rw [hnil, hsize]
        rfl
      · rintro ⟨⟨h0, -⟩, h2⟩
        have hnil : kids c = [] := not_not.1 fun hne => Bool.false_ne_true (h0 hne)
        have hsize := hk.eq_nil_iff.2 hnil
        omega

/-- What is found is what is linked. -/
theorem found_iff_linked (name : ν → ι) {r c : ν} :
    (∃ q, Found kids name r q c) ↔ Linked kids r c := by
  constructor
  · rintro ⟨q, h⟩
    induction h with
    | root => exact .refl
    | kid _ hc ih => exact ih.tail hc
  · intro h
    induction h with
    | refl => exact ⟨[], .root⟩
    | tail _ hc ih =>
      obtain ⟨q, hq⟩ := ih
      exact ⟨_, hq.kid hc⟩

/-- The nodes found below the root are those linked from its kids. -/
theorem found_below_iff (name : ν → ι) {r c : ν} :
    (∃ q ≠ [], Found kids name r q c) ↔ ∃ c₀ ∈ kids r, Linked kids c₀ c := by
  constructor
  · rintro ⟨q, hq, h⟩
    induction h with
    | root => exact absurd rfl hq
    | @kid q c c' h hc ih =>
      cases h with
      | root => exact ⟨c', hc, .refl⟩
      | kid h' hc' =>
        obtain ⟨c₀, h₀, hl⟩ := ih (by simp)
        exact ⟨c₀, h₀, hl.tail hc⟩
  · rintro ⟨c₀, h₀, hl⟩
    induction hl with
    | refl => exact ⟨[] ++ [name c₀], by simp, Found.root.kid h₀⟩
    | tail _ hc ih =>
      obtain ⟨q, -, h⟩ := ih
      exact ⟨_, by simp, h.kid hc⟩

end Lib
