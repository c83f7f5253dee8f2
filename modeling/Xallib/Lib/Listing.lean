import Xallib.Lib.Descent
import Xallib.Lib.Label

/-!
# The nodes of a tree in preorder

`preorder kids name n q c`: the node `c`, which is at the path `q`, and all that is below it, with
their paths, each node before its kids; `n` bounds the depth. For a tree in an arena that stands for
the tree below `r`, the slots in preorder stand for these nodes, one for one
(`LabelTree.visits_preorder`), which are all that is found below `r` (`LabelTree.mem_preorder`).
-/

namespace Lib

open Forest

section
variable {ν ι : Type} (kids : ν → List ν) (name : ν → ι)

def preorder : Nat → List ι → ν → List (List ι × ν)
  | 0, _, _ => []
  | n + 1, q, c => (q, c) :: (kids c).flatMap fun c' => preorder n (q ++ [name c']) c'

/-- The same nodes, with other names on their paths. -/
theorem preorder_rename {κ : Type} (f : ι → κ) (n : Nat) : ∀ (q : List ι) (c : ν),
    preorder kids (fun c => f (name c)) n (q.map f) c =
      (preorder kids name n q c).map fun y => (y.1.map f, y.2) := by
  induction n with
  | zero => exact fun _ _ => rfl
  | succ n ih =>
    intro q c
    rw [preorder, preorder, List.map_cons, List.map_flatMap]
    congr 2
    funext c'
    rw [← ih, List.map_append]
    rfl

/-- A node is found under whatever names. -/
theorem Found.rename {kids : ν → List ν} {name : ν → ι} {κ : Type} (name' : ν → κ) {r c : ν}
    {q : List ι} (h : Found kids name r q c) : ∃ q', Found kids name' r q' c := by
  induction h with
  | root => exact ⟨[], .root⟩
  | kid _ hc ih =>
    obtain ⟨q', h⟩ := ih
    exact ⟨_, h.kid hc⟩

end

variable {β ν ι : Type} {kids : ν → List ν} {F : β → ν → Prop} {name : ν → ι}
  {parent first count : β → Nat} {mem : Nat → β} {root p : Nat} {r : ν} {k : Forest β}

theorem exists_of_forall₂ {α γ : Type} {R : α → γ → Prop} {l : List α} {m : List γ}
    (h : List.Forall₂ R l m) {a : α} (ha : a ∈ l) : ∃ b ∈ m, R a b := by
  induction h with
  | nil => cases ha
  | cons hab _ ih =>
    rcases List.mem_cons.1 ha with rfl | ha
    · exact ⟨_, List.mem_cons_self, hab⟩
    · obtain ⟨b, hb, hr⟩ := ih ha
      exact ⟨b, List.mem_cons_of_mem _ hb, hr⟩

/-- Rounds that each do to the state what is said of the element they stand for. -/
theorem forM_forall₂ {α γ ε σ : Type} {R : α → γ → Prop} {body : α → Cm ε σ Unit} {out : σ → γ → σ}
    (hbody : ∀ a c s, R a c → body a s = .ok () (out s c)) {l : List α} {m : List γ}
    (h : List.Forall₂ R l m) : ∀ s, l.forM body s = .ok () (m.foldl out s) := by
  induction h with
  | nil => exact fun _ => rfl
  | cons hab _ ih =>
    intro s
    rw [Cm.forM_cons, Cm.bind_of_ok (hbody _ _ s hab)]
    exact ih _

/-- The slots of siblings, and of what is below them. -/
theorem visits_siblings {f : Forest β} {slot lo d n : Nat} {q : List ι} {l : List ν}
    (hp : Placed (Fits parent first count) mem f p slot lo) (hl : Labels kids F f l)
    (hn : f.size ≤ n) (htop : ∀ j c, l[j]? = some c →
      Stands kids name first count mem root r (q ++ [name c]) (slot + j) c) :
    List.Forall₂ (fun x y => Stands kids name first count mem root r y.1 x.1 y.2)
      (visits f slot lo d) (l.flatMap fun c => preorder kids name n (q ++ [name c]) c) := by
  induction f generalizing p slot lo d n q l with
  | nil =>
    subst hl
    exact .nil
  | cons v k r' ihk ihr =>
    obtain ⟨c, rest, rfl, -, hk, hr⟩ := hl
    obtain ⟨hv, ⟨-, hcount, hfirst⟩, hkids, hrest⟩ := hp
    have hself := htop 0 c rfl
    have hw := hk.width
    simp only [size_cons] at hn
    obtain ⟨m, rfl⟩ : ∃ m, n = m + 1 := ⟨n - 1, by omega⟩
    rw [visits, List.flatMap_cons, preorder, List.cons_append]
    refine .cons hself (List.rel_append ?_ ?_)
    · refine ihk hkids hk (by omega) fun j c' hj => ?_
      obtain ⟨hlt, -⟩ := List.getElem?_eq_some_iff.1 hj
      have hlo : first (mem slot) = lo := by rw [hv, hfirst (by omega)]
      rw [← hlo]
      exact hself.kid (by rw [Nat.add_zero, hv, hcount, hw]; exact hlt) hj
    · refine ihr hrest hr (by omega) fun j c' hj => ?_
      rw [show slot + 1 + j = slot + (j + 1) by omega]
      exact htop (j + 1) c' hj

namespace LabelTree

variable (h : LabelTree kids F parent first count mem root p r k) {n : Nat}
include h

/-- The slots of the tree in preorder. -/
theorem visits_preorder (name : ν → ι) (hn : k.size + 1 ≤ n) (d : Nat) :
    List.Forall₂ (fun x y => Stands kids name first count mem root r y.1 x.1 y.2)
      (visits (.cons (mem root) k .nil) root (root + 1) d) (preorder kids name n [] r) := by
  obtain ⟨c, rest, hc, -, hk, hr⟩ := h.labels
  obtain ⟨rfl, rfl⟩ := List.cons.inj hc
  obtain ⟨-, ⟨-, hcount, hfirst⟩, hkids, -⟩ := h.placed
  have hw := hk.width
  obtain ⟨m, rfl⟩ : ∃ m, n = m + 1 := ⟨n - 1, by omega⟩
  rw [visits, visits, List.append_nil, preorder]
  refine .cons .root (visits_siblings hkids hk (by omega) fun j c' hj => ?_)
  obtain ⟨hlt, -⟩ := List.getElem?_eq_some_iff.1 hj
  have hlo : first (mem root) = root + 1 := hfirst (by omega)
  rw [← hlo]
  exact Stands.root.kid (by omega) hj

/-- What is listed is what is found. -/
theorem mem_preorder (name : ν → ι) (hn : k.size + 1 ≤ n) {q : List ι} {c : ν} :
    (q, c) ∈ preorder kids name n [] r ↔ Found kids name r q c := by
  have hall := h.visits_preorder name hn 0
  rw [← h.listed_iff]
  constructor
  · intro hmem
    obtain ⟨x, -, hx⟩ := exists_of_forall₂ hall.flip hmem
    exact ⟨x.1, hx⟩
  · rintro ⟨i, hs⟩
    obtain ⟨d, hd⟩ := (mem_visits (by simp)).2 (occ.2 (h.slot_of_stands hs))
    obtain ⟨y, hy, hstands⟩ := exists_of_forall₂ hall hd
    obtain ⟨h1, h2⟩ := h.unique hs hstands
    obtain rfl : y = (q, c) := Prod.ext h1 h2
    exact hy

end LabelTree

end Lib
