import Mathlib.Data.Fintype.EquivFin
import Mathlib.Data.Nat.ModEq
import Mathlib.Data.Nat.Prime.Basic
import Mathlib.Tactic.Ring

/-!
# Triangular probing

`place n start s`: where a search in a ring of `n` places has come after `s` steps, the first one by
one place, the second by two, and so on. In a ring of `2 ^ k` places the first `2 ^ k` probes meet
each place once (`place_inj`, `exists_place`).

`filled n p`: how many of the first `n` places have `p`.
-/

namespace Lib

/-! ## Triangular numbers -/

def tri : Nat → Nat
  | 0 => 0
  | s + 1 => tri s + (s + 1)

theorem two_mul_tri (s : Nat) : 2 * tri s = s * (s + 1) := by
  induction s with
  | zero => rfl
  | succ s ih => rw [tri, Nat.mul_add, ih]; ring

theorem tri_le_tri {a b : Nat} (h : a ≤ b) : tri a ≤ tri b := by
  induction h with
  | refl => exact Nat.le_refl _
  | step _ ih => rw [tri]; omega

/-- Their differences, doubled, are a product of an even and an odd number. -/
theorem two_mul_tri_sub {a b : Nat} (h : a ≤ b) :
    2 * (tri b - tri a) = (b - a) * (a + b + 1) := by
  obtain ⟨d, rfl⟩ := Nat.exists_eq_add_of_le h
  rw [Nat.mul_sub, two_mul_tri, two_mul_tri, Nat.add_sub_cancel_left]
  have hsum : (a + d) * (a + d + 1) = a * (a + 1) + d * (a + (a + d) + 1) := by ring
  rw [hsum, Nat.add_sub_cancel_left]

theorem tri_inj_of_le {k a b : Nat} (hab : a ≤ b) (hb : b < 2 ^ k)
    (h : tri a % 2 ^ k = tri b % 2 ^ k) : a = b := by
  have hdvd : 2 ^ k ∣ tri b - tri a := (Nat.modEq_iff_dvd' (tri_le_tri hab)).1 h
  have hprod : 2 ^ (k + 1) ∣ (b - a) * (a + b + 1) := by
    rw [← two_mul_tri_sub hab, Nat.pow_succ, Nat.mul_comm]
    exact Nat.mul_dvd_mul_left 2 hdvd
  have hk : 2 ^ (k + 1) = 2 * 2 ^ k := by rw [Nat.pow_succ, Nat.mul_comm]
  -- one of the factors is odd, so the other is a multiple
  by_cases hodd : (b - a) % 2 = 1
  · have hco : Nat.Coprime (2 ^ (k + 1)) (b - a) :=
      Nat.Coprime.pow_left _ ((Nat.coprime_two_left).2 (Nat.odd_iff.2 hodd))
    have hle := Nat.le_of_dvd (by omega) (hco.dvd_of_dvd_mul_left hprod)
    omega
  · have hco : Nat.Coprime (2 ^ (k + 1)) (a + b + 1) :=
      Nat.Coprime.pow_left _ ((Nat.coprime_two_left).2 (Nat.odd_iff.2 (by omega)))
    have hd := hco.dvd_of_dvd_mul_right hprod
    by_contra hne
    have hle := Nat.le_of_dvd (by omega) hd
    omega

theorem tri_inj {k a b : Nat} (ha : a < 2 ^ k) (hb : b < 2 ^ k)
    (h : tri a % 2 ^ k = tri b % 2 ^ k) : a = b := by
  rcases Nat.le_total a b with hab | hab
  · exact tri_inj_of_le hab hb h
  · exact (tri_inj_of_le hab ha h.symm).symm

/-! ## Probes -/

def place (n start s : Nat) : Nat := (start + tri s) % n

variable {n k start s t : Nat}

theorem place_lt (hn : 0 < n) : place n start s < n := Nat.mod_lt _ hn

theorem place_succ : place n start (s + 1) = (place n start s + (s + 1)) % n := by
  rw [place, place, Nat.mod_add_mod, tri, Nat.add_assoc]

theorem place_inj (hs : s < 2 ^ k) (ht : t < 2 ^ k)
    (h : place (2 ^ k) start s = place (2 ^ k) start t) : s = t :=
  tri_inj hs ht (Nat.ModEq.add_left_cancel' start h)

/-- The probes meet every place. -/
theorem exists_place {i : Nat} (start : Nat) (hi : i < 2 ^ k) :
    ∃ s < 2 ^ k, place (2 ^ k) start s = i := by
  have hpos : 0 < 2 ^ k := Nat.two_pow_pos k
  let f : Fin (2 ^ k) → Fin (2 ^ k) := fun s => ⟨place (2 ^ k) start s, place_lt hpos⟩
  have hinj : Function.Injective f := fun s t hst =>
    Fin.ext (place_inj s.isLt t.isLt (Fin.mk.inj hst))
  obtain ⟨s, hs⟩ := Finite.surjective_of_injective hinj ⟨i, hi⟩
  exact ⟨s, s.isLt, Fin.mk.inj hs⟩

/-! ## Places with a property -/

def filled (n : Nat) (p : Nat → Bool) : Nat := (List.range n).countP p

variable {p q : Nat → Bool} {i : Nat}

theorem filled_succ (n : Nat) (p : Nat → Bool) :
    filled (n + 1) p = filled n p + if p n then 1 else 0 := by
  rw [filled, List.range_succ, List.countP_append, List.countP_singleton]
  rfl

theorem filled_congr (h : ∀ i < n, p i = q i) : filled n p = filled n q :=
  List.countP_congr fun i hi => by rw [h i (List.mem_range.1 hi)]

theorem filled_le (n : Nat) (p : Nat → Bool) : filled n p ≤ n := by
  have h := List.countP_le_length (p := p) (l := List.range n)
  rwa [List.length_range] at h

theorem filled_none (h : ∀ i < n, p i = false) : filled n p = 0 := by
  rw [filled, List.countP_eq_zero]
  intro i hi
  rw [h i (List.mem_range.1 hi)]
  decide

theorem filled_mono (h : ∀ i < n, p i = true → q i = true) : filled n p ≤ filled n q :=
  List.countP_mono_left fun i hi => h i (List.mem_range.1 hi)

/-- As many places have the property as numbers are given to them, at most. -/
theorem filled_le_of_inj {f : Nat → Nat} {b : Nat} (hlt : ∀ i < n, p i = true → f i < b)
    (hinj : ∀ i < n, ∀ j < n, p i = true → p j = true → f i = f j → i = j) : filled n p ≤ b := by
  have hnodup : (((List.range n).filter p).map f).Nodup := by
    refine List.Nodup.map_on (fun i hi j hj => ?_) (List.nodup_range.filter p)
    rw [List.mem_filter, List.mem_range] at hi hj
    exact hinj i hi.1 j hj.1 hi.2 hj.2
  have hsub : ((List.range n).filter p).map f ⊆ List.range b := by
    intro m hm
    obtain ⟨i, hi, rfl⟩ := List.mem_map.1 hm
    rw [List.mem_filter, List.mem_range] at hi
    exact List.mem_range.2 (hlt i hi.1 hi.2)
  have hlen := (hnodup.subperm hsub).length_le
  rw [List.length_map, List.length_range] at hlen
  rwa [filled, List.countP_eq_length_filter]

/-- Where not all places have the property, there is one that has not. -/
theorem exists_of_filled_lt (h : filled n p < n) : ∃ i < n, p i = false := by
  by_contra hall
  have hlen : filled n p = (List.range n).length := by
    rw [filled, List.countP_eq_length]
    intro i hi
    by_contra hp
    exact hall ⟨i, List.mem_range.1 hi, Bool.eq_false_iff.2 hp⟩
  rw [List.length_range] at hlen
  omega

/-- One more place has the property. -/
theorem filled_put (hi : i < n) (hp : p i = false) (hq : q i = true)
    (h : ∀ j, j ≠ i → q j = p j) : filled n q = filled n p + 1 := by
  induction n with
  | zero => omega
  | succ n ih =>
    rw [filled_succ, filled_succ]
    by_cases hin : i = n
    · subst hin
      rw [hp, hq, filled_congr fun j hj => h j (Nat.ne_of_lt hj)]
      rfl
    · rw [ih (by omega), h n (Ne.symm hin)]
      omega

end Lib
