import Mathlib.Order.Compare
import Mathlib.Tactic.Ring

/-!
# Binary search

`bsearch` of the C library, over the answers of the comparison with the elements `0`, …, `n - 1`.
Where these are keys in strictly ascending order it finds the element with the key, if there is one
(`bsearch_eq_some_iff`).
-/

namespace Lib

section
variable (compar : Nat → Ordering)

/-- The search between `l` and `u`; `fuel` bounds the rounds. -/
def bsearchFrom : Nat → Nat → Nat → Option Nat
  | 0, _, _ => none
  | fuel + 1, l, u =>
    if l < u then
      match compar ((l + u) / 2) with
      | .lt => bsearchFrom fuel l ((l + u) / 2)
      | .gt => bsearchFrom fuel ((l + u) / 2 + 1) u
      | .eq => some ((l + u) / 2)
    else none

def bsearch (n : Nat) : Option Nat := bsearchFrom compar n 0 n

/-- The elements that the search compares with. -/
def probesFrom : Nat → Nat → Nat → List Nat
  | 0, _, _ => []
  | fuel + 1, l, u =>
    if l < u then
      (l + u) / 2 :: match compar ((l + u) / 2) with
        | .lt => probesFrom fuel l ((l + u) / 2)
        | .gt => probesFrom fuel ((l + u) / 2 + 1) u
        | .eq => []
    else []

def probes (n : Nat) : List Nat := probesFrom compar n 0 n

end

variable {compar : Nat → Ordering} {n j : Nat}

theorem bsearchFrom_some {fuel : Nat} : ∀ {l u : Nat}, bsearchFrom compar fuel l u = some j →
    l ≤ j ∧ j < u ∧ compar j = .eq := by
  induction fuel with
  | zero => exact fun h => nomatch h
  | succ fuel ih =>
    intro l u h
    rw [bsearchFrom] at h
    by_cases hlu : l < u
    · rw [if_pos hlu] at h
      cases hc : compar ((l + u) / 2) with
      | lt =>
        rw [hc] at h
        obtain ⟨h1, h2, h3⟩ := ih h
        exact ⟨h1, by omega, h3⟩
      | gt =>
        rw [hc] at h
        obtain ⟨h1, h2, h3⟩ := ih h
        exact ⟨by omega, h2, h3⟩
      | eq =>
        rw [hc] at h
        obtain rfl := Option.some.inj h
        exact ⟨by omega, by omega, hc⟩
    · rw [if_neg hlu] at h
      cases h

theorem lt_of_mem_probesFrom {fuel : Nat} : ∀ {l u : Nat}, j ∈ probesFrom compar fuel l u →
    j < u := by
  induction fuel with
  | zero => exact fun h => nomatch h
  | succ fuel ih =>
    intro l u h
    rw [probesFrom] at h
    by_cases hlu : l < u
    · rw [if_pos hlu, List.mem_cons] at h
      rcases h with rfl | h
      · omega
      cases hc : compar ((l + u) / 2) with
      | lt =>
        rw [hc] at h
        have := ih h
        omega
      | gt =>
        rw [hc] at h
        exact ih h
      | eq =>
        rw [hc] at h
        cases h
    · rw [if_neg hlu] at h
      cases h

/-- The element is found if those before it are smaller, and those behind it larger. -/
theorem bsearchFrom_found (heq : compar j = .eq) {fuel : Nat} : ∀ {l u : Nat}, u - l ≤ fuel →
    l ≤ j → j < u → (∀ i, l ≤ i → i < j → compar i = .gt) → (∀ i, j < i → i < u → compar i = .lt) →
    bsearchFrom compar fuel l u = some j := by
  induction fuel with
  | zero =>
    intro l u hfuel hl hu
    omega
  | succ fuel ih =>
    intro l u hfuel hl hu hgt hlt
    have hm : l ≤ (l + u) / 2 ∧ (l + u) / 2 < u := by omega
    rw [bsearchFrom, if_pos (by omega)]
    rcases Nat.lt_trichotomy ((l + u) / 2) j with h | h | h
    · rw [hgt _ hm.1 h]
      exact ih (by omega) h hu (fun i hi => hgt i (by omega)) hlt
    · rw [h, heq]
    · rw [hlt _ h hm.2]
      exact ih (by omega) hl h hgt fun i hi hi' => hlt i hi (by omega)

section
variable {κ : Type} [Ord κ] [Std.TransOrd κ] [Std.LawfulEqOrd κ]

/-- Strictly ascending keys. -/
def Ascending (key : Nat → κ) (n : Nat) : Prop :=
  ∀ i j, i < j → j < n → compare (key i) (key j) = .lt

theorem bsearch_eq_some_iff {key : Nat → κ} (h : Ascending key n) (k : κ) :
    bsearch (fun i => compare k (key i)) n = some j ↔ j < n ∧ key j = k := by
  constructor
  · intro hs
    obtain ⟨-, hj, heq⟩ := bsearchFrom_some hs
    exact ⟨hj, (Std.LawfulEqOrd.eq_of_compare heq).symm⟩
  · rintro ⟨hj, rfl⟩
    have heq : (fun i => compare (key j) (key i)) j = .eq := Std.ReflOrd.compare_self
    refine bsearchFrom_found heq (Nat.le_refl _) (Nat.zero_le _) hj (fun i _ hi => ?_)
      fun i hi hn => h j i hi hn
    rw [Std.OrientedOrd.eq_swap, h i j hi hj]
    rfl

end

end Lib
