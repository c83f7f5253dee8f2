import Mathlib.Data.Nat.ModEq
import Xallib.Lib.Machine

/-!
# Readers of a counter

Writers count up modulo `m` when they begin to write and when they have written, so that the counter
is odd while they do. A reader loads it before it reads and after. `CountsUp`: what a step of the
writers does; `CountsUp.unchanged`: a reader that finds the same even value twice, with fewer than
`m` steps of the writers in between, has read one state of the data.
-/

namespace Lib

variable {σ op δ : Type} {step : op → σ → σ} {I : σ → Prop} {allowed : op → σ → Prop}
  {counter : σ → Nat} {data : σ → δ} {m : Nat}

/-- The steps of the writers (module doc). -/
structure CountsUp (step : op → σ → σ) (I : σ → Prop) (allowed : op → σ → Prop) (counter : σ → Nat)
    (data : σ → δ) (m : Nat) : Prop where
  inv : ∀ o s, I s → allowed o s → I (step o s)
  counts : ∀ o s, I s → allowed o s → counter (step o s) = counter s ∨
    counter (step o s) ≡ counter s + 1 [MOD m]
  writes : ∀ o s, I s → allowed o s → counter s % 2 = 0 → data (step o s) = data s

theorem visited_append (a b : List op) : ∀ s, visited step (a ++ b) s =
    visited step a s ++ visited step b (a.foldl (fun s o => step o s) s) := by
  induction a with
  | nil => exact fun _ => rfl
  | cons o a ih =>
    intro s
    rw [List.cons_append, visited, ih]
    rfl

/-- How far a run counts. -/
theorem CountsUp.exists_count (h : CountsUp step I allowed counter data m) (ops : List op) :
    ∀ s, I s → (∀ x ∈ visited step ops s, allowed x.1 x.2) →
      ∃ d ≤ ops.length, counter (ops.foldl (fun s o => step o s) s) ≡ counter s + d [MOD m] ∧
        (d = 0 → counter s % 2 = 0 → (∀ x ∈ visited step ops s, data x.2 = data s) ∧
          data (ops.foldl (fun s o => step o s) s) = data s) := by
  induction ops with
  | nil =>
    intro s _ _
    exact ⟨0, Nat.le_refl _, rfl, fun _ _ => ⟨fun _ hx => absurd hx List.not_mem_nil, rfl⟩⟩
  | cons o ops ih =>
    intro s hs hall
    simp only [visited, List.forall_mem_cons] at hall
    obtain ⟨d, hd, hcount, hsame⟩ := ih _ (h.inv o s hs hall.1) hall.2
    rcases h.counts o s hs hall.1 with hstep | hstep
    · rw [hstep] at hcount hsame
      refine ⟨d, Nat.le_succ_of_le hd, hcount, fun h0 heven => ?_⟩
      have hwrite := h.writes o s hs hall.1 heven
      rw [hwrite] at hsame
      obtain ⟨hdata, hlast⟩ := hsame h0 heven
      refine ⟨?_, hlast⟩
      simp only [visited, List.forall_mem_cons]
      exact ⟨trivial, hdata⟩
    · refine ⟨d + 1, Nat.succ_le_succ hd, ?_, fun h0 => absurd h0 (Nat.succ_ne_zero d)⟩
      have hnext := hstep.add_right d
      rw [Nat.add_assoc, Nat.add_comm 1 d] at hnext
      exact hcount.trans hnext

/-- A reader that has found the same even value twice (module doc). -/
theorem CountsUp.unchanged (h : CountsUp step I allowed counter data m) {s : σ} {ops : List op}
    (hs : I s) (hall : ∀ x ∈ visited step ops s, allowed x.1 x.2) (hlen : ops.length < m)
    (heven : counter s % 2 = 0)
    (hsame : counter (ops.foldl (fun s o => step o s) s) = counter s) :
    (∀ x ∈ visited step ops s, data x.2 = data s) ∧
      data (ops.foldl (fun s o => step o s) s) = data s := by
  obtain ⟨d, hd, hcount, hdata⟩ := h.exists_count ops s hs hall
  rw [hsame] at hcount
  have hzero : 0 ≡ d [MOD m] := Nat.ModEq.add_left_cancel' (counter s) hcount
  refine hdata ?_ heven
  exact (Nat.ModEq.eq_of_lt_of_lt hzero (by omega) (by omega)).symm

/-- A run keeps the invariant. -/
theorem CountsUp.run (h : CountsUp step I allowed counter data m) (ops : List op) :
    ∀ s, I s → (∀ x ∈ visited step ops s, allowed x.1 x.2) →
      I (ops.foldl (fun s o => step o s) s) := by
  induction ops with
  | nil => exact fun _ hs _ => hs
  | cons o ops ih =>
    intro s hs hall
    simp only [visited, List.forall_mem_cons] at hall
    exact ih _ (h.inv o s hs hall.1) hall.2

end Lib
