import Mathlib.Logic.Basic

/-!
# Runs of a machine

`Reach init step s`: some run that begins in a state with `init` and takes steps with `step` ends in
`s`. `Reach.invariant` is the induction over runs: what holds initially and is kept by every step
holds in every state reached.

`visited step ops s` are the operations of a run from `s` on, each with the state it is taken in;
`visited_iff`: where, in a state with the invariant, an operation is safe exactly if it is allowed,
a run is safe throughout exactly if all its operations are allowed.
-/

namespace Lib

inductive Reach {σ : Type} (init : σ → Prop) (step : σ → σ → Prop) : σ → Prop
  | init {s : σ} : init s → Reach init step s
  | step {s s' : σ} : Reach init step s → step s s' → Reach init step s'

variable {σ : Type} {init : σ → Prop} {step step' : σ → σ → Prop}

theorem Reach.invariant {I : σ → Prop} (h0 : ∀ s, init s → I s)
    (hs : ∀ s s', I s → step s s' → I s') {s : σ} (h : Reach init step s) : I s := by
  induction h with
  | init h => exact h0 _ h
  | step _ h ih => exact hs _ _ ih h

/-- More steps reach more states. -/
theorem Reach.mono (hs : ∀ s s', step s s' → step' s s') {s : σ} (h : Reach init step s) :
    Reach init step' s := by
  induction h with
  | init h => exact .init h
  | step _ h ih => exact .step ih (hs _ _ h)

/-- The operations of the run, each with the state it meets. -/
def visited {op : Type} (step : op → σ → σ) : List op → σ → List (op × σ)
  | [], _ => []
  | o :: ops, s => (o, s) :: visited step ops (step o s)

/-- A run whose operations are all allowed is safe throughout. -/
theorem visited_safe {op : Type} {step : op → σ → σ} {I : σ → Prop} {safe allowed : op → σ → Prop}
    (hsafe : ∀ o s, I s → allowed o s → safe o s) (hI : ∀ o s, I s → allowed o s → I (step o s))
    (ops : List op) : ∀ s, I s → (∀ x ∈ visited step ops s, allowed x.1 x.2) →
      ∀ x ∈ visited step ops s, safe x.1 x.2 := by
  induction ops with
  | nil => simp [visited]
  | cons o ops ih =>
    intro s hs
    simp only [visited, List.forall_mem_cons]
    rintro ⟨ho, h⟩
    exact ⟨hsafe o s hs ho, ih _ (hI o s hs ho) h⟩

theorem visited_iff {op : Type} {step : op → σ → σ} {I : σ → Prop} {safe allowed : op → σ → Prop}
    (hiff : ∀ o s, I s → (safe o s ↔ allowed o s)) (hI : ∀ o s, I s → allowed o s → I (step o s))
    (ops : List op) : ∀ s, I s → ((∀ x ∈ visited step ops s, safe x.1 x.2) ↔
      ∀ x ∈ visited step ops s, allowed x.1 x.2) := by
  induction ops with
  | nil => simp [visited]
  | cons o ops ih =>
    intro s hs
    simp only [visited, List.forall_mem_cons]
    rw [hiff o s hs]
    exact and_congr_right fun ho => ih _ (hI o s hs ho)

/-- A run whose operations are all allowed. -/
theorem reach_of_visited {op : Type} {step : op → σ → σ} {allowed : op → σ → Prop} {s : σ}
    (ops : List op) (h : Reach init (fun s s' => ∃ o, allowed o s ∧ s' = step o s) s)
    (hall : ∀ x ∈ visited step ops s, allowed x.1 x.2) :
    Reach init (fun s s' => ∃ o, allowed o s ∧ s' = step o s)
      (ops.foldl (fun s o => step o s) s) := by
  induction ops generalizing s with
  | nil => exact h
  | cons o ops ih =>
    simp only [visited, List.forall_mem_cons] at hall
    exact ih (.step h ⟨o, hall.1, rfl⟩) hall.2

end Lib
