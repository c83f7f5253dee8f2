import Xallib.Lib.Run

/-!
# Functions that keep a count

A function can be run on a larger state, in which it keeps count of something beside the state it
works on. `Erases get y x`: the function `y` is `x`, but for what it does to the rest of its state;
`get` is the part that `x` works on.

`Within pot b r`: the call `r` comes back, in a state with potential at most `b`. A loop of `n`
rounds, each of which raises the potential by at most one, raises it by at most `n`
(`within_forUp`).
-/

namespace Lib

variable {ε σ τ α β : Type}

namespace Run

/-- The run, with `f` of its state. -/
def mapState (f : σ → τ) : Run ε σ α → Run ε τ α
  | .ok a s => .ok a (f s)
  | .fail e s => .fail e (f s)
  | .crash => .crash
  | .spin => .spin

/-- The call comes back with little potential (module doc). -/
def Within (pot : σ → Int) (b : Int) (r : Run ε σ α) : Prop := ∃ s, r.Ends s ∧ pot s ≤ b

end Run

namespace Cm

/-- The function `y` is `x` on a larger state (module doc). -/
def Erases (get : σ → τ) (y : Cm ε σ α) (x : Cm ε τ α) : Prop := ∀ s, (y s).mapState get = x (get s)

variable {get : σ → τ} {set : σ → τ → σ}

section
variable {y : Cm ε σ α} {x : Cm ε τ α}

theorem Erases.ok (h : Erases get y x) {s s' : σ} {a : α} (hr : y s = .ok a s') :
    x (get s) = .ok a (get s') := by
  rw [← h s, hr]
  rfl

theorem Erases.ends (h : Erases get y x) {s s' : σ} (hr : (y s).Ends s') :
    (x (get s)).Ends (get s') := by
  rw [← h s]
  rcases hr with ⟨a, hr⟩ | ⟨e, hr⟩
  · exact .inl ⟨a, by rw [hr]; rfl⟩
  · exact .inr ⟨e, by rw [hr]; rfl⟩

theorem Erases.bind {g : α → Cm ε σ β} {f : α → Cm ε τ β} (h : Erases get y x)
    (hf : ∀ a, Erases get (g a) (f a)) : Erases get (y >>= g) (x >>= f) := by
  intro s
  have hs := h s
  rw [bind_apply, bind_apply, ← hs]
  cases y s with
  | ok a s' => exact hf a s'
  | fail _ _ => rfl
  | crash => rfl
  | spin => rfl

theorem erases_zoom (hget : ∀ s t, get (set s t) = t) (x : Cm ε τ α) :
    Erases get (zoom get set x) x := by
  intro s
  unfold zoom
  cases x (get s) with
  | ok a t => exact congrArg (Run.ok a) (hget s t)
  | fail e t => exact congrArg (Run.fail e) (hget s t)
  | crash => rfl
  | spin => rfl

theorem erases_ite {c : Prop} [Decidable c] {y' : Cm ε σ α} {x' : Cm ε τ α} (h : Erases get y x)
    (h' : Erases get y' x') : Erases get (if c then y else y') (if c then x else x') := by
  by_cases hc : c
  · rw [if_pos hc, if_pos hc]
    exact h
  · rw [if_neg hc, if_neg hc]
    exact h'

/-- What is written to the rest of the state makes no difference. -/
theorem erases_modify_bind {u : σ → σ} (hu : ∀ s, get (u s) = get s) (h : Erases get y x) :
    Erases get (modify u >>= fun _ => y) x := by
  intro s
  rw [modify_bind, h (u s), hu s]

end

theorem erases_forUp {cond : σ → Nat → Bool} {cond' : τ → Nat → Bool} {body : Nat → Cm ε σ Unit}
    {body' : Nat → Cm ε τ Unit} (h : ∀ i, Erases get (body i) (body' i))
    (hcond : ∀ s i, cond s i = cond' (get s) i) (n : Nat) :
    ∀ i, Erases get (forUp cond body n i) (forUp cond' body' n i) := by
  induction n with
  | zero =>
    intro i s
    unfold forUp
    rw [hcond]
    cases cond' (get s) i with
    | true => rfl
    | false => rfl
  | succ n ih =>
    intro i s
    unfold forUp
    rw [hcond]
    cases cond' (get s) i with
    | true => exact (h i).bind (fun _ => ih (i + 1)) s
    | false => rfl

end Cm

/-! ## Potential -/

namespace Run

open Cm

variable {pot : σ → Int} {b c : Int}

theorem within_ok {a : α} {s : σ} (h : pot s ≤ b) : (.ok a s : Run ε σ α).Within pot b :=
  ⟨s, .inl ⟨a, rfl⟩, h⟩

theorem within_fail {e : ε} {s : σ} (h : pot s ≤ b) : (.fail e s : Run ε σ α).Within pot b :=
  ⟨s, .inr ⟨e, rfl⟩, h⟩

theorem Within.mono {r : Run ε σ α} (h : r.Within pot b) (hbc : b ≤ c) : r.Within pot c := by
  obtain ⟨s, hs, hb⟩ := h
  exact ⟨s, hs, Int.le_trans hb hbc⟩

theorem Within.bind {x : Cm ε σ α} {f : α → Cm ε σ β} {s : σ} (h : (x s).Within pot b) (hbc : b ≤ c)
    (hf : ∀ a s', x s = .ok a s' → pot s' ≤ b → (f a s').Within pot c) :
    ((x >>= f) s).Within pot c := by
  obtain ⟨s', ⟨a, hx⟩ | ⟨e, hx⟩, hb⟩ := h
  · rw [bind_of_ok hx]
    exact hf a s' hx hb
  · rw [bind_of_fail hx]
    exact within_fail (Int.le_trans hb hbc)

/-- The rule of a loop with `n` rounds; `I i` holds before round `i`. -/
theorem within_forUp {cond : σ → Nat → Bool} {body : Nat → Cm ε σ Unit}
    (I : Nat → σ → Prop) {n : Nat}
    (hcond : ∀ i s, I i s → cond s i = decide (i < n))
    (hbody : ∀ i s, I i s → i < n → (body i s).Within pot (pot s + 1) ∧
      ∀ u s', body i s = .ok u s' → I (i + 1) s') (m : Nat) :
    ∀ {i : Nat} {s : σ}, I i s → i ≤ n → n ≤ i + m →
      (forUp cond body m i s).Within pot (pot s + (n - i : Nat)) := by
  induction m with
  | zero =>
    intro i s hs hi hm
    rw [forUp_stop (by rw [hcond i s hs]; exact decide_eq_false (by omega))]
    exact within_ok (by omega)
  | succ m ih =>
    intro i s hs hi hm
    by_cases hlt : i < n
    · obtain ⟨hround, hnext⟩ := hbody i s hs hlt
      rw [forUp_step (by rw [hcond i s hs]; exact decide_eq_true hlt)]
      refine hround.bind (by omega) fun u s' hr hle => ?_
      exact (ih (hnext u s' hr) hlt (by omega)).mono (by omega)
    · rw [forUp_stop (by rw [hcond i s hs]; exact decide_eq_false hlt)]
      exact within_ok (by omega)

/-- A loop comes back if its rounds do. -/
theorem returns_forUp {body : Nat → Cm ε σ Unit} (hbody : ∀ i s, (body i s).Returns)
    (n : Nat) (s : σ) :
    (forUp (fun _ i => decide (i < n)) body n 0 s).Returns := by
  have hround : ∀ i s, (body i s).Within (fun _ => 0) (0 + 1) := fun i s =>
    have ⟨s', hs'⟩ := hbody i s
    ⟨s', hs', Int.zero_le_ofNat 1⟩
  obtain ⟨s', hs', -⟩ := within_forUp (fun _ _ => True) (fun _ _ _ => rfl)
    (fun i s _ _ => ⟨hround i s, fun _ _ _ => trivial⟩) n (i := 0) (s := s) trivial (Nat.zero_le n)
    (by omega)
  exact ⟨s', hs'⟩

end Run

end Lib
