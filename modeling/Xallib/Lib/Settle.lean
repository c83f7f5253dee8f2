import Xallib.Lib.Run

/-!
# When a call succeeds

`Run.Settles r H Q F`: the call comes back, with a result, in `Q`, if `H` holds, and with a status,
in `F`, if it does not. A sequence succeeds where both its parts do (`Settles.bind`).
-/

namespace Lib

namespace Run

variable {ε σ τ α β : Type} {H H' : Prop} {Q Q' : α → σ → Prop} {F F' : ε → σ → Prop}

def Settles (r : Run ε σ α) (H : Prop) (Q : α → σ → Prop) (F : ε → σ → Prop) : Prop :=
  match r with
  | .ok a s => H ∧ Q a s
  | .fail e s => ¬H ∧ F e s
  | .crash => False
  | .spin => False

theorem Settles.mono {r : Run ε σ α} (h : r.Settles H Q F) (hH : H ↔ H')
    (hq : H → ∀ a s, Q a s → Q' a s) (hf : ∀ e s, F e s → F' e s) : r.Settles H' Q' F' := by
  cases r with
  | ok a s => exact ⟨hH.1 h.1, hq h.1 _ _ h.2⟩
  | fail e s => exact ⟨fun h0 => h.1 (hH.2 h0), hf _ _ h.2⟩
  | crash => exact h
  | spin => exact h

/-- The condition may be put differently. -/
theorem Settles.congr {r : Run ε σ α} (h : r.Settles H Q F) (hH : H ↔ H') : r.Settles H' Q F :=
  h.mono hH (fun _ _ _ h => h) fun _ _ h => h

/-- What is known of the state a call leaves may be used. -/
theorem Settles.and_sat {r : Run ε σ α} (h : r.Settles H Q F) (h' : r.Sat Q' F') :
    r.Settles H (fun a s => Q a s ∧ Q' a s) F := by
  cases r with
  | ok a s => exact ⟨h.1, h.2, h'⟩
  | fail e s => exact h
  | crash => exact h
  | spin => exact h

theorem settles_ok {a : α} {s : σ} (hH : H) (hq : Q a s) : (.ok a s : Run ε σ α).Settles H Q F :=
  ⟨hH, hq⟩

theorem Settles.ok_iff {r : Run ε σ α} (h : r.Settles H Q F) : (∃ a s, r = .ok a s) ↔ H := by
  cases r with
  | ok a s => exact iff_of_true ⟨a, s, rfl⟩ h.1
  | fail e s => exact iff_of_false (by rintro ⟨_, _, h0⟩; cases h0) h.1
  | crash => exact h.elim
  | spin => exact h.elim

/-- A call that does not succeed has a status. -/
theorem Settles.fails {r : Run ε σ α} (h : r.Settles H Q F) (hH : ¬H) :
    ∃ e s, r = .fail e s ∧ F e s := by
  cases r with
  | ok a s => exact absurd h.1 hH
  | fail e s => exact ⟨e, s, rfl, h.2⟩
  | crash => exact h.elim
  | spin => exact h.elim

theorem Settles.bind {x : Cm ε σ α} {f : α → Cm ε σ β} {s : σ} {R : β → σ → Prop}
    (h : (x s).Settles H Q F) (hf : ∀ a s', Q a s' → (f a s').Settles H' R F) :
    ((x >>= f) s).Settles (H ∧ H') R F := by
  rw [Cm.bind_apply]
  cases hx : x s with
  | ok a s' =>
    rw [hx] at h
    exact (hf a s' h.2).congr (and_iff_right h.1).symm
  | fail e s' =>
    rw [hx] at h
    exact ⟨fun h0 => h.1 h0.1, h.2⟩
  | crash =>
    rw [hx] at h
    exact h.elim
  | spin =>
    rw [hx] at h
    exact h.elim

/-- What follows always succeeds. -/
theorem Settles.bind_ok {x : Cm ε σ α} {f : α → Cm ε σ β} {s : σ} {R : β → σ → Prop}
    (h : (x s).Settles H Q F) (hf : ∀ a s', Q a s' → (f a s').Settles True R F) :
    ((x >>= f) s).Settles H R F := (h.bind hf).congr (and_iff_left trivial)

theorem settles_failIf_bind {c : Prop} [Decidable c] {e : ε} {s : σ} {f : Unit → Cm ε σ β}
    {R : β → σ → Prop} (ht : c → F e s) (hn : ¬c → (f () s).Settles H R F) :
    ((Cm.failIf c e >>= f) s).Settles (¬c ∧ H) R F := by
  by_cases h : c
  · rw [Cm.bind_of_fail (Cm.failIf_true h e s)]
    exact ⟨fun h0 => h0.1 h, ht h⟩
  · rw [Cm.bind_of_ok (Cm.failIf_false h e s)]
    exact (hn h).congr (and_iff_right h).symm

theorem settles_zoom {get : σ → τ} {set : σ → τ → σ} {x : Cm ε τ α} {s : σ}
    (h : (x (get s)).Settles H (fun a t => Q a (set s t)) (fun e t => F e (set s t))) :
    (Cm.zoom get set x s).Settles H Q F := by
  unfold Cm.zoom
  cases hx : x (get s) with
  | ok a t =>
    rw [hx] at h
    exact h
  | fail e t =>
    rw [hx] at h
    exact h
  | crash =>
    rw [hx] at h
    exact h.elim
  | spin =>
    rw [hx] at h
    exact h.elim

theorem settles_onExit {f : σ → σ} {x : Cm ε σ α} {s : σ}
    (h : (x s).Settles H (fun a s' => Q a (f s')) (fun e s' => F e (f s'))) :
    (Cm.onExit f x s).Settles H Q F := by
  unfold Cm.onExit
  cases hx : x s with
  | ok a s' =>
    rw [hx] at h
    exact h
  | fail e s' =>
    rw [hx] at h
    exact h
  | crash =>
    rw [hx] at h
    exact h.elim
  | spin =>
    rw [hx] at h
    exact h.elim

end Run

end Lib
