import Xallib.Lib.Run

/-!
# Functions that keep a property of the state

`Keeps P x`: from a state with `P`, the function `x` comes back in a state with `P`, with a result
or with a status.
-/

namespace Lib

namespace Cm

variable {ε σ τ α β : Type} {P : σ → Prop}

def Keeps (P : σ → Prop) (x : Cm ε σ α) : Prop := ∀ s, P s → (x s).Sat (fun _ => P) fun _ => P

theorem Keeps.ends {x : Cm ε σ α} (h : Keeps P x) {s s' : σ} (hs : P s) (hr : (x s).Ends s') :
    P s' := (h s hs).ends hr

theorem keeps_ret (a : α) : Keeps P (pure a : Cm ε σ α) := fun _ hs => hs

theorem keeps_fail (e : ε) : Keeps P (fail e : Cm ε σ α) := fun _ hs => hs

theorem keeps_spin : Keeps P (fun _ => .spin : Cm ε σ α) := fun _ _ => trivial

theorem keeps_read : Keeps P (read : Cm ε σ σ) := fun _ hs => hs

theorem keeps_modify {f : σ → σ} (hf : ∀ s, P s → P (f s)) : Keeps P (modify f : Cm ε σ Unit) :=
  fun s hs => hf s hs

theorem keeps_failIf (c : Prop) [Decidable c] (e : ε) : Keeps P (failIf c e : Cm ε σ Unit) :=
  fun _ hs => Run.sat_failIf (fun _ => hs) fun _ => hs

theorem keeps_assert (c : Prop) [Decidable c] : Keeps P (assert c : Cm ε σ Unit) := by
  intro s hs
  unfold assert
  split
  · exact hs
  · trivial

theorem Keeps.bind {x : Cm ε σ α} {f : α → Cm ε σ β} (hx : Keeps P x) (hf : ∀ a, Keeps P (f a)) :
    Keeps P (x >>= f) := fun s hs => (hx s hs).bind fun a s' hs' => hf a s' hs'

theorem Keeps.ite {c : Prop} [Decidable c] {x y : Cm ε σ α} (hx : Keeps P x) (hy : Keeps P y) :
    Keeps P (if c then x else y) := by
  split
  · exact hx
  · exact hy

theorem Keeps.ignore {x : Cm ε σ Unit} (hx : Keeps P x) : Keeps P (ignore x) :=
  fun s hs => Run.sat_ignore (hx s hs)

theorem Keeps.onExit {x : Cm ε σ α} {f : σ → σ} (hx : Keeps P x) (hf : ∀ s, P s → P (f s)) :
    Keeps P (onExit f x) :=
  fun s hs => Run.sat_onExit ((hx s hs).mono (fun _ s' h => hf s' h) fun _ s' h => hf s' h)

/-- A function on a part of the state keeps what holds of that part, and the rest. -/
theorem Keeps.zoom {get : σ → τ} {set : σ → τ → σ} {x : Cm ε τ α} {R : τ → Prop} (hx : Keeps R x)
    (hget : ∀ s, P s → R (get s)) (hset : ∀ s t, P s → R t → P (set s t)) :
    Keeps P (zoom get set x) :=
  fun s hs => Run.sat_zoom ((hx _ (hget s hs)).mono (fun _ t ht => hset s t hs ht)
    fun _ t ht => hset s t hs ht)

end Cm

end Lib
