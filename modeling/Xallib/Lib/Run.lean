import Mathlib.Tactic.Ring

/-!
# Runs of functions with a status

A function of the kind verified here works on a state it shares with its caller, and returns
either a result or a negative status; in both cases the state it leaves behind stays. `Run ε σ α`
is the end of such a call: `ok` (a result), `fail` (a status `e`), `crash` (the process stopped:
a failed assertion, a write outside an object) or `spin` (the loop bound given to the call was
used up). `Cm ε σ` is the monad of such functions.

* `Run.Sat r Q F`: if the run `r` came back, it did so in `Q` (with a result) or in `F` (with a
  status). The rules `Sat.bind`, `Sat.mono`, `sat_forUp` are what proofs about loops and
  recursions use.
* `bind_ok`, `bind_fail`: a sequence that came back, taken apart.
* `forUp cond body n i`: the loop `for (; cond(i); ++i) body(i)`, with the bound `n` on its rounds.
-/

namespace Lib

/-- The end of a call (module doc). -/
inductive Run (ε σ α : Type) where
  | ok (a : α) (s : σ)
  | fail (e : ε) (s : σ)
  | crash
  | spin

/-- A function on a state `σ` with results `α` and statuses `ε`. -/
def Cm (ε σ α : Type) : Type := σ → Run ε σ α

namespace Cm

variable {ε σ τ α β : Type}

protected def pure (a : α) : Cm ε σ α := fun s => .ok a s

protected def bind (x : Cm ε σ α) (f : α → Cm ε σ β) : Cm ε σ β := fun s =>
  match x s with
  | .ok a s' => f a s'
  | .fail e s' => .fail e s'
  | .crash => .crash
  | .spin => .spin

instance : Monad (Cm ε σ) where
  pure := Cm.pure
  bind := Cm.bind

/-- The current state. -/
def read : Cm ε σ σ := fun s => .ok s s

/-- Write to the state. -/
def modify (f : σ → σ) : Cm ε σ Unit := fun s => .ok () (f s)

/-- Return the status `e`. -/
def fail (e : ε) : Cm ε σ α := fun s => .fail e s

/-- Return the status `e` if `c` holds. -/
def failIf (c : Prop) [Decidable c] (e : ε) : Cm ε σ Unit := if c then fail e else pure ()

/-- The process stops. -/
def crash : Cm ε σ α := fun _ => .crash

/-- The process stops unless `c` holds. -/
def assert (c : Prop) [Decidable c] : Cm ε σ Unit := if c then pure () else crash

/-- Run a function on the part of the state that `get` reads and `set` writes. -/
def zoom (get : σ → τ) (set : σ → τ → σ) (x : Cm ε τ α) : Cm ε σ α := fun s =>
  match x (get s) with
  | .ok a t => .ok a (set s t)
  | .fail e t => .fail e (set s t)
  | .crash => .crash
  | .spin => .spin

/-- Call a function without looking at its status. -/
def ignore (x : Cm ε σ Unit) : Cm ε σ Unit := fun s =>
  match x s with
  | .fail _ s' => .ok () s'
  | r => r

/-- Call a function, and change the state when it returns, with a result or a status. -/
def onExit (f : σ → σ) (x : Cm ε σ α) : Cm ε σ α := fun s =>
  match x s with
  | .ok a s' => .ok a (f s')
  | .fail e s' => .fail e (f s')
  | .crash => .crash
  | .spin => .spin

/-- `for (; cond(i); ++i) body(i)` with at most `n` rounds. -/
def forUp (cond : σ → Nat → Bool) (body : Nat → Cm ε σ Unit) : Nat → Nat → Cm ε σ Unit
  | 0, i => fun s => if cond s i then .spin else .ok () s
  | n + 1, i => fun s => if cond s i then (body i >>= fun _ => forUp cond body n (i + 1)) s
      else .ok () s

/-! ## Reading off the end of a call -/

@[simp] theorem ret_apply (a : α) (s : σ) : (pure a : Cm ε σ α) s = .ok a s := rfl
@[simp] theorem read_apply (s : σ) : (read : Cm ε σ σ) s = .ok s s := rfl
@[simp] theorem modify_apply (f : σ → σ) (s : σ) : (modify f : Cm ε σ Unit) s = .ok () (f s) := rfl
@[simp] theorem fail_apply (e : ε) (s : σ) : (fail e : Cm ε σ α) s = .fail e s := rfl
@[simp] theorem crash_apply (s : σ) : (crash : Cm ε σ α) s = .crash := rfl

theorem bind_apply (x : Cm ε σ α) (f : α → Cm ε σ β) (s : σ) :
    (x >>= f) s = match x s with
      | .ok a s' => f a s'
      | .fail e s' => .fail e s'
      | .crash => .crash
      | .spin => .spin := rfl

@[simp] theorem ret_bind (a : α) (f : α → Cm ε σ β) (s : σ) : (pure a >>= f) s = f a s := rfl
@[simp] theorem read_bind (f : σ → Cm ε σ β) (s : σ) : (read >>= f) s = f s s := rfl
@[simp] theorem modify_bind (g : σ → σ) (f : Unit → Cm ε σ β) (s : σ) :
    (modify g >>= f) s = f () (g s) := rfl

theorem bind_assoc_apply {γ : Type} (x : Cm ε σ α) (f : α → Cm ε σ β) (g : β → Cm ε σ γ) (s : σ) :
    ((x >>= f) >>= g) s = (x >>= fun a => f a >>= g) s := by
  rw [bind_apply, bind_apply, bind_apply]
  cases x s <;> rfl

theorem bind_ret_apply (x : Cm ε σ Unit) (s : σ) : (x >>= fun _ => pure ()) s = x s := by
  rw [bind_apply]
  cases x s <;> rfl

theorem bind_congr_apply {x : Cm ε σ α} {f g : α → Cm ε σ β} (s : σ)
    (h : ∀ a s', f a s' = g a s') : (x >>= f) s = (x >>= g) s := by
  rw [bind_apply, bind_apply]
  cases x s with
  | ok a s' => exact h a s'
  | fail _ _ => rfl
  | crash => rfl
  | spin => rfl

/-- Two calls that do the same, and go on in the same way from where they came back. -/
theorem bind_congr_ok {x y : Cm ε σ α} {f g : α → Cm ε σ β} {s : σ} (h : x s = y s)
    (hfg : ∀ a s', x s = .ok a s' → f a s' = g a s') : (x >>= f) s = (y >>= g) s := by
  rw [bind_apply, bind_apply, ← h]
  cases hx : x s with
  | ok a s' => exact hfg a s' hx
  | fail _ _ => rfl
  | crash => rfl
  | spin => rfl

theorem bind_congr_left {x y : Cm ε σ α} {f : α → Cm ε σ β} {s : σ} (h : x s = y s) :
    (x >>= f) s = (y >>= f) s := by rw [bind_apply, bind_apply, h]

theorem bind_of_ok {x : Cm ε σ α} {f : α → Cm ε σ β} {s s' : σ} {a : α} (h : x s = .ok a s') :
    (x >>= f) s = f a s' := by rw [bind_apply, h]

theorem bind_ne_spin {x : Cm ε σ α} {f : α → Cm ε σ β} {s : σ} (hx : x s ≠ .spin)
    (hf : ∀ a s', x s = .ok a s' → f a s' ≠ .spin) : (x >>= f) s ≠ .spin := by
  rw [bind_apply]
  cases h : x s with
  | ok a s' => exact hf a s' h
  | fail _ _ => exact fun h => nomatch h
  | crash => exact fun h => nomatch h
  | spin => exact absurd h hx

theorem bind_of_fail {x : Cm ε σ α} {f : α → Cm ε σ β} {s s' : σ} {e : ε}
    (h : x s = .fail e s') : (x >>= f) s = .fail e s' := by rw [bind_apply, h]

theorem bind_of_crash {x : Cm ε σ α} {f : α → Cm ε σ β} {s : σ} (h : x s = .crash) :
    (x >>= f) s = .crash := by rw [bind_apply, h]

@[simp] theorem failIf_true {c : Prop} [Decidable c] (h : c) (e : ε) (s : σ) :
    (failIf c e : Cm ε σ Unit) s = .fail e s := by simp [failIf, h]

@[simp] theorem failIf_false {c : Prop} [Decidable c] (h : ¬c) (e : ε) (s : σ) :
    (failIf c e : Cm ε σ Unit) s = .ok () s := by simp [failIf, h]

theorem assert_true {c : Prop} [Decidable c] (h : c) (s : σ) :
    (assert c : Cm ε σ Unit) s = .ok () s := by simp [assert, h]

theorem assert_ne_spin (c : Prop) [Decidable c] (s : σ) :
    (assert c : Cm ε σ Unit) s ≠ .spin := by
  by_cases h : c
  · rw [assert_true h]
    exact fun h => nomatch h
  · rw [assert, if_neg h, crash_apply]
    exact fun h => nomatch h

theorem assert_false {c : Prop} [Decidable c] (h : ¬c) (s : σ) :
    (assert c : Cm ε σ Unit) s = .crash := by rw [assert, if_neg h, crash_apply]

theorem bind_ok {x : Cm ε σ α} {f : α → Cm ε σ β} {s s'' : σ} {b : β} :
    (x >>= f) s = .ok b s'' ↔ ∃ a s', x s = .ok a s' ∧ f a s' = .ok b s'' := by
  rw [bind_apply]
  cases hx : x s <;> simp

theorem bind_fail {x : Cm ε σ α} {f : α → Cm ε σ β} {s s'' : σ} {e : ε} :
    (x >>= f) s = .fail e s'' ↔
      x s = .fail e s'' ∨ ∃ a s', x s = .ok a s' ∧ f a s' = .fail e s'' := by
  rw [bind_apply]
  cases hx : x s <;> simp

section
variable {cond : σ → Nat → Bool} {body : Nat → Cm ε σ Unit}

theorem forUp_stop {s : σ} {i : Nat} (h : cond s i = false) (n : Nat) :
    forUp cond body n i s = .ok () s := by
  cases n with
  | zero => simp [forUp, h]
  | succ n => simp [forUp, h]

theorem forUp_step {s : σ} {i : Nat} (h : cond s i = true) (n : Nat) :
    forUp cond body (n + 1) i s = (body i >>= fun _ => forUp cond body n (i + 1)) s := by
  rw [forUp]
  simp only [h, ↓reduceIte]

/-- A loop that came back with a result has stopped, or it goes on after a round. -/
theorem forUp_ok {m i : Nat} {s s' : σ} {u : Unit} (h : forUp cond body m i s = .ok u s') :
    (cond s i = false ∧ s' = s) ∨ cond s i = true ∧ ∃ n v s₁, body i s = .ok v s₁ ∧
      forUp cond body n (i + 1) s₁ = .ok u s' := by
  cases hc : cond s i with
  | false =>
    rw [forUp_stop hc] at h
    exact .inl ⟨rfl, (Run.ok.inj h).2.symm⟩
  | true =>
    cases m with
    | zero =>
      unfold forUp at h
      simp only [hc, ↓reduceIte] at h
      cases h
    | succ n =>
      rw [forUp_step hc] at h
      obtain ⟨v, s₁, hb, hr⟩ := bind_ok.1 h
      exact .inr ⟨rfl, n, v, s₁, hb, hr⟩

end

theorem failIf_ok {c : Prop} [Decidable c] {e : ε} {s s' : σ} {u : Unit} :
    (failIf c e : Cm ε σ Unit) s = .ok u s' ↔ ¬c ∧ s' = s := by
  by_cases h : c <;> simp [failIf, h, eq_comm]

theorem assert_ok {c : Prop} [Decidable c] {s s' : σ} {u : Unit} :
    (assert c : Cm ε σ Unit) s = .ok u s' ↔ c ∧ s' = s := by
  by_cases h : c <;> simp [assert, h, eq_comm]

theorem failIf_bind_ok {c : Prop} [Decidable c] {e : ε} {f : Unit → Cm ε σ β} {s s' : σ} {b : β} :
    (failIf c e >>= f) s = .ok b s' ↔ ¬c ∧ f () s = .ok b s' := by
  rw [bind_ok]
  constructor
  · rintro ⟨_, _, hx, h⟩
    obtain ⟨hc, rfl⟩ := failIf_ok.1 hx
    exact ⟨hc, h⟩
  · rintro ⟨hc, h⟩
    exact ⟨(), s, failIf_ok.2 ⟨hc, rfl⟩, h⟩

theorem assert_bind_ok {c : Prop} [Decidable c] {f : Unit → Cm ε σ β} {s s' : σ} {b : β} :
    (assert c >>= f) s = .ok b s' ↔ c ∧ f () s = .ok b s' := by
  rw [bind_ok]
  constructor
  · rintro ⟨_, _, hx, h⟩
    obtain ⟨hc, rfl⟩ := assert_ok.1 hx
    exact ⟨hc, h⟩
  · rintro ⟨hc, h⟩
    exact ⟨(), s, assert_ok.2 ⟨hc, rfl⟩, h⟩

theorem zoom_of_ok {get : σ → τ} {set : σ → τ → σ} {x : Cm ε τ α} {s : σ} {t : τ} {a : α}
    (h : x (get s) = .ok a t) : zoom get set x s = .ok a (set s t) := by rw [zoom, h]

theorem zoom_of_fail {get : σ → τ} {set : σ → τ → σ} {x : Cm ε τ α} {s : σ} {t : τ} {e : ε}
    (h : x (get s) = .fail e t) : zoom get set x s = .fail e (set s t) := by rw [zoom, h]

theorem zoom_of_crash {get : σ → τ} {set : σ → τ → σ} {x : Cm ε τ α} {s : σ}
    (h : x (get s) = .crash) : zoom get set x s = .crash := by rw [zoom, h]

theorem zoom_congr {get : σ → τ} {set : σ → τ → σ} {x y : Cm ε τ α} {s : σ}
    (h : x (get s) = y (get s)) : zoom get set x s = zoom get set y s := by rw [zoom, zoom, h]

theorem onExit_congr {f : σ → σ} {x y : Cm ε σ α} {s : σ} (h : x s = y s) :
    onExit f x s = onExit f y s := by rw [onExit, onExit, h]

theorem onExit_of_ok {f : σ → σ} {x : Cm ε σ α} {s s' : σ} {a : α} (h : x s = .ok a s') :
    onExit f x s = .ok a (f s') := by rw [onExit, h]

theorem onExit_ok {f : σ → σ} {x : Cm ε σ α} {s s' : σ} {a : α} :
    onExit f x s = .ok a s' ↔ ∃ t, x s = .ok a t ∧ s' = f t := by
  unfold onExit
  cases hx : x s <;> simp [eq_comm, and_comm]

theorem onExit_fail {f : σ → σ} {x : Cm ε σ α} {s s' : σ} {e : ε} :
    onExit f x s = .fail e s' ↔ ∃ t, x s = .fail e t ∧ s' = f t := by
  unfold onExit
  cases hx : x s <;> simp [eq_comm, and_comm]

theorem zoom_ok {get : σ → τ} {set : σ → τ → σ} {x : Cm ε τ α} {s s' : σ} {a : α} :
    zoom get set x s = .ok a s' ↔ ∃ t, x (get s) = .ok a t ∧ s' = set s t := by
  unfold zoom
  cases hx : x (get s) <;> simp [eq_comm, and_comm]

end Cm

/-! ## What holds when a call comes back -/

namespace Run

variable {ε σ τ α β : Type}

/-- If the call came back, then in `Q` with a result or in `F` with a status. -/
def Sat (r : Run ε σ α) (Q : α → σ → Prop) (F : ε → σ → Prop) : Prop :=
  match r with
  | .ok a s => Q a s
  | .fail e s => F e s
  | .crash => True
  | .spin => True

variable {Q Q' : α → σ → Prop} {F F' : ε → σ → Prop}

theorem Sat.mono {r : Run ε σ α} (h : r.Sat Q F) (hq : ∀ a s, Q a s → Q' a s)
    (hf : ∀ e s, F e s → F' e s) : r.Sat Q' F' := by
  cases r with
  | ok a s => exact hq _ _ h
  | fail e s => exact hf _ _ h
  | crash => trivial
  | spin => trivial

theorem sat_of_forall {r : Run ε σ α} (hq : ∀ a s, Q a s) (hf : ∀ e s, F e s) : r.Sat Q F := by
  cases r with
  | ok a s => exact hq _ _
  | fail e s => exact hf _ _
  | crash => trivial
  | spin => trivial

theorem sat_of_ok {r : Run ε σ α} (h : ∀ a s, r = .ok a s → Q a s) :
    r.Sat Q fun _ _ => True := by
  cases r with
  | ok a s => exact h a s rfl
  | fail e s => trivial
  | crash => trivial
  | spin => trivial

theorem Sat.ok {r : Run ε σ α} (h : r.Sat Q F) {a : α} {s : σ} (hr : r = .ok a s) : Q a s := by
  subst hr; exact h

theorem Sat.fail {r : Run ε σ α} (h : r.Sat Q F) {e : ε} {s : σ} (hr : r = .fail e s) : F e s := by
  subst hr; exact h

/-- The result may be named. -/
theorem Sat.with_eq {r : Run ε σ α} (h : r.Sat Q F) : r.Sat (fun a s => r = .ok a s ∧ Q a s) F := by
  cases r with
  | ok a s => exact ⟨rfl, h⟩
  | fail e s => exact h
  | crash => trivial
  | spin => trivial

/-- The call came back in the state `s`, with a result or a status. -/
def Ends (r : Run ε σ α) (s : σ) : Prop := (∃ a, r = .ok a s) ∨ ∃ e, r = .fail e s

theorem Sat.ends {r : Run ε σ α} {P : σ → Prop} (h : r.Sat (fun _ => P) (fun _ => P)) {s : σ}
    (hr : r.Ends s) : P s := by
  rcases hr with ⟨a, hr⟩ | ⟨e, hr⟩
  · exact h.ok hr
  · exact h.fail hr

/-- The call came back. -/
def Returns (r : Run ε σ α) : Prop := ∃ s, r.Ends s

theorem returns_ok (a : α) (s : σ) : (.ok a s : Run ε σ α).Returns := ⟨s, .inl ⟨a, rfl⟩⟩

theorem returns_fail (e : ε) (s : σ) : (.fail e s : Run ε σ α).Returns := ⟨s, .inr ⟨e, rfl⟩⟩

theorem not_returns_crash : ¬(.crash : Run ε σ α).Returns := by
  rintro ⟨s, ⟨a, h⟩ | ⟨e, h⟩⟩ <;> cases h

theorem Returns.cases {r : Run ε σ α} (h : r.Returns) :
    (∃ a s, r = .ok a s) ∨ ∃ e s, r = .fail e s := by
  obtain ⟨s, ⟨a, h⟩ | ⟨e, h⟩⟩ := h
  · exact .inl ⟨a, s, h⟩
  · exact .inr ⟨e, s, h⟩

theorem Returns.bind {x : Cm ε σ α} {f : α → Cm ε σ β} {s : σ} (h : (x s).Returns)
    (hf : ∀ a s', x s = .ok a s' → (f a s').Returns) : ((x >>= f) s).Returns := by
  rcases h.cases with ⟨a, s', hx⟩ | ⟨e, s', hx⟩
  · rw [Cm.bind_of_ok hx]; exact hf a s' hx
  · rw [Cm.bind_of_fail hx]; exact returns_fail e s'

theorem Returns.of_bind {x : Cm ε σ α} {f : α → Cm ε σ β} {s : σ} (h : ((x >>= f) s).Returns) :
    (x s).Returns := by
  rw [Cm.bind_apply] at h
  cases hx : x s with
  | ok a t => exact returns_ok a t
  | fail e t => exact returns_fail e t
  | crash =>
    rw [hx] at h
    exact absurd h not_returns_crash
  | spin =>
    rw [hx] at h
    rcases h.cases with ⟨_, _, hc⟩ | ⟨_, _, hc⟩ <;> cases hc

theorem returns_failIf {c : Prop} [Decidable c] (e : ε) (s : σ) :
    ((Cm.failIf c e : Cm ε σ Unit) s).Returns := by
  by_cases h : c
  · rw [Cm.failIf_true h]; exact returns_fail e s
  · rw [Cm.failIf_false h]; exact returns_ok () s

theorem returns_zoom {get : σ → τ} {set : σ → τ → σ} {x : Cm ε τ α} {s : σ}
    (h : (x (get s)).Returns) : (Cm.zoom get set x s).Returns := by
  unfold Cm.zoom
  rcases h.cases with ⟨a, t, hx⟩ | ⟨e, t, hx⟩
  · rw [hx]; exact returns_ok _ _
  · rw [hx]; exact returns_fail _ _

theorem Returns.of_zoom {get : σ → τ} {set : σ → τ → σ} {x : Cm ε τ α} {s : σ}
    (h : (Cm.zoom get set x s).Returns) : (x (get s)).Returns := by
  unfold Cm.zoom at h
  cases hx : x (get s) with
  | ok a t => exact returns_ok a t
  | fail e t => exact returns_fail e t
  | crash =>
    rw [hx] at h
    exact absurd h not_returns_crash
  | spin =>
    rw [hx] at h
    rcases h.cases with ⟨_, _, hc⟩ | ⟨_, _, hc⟩ <;> cases hc

theorem Returns.ne_spin {r : Run ε σ α} (h : r.Returns) : r ≠ .spin := by
  rcases h.cases with ⟨_, _, rfl⟩ | ⟨_, _, rfl⟩ <;> exact fun h => nomatch h

/-- The process has not stopped. -/
def Safe (r : Run ε σ α) : Prop := r ≠ .crash

theorem Returns.safe {r : Run ε σ α} (h : r.Returns) : r.Safe := by
  rintro rfl
  exact not_returns_crash h

theorem safe_ok (a : α) (s : σ) : (.ok a s : Run ε σ α).Safe := (returns_ok a s).safe

theorem safe_fail (e : ε) (s : σ) : (.fail e s : Run ε σ α).Safe := (returns_fail e s).safe

theorem safe_spin : (.spin : Run ε σ α).Safe := fun h => nomatch h

theorem Safe.returns {r : Run ε σ α} (h : r.Safe) (hs : r ≠ .spin) : r.Returns := by
  cases r with
  | ok a s => exact returns_ok a s
  | fail e s => exact returns_fail e s
  | crash => exact absurd rfl h
  | spin => exact absurd rfl hs

theorem Safe.bind {x : Cm ε σ α} {f : α → Cm ε σ β} {s : σ} (h : (x s).Safe)
    (hf : ∀ a s', x s = .ok a s' → (f a s').Safe) : ((x >>= f) s).Safe := by
  rw [Cm.bind_apply]
  cases hx : x s with
  | ok a s' => exact hf a s' hx
  | fail e s' => exact safe_fail e s'
  | crash => exact absurd hx h
  | spin => exact safe_spin

theorem safe_assert_bind {c : Prop} [Decidable c] {f : Unit → Cm ε σ β} {s : σ} (hc : c)
    (hf : (f () s).Safe) : ((Cm.assert c >>= f) s).Safe := by
  rw [Cm.bind_of_ok (Cm.assert_true hc s)]
  exact hf

theorem safe_zoom {get : σ → τ} {set : σ → τ → σ} {x : Cm ε τ α} {s : σ} (h : (x (get s)).Safe) :
    (Cm.zoom get set x s).Safe := by
  unfold Cm.zoom
  cases hx : x (get s) with
  | ok a t => exact safe_ok _ _
  | fail e t => exact safe_fail _ _
  | crash => exact absurd hx h
  | spin => exact safe_spin

/-- A loop whose rounds are safe in every state. -/
theorem safe_forUp {cond : σ → Nat → Bool} {body : Nat → Cm ε σ Unit}
    (hb : ∀ i s, cond s i = true → (body i s).Safe) :
    ∀ (n i : Nat) (s : σ), (Cm.forUp cond body n i s).Safe := by
  intro n
  induction n with
  | zero =>
    intro i s
    unfold Cm.forUp
    cases cond s i with
    | true => exact safe_spin
    | false => exact safe_ok _ _
  | succ n ih =>
    intro i s
    unfold Cm.forUp
    cases hc : cond s i with
    | true => exact (hb i s hc).bind fun _ s' _ => ih (i + 1) s'
    | false => exact safe_ok _ _

/-- The call came back with a result, in a state with `p`. -/
def okWith (p : σ → Bool) : Run ε σ α → Bool
  | .ok _ s => p s
  | _ => false

theorem exists_of_okWith {p : σ → Bool} {r : Run ε σ α} (h : r.okWith p = true) :
    ∃ a s, r = .ok a s ∧ p s = true := by
  cases r with
  | ok a s => exact ⟨a, s, rfl, h⟩
  | fail _ _ => exact absurd h Bool.false_ne_true
  | crash => exact absurd h Bool.false_ne_true
  | spin => exact absurd h Bool.false_ne_true

/-- The call came back with a result and a state that have `p`. -/
def okPair (p : α → σ → Bool) : Run ε σ α → Bool
  | .ok a s => p a s
  | _ => false

theorem exists_of_okPair {p : α → σ → Bool} {r : Run ε σ α} (h : r.okPair p = true) :
    ∃ a s, r = .ok a s ∧ p a s = true := by
  cases r with
  | ok a s => exact ⟨a, s, rfl, h⟩
  | fail _ _ => exact absurd h Bool.false_ne_true
  | crash => exact absurd h Bool.false_ne_true
  | spin => exact absurd h Bool.false_ne_true

/-- The call came back with a status, in a state with `p`. -/
def failWith (p : σ → Bool) : Run ε σ α → Bool
  | .fail _ s => p s
  | _ => false

theorem exists_of_failWith {p : σ → Bool} {r : Run ε σ α} (h : r.failWith p = true) :
    ∃ e s, r = .fail e s ∧ p s = true := by
  cases r with
  | ok _ _ => exact absurd h Bool.false_ne_true
  | fail e s => exact ⟨e, s, rfl, h⟩
  | crash => exact absurd h Bool.false_ne_true
  | spin => exact absurd h Bool.false_ne_true

/-- A sequence: `x` ends in `Q` or in the status post `F`, and from `Q` the rest is as wanted. -/
theorem Sat.bind {x : Cm ε σ α} {f : α → Cm ε σ β} {s : σ} {R : β → σ → Prop}
    (h : (x s).Sat Q F) (hf : ∀ a s', Q a s' → (f a s').Sat R F) : ((x >>= f) s).Sat R F := by
  rw [Cm.bind_apply]
  cases hx : x s with
  | ok a s' => exact hf a s' (h.ok hx)
  | fail e s' => exact h.fail hx
  | crash => trivial
  | spin => trivial

theorem sat_failIf {c : Prop} [Decidable c] {e : ε} {s : σ} {Q : Unit → σ → Prop}
    (ht : c → F e s) (hn : ¬c → Q () s) : ((Cm.failIf c e : Cm ε σ Unit) s).Sat Q F := by
  by_cases h : c
  · rw [Cm.failIf_true h]; exact ht h
  · rw [Cm.failIf_false h]; exact hn h

theorem sat_failIf_bind {c : Prop} [Decidable c] {e : ε} {s : σ} {f : Unit → Cm ε σ β}
    {R : β → σ → Prop} (ht : c → F e s) (hn : ¬c → (f () s).Sat R F) :
    ((Cm.failIf c e >>= f) s).Sat R F := by
  by_cases h : c
  · rw [Cm.bind_of_fail (Cm.failIf_true h e s)]; exact ht h
  · rw [Cm.bind_of_ok (Cm.failIf_false h e s)]; exact hn h

theorem sat_assert_bind {c : Prop} [Decidable c] {s : σ} {f : Unit → Cm ε σ β}
    {R : β → σ → Prop} (h : c → (f () s).Sat R F) : ((Cm.assert c >>= f) s).Sat R F := by
  unfold Cm.assert
  by_cases hc : c
  · rw [if_pos hc, Cm.ret_bind]; exact h hc
  · rw [if_neg hc, Cm.bind_of_crash (Cm.crash_apply s)]; trivial

theorem sat_zoom {get : σ → τ} {set : σ → τ → σ} {x : Cm ε τ α} {s : σ}
    (h : (x (get s)).Sat (fun a t => Q a (set s t)) (fun e t => F e (set s t))) :
    (Cm.zoom get set x s).Sat Q F := by
  unfold Cm.zoom
  cases hx : x (get s) with
  | ok a t => exact h.ok hx
  | fail e t => exact h.fail hx
  | crash => trivial
  | spin => trivial

theorem sat_ignore {x : Cm ε σ Unit} {s : σ} {Q : Unit → σ → Prop}
    (h : (x s).Sat Q (fun _ s' => Q () s')) : (Cm.ignore x s).Sat Q F := by
  unfold Cm.ignore
  cases hx : x s with
  | ok a s' => exact h.ok hx
  | fail e s' => exact h.fail hx
  | crash => trivial
  | spin => trivial

theorem sat_onExit {f : σ → σ} {x : Cm ε σ α} {s : σ}
    (h : (x s).Sat (fun a s' => Q a (f s')) (fun e s' => F e (f s'))) :
    (Cm.onExit f x s).Sat Q F := by
  unfold Cm.onExit
  cases hx : x s with
  | ok a s' => exact h.ok hx
  | fail e s' => exact h.fail hx
  | crash => trivial
  | spin => trivial

/-- The rule of `forUp`: `I i` holds before round `i`; a round takes `I i` to `I (i + 1)` or ends
in the status post; and a loop that stops at `i` is in `Q`. -/
theorem sat_forUp {cond : σ → Nat → Bool} {body : Nat → Cm ε σ Unit} (I : Nat → σ → Prop)
    {Q : Unit → σ → Prop}
    (hb : ∀ i s, I i s → cond s i = true → (body i s).Sat (fun _ s' => I (i + 1) s') F)
    (hq : ∀ i s, I i s → cond s i = false → Q () s) :
    ∀ (n i : Nat) (s : σ), I i s → (Cm.forUp cond body n i s).Sat Q F := by
  intro n
  induction n with
  | zero =>
    intro i s hi
    unfold Cm.forUp
    cases hc : cond s i with
    | true => trivial
    | false => exact hq i s hi hc
  | succ n ih =>
    intro i s hi
    unfold Cm.forUp
    cases hc : cond s i with
    | true =>
      simp only [↓reduceIte]
      exact (hb i s hi hc).bind fun _ s' hs' => ih (i + 1) s' hs'
    | false => exact hq i s hi hc

/-- The rule of `forUp` for what the rounds from `i` on do together: `R i s s'` where they end with
a result, `RF i s e s'` where one of them ends with a status. -/
theorem sat_forUp_rel {cond : σ → Nat → Bool} {body : Nat → Cm ε σ Unit} (I : Nat → σ → Prop)
    (R : Nat → σ → σ → Prop) (RF : Nat → σ → ε → σ → Prop)
    (done : ∀ i s, I i s → cond s i = false → R i s s)
    (step : ∀ i s, I i s → cond s i = true →
      (body i s).Sat (fun _ s' => I (i + 1) s' ∧ (∀ t, R (i + 1) s' t → R i s t) ∧
        ∀ e t, RF (i + 1) s' e t → RF i s e t) (RF i s)) :
    ∀ (n i : Nat) (s : σ), I i s →
      (Cm.forUp cond body n i s).Sat (fun _ s' => R i s s') (RF i s) := by
  intro n
  induction n with
  | zero =>
    intro i s hi
    unfold Cm.forUp
    cases hc : cond s i with
    | true => trivial
    | false => exact done i s hi hc
  | succ n ih =>
    intro i s hi
    unfold Cm.forUp
    cases hc : cond s i with
    | false => exact done i s hi hc
    | true =>
      simp only [↓reduceIte]
      refine (step i s hi hc).bind fun _ s' hs' => ?_
      obtain ⟨hi', hR, hRF⟩ := hs'
      exact (ih (i + 1) s' hi').mono (fun _ t ht => hR t ht) (fun e t ht => hRF e t ht)

end Run

end Lib
