import Xallib.Lib.Run

/-!
# Two runs side by side

The same function, called in two states that agree as far as `R` tells, possibly with other answers
of its surroundings. `Tracks R F r r'`: where `r` came back with a result, so did `r'`, with the
same result and in a state related by `R`, or else `r'` came back with a status in `F`, which are
the failures that the surroundings of the second run may cause. `Follows R F x x'` says this of two
functions, from all related states; its rules (`follows_bind`, `follows_ite`, `follows_forUp`)
follow the shape of a function.

`Same R r r'`: the runs end in the same way, whatever it is; `Alike R x x'` says this of two
functions.
-/

namespace Lib

open Cm

variable {ε σ σ' τ τ' α β : Type}

/-- Where `r` has a result, `r'` has the same, or a status in `F` (module doc). -/
def Run.Tracks (R : σ → σ' → Prop) (F : ε → Prop) (r : Run ε σ α) (r' : Run ε σ' α) : Prop :=
  ∀ ⦃a : α⦄ ⦃s : σ⦄, r = .ok a s →
    (∃ s', r' = .ok a s' ∧ R s s') ∨ ∃ e s', r' = .fail e s' ∧ F e

/-- From related states, the second function follows the first. -/
def Cm.Follows (R : σ → σ' → Prop) (F : ε → Prop) (x : Cm ε σ α) (x' : Cm ε σ' α) : Prop :=
  ∀ ⦃s : σ⦄ ⦃s' : σ'⦄, R s s' → Run.Tracks R F (x s) (x' s')

namespace Run

variable {R R' : σ → σ' → Prop} {F : ε → Prop}

theorem tracks_ret {s : σ} {s' : σ'} (h : R s s') (a : α) :
    Tracks R F ((pure a : Cm ε σ α) s) ((pure a : Cm ε σ' α) s') := by
  intro b t hr
  obtain ⟨rfl, rfl⟩ := Run.ok.inj hr
  exact .inl ⟨s', rfl, h⟩

theorem Tracks.mono {r : Run ε σ α} {r' : Run ε σ' α} (h : Tracks R F r r')
    (hR : ∀ a s s', r = .ok a s → R s s' → R' s s') : Tracks R' F r r' := by
  intro a s hr
  rcases h hr with ⟨s', hr', hs⟩ | hf
  · exact .inl ⟨s', hr', hR a s s' hr hs⟩
  · exact .inr hf

/-- A run without a result is followed by any. -/
theorem tracks_of_not {r : Run ε σ α} {r' : Run ε σ' α} (h : ∀ a s, r ≠ .ok a s) :
    Tracks R F r r' :=
  fun a s hr => absurd hr (h a s)

/-- A sequence: the rest is run from related states, those where the first part ends. -/
theorem Tracks.bind {x : Cm ε σ α} {x' : Cm ε σ' α} {f : α → Cm ε σ β} {f' : α → Cm ε σ' β} {s : σ}
    {s' : σ'} (hx : Tracks R F (x s) (x' s'))
    (hf : ∀ a t t', x s = .ok a t → R t t' → Tracks R' F (f a t) (f' a t')) :
    Tracks R' F ((x >>= f) s) ((x' >>= f') s') := by
  intro b u hr
  obtain ⟨a, t, hxa, hfa⟩ := bind_ok.1 hr
  rcases hx hxa with ⟨t', hx', ht⟩ | ⟨e, t', hx', he⟩
  · rcases hf a t t' hxa ht hfa with ⟨u', hf', hu⟩ | ⟨e, u', hf', he⟩
    · exact .inl ⟨u', by rw [bind_of_ok hx', hf'], hu⟩
    · exact .inr ⟨e, u', by rw [bind_of_ok hx', hf'], he⟩
  · exact .inr ⟨e, t', bind_of_fail hx', he⟩

theorem tracks_failIf_bind {c : Prop} [Decidable c] {e : ε} {f : Unit → Cm ε σ β}
    {f' : Unit → Cm ε σ' β} {s : σ} {s' : σ'} (h : ¬c → Tracks R F (f () s) (f' () s')) :
    Tracks R F ((failIf c e >>= f) s) ((failIf c e >>= f') s') := by
  intro b u hr
  obtain ⟨hc, hr⟩ := failIf_bind_ok.1 hr
  rw [bind_of_ok (failIf_false hc e s')]
  exact h hc hr

theorem tracks_assert_bind {c : Prop} [Decidable c] {f : Unit → Cm ε σ β}
    {f' : Unit → Cm ε σ' β} {s : σ} {s' : σ'} (h : c → Tracks R F (f () s) (f' () s')) :
    Tracks R F ((assert c >>= f) s) ((assert c >>= f') s') := by
  intro b u hr
  obtain ⟨hc, hr⟩ := assert_bind_ok.1 hr
  rw [bind_of_ok (assert_true hc s')]
  exact h hc hr

theorem tracks_ite {c : Prop} [Decidable c] {x y : Cm ε σ α} {x' y' : Cm ε σ' α} {s : σ} {s' : σ'}
    (ht : c → Tracks R F (x s) (x' s')) (hn : ¬c → Tracks R F (y s) (y' s')) :
    Tracks R F ((if c then x else y) s) ((if c then x' else y') s') := by
  by_cases h : c
  · rw [if_pos h, if_pos h]
    exact ht h
  · rw [if_neg h, if_neg h]
    exact hn h

/-- A call on a part of the state. -/
theorem tracks_zoom {get : σ → τ} {set : σ → τ → σ} {get' : σ' → τ'} {set' : σ' → τ' → σ'}
    {Rt : τ → τ' → Prop} {x : Cm ε τ α} {x' : Cm ε τ' α} {s : σ} {s' : σ'}
    (h : Tracks Rt F (x (get s)) (x' (get' s')))
    (hset : ∀ a t t', x (get s) = .ok a t → Rt t t' → R (set s t) (set' s' t')) :
    Tracks R F (zoom get set x s) (zoom get' set' x' s') := by
  intro a u hr
  obtain ⟨t, hx, rfl⟩ := zoom_ok.1 hr
  rcases h hx with ⟨t', hx', ht⟩ | ⟨e, t', hx', he⟩
  · exact .inl ⟨set' s' t', zoom_of_ok hx', hset a t t' hx ht⟩
  · exact .inr ⟨e, set' s' t', zoom_of_fail hx', he⟩

theorem tracks_onExit {f : σ → σ} {f' : σ' → σ'} {x : Cm ε σ α} {x' : Cm ε σ' α} {s : σ} {s' : σ'}
    (h : Tracks R F (x s) (x' s')) (hf : ∀ t t', R t t' → R' (f t) (f' t')) :
    Tracks R' F (onExit f x s) (onExit f' x' s') := by
  intro a u hr
  unfold onExit at hr ⊢
  cases hx : x s with
  | ok b t =>
    rw [hx] at hr
    obtain ⟨rfl, rfl⟩ := Run.ok.inj hr
    rcases h hx with ⟨t', hx', ht⟩ | ⟨e, t', hx', he⟩
    · exact .inl ⟨f' t', by rw [hx'], hf t t' ht⟩
    · exact .inr ⟨e, f' t', by rw [hx'], he⟩
  | fail e t => rw [hx] at hr; cases hr
  | crash => rw [hx] at hr; cases hr
  | spin => rw [hx] at hr; cases hr

/-- Two loops of the same length. -/
theorem tracks_forUp {cond : σ → Nat → Bool} {cond' : σ' → Nat → Bool} {body : Nat → Cm ε σ Unit}
    {body' : Nat → Cm ε σ' Unit} (I : Nat → σ → Prop)
    (hcond : ∀ i s s', I i s → R s s' → cond' s' i = cond s i)
    (hbody : ∀ i s s', I i s → cond s i = true → R s s' → Tracks R F (body i s) (body' i s'))
    (hI : ∀ i s u t, I i s → cond s i = true → body i s = .ok u t → I (i + 1) t) (n : Nat) :
    ∀ {i : Nat} {s : σ} {s' : σ'}, I i s → R s s' →
      Tracks R F (forUp cond body n i s) (forUp cond' body' n i s') := by
  induction n with
  | zero =>
    intro i s s' hi h
    cases hc : cond s i with
    | false =>
      rw [forUp_stop hc, forUp_stop (by rw [hcond i s s' hi h, hc])]
      exact tracks_ret h ()
    | true =>
      refine tracks_of_not fun a t hr => ?_
      unfold forUp at hr
      simp only [hc, ↓reduceIte] at hr
      cases hr
  | succ n ih =>
    intro i s s' hi h
    have hc' := hcond i s s' hi h
    cases hc : cond s i with
    | false =>
      rw [forUp_stop hc, forUp_stop (by rw [hc', hc])]
      exact tracks_ret h ()
    | true =>
      rw [forUp_step hc, forUp_step (by rw [hc', hc])]
      exact (hbody i s s' hi hc h).bind fun u t t' hr ht => ih (hI i s u t hi hc hr) ht

end Run

namespace Cm

variable {R : σ → σ' → Prop} {F : ε → Prop}

theorem follows_ret (a : α) : Follows R F (pure a) (pure a) := fun _ _ h => Run.tracks_ret h a

theorem follows_of_not {x : Cm ε σ α} {x' : Cm ε σ' α} (h : ∀ s a t, x s ≠ .ok a t) :
    Follows R F x x' := fun s _ _ => Run.tracks_of_not (h s)

theorem follows_bind {x : Cm ε σ α} {x' : Cm ε σ' α} {f : α → Cm ε σ β} {f' : α → Cm ε σ' β}
    (hx : Follows R F x x') (hf : ∀ a, Follows R F (f a) (f' a)) :
    Follows R F (x >>= f) (x' >>= f') := fun _ _ h => (hx h).bind fun a _ _ _ ht => hf a ht

theorem follows_read {f : σ → Cm ε σ β} {f' : σ' → Cm ε σ' β}
    (h : ∀ s s', R s s' → Run.Tracks R F (f s s) (f' s' s')) :
    Follows R F (read >>= f) (read >>= f') := fun s s' hs => h s s' hs

theorem follows_ite {c : Prop} [Decidable c] {x y : Cm ε σ α} {x' y' : Cm ε σ' α}
    (ht : c → Follows R F x x') (hn : ¬c → Follows R F y y') :
    Follows R F (if c then x else y) (if c then x' else y') :=
  fun _ _ h => Run.tracks_ite (fun hc => ht hc h) fun hc => hn hc h

theorem follows_failIf {c : Prop} [Decidable c] (e : ε) :
    Follows R F (failIf c e) (failIf c e) :=
  follows_ite (fun _ => follows_of_not fun _ _ _ hr => by cases hr) fun _ => follows_ret ()

theorem follows_assert {c : Prop} [Decidable c] :
    Follows R F (assert c) (assert c) :=
  follows_ite (fun _ => follows_ret ()) fun _ => follows_of_not fun _ _ _ hr => by cases hr

/-- The end of a loop whose bound may be used up. -/
theorem follows_bounded {c : Prop} [Decidable c] (a : α) :
    Follows R F (fun s => if c then .spin else .ok a s)
      (fun s => if c then .spin else .ok a s) := by
  intro s s' h
  by_cases hc : c
  · refine Run.tracks_of_not fun b t hr => ?_
    simp only [if_pos hc] at hr
    cases hr
  · simp only [if_neg hc]
    exact Run.tracks_ret h a

/-- Two loops with the same bounds. -/
theorem follows_forUp {cond : Nat → Bool} {body : Nat → Cm ε σ Unit} {body' : Nat → Cm ε σ' Unit}
    (hbody : ∀ i, Follows R F (body i) (body' i)) (n i : Nat) :
    Follows R F (forUp (fun _ => cond) body n i) (forUp (fun _ => cond) body' n i) := by
  intro s s' h
  apply Run.tracks_forUp (fun _ _ => True)
  · exact fun _ _ _ _ _ => rfl
  · exact fun i _ _ _ _ hs => hbody i hs
  · exact fun _ _ _ _ _ _ _ => trivial
  · trivial
  · exact h

/-- Two loops over the same list. -/
theorem follows_forM {body : β → Cm ε σ Unit} {body' : β → Cm ε σ' Unit} {l : List β}
    (hbody : ∀ b ∈ l, Follows R F (body b) (body' b)) :
    Follows R F (l.forM body) (l.forM body') := by
  induction l with
  | nil => exact follows_ret ()
  | cons b l ih =>
    rw [List.forall_mem_cons] at hbody
    exact follows_bind hbody.1 fun _ => ih hbody.2

end Cm

/-! ## Runs that end in the same way -/

/-- Both have the same result, in related states, or the same status, or neither came back. -/
def Run.Same (R : σ → σ' → Prop) : Run ε σ α → Run ε σ' α → Prop
  | .ok a s, .ok a' s' => a = a' ∧ R s s'
  | .fail e _, .fail e' _ => e = e'
  | .crash, .crash => True
  | .spin, .spin => True
  | _, _ => False

/-- From related states, both functions end in the same way. -/
def Cm.Alike (R : σ → σ' → Prop) (x : Cm ε σ α) (x' : Cm ε σ' α) : Prop :=
  ∀ ⦃s : σ⦄ ⦃s' : σ'⦄, R s s' → Run.Same R (x s) (x' s')

namespace Run

variable {R R' : σ → σ' → Prop} {r : Run ε σ α} {r' : Run ε σ' α}

theorem Same.ok (h : Same R r r') {a : α} {s : σ} (hr : r = .ok a s) :
    ∃ s', r' = .ok a s' ∧ R s s' := by
  subst hr
  cases r' with
  | ok a' s' =>
    obtain ⟨rfl, hs⟩ := h
    exact ⟨s', rfl, hs⟩
  | fail _ _ => exact h.elim
  | crash => exact h.elim
  | spin => exact h.elim

theorem Same.returns (h : Same R r r') (hr : r.Returns) : r'.Returns := by
  rcases hr.cases with ⟨a, s, rfl⟩ | ⟨e, s, rfl⟩
  · obtain ⟨s', rfl, -⟩ := h.ok rfl
    exact returns_ok a s'
  · cases r' with
    | ok _ _ => exact h.elim
    | fail e' s' => exact returns_fail e' s'
    | crash => exact h.elim
    | spin => exact h.elim

theorem Same.bind {x : Cm ε σ α} {x' : Cm ε σ' α} {f : α → Cm ε σ β} {f' : α → Cm ε σ' β} {s : σ}
    {s' : σ'} (hx : Same R (x s) (x' s'))
    (hf : ∀ a t t', x s = .ok a t → R t t' → Same R' (f a t) (f' a t')) :
    Same R' ((x >>= f) s) ((x' >>= f') s') := by
  rw [bind_apply, bind_apply]
  cases hr : x s with
  | ok a t =>
    obtain ⟨t', hr', ht⟩ := hx.ok hr
    rw [hr']
    exact hf a t t' hr ht
  | fail _ _ | crash | spin =>
    rw [hr] at hx
    cases hr' : x' s' <;> rw [hr'] at hx <;> first | exact hx | exact hx.elim

theorem same_failIf_bind {c : Prop} [Decidable c] {e : ε} {f : Unit → Cm ε σ β}
    {f' : Unit → Cm ε σ' β} {s : σ} {s' : σ'} (h : ¬c → Same R (f () s) (f' () s')) :
    Same R ((failIf c e >>= f) s) ((failIf c e >>= f') s') := by
  by_cases hc : c
  · rw [bind_of_fail (failIf_true hc e s), bind_of_fail (failIf_true hc e s')]
    exact rfl
  · rw [bind_of_ok (failIf_false hc e s), bind_of_ok (failIf_false hc e s')]
    exact h hc

theorem same_assert_bind {c c' : Prop} [Decidable c] [Decidable c'] {f : Unit → Cm ε σ β}
    {f' : Unit → Cm ε σ' β} {s : σ} {s' : σ'} (hcc : c ↔ c') (h : c → Same R (f () s) (f' () s')) :
    Same R ((assert c >>= f) s) ((assert c' >>= f') s') := by
  by_cases hc : c
  · rw [bind_of_ok (assert_true hc s), bind_of_ok (assert_true (hcc.1 hc) s')]
    exact h hc
  · rw [bind_of_crash (assert_false hc s), bind_of_crash (assert_false (fun h => hc (hcc.2 h)) s')]
    trivial

/-- A call on a part of the state. -/
theorem same_zoom {get : σ → τ} {set : σ → τ → σ} {get' : σ' → τ'} {set' : σ' → τ' → σ'}
    {Rt : τ → τ' → Prop} {x : Cm ε τ α} {x' : Cm ε τ' α} {s : σ} {s' : σ'}
    (h : Same Rt (x (get s)) (x' (get' s')))
    (hset : ∀ t t', Rt t t' → R (set s t) (set' s' t')) :
    Same R (zoom get set x s) (zoom get' set' x' s') := by
  unfold zoom
  cases hr : x (get s) <;> cases hr' : x' (get' s') <;> rw [hr, hr'] at h
  case ok.ok => exact ⟨h.1, hset _ _ h.2⟩
  all_goals exact h

end Run

namespace Cm

variable {R : σ → σ' → Prop}

theorem alike_ite {c : Prop} [Decidable c] {x y : Cm ε σ α} {x' y' : Cm ε σ' α}
    (ht : c → Alike R x x') (hn : ¬c → Alike R y y') :
    Alike R (if c then x else y) (if c then x' else y') := by
  by_cases h : c
  · rw [if_pos h, if_pos h]
    exact ht h
  · rw [if_neg h, if_neg h]
    exact hn h

theorem alike_ret (a : α) : Alike R (pure a : Cm ε σ α) (pure a) := fun _ _ h => ⟨rfl, h⟩

/-- Two loops with the same bounds. -/
theorem alike_forUp {cond : Nat → Bool} {body : Nat → Cm ε σ Unit} {body' : Nat → Cm ε σ' Unit}
    (hbody : ∀ i, Alike R (body i) (body' i)) (n : Nat) : ∀ i,
    Alike R (forUp (fun _ => cond) body n i) (forUp (fun _ => cond) body' n i) := by
  induction n with
  | zero =>
    intro i s s' h
    cases hc : cond i with
    | false =>
      rw [forUp_stop hc, forUp_stop hc]
      exact ⟨rfl, h⟩
    | true =>
      unfold forUp
      simp only [hc, ↓reduceIte]
      trivial
  | succ n ih =>
    intro i s s' h
    cases hc : cond i with
    | false =>
      rw [forUp_stop hc, forUp_stop hc]
      exact ⟨rfl, h⟩
    | true =>
      rw [forUp_step hc, forUp_step hc]
      exact (hbody i h).bind fun _ _ _ _ ht => ih (i + 1) ht

end Cm

end Lib
