import Xallib.Lib.Loop

/-!
# Functions whose accesses are checked

A checked function ends with the status `none` where it would make an access outside of an object
(`inside`); its other statuses are those of the function that it is a variant of. `Guards y x`: the
checked function `y` does what `x` does, unless it ends so.

The accesses of a function are a list of steps, of which a part of the state, `view`, decides where
they lead (`perform`): the next step is taken, the call ends (`stop`), or an access is outside.
`EndsAs view r e`: the checked run `r` ends as the steps do.
-/

namespace Lib

variable {ε σ α β κ ν : Type}

/-! ## Checked functions -/

namespace Run

/-- A run, with its statuses as those of a checked function. -/
def checked : Run ε σ α → Run (Option ε) σ α
  | .ok a s => .ok a s
  | .fail e s => .fail (some e) s
  | .crash => .crash
  | .spin => .spin

/-- The run ended at an access outside. -/
def Outside (r : Run (Option ε) σ α) : Prop := ∃ s, r = .fail none s

instance (r : Run (Option ε) σ α) : Decidable r.Outside :=
  match r with
  | .fail none s => isTrue ⟨s, rfl⟩
  | .fail (some _) _ => isFalse fun ⟨_, h⟩ => nomatch h
  | .ok _ _ => isFalse fun ⟨_, h⟩ => nomatch h
  | .crash => isFalse fun ⟨_, h⟩ => nomatch h
  | .spin => isFalse fun ⟨_, h⟩ => nomatch h

theorem not_outside_checked (r : Run ε σ α) : ¬r.checked.Outside := by
  rintro ⟨s, h⟩
  cases r <;> cases h

theorem not_outside_ok (a : α) (s : σ) : ¬(.ok a s : Run (Option ε) σ α).Outside := by
  rintro ⟨_, h⟩
  cases h

theorem checked_ok {r : Run ε σ α} {a : α} {s : σ} : r.checked = .ok a s ↔ r = .ok a s := by
  cases r <;> simp [checked]

end Run

namespace Cm

/-- A function that makes no access of the kind that is checked. -/
def unchecked (x : Cm ε σ α) : Cm (Option ε) σ α := fun s => (x s).checked

/-- The next access is inside if `c`. -/
def inside (c : Prop) [Decidable c] : Cm (Option ε) σ Unit := failIf (¬c) none

/-- `ignore`, for a checked function. -/
def ignoreChecked (x : Cm (Option ε) σ Unit) : Cm (Option ε) σ Unit := fun s =>
  match x s with
  | .fail (some _) s' => .ok () s'
  | r => r

/-- The checked function `y` is a variant of `x` (module doc). -/
def Guards (y : Cm (Option ε) σ α) (x : Cm ε σ α) : Prop :=
  ∀ s, (y s).Outside ∨ y s = (x s).checked

/-- The checked function does the same exactly if it makes no access outside. -/
theorem Guards.eq_iff {y : Cm (Option ε) σ α} {x : Cm ε σ α} (h : Guards y x) {s : σ} :
    y s = (x s).checked ↔ ¬(y s).Outside := by
  constructor
  · intro hs
    rw [hs]
    exact Run.not_outside_checked _
  · exact fun hs => (h s).resolve_left hs

theorem guards_unchecked (x : Cm ε σ α) : Guards (unchecked x) x := fun _ => .inr rfl

theorem Guards.bind {y : Cm (Option ε) σ α} {x : Cm ε σ α} {g : α → Cm (Option ε) σ β}
    {f : α → Cm ε σ β} (h : Guards y x) (hf : ∀ a, Guards (g a) (f a)) :
    Guards (y >>= g) (x >>= f) := by
  intro s
  rcases h s with ⟨t, hy⟩ | hy
  · exact .inl ⟨t, bind_of_fail hy⟩
  · rw [bind_apply, bind_apply, hy]
    cases x s with
    | ok a t => exact hf a t
    | fail _ _ => exact .inr rfl
    | crash => exact .inr rfl
    | spin => exact .inr rfl

theorem guards_ret (a : α) : Guards (pure a : Cm (Option ε) σ α) (pure a) := fun _ => .inr rfl

theorem guards_assert (c : Prop) [Decidable c] :
    Guards (assert c : Cm (Option ε) σ Unit) (assert c) := by
  intro s
  by_cases hc : c
  · rw [assert_true hc, assert_true hc]; exact .inr rfl
  · rw [assert_false hc, assert_false hc]; exact .inr rfl

theorem guards_read_bind {g : σ → Cm (Option ε) σ β} {f : σ → Cm ε σ β}
    (h : ∀ s, Guards (g s) (f s)) : Guards (read >>= g) (read >>= f) := fun s => h s s

theorem guards_modify_bind (u : σ → σ) {g : Unit → Cm (Option ε) σ β} {f : Unit → Cm ε σ β}
    (h : Guards (g ()) (f ())) : Guards (modify u >>= g) (modify u >>= f) := fun s => h (u s)

theorem Guards.inside {c : Prop} [Decidable c] {y : Cm (Option ε) σ α} {x : Cm ε σ α}
    (h : Guards y x) : Guards (inside c >>= fun _ => y) x := by
  intro s
  by_cases hc : c
  · rw [Cm.inside, bind_of_ok (failIf_false (not_not.2 hc) _ _)]
    exact h s
  · exact .inl ⟨s, bind_of_fail (failIf_true hc _ _)⟩

theorem guards_ite {c : Prop} [Decidable c] {y y' : Cm (Option ε) σ α} {x x' : Cm ε σ α}
    (h : Guards y x) (h' : Guards y' x') : Guards (if c then y else y') (if c then x else x') := by
  by_cases hc : c
  · rw [if_pos hc, if_pos hc]; exact h
  · rw [if_neg hc, if_neg hc]; exact h'

theorem guards_forUp {cond : σ → Nat → Bool} {g : Nat → Cm (Option ε) σ Unit}
    {f : Nat → Cm ε σ Unit} (h : ∀ i, Guards (g i) (f i)) (n : Nat) :
    ∀ i, Guards (forUp cond g n i) (forUp cond f n i) := by
  induction n with
  | zero =>
    intro i s
    unfold forUp
    cases cond s i with
    | true => exact .inr rfl
    | false => exact .inr rfl
  | succ n ih =>
    intro i s
    unfold forUp
    cases cond s i with
    | true => exact (h i).bind (fun _ => ih (i + 1)) s
    | false => exact .inr rfl

theorem Guards.zoom {τ : Type} {get : σ → τ} {set : σ → τ → σ} {y : Cm (Option ε) τ α}
    {x : Cm ε τ α} (h : Guards y x) : Guards (zoom get set y) (zoom get set x) := by
  intro s
  unfold Cm.zoom
  rcases h (get s) with ⟨t, hy⟩ | hy
  · rw [hy]
    exact .inl ⟨_, rfl⟩
  · rw [hy]
    cases x (get s) with
    | ok _ _ => exact .inr rfl
    | fail _ _ => exact .inr rfl
    | crash => exact .inr rfl
    | spin => exact .inr rfl

theorem Guards.onExit {f : σ → σ} {y : Cm (Option ε) σ α} {x : Cm ε σ α} (h : Guards y x) :
    Guards (onExit f y) (onExit f x) := by
  intro s
  unfold Cm.onExit
  rcases h s with ⟨t, hy⟩ | hy
  · rw [hy]
    exact .inl ⟨_, rfl⟩
  · rw [hy]
    cases x s with
    | ok _ _ => exact .inr rfl
    | fail _ _ => exact .inr rfl
    | crash => exact .inr rfl
    | spin => exact .inr rfl

theorem Guards.ignore {y : Cm (Option ε) σ Unit} {x : Cm ε σ Unit} (h : Guards y x) :
    Guards (ignoreChecked y) (ignore x) := by
  intro s
  unfold ignoreChecked Cm.ignore
  rcases h s with ⟨t, hy⟩ | hy
  · rw [hy]
    exact .inl ⟨_, rfl⟩
  · rw [hy]
    cases x s with
    | ok _ _ => exact .inr rfl
    | fail _ _ => exact .inr rfl
    | crash => exact .inr rfl
    | spin => exact .inr rfl

end Cm

/-! ## No access is outside -/

namespace Run

/-- The call makes no access outside, if it ends. -/
abbrev Inside (r : Run (Option ε) σ α) : Prop := r.Sat (fun _ _ => True) fun e _ => e ≠ none

theorem Inside.not_outside {r : Run (Option ε) σ α} (h : r.Inside) : ¬r.Outside := by
  rintro ⟨s, hr⟩
  exact h.fail hr rfl

theorem inside_unchecked (x : Cm ε σ α) (s : σ) : (Cm.unchecked x s).Inside := by
  rw [Cm.unchecked]
  cases x s with
  | ok a t => trivial
  | fail e t => exact Option.some_ne_none e
  | crash => trivial
  | spin => trivial

theorem inside_unchecked_bind {x : Cm ε σ α} {f : α → Cm (Option ε) σ β} {s : σ}
    (hf : ∀ a s', (f a s').Inside) : ((Cm.unchecked x >>= f) s).Inside :=
  (inside_unchecked x s).bind fun a s' _ => hf a s'

theorem inside_bind {c : Prop} [Decidable c] {f : Unit → Cm (Option ε) σ α} {s : σ} (hc : c)
    (hf : (f () s).Inside) : ((Cm.inside c >>= f) s).Inside :=
  sat_failIf_bind (fun h => absurd hc h) fun _ => hf

/-- The rule of a loop over the numbers below `n`. -/
theorem inside_forUp {body : Nat → Cm (Option ε) σ Unit} {n : Nat}
    (h : ∀ i < n, ∀ s, (body i s).Inside) (m i : Nat) (s : σ) :
    (Cm.forUp (fun _ i => decide (i < n)) body m i s).Inside := by
  refine sat_forUp (fun _ _ => True) (fun i s _ hi => ?_) (fun _ _ _ _ => trivial) m i s trivial
  exact h i (of_decide_eq_true hi) s

theorem outside_bind {y : Cm (Option ε) σ α} {f : α → Cm (Option ε) σ β} {s : σ}
    (h : (y s).Outside) : ((y >>= f) s).Outside := by
  obtain ⟨t, ht⟩ := h
  exact ⟨t, Cm.bind_of_fail ht⟩

theorem outside_inside_bind {c : Prop} [Decidable c] {f : Unit → Cm (Option ε) σ α} (hc : ¬c)
    (s : σ) : ((Cm.inside c >>= f) s).Outside :=
  outside_bind ⟨s, Cm.failIf_true hc none s⟩

/-- A loop whose first `m` rounds are passed, and whose next one makes an access outside. -/
theorem outside_forUp {body : Nat → Cm (Option ε) σ Unit} {n m : Nat}
    (hok : ∀ i < m, ∀ s, ∃ t, body i s = .ok () t) (hout : ∀ s, (body m s).Outside) (hm : m < n) :
    ∀ (k i : Nat) (s : σ), i ≤ m → m < i + k →
      (Cm.forUp (fun _ i => decide (i < n)) body k i s).Outside := by
  intro k
  induction k with
  | zero => intro i s hi hk; omega
  | succ k ih =>
    intro i s hi hk
    rw [Cm.forUp_step (decide_eq_true (by omega))]
    rcases Nat.eq_or_lt_of_le hi with rfl | hlt
    · exact outside_bind (hout s)
    · obtain ⟨t, ht⟩ := hok i hlt s
      rw [Cm.bind_of_ok ht]
      exact ih (i + 1) t hlt (by omega)

end Run

/-! ## Steps -/

/-- Where a step leads. -/
inductive StepEnd (ν : Type) where
  | next (n : ν)
  | stop
  | outside

section
variable (exec : κ → ν → StepEnd ν)

/-- Take the steps one after the other. -/
def perform : List κ → ν → StepEnd ν
  | [], n => .next n
  | k :: l, n =>
    match exec k n with
    | .next n' => perform l n'
    | .stop => .stop
    | .outside => .outside

variable {exec} {l m : List κ} {k : κ} {n n' : ν}

theorem perform_next (h : exec k n = .next n') : perform exec (k :: l) n = perform exec l n' := by
  rw [perform, h]

theorem perform_stop (h : exec k n = .stop) : perform exec (k :: l) n = .stop := by
  rw [perform, h]

theorem perform_outside (h : exec k n = .outside) : perform exec (k :: l) n = .outside := by
  rw [perform, h]

theorem perform_append : perform exec (l ++ m) n =
    match perform exec l n with
    | .next n' => perform exec m n'
    | .stop => .stop
    | .outside => .outside := by
  induction l generalizing n with
  | nil => rfl
  | cons k l ih =>
    rw [List.cons_append]
    cases hk : exec k n with
    | next n' => rw [perform_next hk, perform_next hk, ih]
    | stop => rw [perform_stop hk, perform_stop hk]
    | outside => rw [perform_outside hk, perform_outside hk]

end

namespace Run

section
variable (view : σ → ν)

/-- The checked run ends as the steps (module doc). -/
def EndsAs (r : Run (Option ε) σ α) : StepEnd ν → Prop
  | .next n => ∃ a s, r = .ok a s ∧ view s = n
  | .stop => (∀ a s, r ≠ .ok a s) ∧ ¬r.Outside
  | .outside => r.Outside

variable {view} {exec : κ → ν → StepEnd ν} {l m : List κ} {k : κ} {s : σ}

theorem EndsAs.outside_iff {r : Run (Option ε) σ α} {e : StepEnd ν} (h : r.EndsAs view e) :
    r.Outside ↔ e = .outside := by
  cases e with
  | next n =>
    obtain ⟨a, s, rfl, -⟩ := h
    exact ⟨fun ho => absurd ho (not_outside_ok a s), fun h => nomatch h⟩
  | stop => exact ⟨fun ho => absurd ho h.2, fun h => nomatch h⟩
  | outside => exact ⟨fun _ => rfl, fun _ => h⟩

/-- A call that came back without a step. -/
theorem endsAs_nil {a : α} {s' : σ} (h : view s' = view s) :
    (.ok a s' : Run (Option ε) σ α).EndsAs view (perform exec [] (view s)) := ⟨a, s', rfl, h⟩

/-- A call that did not come back with a result. -/
theorem endsAs_stop {r : Run ε σ α} {n : ν} (h : ∀ a s', r ≠ .ok a s') (hk : exec k n = .stop) :
    r.checked.EndsAs view (perform exec (k :: l) n) := by
  rw [perform_stop hk]
  exact ⟨fun a s' hr => h a s' (checked_ok.1 hr), not_outside_checked r⟩

theorem EndsAs.bind {x : Cm (Option ε) σ α} {f : α → Cm (Option ε) σ β}
    (h : (x s).EndsAs view (perform exec l (view s)))
    (hf : ∀ a s', x s = .ok a s' → (f a s').EndsAs view (perform exec m (view s'))) :
    ((x >>= f) s).EndsAs view (perform exec (l ++ m) (view s)) := by
  rw [perform_append]
  cases he : perform exec l (view s) with
  | next n =>
    rw [he] at h
    obtain ⟨a, s', hx, rfl⟩ := h
    rw [Cm.bind_of_ok hx]
    exact hf a s' hx
  | stop =>
    rw [he] at h
    obtain ⟨hok, hout⟩ := h
    rw [Cm.bind_apply]
    cases hx : x s with
    | ok a s' => exact absurd hx (hok a s')
    | fail e s' =>
      cases e with
      | none => exact absurd ⟨s', hx⟩ hout
      | some e => exact ⟨fun _ _ hr => (nomatch hr), fun ⟨_, hr⟩ => nomatch hr⟩
    | crash => exact ⟨fun _ _ hr => (nomatch hr), fun ⟨_, hr⟩ => nomatch hr⟩
    | spin => exact ⟨fun _ _ hr => (nomatch hr), fun ⟨_, hr⟩ => nomatch hr⟩
  | outside =>
    rw [he] at h
    obtain ⟨t, hx⟩ := h
    exact ⟨t, Cm.bind_of_fail hx⟩

/-- The process stops, or goes on. -/
theorem endsAs_assert_bind {c : Prop} [Decidable c] {f : Unit → Cm (Option ε) σ α} {e : StepEnd ν}
    (hstop : ¬c → e = .stop) (hf : c → (f () s).EndsAs view e) :
    ((Cm.assert c >>= f) s).EndsAs view e := by
  by_cases hc : c
  · rw [Cm.bind_of_ok (Cm.assert_true hc _)]
    exact hf hc
  · rw [Cm.bind_of_crash (Cm.assert_false hc _), hstop hc]
    exact ⟨fun _ _ h => (nomatch h), fun ⟨_, h⟩ => nomatch h⟩

/-- A call without checked accesses, and what follows if it comes back with a result. -/
theorem endsAs_unchecked_bind {x : Cm ε σ α} {f : α → Cm (Option ε) σ β} {e : StepEnd ν}
    (hstop : (∀ a s', x s ≠ .ok a s') → e = .stop)
    (hf : ∀ a s', x s = .ok a s' → (f a s').EndsAs view e) :
    ((Cm.unchecked x >>= f) s).EndsAs view e := by
  by_cases hx : ∃ a s', x s = .ok a s'
  · obtain ⟨a, s', hx⟩ := hx
    rw [Cm.bind_of_ok (checked_ok.2 hx)]
    exact hf a s' hx
  · have hnot : ∀ a s', x s ≠ .ok a s' := fun a s' h => hx ⟨a, s', h⟩
    rw [hstop hnot, Cm.bind_apply, Cm.unchecked]
    cases hr : x s with
    | ok a s' => exact absurd hr (hnot a s')
    | fail e s' => exact ⟨fun _ _ h => (nomatch h), fun ⟨_, h⟩ => nomatch h⟩
    | crash => exact ⟨fun _ _ h => (nomatch h), fun ⟨_, h⟩ => nomatch h⟩
    | spin => exact ⟨fun _ _ h => (nomatch h), fun ⟨_, h⟩ => nomatch h⟩

/-- An access that is checked, and what follows. -/
theorem endsAs_inside_bind {c : Prop} [Decidable c] {f : Unit → Cm (Option ε) σ α}
    (hin : c → exec k (view s) = .next (view s)) (hout : ¬c → exec k (view s) = .outside)
    (hf : c → (f () s).EndsAs view (perform exec l (view s))) :
    ((Cm.inside c >>= f) s).EndsAs view (perform exec (k :: l) (view s)) := by
  by_cases hc : c
  · rw [Cm.inside, Cm.bind_of_ok (Cm.failIf_false (not_not.2 hc) _ _), perform_next (hin hc)]
    exact hf hc
  · rw [Cm.inside, Cm.bind_of_fail (Cm.failIf_true hc _ _), perform_outside (hout hc)]
    exact ⟨s, rfl⟩

theorem endsAs_forM {body : β → Cm (Option ε) σ Unit} {steps : β → List κ} (bs : List β)
    (h : ∀ b ∈ bs, ∀ s, (body b s).EndsAs view (perform exec (steps b) (view s))) :
    ∀ s, (bs.forM body s).EndsAs view (perform exec (bs.flatMap steps) (view s)) := by
  induction bs with
  | nil => exact fun s => endsAs_nil rfl
  | cons b bs ih =>
    intro s
    rw [List.flatMap_cons]
    exact (h b List.mem_cons_self s).bind fun _ s' _ =>
      ih (fun b' hb' => h b' (List.mem_cons_of_mem b hb')) s'

end

end Run

end Lib
