import Xallib.Lib.Run

/-!
# Loops that return exactly under a condition

`OkIff r c Q`: the call `r` comes back with a result exactly if `c`, and then in `Q`. The rules
follow the shape of a function (`OkIff.bind`, `okIff_assert_bind`); `okIff_forM` is the rule of a
loop over a list, in which each round appends to what the rounds before have put out, and
`okIff_forM_room` that of one which puts it out to an array with a limit. `forM_concat`
is its like for loops that came back, where `Concat P as l` says that the list `l` is put together
from one list for each of `as`. `forUp_range` turns a counting loop into one over a list.
-/

namespace Lib

open Cm

variable {ε σ τ α β γ : Type}

namespace Run

/-- The run is successful exactly if `c` holds, and then its result has `Q`. -/
structure OkIff (r : Run ε σ α) (c : Prop) (Q : α → σ → Prop) : Prop where
  ok : c → ∃ a s, r = .ok a s ∧ Q a s
  only : ∀ {a s}, r = .ok a s → c

variable {c d : Prop} {Q : α → σ → Prop}

theorem OkIff.post {r : Run ε σ α} (h : r.OkIff c Q) {a : α} {s : σ} (hr : r = .ok a s) :
    Q a s := by
  obtain ⟨a', s', hr', hq⟩ := h.ok (h.only hr)
  obtain ⟨rfl, rfl⟩ := Run.ok.inj (hr.symm.trans hr')
  exact hq

theorem OkIff.mono {r : Run ε σ α} {Q' : α → σ → Prop} (h : r.OkIff c Q)
    (hq : ∀ a s, Q a s → Q' a s) : r.OkIff c Q' where
  ok hc := by
    obtain ⟨a, s, hr, h⟩ := h.ok hc
    exact ⟨a, s, hr, hq a s h⟩
  only := h.only

theorem OkIff.congr {r : Run ε σ α} (h : r.OkIff c Q) (hc : c ↔ d) : r.OkIff d Q where
  ok hd := h.ok (hc.2 hd)
  only hr := hc.1 (h.only hr)

theorem okIff_ret {a : α} {s : σ} (h : Q a s) : ((pure a : Cm ε σ α) s).OkIff True Q where
  ok _ := ⟨a, s, rfl, h⟩
  only _ := trivial

/-- A call that never comes back with a result. -/
theorem okIff_of_not {r : Run ε σ α} (h : ∀ a s, r ≠ .ok a s) : r.OkIff False Q where
  ok := False.elim
  only hr := h _ _ hr

theorem OkIff.bind {x : Cm ε σ α} {f : α → Cm ε σ β} {s : σ} {R : β → σ → Prop}
    (h : (x s).OkIff c Q) (hf : ∀ a s', Q a s' → (f a s').OkIff d R) :
    ((x >>= f) s).OkIff (c ∧ d) R where
  ok := by
    rintro ⟨hc, hd⟩
    obtain ⟨a, s', hx, hq⟩ := h.ok hc
    obtain ⟨b, s'', hr, hR⟩ := (hf a s' hq).ok hd
    exact ⟨b, s'', by rw [bind_of_ok hx, hr], hR⟩
  only hr := by
    obtain ⟨a, s', hx, hr⟩ := bind_ok.1 hr
    exact ⟨h.only hx, (hf a s' (h.post hx)).only hr⟩

theorem okIff_assert_bind {P : Prop} [Decidable P] {f : Unit → Cm ε σ β} {s : σ}
    {R : β → σ → Prop} (h : P → (f () s).OkIff d R) : ((assert P >>= f) s).OkIff (P ∧ d) R where
  ok := by
    rintro ⟨hP, hd⟩
    rw [bind_of_ok (assert_true hP s)]
    exact (h hP).ok hd
  only hr := by
    obtain ⟨u, s', ha, hres⟩ := bind_ok.1 hr
    obtain ⟨hP, rfl⟩ := assert_ok.1 ha
    exact ⟨hP, (h hP).only hres⟩

theorem okIff_failIf_bind {P : Prop} [Decidable P] {e : ε} {f : Unit → Cm ε σ β} {s : σ}
    {R : β → σ → Prop} (h : ¬P → (f () s).OkIff d R) : ((failIf P e >>= f) s).OkIff (¬P ∧ d) R where
  ok := by
    rintro ⟨hP, hd⟩
    rw [bind_of_ok (failIf_false hP e s)]
    exact (h hP).ok hd
  only hr := by
    obtain ⟨u, s', ha, hres⟩ := bind_ok.1 hr
    obtain ⟨hP, rfl⟩ := failIf_ok.1 ha
    exact ⟨hP, (h hP).only hres⟩

/-- A loop whose rounds put out `out a`, one after the other. -/
theorem okIff_forM {body : α → Cm ε σ Unit} {C : α → Prop} {out : α → List β}
    {R : List β → σ → σ → Prop} (hnil : ∀ s, R [] s s)
    (happend : ∀ a b s s₁ s', R a s s₁ → R b s₁ s' → R (a ++ b) s s') {l : List α}
    (hbody : ∀ a ∈ l, ∀ s, (body a s).OkIff (C a) fun _ s' => R (out a) s s') (s : σ) :
    (l.forM body s).OkIff (∀ a ∈ l, C a) fun _ s' => R (l.flatMap out) s s' := by
  induction l generalizing s with
  | nil => exact OkIff.congr (c := True) (okIff_ret (hnil s)) (by simp)
  | cons a l ih =>
    refine OkIff.congr (c := C a ∧ ∀ a ∈ l, C a) ?_ (by simp)
    refine (hbody a List.mem_cons_self s).bind fun _ s₁ h₁ => ?_
    refine (ih (fun b hb => hbody b (List.mem_cons_of_mem a hb)) s₁).mono fun _ s' h => ?_
    exact happend _ _ _ _ _ h₁ h

/-- There is room for `l` behind the first `n` of `limit` places. -/
def FitsBehind (limit n : Nat) (l : List β) : Prop := l ≠ [] → n + l.length ≤ limit

theorem fitsBehind_append {limit n : Nat} {a b : List β} :
    FitsBehind limit n (a ++ b) ↔ FitsBehind limit n a ∧ FitsBehind limit (n + a.length) b := by
  rcases a with - | ⟨x, a⟩
  · simp [FitsBehind]
  rcases b with - | ⟨y, b⟩
  · simp [FitsBehind]
  · simp only [FitsBehind, List.cons_append, List.length_cons, List.length_append]
    simp
    omega

/-- The same for a loop that puts it out behind the first `pos s` of `limit` places. -/
theorem okIff_forM_room {body : α → Cm ε σ Unit} {C : α → Prop} {out : α → List β}
    {R : List β → σ → σ → Prop} {limit : Nat} (pos : σ → Nat) (hnil : ∀ s, R [] s s)
    (happend : ∀ a b s s₁ s', R a s s₁ → R b s₁ s' → R (a ++ b) s s')
    (hpos : ∀ a s s', R a s s' → pos s' = pos s + a.length) {l : List α}
    (hbody : ∀ a ∈ l, ∀ s, (body a s).OkIff (C a ∧ FitsBehind limit (pos s) (out a))
      fun _ s' => R (out a) s s') (s : σ) :
    (l.forM body s).OkIff ((∀ a ∈ l, C a) ∧ FitsBehind limit (pos s) (l.flatMap out))
      fun _ s' => R (l.flatMap out) s s' := by
  induction l generalizing s with
  | nil => exact OkIff.congr (c := True) (okIff_ret (hnil s)) (by simp [FitsBehind])
  | cons a l ih =>
    refine OkIff.congr (c := (C a ∧ FitsBehind limit (pos s) (out a)) ∧ (∀ a ∈ l, C a) ∧
      FitsBehind limit (pos s + (out a).length) (l.flatMap out)) ?_ ?_
    · refine (hbody a List.mem_cons_self s).bind fun _ s₁ h₁ => ?_
      rw [← hpos _ _ _ h₁]
      refine (ih (fun b hb => hbody b (List.mem_cons_of_mem a hb)) s₁).mono fun _ s' h => ?_
      exact happend _ _ _ _ _ h₁ h
    · rw [List.forall_mem_cons, List.flatMap_cons, fitsBehind_append]
      exact and_and_and_comm

end Run

/-! ## Lists put together -/

/-- `l` is put together from lists that `P` allows for each of the elements. -/
inductive Concat (P : α → List β → Prop) : List α → List β → Prop
  | nil : Concat P [] []
  | cons {a : α} {as : List α} {m l : List β} : P a m → Concat P as l → Concat P (a :: as) (m ++ l)

theorem Concat.flatMap {P : α → List β → Prop} {f : α → List β} {as : List α}
    (h : ∀ a ∈ as, P a (f a)) : Concat P as (as.flatMap f) := by
  induction as with
  | nil => exact .nil
  | cons a as ih =>
    rw [List.forall_mem_cons] at h
    rw [List.flatMap_cons]
    exact .cons h.1 (ih h.2)

/-- What the rounds of a loop put out, put together. -/
theorem forM_concat {P : α → List β → Prop} {I : σ → Prop} {R : List β → σ → σ → Prop}
    {body : α → Cm ε σ Unit} (hnil : ∀ s, R [] s s)
    (happend : ∀ m l s t s', R m s t → R l t s' → R (m ++ l) s s')
    (hbody : ∀ a m s t u, P a m → I s → body a s = .ok u t → I t ∧ R m s t) {as : List α}
    {l : List β}
    (h : Concat P as l) : ∀ s s' u, I s → as.forM body s = .ok u s' → I s' ∧ R l s s' := by
  induction h with
  | nil =>
    intro s s' u hs hr
    obtain ⟨-, rfl⟩ := Run.ok.inj hr
    exact ⟨hs, hnil s⟩
  | @cons a as m l ha _ ih =>
    intro s s' u hs hr
    have hr : (body a >>= fun _ => as.forM body) s = .ok u s' := hr
    obtain ⟨_, t, hfirst, hrest⟩ := bind_ok.1 hr
    obtain ⟨ht, hm⟩ := hbody a m s t _ ha hs hfirst
    obtain ⟨hs', hl⟩ := ih t s' u ht hrest
    exact ⟨hs', happend _ _ _ _ _ hm hl⟩

/-! ## Counting loops as loops over a list -/

theorem forUp_range' {body : Nat → Cm ε σ Unit} {n : Nat} : ∀ {m i : Nat} (s : σ), n ≤ i + m →
    forUp (fun _ i => decide (i < n)) body m i s = (List.range' i (n - i)).forM body s := by
  intro m
  induction m with
  | zero =>
    intro i s h
    rw [forUp_stop (by simp; omega), show n - i = 0 by omega]
    rfl
  | succ m ih =>
    intro i s h
    by_cases hi : i < n
    · rw [forUp_step (decide_eq_true hi), show n - i = n - (i + 1) + 1 by omega, List.range'_succ]
      exact bind_congr_apply s fun _ s' => ih s' (by omega)
    · rw [forUp_stop (by simp; omega), show n - i = 0 by omega]
      rfl

theorem forUp_range {body : Nat → Cm ε σ Unit} (n : Nat) (s : σ) :
    forUp (fun _ i => decide (i < n)) body n 0 s = (List.range n).forM body s := by
  rw [forUp_range' s (by omega), List.range_eq_range', Nat.sub_zero]

/-- The bound on the rounds is used up. -/
theorem forUp_zero {cond : σ → Nat → Bool} {body : Nat → Cm ε σ Unit} {i : Nat} {s : σ}
    (h : cond s i = true) : forUp cond body 0 i s = .spin := by
  rw [forUp]
  simp only [h, ↓reduceIte]

/-- Each round of a loop that came back with a result has done so. -/
theorem forUp_ok_round {body : Nat → Cm ε σ Unit} {n : Nat} : ∀ {m i : Nat} {s s' : σ} {u : Unit},
    forUp (fun _ i => decide (i < n)) body m i s = .ok u s' →
      ∀ j, i ≤ j → j < n → ∃ v t t', body j t = .ok v t' := by
  intro m
  induction m with
  | zero =>
    intro i s s' u h j hij hj
    rw [forUp_zero (decide_eq_true (by omega))] at h
    cases h
  | succ m ih =>
    intro i s s' u h j hij hj
    rw [forUp_step (decide_eq_true (by omega))] at h
    obtain ⟨v, t, hfirst, hrest⟩ := bind_ok.1 h
    by_cases hi : j = i
    · rw [hi]
      exact ⟨v, s, t, hfirst⟩
    · exact ih hrest j (by omega) hj

/-! ## A counter that wraps around -/

section
variable (body : Nat → Cm ε σ Unit) {n w : Nat}

/-- With a counter below `w`, the loop is as usual if `n` is. -/
theorem forUp_narrow (h : n < w) : ∀ (m : Nat) {i : Nat} (s : σ), i ≤ n →
    forUp (fun _ i => decide (i % w < n)) (fun i => body (i % w)) m i s =
      forUp (fun _ i => decide (i < n)) body m i s := by
  intro m
  induction m with
  | zero =>
    intro i s hi
    simp only [forUp, Nat.mod_eq_of_lt (Nat.lt_of_le_of_lt hi h)]
  | succ m ih =>
    intro i s hi
    simp only [forUp, Nat.mod_eq_of_lt (Nat.lt_of_le_of_lt hi h)]
    by_cases hlt : i < n
    · simp only [decide_eq_true hlt, ↓reduceIte]
      exact bind_congr_apply s fun _ s' => ih s' hlt
    · rw [if_neg (by simp [hlt]), if_neg (by simp [hlt])]

/-- A loop that ends counts to less than `w`. -/
theorem forUp_narrow_lt (hw : 0 < w) : ∀ {m i : Nat} {s s' : σ} {u : Unit},
    forUp (fun _ i => decide (i % w < n)) (fun i => body (i % w)) m i s = .ok u s' → n < w := by
  have hstop : ∀ {i : Nat}, decide (i % w < n) = false → n < w := fun h =>
    Nat.lt_of_le_of_lt (Nat.not_lt.1 (of_decide_eq_false h)) (Nat.mod_lt _ hw)
  intro m
  induction m with
  | zero =>
    intro i s s' u h
    cases hc : decide (i % w < n) with
    | false => exact hstop hc
    | true =>
      rw [forUp_zero hc] at h
      cases h
  | succ m ih =>
    intro i s s' u h
    cases hc : decide (i % w < n) with
    | false => exact hstop hc
    | true =>
      rw [forUp_step hc] at h
      obtain ⟨_, _, -, hrest⟩ := bind_ok.1 h
      exact ih hrest

end

/-- Rounds that do nothing are left out. -/
theorem forM_filter {body : α → Cm ε σ Unit} (skip : α → Bool) (l : List α) (s : σ) :
    l.forM (fun a => if skip a then pure () else body a) s =
      (l.filter fun a => !skip a).forM body s := by
  induction l generalizing s with
  | nil => rfl
  | cons a l ih =>
    by_cases h : skip a = true
    · rw [List.filter_cons_of_neg (by simp [h]), ← ih]
      show ((if skip a then pure () else body a) >>= fun _ => l.forM _) s = _
      rw [if_pos h, ret_bind]
    · rw [List.filter_cons_of_pos (by simp [h])]
      show ((if skip a then pure () else body a) >>= fun _ => l.forM _) s =
        (body a >>= fun _ => _) s
      rw [if_neg h]
      exact bind_congr_apply s fun _ s' => ih s'

/-- Rounds that do the same. -/
theorem forM_congr {body body' : α → Cm ε σ Unit} {l : List α}
    (h : ∀ a ∈ l, ∀ s, body a s = body' a s) (s : σ) : l.forM body s = l.forM body' s := by
  induction l generalizing s with
  | nil => rfl
  | cons a l ih =>
    rw [List.forall_mem_cons] at h
    show (body a >>= fun _ => l.forM body) s = (body' a >>= fun _ => l.forM body') s
    rw [bind_congr_left (h.1 s)]
    exact bind_congr_apply s fun _ s' => ih h.2 s'

theorem forM_map {body : β → Cm ε σ Unit} (f : α → β) (l : List α) (s : σ) :
    l.forM (fun a => body (f a)) s = (l.map f).forM body s := by
  induction l generalizing s with
  | nil => rfl
  | cons a l ih => exact bind_congr_apply s fun _ s' => ih s'

end Lib
