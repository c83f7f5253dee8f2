import Mathlib.Data.Set.Finite.Basic
import Mathlib.Logic.Relation
import Mathlib.Order.RelClasses
import Xallib.Lib.Run

/-!
# Descents along pointers

`descend visit`: a recursion that visits a block and goes on with the blocks the visit names, in
their order, until one of them fails. The pointers need not be those of a tree: they can lead back
to a block the descent comes from.

What has been used up before a visit is a `view` of the state. `step b i k`: the visit of `b` is
passed from `i` to `k`. `Next x y`: from the block and the view of `x`, the descent gets to those of
`y`: what the pointers before it lead to is passed. The descent comes back for some bound on its
depth if the visits it gets to come back and no chain of them is endless (`Visits.returns`), and
only then, where a step is taken from every state with its view (`reached_returns`,
`acc_of_descend`). Where finitely much can be reached, no endless chain is no cycle
(`acc_of_acyclic`, `acyclic_of_acc`).

Where the view is how much is used of something limited, a cycle that uses some cannot be gone round
for ever: the chains to look at are those of quiet visits, which use none (`Spends.acc`).
-/

namespace Lib

open Cm Run

section
variable {β ν ε σ : Type}

/-- Visit a block, and descend to the blocks the visit names (module doc). -/
def descend (visit : β → Cm ε σ (List β)) : Nat → β → Cm ε σ Unit
  | 0, _ => fun _ => .spin
  | n + 1, b => visit b >>= fun l => l.forM (descend visit n)

/-- The blocks of a list are passed one after the other. -/
inductive Through (R : β → ν → ν → Prop) : List β → ν → ν → Prop
  | nil {i : ν} : Through R [] i i
  | cons {b : β} {l : List β} {i j k : ν} : R b i j → Through R l j k → Through R (b :: l) i k

variable (kids : β → List β) (step : β → ν → ν → Prop)

/-- A chain of pointers leads from `b` to `c`. -/
def Linked (b c : β) : Prop := Relation.ReflTransGen (fun b c => c ∈ kids b) b c

/-- The descent from `b` is passed, at most `n` deep. -/
def PassesIn : Nat → β → ν → ν → Prop
  | 0, _, _, _ => False
  | n + 1, b, i, j => ∃ k, step b i k ∧ Through (PassesIn n) (kids b) k j

def Passes (b : β) (i j : ν) : Prop := ∃ n, PassesIn kids step n b i j

/-- The descent gets from `x` to `y` (module doc). -/
def Next (x y : β × ν) : Prop := ∃ k pre post, step x.1 x.2 k ∧ kids x.1 = pre ++ y.1 :: post ∧
  Through (Passes kids step) pre k y.2

end

section
variable {β ν : Type} {R R' : β → ν → ν → Prop} {l : List β} {b : β} {i j k : ν}

theorem Through.mono (hR : ∀ b i j, R b i j → R' b i j) (h : Through R l i j) :
    Through R' l i j := by
  induction h with
  | nil => exact .nil
  | cons hb _ ih => exact .cons (hR _ _ _ hb) ih

theorem Through.snoc (h : Through R l i j) (hb : R b j k) : Through R (l ++ [b]) i k := by
  induction h with
  | nil => exact .cons hb .nil
  | cons hc _ ih => exact .cons hc (ih hb)

end

namespace Cm

variable {β ε σ : Type} {body body' : β → Cm ε σ Unit}

theorem forM_cons (b : β) (l : List β) (s : σ) :
    (b :: l).forM body s = (body b >>= fun _ => l.forM body) s := rfl

theorem forM_cons_bind {α : Type} (b : β) (l : List β) (f : Unit → Cm ε σ α) (s : σ) :
    ((b :: l).forM body >>= f) s = (body b >>= fun _ => l.forM body >>= f) s :=
  bind_assoc_apply (body b) (fun _ => l.forM body) f s

theorem forM_append (l m : List β) (s : σ) :
    (l ++ m).forM body s = (l.forM body >>= fun _ => m.forM body) s := by
  induction l generalizing s with
  | nil => rfl
  | cons b l ih =>
    show (body b >>= fun _ => (l ++ m).forM body) s = ((body b >>= fun _ => l.forM body) >>= _) s
    rw [bind_assoc_apply]
    exact bind_congr_apply s fun _ t => ih t

theorem forM_append_bind {α : Type} (l m : List β) (f : Unit → Cm ε σ α) (s : σ) :
    ((l ++ m).forM body >>= f) s = (l.forM body >>= fun _ => m.forM body >>= f) s := by
  rw [bind_congr_left (forM_append l m s)]
  exact bind_assoc_apply (l.forM body) (fun _ => m.forM body) f s

/-- A loop over a list that does not use up its bounds, with larger ones. -/
theorem forM_mono (h : ∀ b s, body b s ≠ .spin → body' b s = body b s) (l : List β) :
    ∀ s, l.forM body s ≠ .spin → l.forM body' s = l.forM body s := by
  induction l with
  | nil => exact fun _ _ => rfl
  | cons b l ih =>
    intro s hs
    rw [forM_cons, bind_apply] at hs
    have hb : body' b s = body b s := h b s fun h0 => by rw [h0] at hs; exact hs rfl
    rw [forM_cons, forM_cons]
    refine bind_congr_ok hb fun _ t ht => ih t ?_
    rw [hb] at ht
    rw [ht] at hs
    exact hs

end Cm

section
variable {β ε σ : Type} {visit : β → Cm ε σ (List β)}

theorem descend_succ (n : Nat) (b : β) (s : σ) :
    descend visit (n + 1) b s = (visit b >>= fun l => l.forM (descend visit n)) s := rfl

theorem descend_mono {n m : Nat} (hnm : n ≤ m) :
    ∀ (b : β) (s : σ), descend visit n b s ≠ .spin → descend visit m b s = descend visit n b s := by
  induction n generalizing m with
  | zero => exact fun _ _ h => absurd rfl h
  | succ n ih =>
    obtain ⟨m, rfl⟩ : ∃ k, m = k + 1 := ⟨m - 1, by omega⟩
    intro b s hs
    rw [descend_succ] at hs ⊢
    refine bind_congr_ok rfl fun l t ht => forM_mono (ih (by omega)) l t ?_
    rw [bind_of_ok ht] at hs
    exact hs

end

/-! ## When a descent comes back -/

section
variable {β ν ε σ : Type}

/-- What a visit does: it names the blocks its own one points to, and takes a step. -/
structure Visits (visit : β → Cm ε σ (List β)) (kids : β → List β) (step : β → ν → ν → Prop)
    (I : σ → Prop) (view : σ → ν) : Prop where
  names : ∀ {b s l t}, I s → visit b s = .ok l t → l = kids b
  keep : ∀ {b s l t}, I s → visit b s = .ok l t → I t
  takes : ∀ {b s l t}, I s → visit b s = .ok l t → step b (view s) (view t)

variable {visit : β → Cm ε σ (List β)} {kids : β → List β} {step : β → ν → ν → Prop}
variable {I : σ → Prop} {view : σ → ν}

/-- A loop over blocks passes them, if each round does. -/
theorem forM_passes {n : Nat}
    (hn : ∀ b s u t, I s → descend visit n b s = .ok u t →
      I t ∧ PassesIn kids step n b (view s) (view t)) (l : List β) :
    ∀ s u t, I s → l.forM (descend visit n) s = .ok u t →
      I t ∧ Through (PassesIn kids step n) l (view s) (view t) := by
  induction l with
  | nil =>
    intro s u t hs hr
    obtain ⟨-, rfl⟩ := Run.ok.inj hr
    exact ⟨hs, .nil⟩
  | cons b l ih =>
    intro s u t hs hr
    rw [forM_cons] at hr
    obtain ⟨_, s₁, hb, hl⟩ := bind_ok.1 hr
    obtain ⟨h₁, hpass⟩ := hn b s _ s₁ hs hb
    obtain ⟨h₂, hthrough⟩ := ih s₁ u t h₁ hl
    exact ⟨h₂, .cons hpass hthrough⟩

variable (hv : Visits visit kids step I view)
include hv

theorem Visits.passes (n : Nat) :
    ∀ b s u t, I s → descend visit n b s = .ok u t →
      I t ∧ PassesIn kids step n b (view s) (view t) := by
  induction n with
  | zero =>
    intro b s u t _ hr
    cases hr
  | succ n ih =>
    intro b s u t hs hr
    rw [descend_succ] at hr
    obtain ⟨l, s₁, hvisit, hl⟩ := bind_ok.1 hr
    obtain ⟨h₂, hthrough⟩ := forM_passes ih l s₁ u t (hv.keep hs hvisit) hl
    rw [hv.names hs hvisit] at hthrough
    exact ⟨h₂, view s₁, hv.takes hs hvisit, hthrough⟩

/-- The loop over the blocks `post`, after `pre`, comes back if the descent to each of them does. -/
theorem Visits.loop_returns {x : β × ν} {k : ν} (hk : step x.1 x.2 k)
    (hret : ∀ c t, I t → Next kids step x (c, view t) → ∃ n, (descend visit n c t).Returns)
    (post : List β) :
    ∀ pre t, kids x.1 = pre ++ post → I t → Through (Passes kids step) pre k (view t) →
      ∃ n, (post.forM (descend visit n) t).Returns := by
  induction post with
  | nil => exact fun _ t _ _ _ => ⟨0, returns_ok () t⟩
  | cons c post ih =>
    intro pre t hkids ht hpre
    obtain ⟨n, hn⟩ := hret c t ht ⟨k, pre, post, hk, hkids, hpre⟩
    rcases hn.cases with ⟨u, t', hc⟩ | ⟨e, t', hc⟩
    · obtain ⟨ht', hpass⟩ := hv.passes n c t u t' ht hc
      obtain ⟨m, hm⟩ := ih (pre ++ [c]) t' (by rw [hkids, List.append_assoc]; rfl) ht'
        (hpre.snoc ⟨n, hpass⟩)
      refine ⟨max n m, ?_⟩
      have hc' : descend visit (max n m) c t = .ok u t' := by
        rw [descend_mono (Nat.le_max_left n m) c t (by rw [hc]; simp), hc]
      have hm' := forM_mono (fun b s => descend_mono (Nat.le_max_right n m) b s) post t' hm.ne_spin
      rw [forM_cons, bind_of_ok hc', hm']
      exact hm
    · refine ⟨n, ?_⟩
      rw [forM_cons, bind_of_fail hc]
      exact returns_fail e t'

/-- Where the visits it gets to come back and there is no endless chain, the descent comes back. -/
theorem Visits.returns {x : β × ν} (hacc : Acc (Function.swap (Next kids step)) x)
    (hret : ∀ y, Relation.ReflTransGen (Next kids step) x y → ∀ t, I t → view t = y.2 →
      (visit y.1 t).Returns) :
    ∀ s, I s → view s = x.2 → ∃ n, (descend visit n x.1 s).Returns := by
  induction hacc with
  | intro x _ ih =>
    intro s hs hx
    rcases (hret x .refl s hs hx).cases with ⟨l, s₁, hvisit⟩ | ⟨e, s₁, hvisit⟩
    · obtain rfl := hv.names hs hvisit
      have hk : step x.1 x.2 (view s₁) := hx ▸ hv.takes hs hvisit
      obtain ⟨n, hn⟩ := hv.loop_returns hk (fun c t ht hnext =>
        ih (c, view t) hnext (fun y hy => hret y (.head hnext hy)) t ht rfl) (kids x.1) [] s₁ rfl
          (hv.keep hs hvisit) .nil
      exact ⟨n + 1, by rw [descend_succ, bind_of_ok hvisit]; exact hn⟩
    · refine ⟨1, ?_⟩
      rw [descend_succ, bind_of_fail hvisit]
      exact returns_fail e s₁

/-- The same of several blocks one after the other. -/
theorem Visits.forM_returns {dom : β → Prop}
    (hret : ∀ b s, dom b → I s → ∃ n, (descend visit n b s).Returns) (l : List β) :
    ∀ s, (∀ b ∈ l, dom b) → I s → ∃ n, (l.forM (descend visit n) s).Returns := by
  induction l with
  | nil => exact fun s _ _ => ⟨0, returns_ok () s⟩
  | cons b l ih =>
    intro s hl hs
    rw [List.forall_mem_cons] at hl
    obtain ⟨n, hn⟩ := hret b s hl.1 hs
    rcases hn.cases with ⟨u, t, hb⟩ | ⟨e, t, hb⟩
    · obtain ⟨m, hm⟩ := ih t hl.2 (hv.passes n b s u t hs hb).1
      refine ⟨max n m, ?_⟩
      have hb' : descend visit (max n m) b s = .ok u t := by
        rw [descend_mono (Nat.le_max_left n m) b s (by rw [hb]; simp), hb]
      have hm' := forM_mono (fun b s => descend_mono (Nat.le_max_right n m) b s) l t hm.ne_spin
      rw [forM_cons, bind_of_ok hb', hm']
      exact hm
    · refine ⟨n, ?_⟩
      rw [forM_cons, bind_of_fail hb]
      exact returns_fail e t

end

/-! ## Where a descent gets to -/

section
variable {β ν : Type} {kids : β → List β} {step : β → ν → ν → Prop} {P : ν → Prop}

theorem Next.mem {x y : β × ν} (h : Next kids step x y) : y.1 ∈ kids x.1 := by
  obtain ⟨k, pre, post, -, hkids, -⟩ := h
  simp [hkids]

theorem Through.keeps {R : β → ν → ν → Prop} (hR : ∀ b i j, R b i j → P i → P j) {l : List β}
    {i j : ν} (h : Through R l i j) (hi : P i) : P j := by
  induction h with
  | nil => exact hi
  | cons hb _ ih => exact ih (hR _ _ _ hb hi)

/-- What every step keeps is kept where the descent gets to. -/
theorem Next.keeps (hP : ∀ b i k, step b i k → P i → P k) {x y : β × ν} (h : Next kids step x y)
    (hx : P x.2) : P y.2 := by
  have hpass : ∀ n b i j, PassesIn kids step n b i j → P i → P j := by
    intro n
    induction n with
    | zero => exact fun _ _ _ h => h.elim
    | succ n ih =>
      rintro b i j ⟨k, hk, h⟩ hi
      exact h.keeps ih (hP b i k hk hi)
  obtain ⟨k, pre, post, hk, -, hpre⟩ := h
  exact hpre.keeps (fun b i j ⟨n, h⟩ => hpass n b i j h) (hP x.1 x.2 k hk hx)

theorem reached_inside (dom : β → Prop) (P : ν → Prop) (hin : ∀ {b c}, c ∈ kids b → dom c)
    (hP : ∀ b i k, step b i k → P i → P k) {x y : β × ν}
    (h : Relation.ReflTransGen (Next kids step) x y) (hx : dom x.1 ∧ P x.2) :
    dom y.1 ∧ P y.2 := by
  induction h with
  | refl => exact hx
  | tail _ hnext ih => exact ⟨hin hnext.mem, hnext.keeps hP ih.2⟩

end

/-! ## Cycles -/

section
variable {α : Type} {r : α → α → Prop} {x y : α}

/-- What is reached from where no chain is endless is on no cycle. -/
theorem acyclic_of_acc (h : Acc (Function.swap r) x) (hy : Relation.ReflTransGen r x y) :
    ¬Relation.TransGen r y y := by
  have hacc : Acc (Function.swap r) y := by
    induction hy with
    | refl => exact h
    | tail _ hr ih => exact ih.inv hr
  intro hcyc
  have hloop := Relation.transGen_swap.2 hcyc
  clear hcyc hy
  induction hacc.transGen with
  | intro y _ ih => exact ih y hloop hacc hloop

/-- Where finitely much is reached and none of it is on a cycle, no chain is endless. -/
theorem acc_of_acyclic (hfin : {y | Relation.ReflTransGen r x y}.Finite)
    (h : ∀ y, Relation.ReflTransGen r x y → ¬Relation.TransGen r y y) :
    Acc (Function.swap r) x := by
  let r' : {y | Relation.ReflTransGen r x y} → {y | Relation.ReflTransGen r x y} → Prop :=
    fun y z => r z.1 y.1
  have hfin' : Finite {y | Relation.ReflTransGen r x y} := hfin
  have htrans : IsTrans _ (Relation.TransGen r') := ⟨fun _ _ _ => Relation.TransGen.trans⟩
  have hirrefl : Std.Irrefl (Relation.TransGen r') := by
    refine ⟨fun y hy => h y.1 y.2 (Relation.transGen_swap.1 ?_)⟩
    exact hy.lift Subtype.val fun _ _ hr => hr
  have hwf := Finite.wellFounded_of_trans_of_irrefl (Relation.TransGen r')
  have hreached : ∀ y : {y | Relation.ReflTransGen r x y}, Acc (Function.swap r) y.1 := by
    intro y
    induction hwf.apply y with
    | intro y _ ih => exact ⟨y.1, fun z hz => ih ⟨z, y.2.tail hz⟩ (.single hz)⟩
  exact hreached ⟨x, .refl⟩

end

/-! ## When it does not -/

section
variable {β ν ε σ : Type} {visit : β → Cm ε σ (List β)} {kids : β → List β}
variable {step : β → ν → ν → Prop} {J : σ → Prop} {view : σ → ν}

/-- Blocks that are passed, each of them, are passed by the loop. -/
theorem forM_through {n : Nat}
    (hn : ∀ b i j s, Passes kids step b i j → J s → view s = i → descend visit n b s ≠ .spin →
      ∃ t, descend visit n b s = .ok () t ∧ J t ∧ view t = j) {l : List β} {i j : ν}
    (h : Through (Passes kids step) l i j) :
    ∀ s, J s → view s = i → l.forM (descend visit n) s ≠ .spin →
      ∃ t, l.forM (descend visit n) s = .ok () t ∧ J t ∧ view t = j := by
  induction h with
  | nil => exact fun s hs hi _ => ⟨s, rfl, hs, hi⟩
  | cons hb _ ih =>
    intro s hs hi hr
    rw [forM_cons] at hr ⊢
    obtain ⟨t, ht, hJt, hview⟩ := hn _ _ _ s hb hs hi fun h0 => by
      rw [bind_apply, h0] at hr
      exact hr rfl
    rw [bind_of_ok ht] at hr ⊢
    exact ih t hJt hview hr

variable (hstep : ∀ b i k s, step b i k → J s → view s = i →
  ∃ t, visit b s = .ok (kids b) t ∧ J t ∧ view t = k)
include hstep

theorem descend_passes (n : Nat) :
    ∀ b i j s, Passes kids step b i j → J s → view s = i → descend visit n b s ≠ .spin →
      ∃ t, descend visit n b s = .ok () t ∧ J t ∧ view t = j := by
  induction n with
  | zero => exact fun _ _ _ _ _ _ _ h => absurd rfl h
  | succ n ih =>
    rintro b i j s ⟨_ | m, hpass⟩ hs hi hr
    · exact hpass.elim
    · obtain ⟨k, hk, hthrough⟩ := hpass
      obtain ⟨t, hvisit, ht, hview⟩ := hstep b i k s hk hs hi
      rw [descend_succ, bind_of_ok hvisit] at hr ⊢
      exact forM_through ih (hthrough.mono fun _ _ _ h => ⟨m, h⟩) t ht hview hr

/-- A descent that ends goes on where it gets to. -/
theorem descend_next {x y : β × ν} (h : Next kids step x y) {n : Nat} {s : σ} (hs : J s)
    (hx : view s = x.2) (hr : descend visit (n + 1) x.1 s ≠ .spin) :
    ∃ t f, J t ∧ view t = y.2 ∧
      descend visit (n + 1) x.1 s = (descend visit n y.1 >>= f) t := by
  obtain ⟨k, pre, post, hk, hkids, hpre⟩ := h
  obtain ⟨t, hvisit, ht, hview⟩ := hstep x.1 x.2 k s hk hs hx
  rw [descend_succ, bind_of_ok hvisit, hkids, forM_append] at hr ⊢
  obtain ⟨t', hloop, ht', hview'⟩ := forM_through (descend_passes hstep n) hpre t ht hview
    fun h0 => hr (by rw [bind_apply, h0])
  exact ⟨t', fun _ => post.forM (descend visit n), ht', hview', by rw [bind_of_ok hloop]; rfl⟩

/-- Where a descent ends, there is no endless chain. -/
theorem acc_of_descend (n : Nat) : ∀ (x : β × ν) (s : σ), J s → view s = x.2 →
    descend visit n x.1 s ≠ .spin → Acc (Function.swap (Next kids step)) x := by
  induction n with
  | zero => exact fun _ _ _ _ h => absurd rfl h
  | succ n ih =>
    intro x s hs hx hr
    refine ⟨x, fun y hnext => ?_⟩
    obtain ⟨t, f, ht, hview, he⟩ := descend_next hstep hnext hs hx hr
    refine ih y t ht hview fun h0 => hr ?_
    rw [he, bind_apply, h0]

/-- Where a descent comes back, so does every visit it gets to. -/
theorem reached_returns {x y : β × ν} (h : Relation.ReflTransGen (Next kids step) x y) :
    ∀ n s, J s → view s = x.2 → (descend visit n x.1 s).Returns →
      ∃ t, J t ∧ view t = y.2 ∧ (visit y.1 t).Returns := by
  induction h using Relation.ReflTransGen.head_induction_on with
  | refl =>
    intro n s hs hx hr
    cases n with
    | zero => exact absurd rfl hr.ne_spin
    | succ n => exact ⟨s, hs, hx, hr.of_bind⟩
  | head hnext _ ih =>
    intro n s hs hx hr
    cases n with
    | zero => exact absurd rfl hr.ne_spin
    | succ n =>
      obtain ⟨t, f, ht, hview, he⟩ := descend_next hstep hnext hs hx hr.ne_spin
      rw [he] at hr
      exact ih n t ht hview hr.of_bind

/-- On a cycle the descent does not end. -/
theorem descend_spin {x : β × ν} (h : Relation.TransGen (Next kids step) x x) (n : Nat) {s : σ}
    (hs : J s) (hx : view s = x.2) : descend visit n x.1 s = .spin := by
  by_contra hne
  exact acyclic_of_acc (acc_of_descend hstep n x s hs hx hne) .refl h

end

/-! ## Something limited -/

section
variable {β : Type}

/-- The chains of visits that use nothing up. -/
def QuietNext (kids : β → List β) (quiet : β → Prop) (b c : β) : Prop :=
  Next kids (fun b (_ _ : Unit) => quiet b) (b, ()) (c, ())

/-- A step never gives back anything that is used, is quiet if it uses nothing, and at most `limit`
can be used. -/
structure Spends (step : β → Nat → Nat → Prop) (quiet : β → Prop) (limit : Nat) : Prop where
  le : ∀ {b i k}, step b i k → i ≤ k
  limited : ∀ {b i k}, step b i k → k ≤ limit
  quiet : ∀ {b i}, step b i i → quiet b

section
variable {kids : β → List β} {quiet : β → Prop} {ε σ : Type} {visit : β → Cm ε σ (List β)}
variable {J : σ → Prop} (hJ : ∀ b s, quiet b → J s → ∃ t, visit b s = .ok (kids b) t ∧ J t)
include hJ

/-- Where a descent ends, no chain of quiet visits is endless. -/
theorem quiet_acc {n : Nat} {b : β} {s : σ} (hs : J s) (h : descend visit n b s ≠ .spin) :
    Acc (Function.swap (QuietNext kids quiet)) b := by
  have hstep : ∀ (b : β) (i k : Unit) (s : σ), quiet b → J s → () = i →
      ∃ t, visit b s = .ok (kids b) t ∧ J t ∧ () = k := by
    intro b i k s hq hs _
    obtain ⟨t, ht, hJt⟩ := hJ b s hq hs
    exact ⟨t, ht, hJt, rfl⟩
  exact InvImage.accessible (fun b => (b, ())) (acc_of_descend hstep n (b, ()) s hs rfl h)

theorem quiet_spin {b : β} (h : Relation.TransGen (QuietNext kids quiet) b b) (n : Nat) {s : σ}
    (hs : J s) : descend visit n b s = .spin := by
  by_contra hne
  exact acyclic_of_acc (quiet_acc hJ hs hne) .refl h

end

variable {kids : β → List β} {step : β → Nat → Nat → Prop} {quiet : β → Prop} {limit : Nat}

/-- What is passed without using anything is passed quietly. -/
theorem Through.spends (limit : Nat) {R : β → Nat → Nat → Prop} {Q : β → Unit → Unit → Prop}
    (hR : ∀ b i j, R b i j → i ≤ j ∧ (j ≤ limit ∨ limit < i) ∧ (j = i → Q b () ()))
    {l : List β} {i j : Nat} (h : Through R l i j) :
    i ≤ j ∧ (j ≤ limit ∨ limit < i) ∧ (j = i → Through Q l () ()) := by
  induction h with
  | nil => exact ⟨Nat.le_refl _, by omega, fun _ => .nil⟩
  | cons hb _ ih =>
    obtain ⟨hle, hlim, hq⟩ := hR _ _ _ hb
    obtain ⟨hle', hlim', hq'⟩ := ih
    exact ⟨by omega, by omega, fun he => .cons (hq (by omega)) (hq' (by omega))⟩

variable (hs : Spends step quiet limit)
include hs

theorem Spends.passesIn (n : Nat) : ∀ b i j, PassesIn kids step n b i j →
    i ≤ j ∧ (j ≤ limit ∨ limit < i) ∧
      (j = i → PassesIn kids (fun b (_ _ : Unit) => quiet b) n b () ()) := by
  induction n with
  | zero => exact fun _ _ _ h => h.elim
  | succ n ih =>
    rintro b i j ⟨k, hk, h⟩
    obtain ⟨hle, hlim, hq⟩ := h.spends limit ih
    have hik := hs.le hk
    have hkl := hs.limited hk
    refine ⟨by omega, by omega, fun he => ⟨(), ?_, hq (by omega)⟩⟩
    obtain rfl : k = i := by omega
    exact hs.quiet hk

theorem Spends.next {b c : β} {i j : Nat} (h : Next kids step (b, i) (c, j)) :
    i ≤ j ∧ j ≤ limit ∧ (j = i → QuietNext kids quiet b c) := by
  obtain ⟨k, pre, post, hk, hkids, hpre⟩ := h
  have hik : i ≤ k := hs.le hk
  have hkl := hs.limited hk
  obtain ⟨hle, hlim, hq⟩ := hpre.spends limit
    (Q := Passes kids fun b (_ _ : Unit) => quiet b) fun b i j ⟨n, h⟩ => by
      obtain ⟨hle, hlim, hq⟩ := hs.passesIn n b i j h
      exact ⟨hle, hlim, fun he => ⟨n, hq he⟩⟩
  have hkj : k ≤ j := hle
  refine ⟨by omega, by omega, fun he => ⟨(), pre, post, ?_, hkids, hq (show j = k by omega)⟩⟩
  obtain rfl : k = i := by omega
  exact hs.quiet hk

/-- Where no chain of quiet visits is endless, none is: the induction is on what is left and, where
nothing is used, on the chain. -/
theorem Spends.acc (hacc : ∀ b, Acc (Function.swap (QuietNext kids quiet)) b) (m : Nat) :
    ∀ b i, limit - i = m → Acc (Function.swap (Next kids step)) (b, i) := by
  induction m using Nat.strongRecOn with
  | ind m ihm =>
    intro b
    induction hacc b with
    | intro b _ ihb =>
      intro i hm
      refine ⟨(b, i), ?_⟩
      rintro ⟨c, j⟩ hnext
      obtain ⟨hle, hlim, hq⟩ := hs.next hnext
      rcases Nat.eq_or_lt_of_le hle with he | hlt
      · exact ihb c (hq he.symm) j (by omega)
      · exact ihm (limit - j) (by omega) c j rfl

end

end Lib
