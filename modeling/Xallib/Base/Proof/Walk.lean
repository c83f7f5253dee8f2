import Xallib.Base.Proof.Tree
import Xallib.Lib.Preorder

/-!
# The walk over an index

* `walk_visits`: over an indexed tree, the walk is the calls of the callback for the slots in
  preorder (`visits`).
* `walk_returns`: a walk that returns 0 has met every slot that is listed (`Listed`), each a
  directory or a regular file, and none of them lists the root again.
* `walk_partial`: and where that holds, the walk over a partial tree returns 0.
-/

namespace Xallib

open Lib Lib.Forest Lib.Cm Run

variable {δ σ : Type}

/-- A directory or a regular file. -/
def Typed (v : XalInode) : Prop := v.ftype = ftDir ∨ v.ftype = ftRegFile

/-- The calls of a callback, one after the other. -/
def runCalls (cb : Option (WalkCb σ)) : List (Nat × Nat) → Cm Err σ Unit
  | [] => pure ()
  | c :: calls => callCb cb c.1 c.2 >>= fun _ => runCalls cb calls

theorem runCalls_eq (cb : Option (WalkCb σ)) (calls : List (Nat × Nat)) (t : σ) :
    runCalls cb calls t = calls.forM (fun c => callCb cb c.1 c.2) t := by
  induction calls generalizing t with
  | nil => rfl
  | cons c calls ih => exact bind_congr_apply t fun _ t' => ih t'

section
variable {xal : Xal δ} {cb : Option (WalkCb σ)}

/-- The loop of `_walk` over the children from `base` on. -/
def walkKids (xal : Xal δ) (cb : Option (WalkCb σ)) (fuel base count depth n i : Nat) :
    Cm Err σ Unit :=
  forUp (fun _ i => decide (i < count)) (fun i => walk xal cb fuel (base + i) depth) n i

theorem walk_dir (hd : xal.dirty = false) {slot : Nat}
    (ht : (xal.store.inodes.memory slot).ftype = ftDir) (fuel depth : Nat) (t : σ) :
    walk xal cb (fuel + 1) slot depth t = (callCb cb slot depth >>= fun _ =>
      walkKids xal cb fuel (xal.store.inodes.memory slot).content.idx
        (xal.store.inodes.memory slot).content.count (depth + 1)
        (xal.store.inodes.memory slot).content.count 0) t := by
  show (failIf (xal.dirty = true) _ >>= _) t = _
  rw [bind_of_ok (failIf_false (by rw [hd]; exact Bool.false_ne_true) _ _)]
  simp only [if_pos ht]
  rfl

theorem walk_file (hd : xal.dirty = false) {slot : Nat}
    (ht : (xal.store.inodes.memory slot).ftype = ftRegFile) (fuel depth : Nat) (t : σ) :
    walk xal cb (fuel + 1) slot depth t = callCb cb slot depth t := by
  show (failIf (xal.dirty = true) _ >>= _) t = _
  rw [bind_of_ok (failIf_false (by rw [hd]; exact Bool.false_ne_true) _ _)]
  simp only [if_neg (by rw [ht]; decide : (xal.store.inodes.memory slot).ftype ≠ ftDir), if_pos ht]
  exact bind_ret_apply _ t

/-- The walk calls the callback, and itself for the children. -/
theorem walk_recurses (hd : xal.dirty = false) : Recurses (fun v => (dents v).1)
    (fun v => (dents v).2) xal.store.inodes.memory Typed (callCb cb) (walk xal cb) := by
  intro fuel slot depth t ht
  show _ = (callCb cb slot depth >>= fun _ =>
    walkKids xal cb fuel (dents (xal.store.inodes.memory slot)).1
      (dents (xal.store.inodes.memory slot)).2 (depth + 1)
      (dents (xal.store.inodes.memory slot)).2 0) t
  cases ht with
  | inl hdir => rw [walk_dir hd hdir, dents_dir hdir]
  | inr hreg =>
    rw [walk_file hd hreg, dents_of_ne (by rw [hreg]; decide)]
    rw [← bind_ret_apply (callCb cb slot depth) t]
    exact bind_congr_apply t fun _ t' => (forUp_stop (by simp) 0).symm

/-- The walk from the root of an indexed tree. -/
theorem walk_visits (hd : xal.dirty = false) {v : XalInode} {k : Forest XalInode}
    {p slot lo depth fuel : Nat} {t : σ}
    (hp : Placed Node xal.store.inodes.memory (.cons v k .nil) p slot lo)
    (ht : ∀ u ∈ (Forest.cons v k .nil).nodes, Typed u) (hfuel : k.size + 1 ≤ fuel) :
    walk xal cb fuel slot depth t = runCalls cb (visits (.cons v k .nil) slot lo depth) t := by
  rw [runCalls_eq]
  exact (walk_recurses hd).visits t hp ht hfuel

end

/-! ## Partial trees -/

/-- The slots the directories list, from `root` on. -/
inductive Listed (mem : Nat → XalInode) (root : Nat) : Nat → Prop
  | root : Listed mem root root
  | child {d i : Nat} : Listed mem root d → InDents (mem d) i → Listed mem root i

/-- What the slots `root` lists are like where the walk returns 0. -/
structure Walkable (mem : Nat → XalInode) (root : Nat) : Prop where
  typed : ∀ i, Listed mem root i → Typed (mem i)
  acyclic : ∀ i, Listed mem root i → ¬InDents (mem i) root

/-- A callback that returns 0. -/
def ReturnsZero (cb : Option (WalkCb σ)) : Prop :=
  ∀ inode level t, ∃ t', callCb cb inode level t = .ok () t'

section
variable {xal : Xal δ} {cb : Option (WalkCb σ)}

/-- The walk from `slot` returns 0, within `fuel` levels. -/
def Walks (xal : Xal δ) (cb : Option (WalkCb σ)) (fuel slot : Nat) : Prop :=
  ∃ depth t t', walk xal cb fuel slot depth t = .ok () t'

/-- The rounds of a loop that returns have returned. -/
theorem walks_of_walkKids {fuel base count depth n i : Nat} {t t' : σ}
    (h : walkKids xal cb fuel base count depth n i t = .ok () t') (j : Nat) (hij : i ≤ j)
    (hj : j < count) : Walks xal cb fuel (base + j) := by
  obtain ⟨_, t₁, t₂, hround⟩ := forUp_ok_round h j hij hj
  exact ⟨depth, t₁, t₂, hround⟩

/-- A walk that returns 0 has met a directory or a regular file, and has walked its children. -/
theorem Walks.step {fuel slot : Nat} (h : Walks xal cb fuel slot) :
    xal.dirty = false ∧ Typed (xal.store.inodes.memory slot) ∧
      ∀ i, InDents (xal.store.inodes.memory slot) i → ∃ m < fuel, Walks xal cb m i := by
  obtain ⟨depth, t, t', h⟩ := h
  cases fuel with
  | zero => cases h
  | succ fuel =>
    have hd : xal.dirty = false := by
      cases hd : xal.dirty with
      | false => rfl
      | true =>
        have h : (failIf (xal.dirty = true) _ >>= _) t = _ := h
        rw [bind_of_fail (failIf_true hd _ _)] at h
        cases h
    refine ⟨hd, ?_⟩
    by_cases hdir : (xal.store.inodes.memory slot).ftype = ftDir
    · rw [walk_dir hd hdir] at h
      obtain ⟨_, t₁, -, h⟩ := bind_ok.1 h
      refine ⟨.inl hdir, fun i hi => ⟨fuel, Nat.lt_succ_self _, ?_⟩⟩
      rw [inDents_dir hdir] at hi
      obtain ⟨j, rfl⟩ := Nat.exists_eq_add_of_le hi.1
      exact walks_of_walkKids h j (Nat.zero_le _) (by omega)
    · refine ⟨?_, fun i hi => absurd hi (not_inDents_of_ne hdir)⟩
      by_cases hreg : (xal.store.inodes.memory slot).ftype = ftRegFile
      · exact .inr hreg
      · have h : (failIf (xal.dirty = true) _ >>= _) t = _ := h
        rw [bind_of_ok (failIf_false (by rw [hd]; exact Bool.false_ne_true) _ _)] at h
        simp only [if_neg hdir, if_neg hreg] at h
        obtain ⟨_, _, -, h⟩ := bind_ok.1 h
        cases h

theorem Walks.listed {fuel root slot : Nat} (h : Walks xal cb fuel root)
    (hl : Listed xal.store.inodes.memory root slot) : ∃ m ≤ fuel, Walks xal cb m slot := by
  induction hl with
  | root => exact ⟨fuel, Nat.le_refl _, h⟩
  | child _ hi ih =>
    obtain ⟨m, hm, hw⟩ := ih
    obtain ⟨m', hm', hw'⟩ := hw.step.2.2 _ hi
    exact ⟨m', by omega, hw'⟩

/-- What a walk that returns 0 has met (module doc). -/
theorem walk_returns {root : Nat} : ∀ {fuel : Nat}, Walks xal cb fuel root →
    xal.dirty = false ∧ Walkable xal.store.inodes.memory root := by
  intro fuel
  induction fuel using Nat.strongRecOn with
  | ind fuel ih =>
    intro h
    refine ⟨h.step.1, ⟨fun i hi => ?_, fun i hi hr => ?_⟩⟩
    · obtain ⟨m, -, hw⟩ := h.listed hi
      exact hw.step.2.1
    · -- a slot that lists the root would make the walk shorter than itself
      obtain ⟨m, hm, hw⟩ := h.listed hi
      obtain ⟨m', hm', hw'⟩ := hw.step.2.2 _ hr
      exact (ih m' (by omega) hw').2.acyclic i hi hr

/-- The loop over the first `m` of the siblings `f`, where these are listed from slot 0. -/
theorem walkKids_partial (hd : xal.dirty = false) (hcb : ReturnsZero cb)
    (hw : Walkable xal.store.inodes.memory 0) {f : Forest XalInode} :
    ∀ {p base i lo depth fuel m n : Nat} (t : σ),
      Placed Partial xal.store.inodes.memory f p (base + i) lo → m ≤ f.width → m ≤ n →
      f.size ≤ fuel → (∀ j, i ≤ j → j < i + m → Listed xal.store.inodes.memory 0 (base + j)) →
      ∃ t', walkKids xal cb fuel base (i + m) depth n i t = .ok () t' := by
  induction f with
  | nil =>
    intro p base i lo depth fuel m n t _ hm _ _ _
    unfold walkKids
    rw [forUp_stop (by rw [width_nil] at hm; simp [Nat.le_zero.1 hm])]
    exact ⟨t, rfl⟩
  | cons v k r ihk ihr =>
    intro p base i lo depth fuel m n t hp hm hn hfuel hl
    obtain ⟨hmem, hK, hkids, hrest⟩ := hp
    cases m with
    | zero =>
      unfold walkKids
      rw [forUp_stop (by simp)]
      exact ⟨t, rfl⟩
    | succ m =>
      simp only [size_cons] at hfuel
      simp only [width_cons] at hm
      obtain ⟨fuel, rfl⟩ : ∃ a, fuel = a + 1 := ⟨fuel - 1, by omega⟩
      obtain ⟨n, rfl⟩ : ∃ a, n = a + 1 := ⟨n - 1, by omega⟩
      have hi := hl i (Nat.le_refl _) (by omega)
      have hone : ∃ t', walk xal cb (fuel + 1) (base + i) depth t = .ok () t' := by
        obtain ⟨t₁, h₁⟩ := hcb (base + i) depth t
        rcases hw.typed _ hi with hdir | hreg
        · rw [walk_dir hd hdir, bind_of_ok h₁]
          have hac := hw.acyclic _ hi
          rw [inDents_dir hdir] at hac
          rw [Partial, ← hmem, dents_dir hdir] at hK
          by_cases h0 : (xal.store.inodes.memory (base + i)).content.count = 0
          · unfold walkKids
            rw [h0, forUp_stop (by simp)]
            exact ⟨t₁, rfl⟩
          · obtain ⟨hidx, hle⟩ : (xal.store.inodes.memory (base + i)).content.idx = lo ∧
                (xal.store.inodes.memory (base + i)).content.count ≤ k.width := by
              rcases hK with h | h | h
              · exact absurd h h0
              · exact absurd ⟨Nat.le_of_eq h, by simp only at h; omega⟩ hac
              · exact h
            have := @ihk (base + i) lo 0 (lo + k.width) (depth + 1) fuel
              (xal.store.inodes.memory (base + i)).content.count
              (xal.store.inodes.memory (base + i)).content.count t₁ hkids hle (Nat.le_refl _)
              (by omega) fun j _ hj => .child hi ((inDents_dir hdir).2 (by omega))
            rw [hidx]
            simpa using this
        · rw [walk_file hd hreg]
          exact ⟨t₁, h₁⟩
      obtain ⟨t₁, h₁⟩ := hone
      unfold walkKids
      rw [forUp_step (decide_eq_true (by omega)), bind_of_ok h₁,
        show i + (m + 1) = i + 1 + m by omega]
      exact ihr t₁ hrest (by omega) (by omega) (by omega) fun j h1 h2 => hl j (by omega) (by omega)

/-- The walk over a partial tree at slot 0 (module doc). -/
theorem walk_partial (hd : xal.dirty = false) (hcb : ReturnsZero cb)
    (hw : Walkable xal.store.inodes.memory 0) {v : XalInode} {k : Forest XalInode}
    {p lo depth fuel : Nat} (t : σ)
    (hp : Placed Partial xal.store.inodes.memory (.cons v k .nil) p 0 lo)
    (hfuel : k.size + 1 ≤ fuel) :
    ∃ t', walk xal cb fuel 0 depth t = .ok () t' := by
  have hkids : ∃ t', walkKids xal cb fuel 0 (0 + 1) depth 1 0 t = .ok () t' :=
    walkKids_partial hd hcb hw t hp (by simp) (Nat.le_refl _)
      (by simp only [size_cons, size_nil]; omega) fun j _ hj => by
        obtain rfl : j = 0 := by omega
        exact .root
  obtain ⟨t', h⟩ := hkids
  unfold walkKids at h
  rw [forUp_step (by simp)] at h
  obtain ⟨_, t₁, h₁, -⟩ := bind_ok.1 h
  exact ⟨t₁, h₁⟩

end

end Xallib
