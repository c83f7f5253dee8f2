import Xallib.Lib.Arena
import Xallib.Lib.Descent
import Xallib.Lib.Loop

/-!
# Recursions over trees in an arena

A function `Recurses` if it does something at a slot and then calls itself for the children of the
slot, one after the other. From the root of a placed tree it does so at all slots, in preorder
(`Recurses.visits`, `Recurses.visits_of_ok`).
-/

namespace Lib

open Forest Cm

variable {β ε σ : Type}

/-- What `call` does where a value with `P` is, if it may still go one level down (module doc). -/
def Recurses (first count : β → Nat) (mem : Nat → β) (P : β → Prop) (body : Nat → Nat → Cm ε σ Unit)
    (call : Nat → Nat → Nat → Cm ε σ Unit) : Prop :=
  ∀ fuel slot depth s, P (mem slot) → call (fuel + 1) slot depth s = (body slot depth >>= fun _ =>
    forUp (fun _ j => decide (j < count (mem slot)))
      (fun j => call fuel (first (mem slot) + j) (depth + 1)) (count (mem slot)) 0) s

variable {parent first count : β → Nat} {mem : Nat → β} {P : β → Prop}
  {body : Nat → Nat → Cm ε σ Unit} {call : Nat → Nat → Nat → Cm ε σ Unit}

/-- The calls for siblings, from the one at `base + i` on. -/
theorem Recurses.siblings (h : Recurses first count mem P body call) {f : Forest β} :
    ∀ {p base i lo depth fuel n : Nat} {s : σ},
      Placed (Fits parent first count) mem f p (base + i) lo → (∀ v ∈ f.nodes, P v) →
      f.size ≤ fuel → f.width ≤ n →
      forUp (fun _ j => decide (j < i + f.width)) (fun j => call fuel (base + j) depth) n i s =
        (visits f (base + i) lo depth).forM (fun x => body x.1 x.2) s := by
  induction f with
  | nil =>
    intro p base i lo depth fuel n s _ _ _ _
    rw [forUp_stop (by simp)]
    rfl
  | cons v k r ihk ihr =>
    intro p base i lo depth fuel n s hp hP hfuel hn
    obtain ⟨hmem, ⟨-, hcount, hfirst⟩, hkids, hrest⟩ := hp
    simp only [size_cons] at hfuel
    simp only [width_cons] at hn
    obtain ⟨fuel, rfl⟩ : ∃ m, fuel = m + 1 := ⟨fuel - 1, by omega⟩
    obtain ⟨n, rfl⟩ : ∃ m, n = m + 1 := ⟨n - 1, by omega⟩
    have hbelow : ∀ t, forUp (fun _ j => decide (j < count v))
        (fun j => call fuel (first v + j) (depth + 1)) (count v) 0 t =
          (visits k lo (lo + k.width) (depth + 1)).forM (fun x => body x.1 x.2) t := by
      intro t
      have hPk : ∀ u ∈ k.nodes, P u := fun u hu => hP u (by simp [nodes, hu])
      cases k with
      | nil =>
        rw [hcount, forUp_stop (by simp)]
        rfl
      | cons u k' r' =>
        rw [hfirst (by simp), hcount]
        have hloop := @ihk (base + i) lo 0 (lo + (Forest.cons u k' r').width) (depth + 1) fuel
          (Forest.cons u k' r').width t hkids hPk (by omega) (Nat.le_refl _)
        rw [Nat.zero_add, Nat.add_zero] at hloop
        exact hloop
    have hafter : ∀ t, forUp (fun _ j => decide (j < i + 1 + r.width))
        (fun j => call (fuel + 1) (base + j) depth) n (i + 1) t =
          (visits r (base + (i + 1)) (lo + k.size) depth).forM (fun x => body x.1 x.2) t := fun t =>
      ihr hrest (fun u hu => hP u (by simp [nodes, hu])) (by omega) (by omega)
    rw [width_cons, forUp_step (decide_eq_true (by omega)), visits, forM_cons,
      bind_congr_left (h fuel (base + i) depth s (by rw [hmem]; exact hP v (by simp [nodes]))),
      bind_assoc_apply]
    refine bind_congr_apply s fun _ t => ?_
    rw [forM_append, hmem, bind_congr_left (hbelow t)]
    refine bind_congr_apply t fun _ t' => ?_
    rw [show i + (r.width + 1) = i + 1 + r.width by omega]
    exact hafter t'

/-- The call for the root of a tree. -/
theorem Recurses.visits (h : Recurses first count mem P body call) {v : β} {k : Forest β}
    {p slot lo depth fuel : Nat} (s : σ)
    (hp : Placed (Fits parent first count) mem (.cons v k .nil) p slot lo)
    (hP : ∀ u ∈ (Forest.cons v k .nil).nodes, P u) (hfuel : k.size + 1 ≤ fuel) :
    call fuel slot depth s =
      (Lib.visits (.cons v k .nil) slot lo depth).forM (fun x => body x.1 x.2) s := by
  have hone := @Recurses.siblings β ε σ parent first count mem P body call h
    (.cons v k .nil) p slot 0
    lo depth fuel 1 s hp hP (by simp only [size_cons, size_nil]; omega) (by simp)
  rw [Nat.add_zero] at hone
  rw [← hone, forUp_step (by simp), Nat.add_zero, ← bind_ret_apply (call fuel slot depth) s]
  refine bind_congr_apply s fun _ t => ?_
  rw [forUp_stop (by simp), ret_apply]

/-- A call that does not use up its bound does the same with a larger one. -/
theorem Recurses.mono (h : Recurses first count mem (fun _ => True) body call)
    (h0 : ∀ slot depth s, call 0 slot depth s = .spin) {fuel fuel' : Nat} (hle : fuel ≤ fuel') :
    ∀ {slot depth : Nat} {s : σ}, call fuel slot depth s ≠ .spin →
      call fuel' slot depth s = call fuel slot depth s := by
  induction fuel generalizing fuel' with
  | zero => exact fun hs => absurd (h0 _ _ _) hs
  | succ fuel ih =>
    intro slot depth s hs
    obtain ⟨fuel', rfl⟩ : ∃ m, fuel' = m + 1 := ⟨fuel' - 1, by omega⟩
    rw [h fuel slot depth s trivial] at hs ⊢
    rw [h fuel' slot depth s trivial]
    refine bind_congr_ok rfl fun _ t ht => ?_
    rw [bind_of_ok ht] at hs
    rw [forUp_range] at hs ⊢
    rw [forUp_range]
    exact forM_mono (fun j t => ih (by omega)) _ t hs

/-- The call for the root of a tree, where it comes back. -/
theorem Recurses.visits_of_ok (h : Recurses first count mem (fun _ => True) body call)
    (h0 : ∀ slot depth s, call 0 slot depth s = .spin) {v : β} {k : Forest β}
    {p slot lo depth fuel : Nat} {s s' : σ} {u : Unit}
    (hp : Placed (Fits parent first count) mem (.cons v k .nil) p slot lo)
    (hr : call fuel slot depth s = .ok u s') :
    (Lib.visits (.cons v k .nil) slot lo depth).forM (fun x => body x.1 x.2) s = .ok u s' := by
  have hmono : call (max fuel (k.size + 1)) slot depth s = .ok u s' := by
    rw [← hr]
    refine h.mono h0 (Nat.le_max_left _ _) ?_
    rw [hr]
    exact fun hspin => nomatch hspin
  rw [← hmono]
  exact (h.visits s hp (fun _ _ => trivial) (Nat.le_max_right _ _)).symm

end Lib
