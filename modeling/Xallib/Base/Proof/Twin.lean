import Xallib.Base.Proof.Root
import Xallib.Lib.Follow

/-!
# Two stores with the same inodes and extents

`Twin B s t`: the pools of `s` and `t` hold the same, though they may have been grown in different
steps, and what the backend keeps is related by `B`. Where a claim succeeds in `s` it gives the same
index in `t`, or it is the pool of `t` that fails (`PoolFailure`).
-/

namespace Xallib

open Lib Lib.Cm Lib.Run

/-- The status of a claim that failed, or of a growth. -/
def PoolFailure (e : Err) : Prop := e.why = .claim ∨ e.why = .mprotect

section
variable {α : Type} [Inhabited α] {mp : Mprotect} {p p' : XalPool α} {n : Nat} {e : Err}

theorem claimRoom_failure (h : claimRoom mp n p = .fail e p') : PoolFailure e := by
  unfold claimRoom at h
  rw [read_bind] at h
  rcases bind_fail.1 h with h | ⟨_, p₁, -, h⟩
  · by_cases hc : n > p.growby
    · rw [failIf_true hc] at h
      obtain ⟨rfl, -⟩ := Run.fail.inj h
      exact .inl rfl
    · rw [failIf_false hc] at h
      cases h
  · by_cases ha : p.allocated ≤ p.free + n
    · rw [if_pos ha] at h
      unfold xalPoolGrow at h
      rw [read_bind] at h
      rcases bind_fail.1 h with h | ⟨_, _, -, h⟩
      · by_cases hg : mp.grow (p.growby * p₁.elementSize + p₁.allocated * p₁.elementSize) ≠ 0
        · rw [failIf_true hg] at h
          obtain ⟨rfl, -⟩ := Run.fail.inj h
          exact .inr rfl
        · rw [failIf_false hg] at h
          cases h
      · cases h
    · rw [if_neg ha] at h
      cases h

theorem claimInodes_failure (h : xalPoolClaimInodes mp n p = .fail e p') : PoolFailure e := by
  unfold xalPoolClaimInodes at h
  rcases bind_fail.1 h with h | ⟨_, p₁, -, h⟩
  · exact claimRoom_failure h
  · rw [read_bind] at h
    by_cases hc : p₁.free + n > UINT32_MAX
    · rw [bind_of_fail (failIf_true hc _ _)] at h
      obtain ⟨rfl, -⟩ := Run.fail.inj h
      exact .inl rfl
    · rw [bind_of_ok (failIf_false hc _ _)] at h
      cases h

theorem claimExtents_failure (h : xalPoolClaimExtents mp n p = .fail e p') : PoolFailure e := by
  unfold xalPoolClaimExtents at h
  rcases bind_fail.1 h with h | ⟨_, p₁, -, h⟩
  · exact claimRoom_failure h
  · cases h

end

section
variable {δ : Type} {B : δ → δ → Prop} {F : Err → Prop} {s t : Store δ}

/-- The pools hold the same (module doc). -/
structure Twin (B : δ → δ → Prop) (s t : Store δ) : Prop where
  ok : StoreOk s
  ok' : StoreOk t
  inodes : t.inodes.memory = s.inodes.memory
  free : t.inodes.free = s.inodes.free
  extents : t.extents.memory = s.extents.memory
  extentsFree : t.extents.free = s.extents.free
  be : B s.be t.be

theorem Twin.putInode (h : Twin B s t) {i : Nat} (hi : i < s.inodes.free) (v : XalInode) :
    Twin B (s.putInode i v) (t.putInode i v) where
  ok := h.ok.putInode hi v
  ok' := h.ok'.putInode (by rw [h.free]; exact hi) v
  inodes := by
    show (fun j => if j = i then v else t.inodes.memory j) = fun j => if j = i then v else _
    rw [h.inodes]
  free := h.free
  extents := h.extents
  extentsFree := h.extentsFree
  be := h.be

theorem Twin.putExtent (h : Twin B s t) {i : Nat} (hi : i < s.extents.free) (v : XalExtent) :
    Twin B (s.putExtent i v) (t.putExtent i v) where
  ok := h.ok.putExtent hi v
  ok' := h.ok'.putExtent (by rw [h.extentsFree]; exact hi) v
  inodes := h.inodes
  free := h.free
  extents := by
    show (fun j => if j = i then v else t.extents.memory j) = fun j => if j = i then v else _
    rw [h.extents]
  extentsFree := h.extentsFree
  be := h.be

variable {mp mp' : Mprotect} (hF : ∀ e, PoolFailure e → F e)
include hF

theorem Twin.claimInodes (h : Twin B s t) (hmp : mp.Bounded poolReserved inodeNbytes)
    (hmp' : mp'.Bounded poolReserved inodeNbytes) (n : Nat) :
    Tracks (fun s' t' => Twin B s' t' ∧ s'.inodes.free = s.inodes.free + n) F
      (onInodes (xalPoolClaimInodes mp n) s) (onInodes (xalPoolClaimInodes mp' n) t) := by
  intro idx s' hr
  obtain ⟨hok, rfl, hfree, hmem, hext, hbe⟩ := (onInodes_claim hmp h.ok n).ok hr
  rcases (claimInodes_returns n t.inodes).cases with ⟨idx', p, hp⟩ | ⟨e, p, hp⟩
  · have hr' : onInodes (xalPoolClaimInodes mp' n) t = .ok idx' { t with inodes := p } :=
      zoom_of_ok hp
    obtain ⟨hok', rfl, hfree', hmem', hext', hbe'⟩ := (onInodes_claim hmp' h.ok' n).ok hr'
    refine .inl ⟨_, by rw [← h.free]; exact hr', ⟨hok, hok', ?_, ?_, ?_, ?_, ?_⟩, hfree⟩
    · rw [hmem', hmem, h.inodes]
    · rw [hfree', hfree, h.free]
    · rw [hext', hext, h.extents]
    · rw [hext', hext, h.extentsFree]
    · rw [hbe', hbe]
      exact h.be
  · exact .inr ⟨e, _, zoom_of_fail hp, hF e (claimInodes_failure hp)⟩

theorem Twin.claimExtents (h : Twin B s t) (hmp : mp.Bounded poolReserved extentNbytes)
    (hmp' : mp'.Bounded poolReserved extentNbytes) (n : Nat) :
    Tracks (fun s' t' => Twin B s' t' ∧ s'.extents.free = s.extents.free + n ∧
        s'.inodes = s.inodes) F
      (onExtents (xalPoolClaimExtents mp n) s) (onExtents (xalPoolClaimExtents mp' n) t) := by
  intro idx s' hr
  obtain ⟨hok, rfl, hfree, hmem, hin, hbe⟩ := (onExtents_claim hmp h.ok n).ok hr
  rcases (claimExtents_returns n t.extents).cases with ⟨idx', p, hp⟩ | ⟨e, p, hp⟩
  · have hr' : onExtents (xalPoolClaimExtents mp' n) t = .ok idx' { t with extents := p } :=
      zoom_of_ok hp
    obtain ⟨hok', rfl, hfree', hmem', hin', hbe'⟩ := (onExtents_claim hmp' h.ok' n).ok hr'
    refine .inl ⟨_, by rw [← h.extentsFree]; exact hr', ⟨hok, hok', ?_, ?_, ?_, ?_, ?_⟩, hfree, hin⟩
    · rw [hin', hin, h.inodes]
    · rw [hin', hin, h.free]
    · rw [hmem', hmem, h.extents]
    · rw [hfree', hfree, h.extentsFree]
    · rw [hbe', hbe]
      exact h.be
  · exact .inr ⟨e, _, zoom_of_fail hp, hF e (claimExtents_failure hp)⟩

end

/-! ## The beginning of an index -/

section
variable {δ : Type} {B : δ → δ → Prop} {F : Err → Prop} {s t : Store δ} {mp mp' : Mprotect}

/-- A call whose status is not looked at. -/
theorem ignore_zoom_of_ends {σ τ : Type} {get : σ → τ} {set : σ → τ → σ} {x : Cm Err τ Unit} {s : σ}
    {p : τ} (h : (x (get s)).Ends p) : ignore (zoom get set x) s = .ok () (set s p) := by
  rcases h with ⟨u, hr⟩ | ⟨e, hr⟩
  · rw [ignore, zoom_of_ok hr]
  · rw [ignore, zoom_of_fail hr]

/-- Clearing a pool, where this succeeds, or nothing is claimed. -/
theorem clear_emptied {α : Type} [Inhabited α] {reserved elementSize : Nat} {p : XalPool α}
    (hp : PoolOk reserved elementSize p) (h : mp.clear = 0 ∨ p.free = 0) :
    ∃ p', (xalPoolClear mp p).Ends p' ∧ PoolOk reserved elementSize p' ∧ p'.free = 0 := by
  by_cases hc : mp.clear = 0
  · obtain ⟨p', hr⟩ : ∃ p', xalPoolClear mp p = .ok () p' :=
      ⟨_, bind_of_ok (failIf_false (not_not.2 hc) _ _)⟩
    obtain ⟨-, hok, hfree⟩ := (clear_spec hp).ok hr
    exact ⟨p', .inl ⟨(), hr⟩, hok, hfree⟩
  · exact ⟨p, .inr ⟨_, bind_of_fail (failIf_true hc _ _)⟩, hp, h.resolve_left hc⟩

theorem clearInodes_emptied (mp : Mprotect) (hs : StoreOk s)
    (h : mp.clear = 0 ∨ s.inodes.free = 0) :
    ∃ s', ignore (onInodes (xalPoolClear mp)) s = .ok () s' ∧ StoreOk s' ∧ s'.inodes.free = 0 ∧
      s'.extents = s.extents ∧ s'.be = s.be := by
  obtain ⟨p, hends, hok, hfree⟩ := clear_emptied hs.inodes h
  exact ⟨{ s with inodes := p }, ignore_zoom_of_ends hends, ⟨hok, hs.extents⟩, hfree, rfl, rfl⟩

theorem clearExtents_emptied (mp : Mprotect) (hs : StoreOk s)
    (h : mp.clear = 0 ∨ s.extents.free = 0) :
    ∃ s', ignore (onExtents (xalPoolClear mp)) s = .ok () s' ∧ StoreOk s' ∧ s'.extents.free = 0 ∧
      s'.inodes = s.inodes ∧ s'.be = s.be := by
  obtain ⟨p, hends, hok, hfree⟩ := clear_emptied hs.extents h
  exact ⟨{ s with extents := p }, ignore_zoom_of_ends hends, ⟨hs.inodes, hok⟩, hfree, rfl, rfl⟩

/-- Both pools are cleared, and nothing is claimed any more. -/
theorem clearPools_bind (mp mp' : Mprotect) {x : Xal δ} (hs : StoreOk x.store)
    (hi : mp.clear = 0 ∨ x.store.inodes.free = 0) (hx : mp'.clear = 0 ∨ x.store.extents.free = 0) :
    ∃ s, StoreOk s ∧ s.inodes.free = 0 ∧ s.extents.free = 0 ∧ s.be = x.store.be ∧
      ∀ f : Unit → Cm Err (Xal δ) Unit,
        (onStore (ignore (onInodes (xalPoolClear mp))) >>= fun _ =>
          onStore (ignore (onExtents (xalPoolClear mp'))) >>= f) x =
            f () { x with store := s } := by
  obtain ⟨s₁, hs₁, hok₁, hf₁, hx₁, hb₁⟩ := clearInodes_emptied mp hs hi
  obtain ⟨s₂, hs₂, hok₂, hf₂, hi₂, hb₂⟩ := clearExtents_emptied mp' hok₁ (by rw [hx₁]; exact hx)
  have hr₁ : onStore (ignore (onInodes (xalPoolClear mp))) x = .ok () { x with store := s₁ } :=
    zoom_of_ok hs₁
  have hr₂ : onStore (ignore (onExtents (xalPoolClear mp'))) { x with store := s₁ } =
      .ok () { x with store := s₂ } := zoom_of_ok hs₂
  refine ⟨s₂, hok₂, by rw [hi₂, hf₁], hf₂, by rw [hb₂, hb₁], fun f => ?_⟩
  rw [bind_of_ok hr₁, bind_of_ok hr₂]

/-- Two stores in which nothing is claimed hold the same. -/
theorem Twin.empty (hs : StoreOk s) (ht : StoreOk t) (hi : s.inodes.free = 0)
    (hi' : t.inodes.free = 0) (hx : s.extents.free = 0) (hx' : t.extents.free = 0)
    (hB : B s.be t.be) : Twin B s t where
  ok := hs
  ok' := ht
  inodes := funext fun i => by rw [ht.inodes.clean i (by omega), hs.inodes.clean i (by omega)]
  free := hi'.trans hi.symm
  extents := funext fun i => by rw [ht.extents.clean i (by omega), hs.extents.clean i (by omega)]
  extentsFree := hx'.trans hx.symm
  be := hB

end

/-! ## With a claimed inode -/

section
variable {δ ρ : Type} {B : δ → δ → Prop} {F : Err → Prop} {self d : Nat} {s t : Store δ}

/-- The pools hold the same, and `d` is among the claimed inodes. -/
structure TwinAt (B : δ → δ → Prop) (d : Nat) (s t : Store δ) : Prop extends Twin B s t where
  lt : d < s.inodes.free

theorem TwinAt.up (h : TwinAt B d s t) (hd : self < d) : TwinAt B self s t :=
  ⟨h.toTwin, Nat.lt_trans hd h.lt⟩

theorem TwinAt.put (h : TwinAt B self s t) {i : Nat} (hi : i < s.inodes.free) (v : XalInode) :
    TwinAt B self (s.putInode i v) (t.putInode i v) := ⟨h.toTwin.putInode hi v, h.lt⟩

theorem follows_setSelf (f : XalInode → XalInode) :
    Follows (TwinAt B self) F (setInode self f) (setInode self f) := by
  intro s t h
  rw [setInode_apply, setInode_apply, h.inodes]
  exact tracks_ret (h.put h.lt _) ()

theorem follows_inodeAt {idx : Nat} {f f' : XalInode → Cm Err (Store δ) ρ}
    (hf : ∀ v, Follows (TwinAt B self) F (f v) (f' v)) :
    Follows (TwinAt B self) F (inodeAt idx >>= f) (inodeAt idx >>= f') := by
  intro s t h
  rw [inodeAt_bind, inodeAt_bind, h.inodes]
  exact hf _ h

theorem follows_deriveFtype (mode : Nat) :
    Follows (TwinAt B self) F (deriveFtype mode self) (deriveFtype mode self) := by
  unfold deriveFtype
  refine follows_inodeAt fun v => follows_ite (fun _ => ?_) fun _ => follows_ret ()
  refine follows_ite (fun _ => follows_setSelf _) fun _ => ?_
  exact follows_ite (fun _ => follows_setSelf _) fun _ => follows_of_not fun _ _ _ hr => by cases hr

end

/-! ## The root -/

section
variable {δ : Type} {B : δ → δ → Prop} {F : Err → Prop} {mp mp' : Mprotect} {sb : XalSb}
  {x x' : Xal δ}
  {R : Xal δ → Xal δ → Prop} {f f' : Nat → Cm Err (Xal δ) Unit}

/-- The claim of the root. -/
theorem claimRoot_follows (hF : ∀ e, PoolFailure e → F e)
    (hmp : mp.Bounded poolReserved inodeNbytes)
    (hmp' : mp'.Bounded poolReserved inodeNbytes) (h : Twin B x.store x'.store)
    (hf : ∀ s t, Begun sb x.store.inodes.free x.store s → TwinAt B x.store.inodes.free s t →
      Tracks R F (f x.store.inodes.free { x with store := s, rootIdx := x.store.inodes.free })
        (f' x.store.inodes.free { x' with store := t, rootIdx := x.store.inodes.free })) :
    Tracks R F
      ((onStore (onInodes (xalPoolClaimInodes mp 1)) >>= fun rootIdx =>
        modify (fun xal => { xal with rootIdx }) >>= fun _ =>
          onStore (setInode rootIdx (initRoot sb)) >>= fun _ => f rootIdx) x)
      ((onStore (onInodes (xalPoolClaimInodes mp' 1)) >>= fun rootIdx =>
        modify (fun xal => { xal with rootIdx }) >>= fun _ =>
          onStore (setInode rootIdx (initRoot sb)) >>= fun _ => f' rootIdx) x') := by
  have hclaim : Tracks (fun y y' => ∃ s t, y = { x with store := s } ∧ y' = { x' with store := t } ∧
      Twin B s t ∧ s.inodes.free = x.store.inodes.free + 1) F
      (onStore (onInodes (xalPoolClaimInodes mp 1)) x)
        (onStore (onInodes (xalPoolClaimInodes mp' 1)) x') :=
    tracks_zoom (h.claimInodes hF hmp hmp' 1) fun _ s t _ ht => ⟨s, t, rfl, rfl, ht.1, ht.2⟩
  refine hclaim.bind fun idx y y' hc hy => ?_
  obtain ⟨s, t, rfl, rfl, ht, hfree⟩ := hy
  obtain ⟨s', hc', hs'⟩ := zoom_ok.1 hc
  obtain rfl : s = s' := congrArg Xal.store hs'
  obtain ⟨hok, rfl, -, hmem, -, hbe⟩ := (onInodes_claim hmp h.ok 1).ok hc'
  have hlt : x.store.inodes.free < s.inodes.free := by omega
  rw [modify_bind, modify_bind]
  refine hf (s.putInode _ (initRoot sb (s.inodes.memory x.store.inodes.free))) (t.putInode _ _)
    ⟨hok.putInode hlt _, hfree, ?_, hbe⟩ ⟨?_, hlt⟩
  · rw [putInode_same, hmem, h.ok.inodes.clean _ (Nat.le_refl _)]
  · rw [ht.inodes]
    exact ht.putInode hlt _

end

end Xallib
