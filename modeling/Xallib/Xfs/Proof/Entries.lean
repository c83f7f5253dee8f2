import Xallib.Xfs.Entries
import Xallib.Xfs.Proof.Dblock

/-!
# The decoders list what the device holds

* `devReadInto_block`: a block that is read is what the device holds, whatever the buffer held
before.
* `Appends self x y`: run while `self` lists its children, `x` appends the entries of `y`. The rules
follow the shape of a decoder (`appends_bind`, `appends_ite`); `btreeLblockProcess_appends` is the
result for a leaf of a B+tree directory.
-/

namespace Xallib

open Lib Lib.Cm Lib.Run Lib.Buf

/-! ## Reads -/

section
variable {dev : XnvmeDev} {count offset : Nat} {s s' block : Buf}

theorem devReadInto_block (h : devReadInto dev count offset s = .ok block s') :
    blockRead dev count offset = some block := by
  unfold devReadInto devRead at h
  obtain ⟨_, s₁, hread, h⟩ := bind_ok.1 h
  obtain ⟨hmdts, hread⟩ := failIf_bind_ok.1 hread
  obtain ⟨hlba, hread⟩ := failIf_bind_ok.1 hread
  obtain ⟨hofz, hread⟩ := failIf_bind_ok.1 hread
  obtain ⟨-, hread⟩ := assert_bind_ok.1 hread
  rw [modify_bind] at hread
  obtain ⟨hmax, h⟩ := assert_bind_ok.1 h
  rw [read_bind, ret_apply] at h
  obtain ⟨rfl, rfl⟩ := Run.ok.inj h
  cases hdata : dev.nvmRead (offset / dev.lbaNbytes) (nlbOf dev count) with
  | none => rw [hdata] at hread; cases hread
  | some data =>
    rw [hdata] at hread
    obtain ⟨hbuf, hread⟩ := assert_bind_ok.1 hread
    obtain ⟨-, rfl⟩ := Run.ok.inj hread
    have hcond : count ≤ dev.mdtsNbytes ∧ count % dev.lbaNbytes = 0 ∧ offset % dev.lbaNbytes = 0 ∧
        count ≤ blockNbytesMax ∧ (nlbOf dev count + 1) * dev.lbaNbytes ≤ bufNbytes :=
      ⟨by omega, by omega, by omega, hmax, hbuf⟩
    unfold blockRead
    rw [if_pos hcond, hdata, Option.map_some]
    refine congrArg some (funext fun i => ?_)
    by_cases hi : i < count
    · rw [if_pos hi, if_pos hi]
      by_cases hn : i < (nlbOf dev count + 1) * dev.lbaNbytes
      · simp [Buf.copy, hn]
      · simp [Buf.copy, Buf.zero, hn, hi]
    · rw [if_neg hi, if_neg hi]

end

/-! ## Appending -/

/-- Where the run succeeds it appends the yielded entries to the listing, and nothing else. -/
def Appends {α : Type} (self : Nat) (x : Xm α) (y : Yield α) : Prop :=
  ∀ ⦃s₀ s : Store Buf⦄, Listing (Kid self) self s₀ s → ∀ ⦃a : α⦄ ⦃s' : Store Buf⦄, x s = .ok a s' →
    ∃ l, y = some (l, a) ∧ Listing (Kid self) self s₀ s' ∧
      childrenOf s' self = childrenOf s self ++ l

section
variable {α β : Type} {self : Nat}

theorem appends_ret (a : α) : Appends self (pure a) (pure a) := by
  intro s₀ s h b s' hr
  obtain ⟨rfl, rfl⟩ := Run.ok.inj hr
  exact ⟨[], rfl, h, (List.append_nil _).symm⟩

theorem appends_bind {x : Xm α} {y : Yield α} {f : α → Xm β} {g : α → Yield β}
    (hx : Appends self x y) (hf : ∀ a, Appends self (f a) (g a)) :
    Appends self (x >>= f) (y >>= g) := by
  intro s₀ s h b s'' hr
  obtain ⟨a, s', hr₁, hr₂⟩ := bind_ok.1 hr
  obtain ⟨l, rfl, h', hl⟩ := hx h hr₁
  obtain ⟨m, hm, h'', hl'⟩ := hf a h' hr₂
  refine ⟨l ++ m, ?_, h'', by rw [hl', hl, List.append_assoc]⟩
  show Yield.bind (some (l, a)) g = _
  rw [Yield.bind, hm]

theorem appends_ite {c : Prop} [Decidable c] {x x' : Xm α} {y y' : Yield α}
    (ht : c → Appends self x y) (hn : ¬c → Appends self x' y') :
    Appends self (if c then x else x') (if c then y else y') := by
  by_cases h : c
  · rw [if_pos h, if_pos h]; exact ht h
  · rw [if_neg h, if_neg h]; exact hn h

/-- An access that stops the process elsewhere. -/
theorem appends_assert_bind {c : Prop} [Decidable c] {f : Unit → Xm α} {y : Yield α}
    (hf : Appends self (f ()) y) : Appends self (Cm.assert c >>= f) y :=
  fun _ _ h _ _ hr => hf h (assert_bind_ok.1 hr).2

/-- A call that never comes back with a result. -/
theorem appends_of_not {x : Xm α} {y : Yield α} (h : ∀ s a s', x s ≠ .ok a s') : Appends self x y :=
  fun _ s _ a s' hr => absurd hr (h s a s')

/-- Reading a block appends nothing. -/
theorem appends_read {dev : XnvmeDev} (count offset : Nat) :
    Appends self (onBe (devReadInto dev count offset))
      (.ofOption (blockRead dev count offset)) := by
  intro s₀ s h block s' hr
  obtain ⟨b, hread, rfl⟩ := zoom_ok.1 hr
  refine ⟨[], ?_, h.be b, (List.append_nil _).symm⟩
  rw [devReadInto_block hread]
  rfl

variable {E : XfsEnv} (hI : E.mpInodes.Bounded poolReserved inodeNbytes)
include hI

/-- One entry: the claim of a slot, the entry, the count. -/
theorem appends_entry {v : XalInode} (hv : Kid self v) :
    Appends self (do
      let slot ← onInodes (xalPoolClaimInodes E.mpInodes 1)
      setInode slot fun _ => v
      countDentry self) (Yield.entry v) := by
  intro s₀ s h u s' hr
  obtain ⟨slot, s₁, hclaim, hr⟩ := bind_ok.1 hr
  obtain ⟨hok, rfl, hfree, hmem, hext, -⟩ := (onInodes_claim hI h.ok 1).ok hclaim
  rw [setInode_bind] at hr
  exact ⟨[v], rfl, (h.add hok hfree hmem hext hv).ok hr, h.children_add hok hfree hmem hr⟩

theorem dblockEntries_appends (dblock : Buf) (fuel : Nat) : ∀ ofz : Nat,
    Appends self (dblockEntries E dblock self fuel ofz) (dblockYield E self dblock fuel ofz) := by
  induction fuel with
  | zero =>
    intro ofz s₀ s h u s' hr
    unfold dblockEntries at hr
    unfold dblockYield
    by_cases hc : ofz < E.sb.dirblocksize
    · rw [if_pos hc] at hr; cases hr
    · rw [if_neg hc] at hr
      rw [if_neg hc]
      exact appends_ret u h hr
  | succ fuel ih =>
    intro ofz
    unfold dblockEntries dblockYield
    refine appends_ite (fun _ => ?_) fun _ => appends_ret ()
    refine appends_ite (fun _ => appends_ret ()) fun _ => ?_
    refine appends_ite (fun _ => ih _) fun _ => ?_
    -- the claim, the entry and the count belong together
    have hstep := appends_bind (appends_entry hI (E := E)
      (v := { (decodeDentry dblock ofz).2 with parentIdx := self })
      ⟨decodeDentry_blank dblock ofz, rfl⟩) fun _ => ih (ofz + (decodeDentry dblock ofz).1)
    intro s₀ s h u s' hr
    refine hstep h ?_
    rw [bind_assoc_apply]
    refine (bind_congr_apply s fun slot s₁ => ?_).trans hr
    rfl

omit hI in
theorem forDblocks_appends {body : Nat → Xm Bool} {yield : Nat → Yield Bool}
    (hbody : ∀ fsbno, Appends self (body fsbno) (yield fsbno)) (start nblocks n : Nat) : ∀ k : Nat,
    Appends self (forDblocks E start nblocks body n k)
      (dblocksYield E start nblocks yield n k) := by
  induction n with
  | zero =>
    intro k s₀ s h more s' hr
    unfold forDblocks at hr
    unfold dblocksYield
    by_cases hc : k * fsblkPerDblk E < nblocks
    · rw [if_pos hc] at hr; cases hr
    · rw [if_neg hc] at hr
      rw [if_neg hc]
      obtain ⟨rfl, rfl⟩ := Run.ok.inj hr
      exact appends_ret true h rfl
  | succ n ih =>
    intro k
    unfold forDblocks dblocksYield
    refine appends_ite (fun _ => ?_) fun _ => appends_ret true
    refine appends_bind (hbody _) fun more => ?_
    exact appends_ite (fun _ => ih _) fun _ => appends_ret false

theorem leafDblock_appends (fsbno : Nat) :
    Appends self (leafDblock E self fsbno) (leafDblockYield E self fsbno) := by
  unfold leafDblock leafDblockYield
  refine appends_bind (appends_read _ _) fun dblock => ?_
  refine appends_ite (fun _ => ?_) fun _ => appends_ret false
  exact appends_bind (dblockEntries_appends hI dblock _ _) fun _ => appends_ret true

theorem leafRecords_appends (block : Buf) (n : Nat) : ∀ i : Nat,
    Appends self (leafRecords E block self n i) (leafRecordsYield E self block n i) := by
  induction n with
  | zero => exact fun _ => appends_ret ()
  | succ n ih =>
    intro i
    unfold leafRecords leafRecordsYield
    refine appends_bind (forDblocks_appends (fun fsbno => leafDblock_appends hI fsbno) _ _ _ _)
      fun more => ?_
    exact appends_ite (fun _ => ih _) fun _ => appends_ret ()

theorem btreeLblockDecodeLeafRecords_appends (block : Buf) :
    Appends self (btreeLblockDecodeLeafRecords E block self) (leafYield E self block) := by
  intro s₀ s h u s' hr
  unfold btreeLblockDecodeLeafRecords at hr
  obtain ⟨hsize, hr⟩ := assert_bind_ok.1 hr
  obtain ⟨hmagic, hr⟩ := failIf_bind_ok.1 hr
  obtain ⟨hlevel, hr⟩ := failIf_bind_ok.1 hr
  unfold leafYield
  rw [if_pos ⟨hsize, not_not.1 hmagic, not_not.1 hlevel⟩]
  exact leafRecords_appends hI block _ _ h hr

theorem btreeLblockProcess_appends (fsbno : Nat) :
    Appends self (btreeLblockProcess E fsbno self) (lblockYield E self fsbno) := by
  unfold btreeLblockProcess lblockYield
  refine appends_bind (appends_read _ _) fun block => ?_
  by_cases hl : blockLevel block = 0
  · rw [if_pos hl]; exact btreeLblockDecodeLeafRecords_appends hI block
  · rw [if_neg hl]; exact appends_of_not fun _ _ _ hr => by cases hr

theorem dirDblock_appends (fsbno : Nat) :
    Appends self (processDinodeDirExtentsDblock E fsbno self) (dirDblockYield E self fsbno) := by
  unfold processDinodeDirExtentsDblock dirDblockYield
  refine appends_bind (appends_read _ _) fun dblock => ?_
  exact appends_ite (fun _ => dblockEntries_appends hI dblock _ _) fun _ => appends_ret ()

theorem dirExtentsLoop_appends (dinode n : Nat) : ∀ (i : Nat) (nbytes : Int),
    Appends self (dirExtentsLoop E dinode self n i nbytes)
      (dirExtentsYield E self dinode n i nbytes) := by
  induction n with
  | zero => exact fun _ _ => appends_ret false
  | succ n ih =>
    intro i nbytes
    unfold dirExtentsLoop dirExtentsYield
    refine appends_ite (fun _ => ?_) fun _ => appends_ret false
    refine appends_assert_bind ?_
    refine appends_bind (forDblocks_appends (fun fsbno => ?_) _ _ _ _) fun _ => ?_
    · exact appends_bind (dirDblock_appends hI fsbno) fun _ => appends_ret true
    · exact appends_bind (ih _ _) fun ran => appends_ret _

omit hI in
/-- A loop over blocks lists what they yield, in their order. -/
theorem forM_appends {body : Nat → Xm Unit} {yield : Nat → Yield Unit}
    (hbody : ∀ p, Appends self (body p) (yield p)) (l : List Nat) {s₀ : Store Buf} :
    ∀ {s s' : Store Buf} {u : Unit}, Listing (Kid self) self s₀ s → l.forM body s = .ok u s' →
      ∃ lists, l.mapM (fun p => (yield p).list) = some lists ∧ Listing (Kid self) self s₀ s' ∧
        childrenOf s' self = childrenOf s self ++ lists.flatten := by
  induction l with
  | nil =>
    intro s s' u h hr
    obtain ⟨-, rfl⟩ := Run.ok.inj hr
    exact ⟨[], rfl, h, (List.append_nil _).symm⟩
  | cons p l ih =>
    intro s s'' u h hr
    obtain ⟨_, s', hp, hr⟩ := bind_ok.1 (show (body p >>= fun _ => l.forM body) s = _ from hr)
    obtain ⟨m, hm, h', hch⟩ := hbody p h hp
    obtain ⟨lists, hl, h'', hch'⟩ := ih h' hr
    refine ⟨m :: lists, ?_, h'', ?_⟩
    · rw [List.mapM_cons, hm, hl]
      rfl
    · rw [hch', hch, List.append_assoc, List.flatten_cons]

end

/-! ## The parent -/

/-- The entry as a child of the directory `d`. -/
def XalInode.inDir (d : Nat) (v : XalInode) : XalInode := { v with parentIdx := d }

/-- The entries, as children of `d`. -/
def Yield.inDir {α : Type} (d : Nat) (y : Yield α) : Yield α :=
  y.map fun la => (la.1.map (XalInode.inDir d), la.2)

section
variable {α β : Type} {d : Nat}

theorem inDir_ret (a : α) : Yield.inDir d (pure a) = pure a := rfl

theorem inDir_nothing : Yield.inDir d (.nothing : Yield α) = .nothing := rfl

theorem inDir_ofOption (x : Option α) : Yield.inDir d (.ofOption x) = .ofOption x := by
  cases x <;> rfl

theorem inDir_bind (y : Yield α) (f : α → Yield β) :
    Yield.inDir d (y >>= f) = Yield.inDir d y >>= fun a => Yield.inDir d (f a) := by
  cases y with
  | none => rfl
  | some la =>
    obtain ⟨l, a⟩ := la
    show (Yield.bind (some (l, a)) f).map _ =
      Yield.bind (some (l.map (XalInode.inDir d), a)) fun a => Yield.inDir d (f a)
    rw [Yield.bind, Yield.bind, Yield.inDir]
    cases f a with
    | none => rfl
    | some mb =>
      show some ((l ++ mb.1).map (XalInode.inDir d), mb.2) = _
      rw [List.map_append]
      rfl

theorem inDir_ite {c : Prop} [Decidable c] {y y' z z' : Yield α} (ht : Yield.inDir d y = z)
    (hn : Yield.inDir d y' = z') :
    Yield.inDir d (if c then y else y') = if c then z else z' := by
  by_cases h : c
  · rw [if_pos h, if_pos h]; exact ht
  · rw [if_neg h, if_neg h]; exact hn

theorem inDir_list (y : Yield α) :
    (Yield.inDir d y).list = y.list.map (List.map (XalInode.inDir d)) := by
  cases y <;> rfl

variable (E : XfsEnv) (d)

theorem inDir_dblockYield (dblock : Buf) (fuel : Nat) : ∀ ofz : Nat,
    Yield.inDir d (dblockYield E 0 dblock fuel ofz) = dblockYield E d dblock fuel ofz := by
  induction fuel with
  | zero => exact fun ofz => inDir_ite inDir_nothing (inDir_ret ())
  | succ fuel ih =>
    intro ofz
    unfold dblockYield
    refine inDir_ite (inDir_ite (inDir_ret ()) (inDir_ite (ih _) ?_)) (inDir_ret ())
    rw [inDir_bind]
    exact congrArg (_ >>= ·) (funext fun _ => ih _)

theorem inDir_dblocksYield {body body' : Nat → Yield Bool}
    (hbody : ∀ fsbno, Yield.inDir d (body fsbno) = body' fsbno) (start nblocks n : Nat) : ∀ k : Nat,
    Yield.inDir d (dblocksYield E start nblocks body n k) =
      dblocksYield E start nblocks body' n k := by
  induction n with
  | zero => exact fun k => inDir_ite inDir_nothing (inDir_ret true)
  | succ n ih =>
    intro k
    unfold dblocksYield
    refine inDir_ite ?_ (inDir_ret true)
    rw [inDir_bind, hbody]
    exact congrArg (_ >>= ·) (funext fun more => inDir_ite (ih _) (inDir_ret false))

theorem inDir_leafDblockYield (fsbno : Nat) :
    Yield.inDir d (leafDblockYield E 0 fsbno) = leafDblockYield E d fsbno := by
  unfold leafDblockYield
  rw [inDir_bind, inDir_ofOption]
  refine congrArg (_ >>= ·) (funext fun dblock => inDir_ite ?_ (inDir_ret false))
  rw [inDir_bind, inDir_dblockYield]
  rfl

theorem inDir_leafRecordsYield (block : Buf) (n : Nat) : ∀ i : Nat,
    Yield.inDir d (leafRecordsYield E 0 block n i) = leafRecordsYield E d block n i := by
  induction n with
  | zero => exact fun i => inDir_ret ()
  | succ n ih =>
    intro i
    unfold leafRecordsYield
    rw [inDir_bind, inDir_dblocksYield d E fun fsbno => inDir_leafDblockYield d E fsbno]
    exact congrArg (_ >>= ·) (funext fun more => inDir_ite (ih _) (inDir_ret ()))

theorem inDir_lblockYield (fsbno : Nat) :
    Yield.inDir d (lblockYield E 0 fsbno) = lblockYield E d fsbno := by
  unfold lblockYield leafYield
  rw [inDir_bind, inDir_ofOption]
  exact congrArg (_ >>= ·) (funext fun block =>
    inDir_ite (inDir_leafRecordsYield d E block _ _) inDir_nothing)

theorem inDir_dirDblockYield (fsbno : Nat) :
    Yield.inDir d (dirDblockYield E 0 fsbno) = dirDblockYield E d fsbno := by
  unfold dirDblockYield
  rw [inDir_bind, inDir_ofOption]
  exact congrArg (_ >>= ·) (funext fun dblock =>
    inDir_ite (inDir_dblockYield d E dblock _ _) (inDir_ret ()))

theorem inDir_dirExtentsYield (dinode n : Nat) : ∀ (i : Nat) (nbytes : Int),
    Yield.inDir d (dirExtentsYield E 0 dinode n i nbytes) =
      dirExtentsYield E d dinode n i nbytes := by
  induction n with
  | zero => exact fun i nbytes => inDir_ret false
  | succ n ih =>
    intro i nbytes
    unfold dirExtentsYield
    refine inDir_ite ?_ (inDir_ret false)
    have hbody (fsbno : Nat) : Yield.inDir d (dirDblockYield E 0 fsbno >>= fun _ => pure true) =
        (dirDblockYield E d fsbno >>= fun _ => pure true) := by
      rw [inDir_bind, inDir_dirDblockYield]
      rfl
    rw [inDir_bind, inDir_dblocksYield d E hbody]
    refine congrArg (_ >>= ·) (funext fun _ => ?_)
    rw [inDir_bind, ih]
    rfl

end

end Xallib
