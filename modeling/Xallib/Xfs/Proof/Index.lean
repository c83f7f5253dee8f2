import Xallib.Base.Proof.Tree
import Xallib.Xfs.Index

/-!
# What `process_ino` builds

* `Listing Q self s₀ s`: since `s₀` the directory `self` lists children one after the other, each
  claimed for it; the blocks of a directory, in whichever format, keep this (`dirExtentsLoop_spec`,
  `btreeLblockProcess_spec`).
* `processIno_spec`: `process_ino` on a blank inode indexes it (`Processed`), or stops in a state
  that still lists only what was claimed (`Stopped`).
-/

namespace Xallib

open Lib Lib.Forest Lib.Cm Lib.Run

/-! ## Listing children -/

/-- The children of `d` listed since `s₀`, each with `Q` (module doc). -/
structure Listing (Q : XalInode → Prop) (d : Nat) (s₀ s : Store Buf) : Prop
    extends Opened d s₀ s where
  dir : s.inodes.memory d = { s₀.inodes.memory d with
    content := ⟨s₀.inodes.free, s.inodes.free - s₀.inodes.free⟩ }
  kids : ∀ i, s₀.inodes.free ≤ i → i < s.inodes.free → Q (s.inodes.memory i)
  extents : s.extents = s₀.extents

/-- A child that has been listed, and not been processed. -/
def Kid (d : Nat) (v : XalInode) : Prop := Blank v ∧ v.parentIdx = d

variable {E : XfsEnv} {self : Nat} {s₀ s : Store Buf}

/-- The buffer plays no part. -/
theorem Listing.be {Q : XalInode → Prop} (h : Listing Q self s₀ s) (b : Buf) :
    Listing Q self s₀ { s with be := b } :=
  { h with ok := ⟨h.ok.inodes, h.ok.extents⟩ }

/-- The claim of a slot for one more child, and what is written to it. -/
theorem Listing.add (h : Listing (Kid self) self s₀ s) {s₁ : Store Buf} (hok : StoreOk s₁)
    (hfree : s₁.inodes.free = s.inodes.free + 1) (hmem : s₁.inodes.memory = s.inodes.memory)
    (hext : s₁.extents = s.extents) {v : XalInode} (hv : Kid self v) :
    (countDentry self (s₁.putInode s.inodes.free v)).Sat
      (fun _ => Listing (Kid self) self s₀) (fun _ _ => False) := by
  have hlt := h.lt
  have hle := h.le
  have hne : self ≠ s.inodes.free := by omega
  have hbound := hok.free_lt
  unfold countDentry
  rw [setInode_apply]
  refine ⟨⟨?_, hlt, ?_, fun i hi hne' => ?_, ?_, ?_⟩, ?_, fun i h1 h2 => ?_, ?_⟩
  · refine (hok.putInode (i := s.inodes.free) (by omega) v).putInode (i := self) ?_ _
    rw [putInode_free]; omega
  · simp only [putInode_free]; omega
  · rw [putInode_other _ _ _ hne', putInode_other _ _ _ (by omega), hmem, h.keep i hi hne']
  · simp only [putInode_extents, hext]; exact h.extents_le
  · simp only [putInode_extents, hext]; exact h.extents_keep
  · simp only [putInode_same, putInode_other _ _ _ hne, putInode_free, hmem, h.dir,
      XalInode.mk.injEq, XalContent.mk.injEq, true_and, and_true]
    rw [Nat.mod_eq_of_lt (by omega)]
    omega
  · simp only [putInode_free] at h2
    rw [putInode_other _ _ _ (by omega)]
    by_cases hi : i = s.inodes.free
    · rw [hi, putInode_same]; exact hv
    · rw [putInode_other _ _ _ hi, hmem]; exact h.kids i h1 (by omega)
  · simp only [putInode_extents, hext, h.extents]

theorem decodeDentry_blank (buf : Buf) (ofz : Nat) : Blank (decodeDentry buf ofz).2 := by
  unfold decodeDentry
  dsimp only
  split <;> rfl

section
variable (hI : E.mpInodes.Bounded poolReserved inodeNbytes)
include hI

theorem dblockEntries_spec (dblock : Buf) (fuel : Nat) :
    ∀ {ofz : Nat} {s : Store Buf}, Listing (Kid self) self s₀ s →
      (dblockEntries E dblock self fuel ofz s).Sat (fun _ => Listing (Kid self) self s₀)
        (fun _ => Listing (Kid self) self s₀) := by
  induction fuel with
  | zero =>
    intro ofz s h
    unfold dblockEntries
    by_cases hc : ofz < E.sb.dirblocksize
    · rw [if_pos hc]; trivial
    · rw [if_neg hc]; exact h
  | succ fuel ih =>
    intro ofz s h
    unfold dblockEntries
    by_cases hc : ofz < E.sb.dirblocksize
    · rw [if_pos hc]
      by_cases hz : (decodeDentry dblock ofz).2.ino = 0 ∨ (decodeDentry dblock ofz).2.namelen = 0
      · rw [if_pos hz]; exact h
      · rw [if_neg hz]
        by_cases hd : isDotDentry (decodeDentry dblock ofz).2 = true
        · rw [if_pos hd]; exact ih h
        · rw [if_neg hd]
          refine ((onInodes_claim hI h.ok 1).mono (fun _ _ h' => h') ?_).bind fun slot s₁ h₁ => ?_
          · rintro e s₁ ⟨hok, hfree, hmem, hext, -⟩
            exact ⟨⟨hok, h.lt, hfree ▸ h.le, hmem ▸ h.keep, hext ▸ h.extents_le,
              hext ▸ h.extents_keep⟩, by rw [hmem, hfree]; exact h.dir,
              by rw [hmem, hfree]; exact h.kids, hext ▸ h.extents⟩
          · obtain ⟨hok, rfl, hfree, hmem, hext, -⟩ := h₁
            rw [setInode_bind]
            have hk : Kid self { (decodeDentry dblock ofz).2 with parentIdx := self } :=
              ⟨decodeDentry_blank dblock ofz, rfl⟩
            exact ((h.add hok hfree hmem hext hk).mono (fun _ _ h' => h')
              fun _ _ h' => h'.elim).bind fun _ s₂ h₂ => ih h₂
    · rw [if_neg hc]; exact h

omit hI in
/-- Reading from the device. -/
theorem Listing.onBe {α : Type} (h : Listing (Kid self) self s₀ s) (x : Cm Err Buf α) :
    (onBe x s).Sat (fun _ => Listing (Kid self) self s₀) (fun _ => Listing (Kid self) self s₀) :=
  sat_zoom (sat_of_forall (fun _ b => h.be b) (fun _ b => h.be b))

theorem processDinodeDirExtentsDblock_spec (h : Listing (Kid self) self s₀ s) (fsbno : Nat) :
    (processDinodeDirExtentsDblock E fsbno self s).Sat (fun _ => Listing (Kid self) self s₀)
      (fun _ => Listing (Kid self) self s₀) := by
  unfold processDinodeDirExtentsDblock
  refine (h.onBe _).bind fun dblock s₁ h₁ => ?_
  by_cases hm : dblockMagicOk dblock = true
  · rw [if_pos hm]; exact dblockEntries_spec hI dblock _ h₁
  · rw [if_neg hm]; exact h₁

theorem leafDblock_spec (h : Listing (Kid self) self s₀ s) (fsbno : Nat) :
    (leafDblock E self fsbno s).Sat (fun _ => Listing (Kid self) self s₀)
      (fun _ => Listing (Kid self) self s₀) := by
  unfold leafDblock
  refine (h.onBe _).bind fun dblock s₁ h₁ => ?_
  by_cases hm : dblockMagicOk dblock = true
  · rw [if_pos hm]
    exact (dblockEntries_spec hI dblock _ h₁).bind fun _ s₂ h₂ => h₂
  · rw [if_neg hm]; exact h₁

omit hI in
theorem forDblocks_spec {body : Nat → Xm Bool}
    (hbody : ∀ fsbno s, Listing (Kid self) self s₀ s →
      (body fsbno s).Sat (fun _ => Listing (Kid self) self s₀)
        (fun _ => Listing (Kid self) self s₀))
    (start nblocks n : Nat) : ∀ {k : Nat} {s : Store Buf}, Listing (Kid self) self s₀ s →
      (forDblocks E start nblocks body n k s).Sat (fun _ => Listing (Kid self) self s₀)
        (fun _ => Listing (Kid self) self s₀) := by
  induction n with
  | zero =>
    intro k s h
    unfold forDblocks
    by_cases hc : k * fsblkPerDblk E < nblocks
    · rw [if_pos hc]; trivial
    · rw [if_neg hc]; exact h
  | succ n ih =>
    intro k s h
    unfold forDblocks
    by_cases hc : k * fsblkPerDblk E < nblocks
    · rw [if_pos hc]
      refine (hbody _ s h).bind fun more s₁ h₁ => ?_
      cases more with
      | true => exact ih h₁
      | false => exact h₁
    · rw [if_neg hc]; exact h

theorem dirExtentsLoop_spec (dinode n : Nat) : ∀ {i : Nat} {nbytes : Int} {s : Store Buf},
    Listing (Kid self) self s₀ s → (dirExtentsLoop E dinode self n i nbytes s).Sat
      (fun _ => Listing (Kid self) self s₀) (fun _ => Listing (Kid self) self s₀) := by
  induction n with
  | zero => intro i nbytes s h; exact h
  | succ n ih =>
    intro i nbytes s h
    unfold dirExtentsLoop
    by_cases hc : nbytes > 0
    · rw [if_pos hc]
      refine sat_assert_bind fun _ => ?_
      refine (forDblocks_spec (fun fsbno s h => ?_) _ _ _ h).bind fun _ s₁ h₁ => ?_
      · exact (processDinodeDirExtentsDblock_spec hI h fsbno).bind fun _ s₂ h₂ => h₂
      · exact (ih h₁).bind fun _ s₂ h₂ => h₂
    · rw [if_neg hc]; exact h

theorem leafRecords_spec (block : Buf) (n : Nat) : ∀ {i : Nat} {s : Store Buf},
    Listing (Kid self) self s₀ s → (leafRecords E block self n i s).Sat
      (fun _ => Listing (Kid self) self s₀) (fun _ => Listing (Kid self) self s₀) := by
  induction n with
  | zero => intro i s h; exact h
  | succ n ih =>
    intro i s h
    unfold leafRecords
    refine (forDblocks_spec (fun fsbno s h => leafDblock_spec hI h fsbno) _ _ _ h).bind
      fun more s₁ h₁ => ?_
    cases more with
    | true => exact ih h₁
    | false => exact h₁

theorem btreeLblockProcess_spec (h : Listing (Kid self) self s₀ s) (fsbno : Nat) :
    (btreeLblockProcess E fsbno self s).Sat (fun _ => Listing (Kid self) self s₀)
      (fun _ => Listing (Kid self) self s₀) := by
  unfold btreeLblockProcess
  refine (h.onBe _).bind fun block s₁ h₁ => ?_
  by_cases hl : blockLevel block = 0
  · rw [if_pos hl]
    unfold btreeLblockDecodeLeafRecords
    refine sat_assert_bind fun _ => ?_
    refine sat_failIf_bind (fun _ => h₁) fun _ => ?_
    refine sat_failIf_bind (fun _ => h₁) fun _ => ?_
    exact leafRecords_spec hI block _ h₁
  · rw [if_neg hl]; exact h₁

end

/-! ## Directories -/

/-- What a function does that indexes `self`. -/
def Indexes (d : Nat) (s : Store Buf) (r : Run Err (Store Buf) Unit) : Prop :=
  r.Sat (fun _ => Processed (s.inodes.memory d).parentIdx d s)
    (fun _ => Stopped (s.inodes.memory d).parentIdx d s)

theorem Processed.stopped {p : Nat} {s' : Store Buf} (h : Processed p self s s') :
    Stopped p self s s' :=
  ⟨h.1, h.2.choose, h.2.choose_spec.toPartial⟩

/-- The listing of `self` begins. -/
theorem Ready.listing (h : Ready self s) (Q : XalInode → Prop) :
    Listing Q self s (s.putInode self { s.inodes.memory self with
      content := { (s.inodes.memory self).content with idx := s.inodes.free % 2 ^ 32 } }) := by
  have hblank : (s.inodes.memory self).content = default := h.blank
  refine ⟨⟨h.ok.putInode h.lt _, h.lt, Nat.le_refl _, fun i _ hne => putInode_other _ _ _ hne,
    Nat.le_refl _, fun _ _ => rfl⟩, ?_, fun i h1 h2 => ?_, rfl⟩
  · rw [putInode_same, putInode_free, Nat.mod_eq_of_lt h.ok.free_lt, Nat.sub_self, hblank]
    rfl
  · exact absurd (Nat.lt_of_le_of_lt h1 h2) (Nat.lt_irrefl _)

theorem Listing.dents {Q : XalInode → Prop} (h : Listing Q self s₀ s)
    (hft : (s₀.inodes.memory self).ftype = ftDir) :
    dents (s.inodes.memory self) = (s₀.inodes.free, s.inodes.free - s₀.inodes.free) := by
  have hft' : (s.inodes.memory self).ftype = ftDir := by rw [h.dir]; exact hft
  rw [dents_dir hft', h.dir]

/-- Listing the children has stopped. -/
theorem Listing.stopped {Q : XalInode → Prop} (h : Listing Q self s₀ s) (hQ : ∀ u, Q u → Blank u)
    (p : Nat) : Stopped p self s₀ s := by
  have hle := h.le
  have hd : Xallib.dents (s.inodes.memory self) = (0, 0) ∨ Xallib.dents (s.inodes.memory self) =
      (s₀.inodes.free, s.inodes.free - s₀.inodes.free) := by
    by_cases hft : (s.inodes.memory self).ftype = ftDir
    · right; rw [dents_dir hft, h.dir]
    · left; exact dents_of_ne hft
  refine Stopped.dir (g := leaves s.inodes.memory s₀.inodes.free
    (s.inodes.free - s₀.inodes.free)) h.toOpened ?_ (by rw [width_leaves]; omega)
    ⟨h.ok, ?_, ?_, fun _ _ _ _ => rfl, Nat.le_refl _, fun _ _ => rfl⟩
  · rw [width_leaves]
    rcases hd with hd | hd <;> simp [Partial, hd]
  · exact placed_leaves _ fun i h1 h2 => (hQ _ (h.kids i h1 (by omega))).toPartial _ _ _
  · rw [deep_leaves]; omega

section
variable {procIno : Nat → Nat → Xm Unit}
  (hproc : ∀ ino {self : Nat} {s : Store Buf}, Ready self s → Indexes self s (procIno ino self s))

/-- Once the children are listed, the loops over them index the directory. -/
theorem Listing.children {Q : XalInode → Prop} {cond : Store Buf → Nat → Bool}
    {body : Nat → Xm Unit} (h : Listing Q self s₀ s) (hft : (s₀.inodes.memory self).ftype = ftDir)
    (hQ : ∀ u, Q u → Blank u)
    (hcond : ∀ t i, t.inodes.memory self = s.inodes.memory self →
      cond t i = decide (i < s.inodes.free - s₀.inodes.free))
    (hbody : ∀ t i, t.inodes.memory self = s.inodes.memory self →
      Q (t.inodes.memory (s₀.inodes.free + i)) → StoreOk t → s₀.inodes.free + i < t.inodes.free →
      (body i t).Sat (fun _ => Processed self (s₀.inodes.free + i) t)
        (fun _ => Stopped self (s₀.inodes.free + i) t)) (m : Nat) :
    (forUp cond body m 0 s).Sat
      (fun _ => Processed (s₀.inodes.memory self).parentIdx self s₀)
      (fun _ => Stopped (s₀.inodes.memory self).parentIdx self s₀) := by
  have hle := h.le
  have hlt := h.lt
  have hroom : s₀.inodes.free + (s.inodes.free - s₀.inodes.free) ≤ s.inodes.free := by omega
  refine (children_spec hlt hQ hcond (fun t i hok hv hi hroom hq => ?_) m h.ok rfl hroom
    fun i h1 h2 => h.kids i h1 (by omega)).mono ?_ ?_
  · refine (hbody t i hv hq hok (by omega)).mono ?_ ?_
    · rintro _ t' ⟨hkeep, k, hk⟩
      exact ⟨by rw [hkeep self (by omega) (by omega), hv], _, k, hk⟩
    · rintro _ t' ⟨hkeep, k, hk⟩
      exact ⟨by rw [hkeep self (by omega) (by omega), hv], _, k, hk⟩
  · rintro _ s' ⟨hv, g, hw, hg⟩
    refine Processed.dir h.toOpened ?_ ?_ ?_ (by omega) (by rw [h.extents]) hg
    · rw [hv, h.dir]; exact hft
    · rw [hv, h.dir]
    · rw [hv, h.dir, hw]
  · rintro _ s' ⟨hv, g, hw, hg⟩
    refine Stopped.dir h.toOpened (.inr (.inr ?_)) (by omega) hg
    rw [hv, h.dents hft]
    exact ⟨rfl, Nat.le_of_eq hw.symm⟩

include hproc in
theorem processChildren_spec (h : Listing (Kid self) self s₀ s)
    (hft : (s₀.inodes.memory self).ftype = ftDir) :
    (processChildren procIno self s).Sat
      (fun _ => Processed (s₀.inodes.memory self).parentIdx self s₀)
      (fun _ => Stopped (s₀.inodes.memory self).parentIdx self s₀) := by
  unfold processChildren
  refine h.children hft (fun _ hu => hu.1) (fun t i ht => ?_) (fun t i ht hq hok hlt => ?_) _
  · rw [ht, h.dir]
  · rw [inodeAt_bind, inodeAt_bind, ht, h.dir]
    have := hproc (t.inodes.memory (s₀.inodes.free + i)).ino ⟨hok, hlt, hq.1⟩
    rw [Indexes, hq.2] at this
    exact this

include hproc in
theorem processDinodeDirExtents_spec (hI : E.mpInodes.Bounded poolReserved inodeNbytes)
    (h : Ready self s) (hft : (s.inodes.memory self).ftype = ftDir) (dinode : Nat) :
    Indexes self s (processDinodeDirExtents E procIno dinode self s) := by
  unfold processDinodeDirExtents Indexes
  refine sat_assert_bind fun _ => ?_
  rw [read_bind, setInode_bind]
  refine ((dirExtentsLoop_spec hI dinode _ (h.listing (Kid self))).mono (fun _ _ h' => h')
    fun _ s₁ h₁ => h₁.stopped (fun _ hu => hu.1) _).bind fun ran s₁ h₁ => ?_
  rw [inodeAt_bind]
  refine (processChildren_spec hproc h₁ hft).bind fun _ s₂ h₂ => ?_
  exact sat_failIf (fun _ => h₂.stopped) fun _ => h₂

/-- Setting the start of the listing once more. -/
theorem Listing.again {Q : XalInode → Prop} (h : Listing Q self s₀ s)
    (hfree : s.inodes.free = s₀.inodes.free) :
    Listing Q self s₀ (s.putInode self { s.inodes.memory self with
      content := { (s.inodes.memory self).content with idx := s.inodes.free % 2 ^ 32 } }) := by
  have hlt := h.lt
  refine ⟨⟨h.ok.putInode (by omega) _, hlt, h.le, fun i hi hne => ?_, h.extents_le,
    h.extents_keep⟩, ?_, fun i h1 h2 => ?_, h.extents⟩
  · rw [putInode_other _ _ _ hne, h.keep i hi hne]
  · rw [putInode_same, putInode_free, Nat.mod_eq_of_lt h.ok.free_lt, h.dir, hfree]
  · rw [putInode_free, hfree] at h2
    omega

include hproc in
theorem processDinodeDirBtreeRoot_spec (hI : E.mpInodes.Bounded poolReserved inodeNbytes)
    (h : Listing (Kid self) self s₀ s) (hfree : s.inodes.free = s₀.inodes.free)
    (hft : (s₀.inodes.memory self).ftype = ftDir) (dinode : Nat) :
    (processDinodeDirBtreeRoot E procIno dinode self s).Sat
      (fun _ => Processed (s₀.inodes.memory self).parentIdx self s₀)
      (fun _ => Stopped (s₀.inodes.memory self).parentIdx self s₀) := by
  have hstop {t : Store Buf} (ht : Listing (Kid self) self s₀ t) :=
    ht.stopped (fun _ hu => hu.1) (s₀.inodes.memory self).parentIdx
  unfold processDinodeDirBtreeRoot
  refine sat_assert_bind fun _ => sat_failIf_bind (fun _ => hstop h) fun _ => ?_
  rw [inodeAt_bind]
  refine sat_failIf_bind (fun _ => hstop h) fun _ => ?_
  rw [read_bind, setInode_bind]
  refine Sat.bind ((sat_forUp (fun _ => Listing (Kid self) self s₀)
    (Q := fun _ => Listing (Kid self) self s₀) (F := fun _ => Listing (Kid self) self s₀)
    (fun i t ht _ => ?_) (fun _ _ ht _ => ht) _ 0 _ (h.again hfree)).mono (fun _ _ h' => h')
      fun _ t ht => hstop ht) fun _ t ht => processChildren_spec hproc ht hft
  exact sat_assert_bind fun _ => btreeLblockProcess_spec hI ht _

/-! ## Short-form directories -/

/-- The fields of the entries are written; nothing else changes. -/
theorem localEntries_spec (n : Nat) : ∀ {i cursor i8count : Nat} {s : Store Buf},
    Listing Blank self s₀ s → s₀.inodes.free + i + n ≤ s.inodes.free →
      (localEntries E self n i cursor i8count s).Sat
        (fun _ s' => Listing Blank self s₀ s' ∧ s'.inodes.free = s.inodes.free)
          (fun _ _ => False) := by
  induction n with
  | zero => intro i cursor i8count s h _; exact ⟨h, rfl⟩
  | succ n ih =>
    intro i cursor i8count s h hroom
    have hlt := h.lt
    unfold localEntries
    have hidx : (s.inodes.memory self).content.idx = s₀.inodes.free := by rw [h.dir]
    rw [inodeAt_bind]
    refine sat_assert_bind fun _ => ?_
    rw [setInode_bind, hidx]
    refine ih ⟨⟨h.ok.putInode (by omega) _, hlt, h.le, fun j hj hne => ?_, h.extents_le,
      h.extents_keep⟩, ?_, fun j h1 h2 => ?_, h.extents⟩ (by rw [putInode_free]; omega)
    · rw [putInode_other _ _ _ (by omega), h.keep j hj hne]
    · rw [putInode_other _ _ _ (by omega), putInode_free, h.dir]
    · rw [putInode_free] at h2
      by_cases hj : j = s₀.inodes.free + i
      · rw [hj, putInode_same]
        exact h.kids _ (by omega) (by omega)
      · rw [putInode_other _ _ _ hj]
        exact h.kids j h1 h2

omit hproc in
/-- What is left of a listing for the proofs about all children. -/
theorem Listing.mono {Q Q' : XalInode → Prop} (h : Listing Q self s₀ s) (hQ : ∀ v, Q v → Q' v) :
    Listing Q' self s₀ s := { h with kids := fun i h1 h2 => hQ _ (h.kids i h1 h2) }

omit hproc in
/-- The slots of a short-form directory are claimed at once. -/
theorem Ready.claimed {n : Nat} (h : Ready self s) {s₁ : Store Buf} (hok : StoreOk s₁)
    (hfree : s₁.inodes.free = s.inodes.free + n)
    (hmem : s₁.inodes.memory = (s.putInode self { s.inodes.memory self with
      content := { (s.inodes.memory self).content with count := n } }).inodes.memory)
    (hext : s₁.extents = s.extents) :
    Listing (· = default) self s (s₁.putInode self { s₁.inodes.memory self with
      content := { (s₁.inodes.memory self).content with idx := s.inodes.free } }) := by
  have hlt := h.lt
  refine ⟨⟨hok.putInode (by omega) _, hlt, ?_, fun i _ hne => ?_, ?_, ?_⟩, ?_,
    fun i h1 h2 => ?_, ?_⟩
  · rw [putInode_free]; omega
  · rw [putInode_other _ _ _ hne, hmem, putInode_other _ _ _ hne]
  · exact Nat.le_of_eq (by rw [putInode_extents, hext])
  · rw [putInode_extents, hext]; exact fun _ _ => rfl
  · rw [putInode_same, hmem, putInode_same, putInode_free]
    simp only [XalInode.mk.injEq, XalContent.mk.injEq, true_and, and_true]
    omega
  · rw [putInode_other _ _ _ (by omega), hmem, putInode_other _ _ _ (by omega)]
    exact h.ok.inodes.clean i h1
  · rw [putInode_extents, hext]

include hproc in
theorem processDinodeDirLocal_spec (hI : E.mpInodes.Bounded poolReserved inodeNbytes)
    (h : Ready self s) (hft : (s.inodes.memory self).ftype = ftDir) (dinode : Nat) :
    Indexes self s (processDinodeDirLocal E procIno dinode self s) := by
  have hlt := h.lt
  have hblank : (s.inodes.memory self).content = default := h.blank
  unfold processDinodeDirLocal Indexes
  refine sat_assert_bind fun _ => ?_
  rw [setInode_bind]
  have hok := h.ok.putInode hlt { s.inodes.memory self with
    content := { (s.inodes.memory self).content with count := (E.dinodes (dfork dinode)).toNat } }
  refine ((onInodes_claim hI hok _).mono (fun _ _ h' => h') ?_).bind ?_
  · -- the number of entries is set, but there are none
    rintro e s₁ ⟨hok, hfree, hmem, hext, -⟩
    refine Stopped.leaf ⟨hok, hlt, Nat.le_of_eq hfree.symm, fun i _ hne => ?_, ?_, ?_⟩ ?_
    · rw [hmem, putInode_other _ _ _ hne]
    · exact Nat.le_of_eq (by rw [hext, putInode_extents])
    · rw [hext]; exact fun _ _ => rfl
    · refine .inr (.inl ?_)
      rw [hmem, putInode_same, dents_dir (by exact hft)]
      show (s.inodes.memory self).content.idx = 0
      rw [hblank]; rfl
  · rintro idx s₁ ⟨hok, rfl, hfree, hmem, hext, -⟩
    rw [setInode_bind]
    have hl : Listing Blank self s _ :=
      (h.claimed hok hfree hmem hext).mono fun v hv => by rw [hv]; rfl
    rw [putInode_free] at hfree ⊢
    refine ((localEntries_spec _ hl ?_).mono (fun _ _ h' => h') fun _ _ h' => h'.elim).bind ?_
    · rw [putInode_free]; omega
    rintro _ s₂ ⟨h₂, hfree₂⟩
    rw [putInode_free] at hfree₂
    refine h₂.children hft (fun _ hu => hu) (fun t i _ => ?_) (fun t i ht hq hok hlt => ?_) _
    · simp only [decide_eq_decide]; omega
    · have hne : s.inodes.free + i ≠ self := by omega
      have hidx : (t.inodes.memory self).content.idx = s.inodes.free := by rw [ht, h₂.dir]
      rw [inodeAt_bind, hidx, setInode_bind, inodeAt_bind, putInode_same]
      have hready : Ready (s.inodes.free + i) (t.putInode (s.inodes.free + i)
          { t.inodes.memory (s.inodes.free + i) with parentIdx := self }) :=
        ⟨hok.putInode hlt _, hlt, by rw [putInode_same]; exact hq⟩
      have := hproc (t.inodes.memory (s.inodes.free + i)).ino hready
      rw [Indexes, putInode_same] at this
      exact this.mono (fun _ _ h' => h'.of_put) (fun _ _ h' => h'.of_put)

end

/-! ## Regular files -/

/-- The extents of `d` read since `s₀`. -/
structure Filing (d : Nat) (s₀ s : Store Buf) : Prop extends Opened d s₀ s where
  file : s.inodes.memory d = { s₀.inodes.memory d with
    content := ⟨s₀.extents.free, s.extents.free - s₀.extents.free⟩ }
  free_eq : s.inodes.free = s₀.inodes.free

theorem Filing.processed (h : Filing self s₀ s) (hft : (s₀.inodes.memory self).ftype = ftRegFile) :
    Processed (s₀.inodes.memory self).parentIdx self s₀ s := by
  have hle := h.extents_le
  have hft' : (s.inodes.memory self).ftype = ftRegFile := by rw [h.file]; exact hft
  refine Processed.leaf h.toOpened h.free_eq (by rw [h.file]) ?_ fun _ => ?_
  · rw [dents_of_ne (by rw [hft']; decide)]
  · have hc : (s.inodes.memory self).content =
        ⟨s₀.extents.free, s.extents.free - s₀.extents.free⟩ := by rw [h.file]
    rw [exts_file hft', hc]
    exact ⟨Nat.le_refl _, by dsimp only; omega⟩

/-- Where a regular file is left half-read, it still has no children. -/
theorem Opened.stopped (h : Opened self s₀ s) (hft : (s.inodes.memory self).ftype = ftRegFile)
    (p : Nat) : Stopped p self s₀ s :=
  Stopped.leaf h (.inl (by rw [dents_of_ne (by rw [hft]; decide)]))

/-- Records are decoded to extents that have been claimed. -/
theorem decodeExtents_spec (room : Nat) (buf : Buf) (ofz start n : Nat) : ∀ {i : Nat}
    {s : Store Buf}, StoreOk s → start + i + n ≤ s.extents.free →
      (decodeExtents room buf ofz start n i s).Sat
      (fun _ s' => StoreOk s' ∧ s'.inodes = s.inodes ∧ s'.extents.free = s.extents.free ∧
        ∀ j < start, s'.extents.memory j = s.extents.memory j) (fun _ _ => False) := by
  induction n with
  | zero => intro i s hok _; exact ⟨hok, rfl, rfl, fun _ _ => rfl⟩
  | succ n ih =>
    intro i s hok hroom
    unfold decodeExtents
    refine sat_assert_bind fun _ => ?_
    rw [setExtent_bind]
    refine (ih (hok.putExtent (by omega) _) (by rw [putExtent_free]; omega)).mono ?_ fun _ _ h => h
    rintro _ s' ⟨hok', hin, hfree, hmem⟩
    refine ⟨hok', by rw [hin, putExtent_inodes], by rw [hfree, putExtent_free], fun j hj => ?_⟩
    rw [hmem j hj, putExtent_other _ _ _ (by omega)]

/-- More extents for `self`, which have been claimed, and are decoded. -/
theorem Filing.add (h : Filing self s₀ s) {s₁ : Store Buf} (hok : StoreOk s₁) {n ofz : Nat}
    (hfree : s₁.extents.free = s.extents.free + n)
    (hmem : s₁.extents.memory = s.extents.memory) (hin : s₁.inodes = s.inodes) (room : Nat)
    (buf : Buf)
    {v : XalInode} (hv : v = { s.inodes.memory self with
      content := ⟨s₀.extents.free, s.extents.free - s₀.extents.free + n⟩ }) :
    (decodeExtents room buf ofz s.extents.free n 0 (s₁.putInode self v)).Sat
      (fun _ => Filing self s₀) (fun _ _ => False) := by
  have hlt := h.lt
  have hle := h.extents_le
  have hself : self < s₁.inodes.free := by rw [hin, h.free_eq]; exact hlt
  refine (decodeExtents_spec room buf ofz s.extents.free n (hok.putInode hself v)
    (by rw [putInode_extents]; omega)).mono ?_ fun _ _ h' => h'
  rintro _ s' ⟨hok', hin', hfree', hmem'⟩
  rw [putInode_extents] at hfree' hmem'
  have hmem₂ : s'.inodes.memory = (s₁.putInode self v).inodes.memory := by rw [hin']
  have hf : s'.inodes.free = s.inodes.free := by rw [hin', putInode_free, hin]
  refine ⟨⟨hok', hlt, by rw [hf]; exact h.le, fun i hi hne => ?_, by omega, fun i hi => ?_⟩, ?_, ?_⟩
  · rw [hmem₂, putInode_other _ _ _ hne, hin, h.keep i hi hne]
  · rw [hmem' i (by omega), hmem, h.extents_keep i hi]
  · rw [hmem₂, putInode_same, hv, h.file, hfree', hfree]
    simp only [XalInode.mk.injEq, XalContent.mk.injEq, true_and, and_true]
    omega
  · rw [hf, h.free_eq]

theorem Filing.be (h : Filing self s₀ s) (b : Buf) : Filing self s₀ { s with be := b } :=
  { h with ok := ⟨h.ok.inodes, h.ok.extents⟩ }

theorem Filing.onBe {α : Type} (h : Filing self s₀ s) (x : Cm Err Buf α) :
    (onBe x s).Sat (fun _ => Filing self s₀) (fun _ => Filing self s₀) :=
  sat_zoom (sat_of_forall (fun _ b => h.be b) (fun _ b => h.be b))

section
variable (hX : E.mpExtents.Bounded poolReserved extentNbytes)
include hX

theorem processFileBtreeLeaf_spec (h : Filing self s₀ s) (fsbno : Nat) :
    (processFileBtreeLeaf E fsbno self s).Sat (fun _ => Filing self s₀)
      (fun _ => Filing self s₀) := by
  unfold processFileBtreeLeaf
  refine (h.onBe _).bind fun _ s₁ h₁ => ?_
  rw [read_bind]
  refine sat_failIf_bind (fun _ => h₁) fun _ => ?_
  refine sat_failIf_bind (fun _ => h₁) fun _ => ?_
  refine ((onExtents_claim hX h₁.ok _).mono (fun _ _ h' => h')
    (fun _ s₂ (h' : s₂ = s₁) => h' ▸ h₁)).bind ?_
  rintro idx s₂ ⟨hok, rfl, hfree, hmem, hin, -⟩
  have hlt := hok.extents_free_lt
  have hle := h₁.extents_le
  have hv : s₂.inodes.memory self = s₁.inodes.memory self := by rw [hin]
  rw [setInode_bind]
  refine (h₁.add hok hfree hmem hin _ _ ?_).mono (fun _ _ h' => h') fun _ _ h' => h'.elim
  rw [hv, h₁.file]
  simp only [XalInode.mk.injEq, XalContent.mk.injEq, true_and, and_true]
  rw [Nat.mod_eq_of_lt (by omega)]

theorem processFileBtreeNode_spec (fuel : Nat) : ∀ {fsbno : Nat} {s : Store Buf},
    Filing self s₀ s → (processFileBtreeNode E self fuel fsbno s).Sat (fun _ => Filing self s₀)
      (fun _ => Filing self s₀) := by
  induction fuel with
  | zero => intro fsbno s h; trivial
  | succ fuel ih =>
    intro fsbno s h
    unfold processFileBtreeNode
    refine sat_failIf_bind (fun _ => h) fun _ => ?_
    refine (h.onBe _).bind fun _ s₁ h₁ => ?_
    refine sat_assert_bind fun _ => ?_
    rw [read_bind]
    refine sat_failIf_bind (fun _ => h₁) fun _ => ?_
    refine sat_failIf_bind (fun _ => h₁) fun _ => ?_
    refine sat_forUp (fun _ => Filing self s₀) (fun i t ht _ => ?_) (fun _ _ ht _ => ht) _ 0 _ h₁
    by_cases hl : blockLevel s₁.be = 1
    · rw [if_pos hl]; exact processFileBtreeLeaf_spec hX ht _
    · rw [if_neg hl]; exact ih ht

/-- The records of the leaves are filed. -/
theorem processDinodeFileBtreeRoot_filing (h : Ready self s)
    (hft : (s.inodes.memory self).ftype = ftRegFile) (fuel dinode : Nat) :
    (processDinodeFileBtreeRoot E fuel dinode self s).Sat (fun _ => Filing self s)
      (fun _ => Stopped (s.inodes.memory self).parentIdx self s) := by
  have hblank : (s.inodes.memory self).content = default := h.blank
  have hstop : Stopped (s.inodes.memory self).parentIdx self s s :=
    (Opened.refl h.ok h.lt).stopped hft _
  unfold processDinodeFileBtreeRoot
  refine sat_assert_bind fun _ => sat_failIf_bind (fun _ => hstop) fun _ => ?_
  rw [inodeAt_bind]
  refine sat_failIf_bind (fun _ => hstop) fun _ => ?_
  rw [read_bind, setInode_bind]
  refine (sat_forUp (fun _ => Filing self s) (Q := fun _ => Filing self s)
    (F := fun _ => Filing self s) (fun i t ht _ => ?_) (fun _ _ ht _ => ht) _ 0 _ ?_).mono
      (fun _ _ ht => ht) fun _ t ht => ?_
  · refine sat_assert_bind fun _ => ?_
    by_cases hl : Buf.be16 E.dinodes (dfork dinode) = 1
    · simp only [hl, if_true]; exact processFileBtreeLeaf_spec hX ht _
    · simp only [hl, if_false]; exact processFileBtreeNode_spec hX fuel ht
  · refine ⟨⟨h.ok.putInode h.lt _, h.lt, Nat.le_refl _, fun i _ hne => putInode_other _ _ _ hne,
      Nat.le_refl _, fun _ _ => rfl⟩, ?_, rfl⟩
    rw [putInode_same, putInode_extents, Nat.mod_eq_of_lt h.ok.extents_free_lt, hblank,
      Nat.sub_self]
    rfl
  · exact ht.toOpened.stopped (by rw [ht.file]; exact hft) _

/-- The records of the data fork are filed. -/
theorem processDinodeFileExtents_filing (h : Ready self s)
    (hft : (s.inodes.memory self).ftype = ftRegFile) (dinode : Nat) :
    (processDinodeFileExtents E dinode self s).Sat (fun _ => Filing self s)
      (fun _ => Stopped (s.inodes.memory self).parentIdx self s) := by
  unfold processDinodeFileExtents
  refine ((onExtents_claim hX h.ok _).mono (fun _ _ h' => h') ?_).bind ?_
  · rintro _ s₁ rfl
    exact (Opened.refl h.ok h.lt).stopped hft _
  · rintro idx s₁ ⟨hok, rfl, hfree, hmem, hin, -⟩
    have hlt := hok.extents_free_lt
    have hself : self < s₁.inodes.free := by rw [hin]; exact h.lt
    rw [setInode_bind]
    refine (decodeExtents_spec _ _ _ s.extents.free (diNextents E dinode) (i := 0)
      (hok.putInode hself _) (by rw [putInode_extents]; omega)).mono ?_ fun _ _ h' => h'.elim
    rintro _ s' ⟨hok', hin', hfree', hmem'⟩
    rw [putInode_extents] at hfree' hmem'
    have hmem₂ := congrArg XalPool.memory hin'
    have hf := congrArg XalPool.free hin'
    rw [putInode_free, hin] at hf
    refine ⟨⟨hok', h.lt, Nat.le_of_eq hf.symm, fun i _ hne => ?_, by omega,
      fun i hi => ?_⟩, ?_, hf⟩
    · rw [hmem₂, putInode_other _ _ _ hne, hin]
    · rw [hmem' i hi, hmem]
    · rw [hmem₂, putInode_same, hin, hfree', hfree, Nat.mod_eq_of_lt (by omega)]
      simp only [XalInode.mk.injEq, XalContent.mk.injEq, true_and, and_true]
      omega

theorem processDinodeFileBtreeRoot_spec (h : Ready self s)
    (hft : (s.inodes.memory self).ftype = ftRegFile) (fuel dinode : Nat) :
    Indexes self s (processDinodeFileBtreeRoot E fuel dinode self s) :=
  (processDinodeFileBtreeRoot_filing hX h hft fuel dinode).mono (fun _ _ ht => ht.processed hft)
    fun _ _ ht => ht

theorem processDinodeFileExtents_spec (h : Ready self s)
    (hft : (s.inodes.memory self).ftype = ftRegFile) (dinode : Nat) :
    Indexes self s (processDinodeFileExtents E dinode self s) :=
  (processDinodeFileExtents_filing hX h hft dinode).mono (fun _ _ ht => ht.processed hft)
    fun _ _ ht => ht

end

/-! ## `process_ino` -/

theorem Indexes.of_put {v : XalInode} {r : Run Err (Store Buf) Unit}
    (h : Indexes self (s.putInode self v) r)
    (hp : v.parentIdx = (s.inodes.memory self).parentIdx) : Indexes self s r := by
  unfold Indexes at h
  rw [putInode_same, hp] at h
  exact h.mono (fun _ _ h' => h'.of_put) (fun _ _ h' => h'.of_put)

/-- The calls in the `switch` of `process_ino`, by the type of the inode and the format of its
dinode. -/
inductive Decoder (E : XfsEnv) (procIno : Nat → Nat → Xm Unit) (fuel dinode self : Nat) :
    Nat → Nat → Xm Unit → Prop
  | dirLocal : Decoder E procIno fuel dinode self ftDir fmtLocal
      (processDinodeDirLocal E procIno dinode self)
  | dirExtents : Decoder E procIno fuel dinode self ftDir fmtExtents
      (processDinodeDirExtents E procIno dinode self)
  | dirBtree : Decoder E procIno fuel dinode self ftDir fmtBtree (do
      let s ← read
      setInode self fun v => { v with content := { v.content with idx := s.inodes.free % 2 ^ 32 } }
      processDinodeDirBtreeRoot E procIno dinode self)
  | fileExtents : Decoder E procIno fuel dinode self ftRegFile fmtExtents
      (processDinodeFileExtents E dinode self)
  | fileBtree : Decoder E procIno fuel dinode self ftRegFile fmtBtree
      (processDinodeFileBtreeRoot E fuel dinode self)

/-- `process_ino` calls a decoder, fails, or does nothing in a format its `switch` does not know. -/
theorem processFormat_cases (E : XfsEnv) (procIno : Nat → Nat → Xm Unit) (fuel dinode self : Nat)
    (s : Store Buf) :
    (∃ decoder, Decoder E procIno fuel dinode self (s.inodes.memory self).ftype (diFormat E dinode)
        decoder ∧ processFormat E procIno fuel dinode self s = decoder s) ∨
      (∃ e, processFormat E procIno fuel dinode self s = .fail e s) ∨
      fmtUuid < diFormat E dinode ∧ processFormat E procIno fuel dinode self s = .ok () s := by
  unfold processFormat
  rw [inodeAt_bind]
  generalize hfmt : diFormat E dinode = fmt
  generalize (s.inodes.memory self).ftype = ftype
  by_cases hb : fmt = fmtBtree
  · subst hb
    rw [if_pos rfl]
    by_cases hd : ftype = ftDir
    · subst hd
      exact .inl ⟨_, .dirBtree, rfl⟩
    · by_cases hf : ftype = ftRegFile
      · subst hf
        exact .inl ⟨_, .fileBtree, rfl⟩
      · rw [if_neg hd, if_neg hf]
        exact .inr (.inl ⟨_, rfl⟩)
  · rw [if_neg hb]
    by_cases he : fmt = fmtExtents
    · subst he
      rw [if_pos rfl]
      by_cases hd : ftype = ftDir
      · subst hd
        exact .inl ⟨_, .dirExtents, rfl⟩
      · by_cases hf : ftype = ftRegFile
        · subst hf
          exact .inl ⟨_, .fileExtents, rfl⟩
        · rw [if_neg hd, if_neg hf]
          exact .inr (.inl ⟨_, rfl⟩)
    · rw [if_neg he]
      by_cases hl : fmt = fmtLocal
      · subst hl
        rw [if_pos rfl]
        by_cases hd : ftype = ftDir
        · subst hd
          exact .inl ⟨_, .dirLocal, rfl⟩
        · rw [if_neg hd]
          exact .inr (.inl ⟨_, rfl⟩)
      · rw [if_neg hl]
        by_cases hu : fmt = fmtDev ∨ fmt = fmtUuid
        · rw [if_pos hu]
          exact .inr (.inl ⟨_, rfl⟩)
        · rw [if_neg hu]
          simp only [fmtBtree, fmtExtents, fmtLocal, fmtDev, fmtUuid] at hb he hl hu ⊢
          exact .inr (.inr ⟨by omega, rfl⟩)

section
variable (hI : E.mpInodes.Bounded poolReserved inodeNbytes)
  (hX : E.mpExtents.Bounded poolReserved extentNbytes)
include hI hX

theorem Decoder.spec {procIno : Nat → Nat → Xm Unit}
    (hproc : ∀ ino {self : Nat} {s : Store Buf}, Ready self s → Indexes self s (procIno ino self s))
    {fuel dinode ftype fmt : Nat} {decoder : Xm Unit}
    (hd : Decoder E procIno fuel dinode self ftype fmt decoder) (h : Ready self s)
    (hft : (s.inodes.memory self).ftype = ftype) : Indexes self s (decoder s) := by
  cases hd with
  | dirLocal => exact processDinodeDirLocal_spec hproc hI h hft dinode
  | dirExtents => exact processDinodeDirExtents_spec hproc hI h hft dinode
  | dirBtree =>
    rw [read_bind, setInode_bind]
    exact processDinodeDirBtreeRoot_spec hproc hI (h.listing (Kid self)) rfl hft dinode
  | fileExtents => exact processDinodeFileExtents_spec hX h hft dinode
  | fileBtree => exact processDinodeFileBtreeRoot_spec hX h hft fuel dinode

theorem processFormat_spec {procIno : Nat → Nat → Xm Unit}
    (hproc : ∀ ino {self : Nat} {s : Store Buf}, Ready self s → Indexes self s (procIno ino self s))
    (h : Ready self s) (fuel dinode : Nat) :
    Indexes self s (processFormat E procIno fuel dinode self s) := by
  rcases processFormat_cases E procIno fuel dinode self s with ⟨decoder, hd, hr⟩ | ⟨e, hr⟩ | ⟨-, hr⟩
  · rw [hr]
    exact hd.spec hI hX hproc h rfl
  · rw [hr]
    exact Stopped.leaf (.refl h.ok h.lt) (h.blank.toPartial _ _ _)
  · rw [hr]
    refine Processed.leaf (.refl h.ok h.lt) rfl rfl (by rw [h.blank.dents]) fun h0 => ?_
    rw [h.blank.exts] at h0
    exact absurd rfl h0

/-- `process_ino` indexes an inode, or stops (module doc). -/
theorem processIno_spec (fuel : Nat) : ∀ (ino : Nat) {self : Nat} {s : Store Buf}, Ready self s →
    Indexes self s (processIno E fuel ino self s) := by
  induction fuel with
  | zero => intro ino self s h; trivial
  | succ fuel ih =>
    intro ino self s h
    have hstop : Stopped (s.inodes.memory self).parentIdx self s s :=
      Stopped.leaf (.refl h.ok h.lt) (h.blank.toPartial _ _ _)
    unfold processIno dinodesGet
    cases hd : E.dinodesMap ino with
    | none => exact hstop
    | some dinode =>
      rw [ret_bind]
      refine sat_assert_bind fun _ => ?_
      rcases deriveFtype_cases (diMode E dinode) self s with ⟨ft, ht⟩ | ⟨e, ht⟩
      · rw [bind_of_ok ht, setInode_bind, putInode_twice, putInode_same]
        refine Indexes.of_put (processFormat_spec hI hX ih (h.put ?_) fuel dinode) rfl
        exact h.blank
      · rw [bind_of_fail ht]
        exact hstop

end

end Xallib
