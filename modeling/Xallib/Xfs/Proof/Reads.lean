import Xallib.Xfs.Proof.Descent
import Xallib.Xfs.Proof.DirBtree
import Xallib.Xfs.Proof.DirExtents

/-!
# What is read of an inode

`process_ino` reads the data fork of an inode in `be->dinodes`, and does not look where that ends.
`InodeReads`: what it reads is there, unless it is the root of the B+tree of a regular file.

* `processFormat_returns`: then the process does not stop at the inode, if the blocks of the file
  system fit the local arrays (`BlockSizes`).
* `processFormat_reads`: it is so where `process_ino` succeeds.
-/

namespace Xallib

open Lib Lib.Buf Lib.Cm Lib.Run

/-- Blocks have bytes, and no more than the local arrays. -/
structure BlockSizes (sb : XalSb) : Prop where
  block_pos : 0 < sb.blocksize
  block_le : sb.blocksize ≤ blockNbytesMax
  dblock_pos : 0 < sb.dirblocksize
  dblock_le : sb.dirblocksize ≤ blockNbytesMax

section
variable (E : XfsEnv)

/-- `n` records from record `i` of the data fork on are in `be->dinodes`. -/
def RecordsRead (dinode i n : Nat) : Prop :=
  ∀ j < n, dfork dinode + 16 * (i + j) + 16 ≤ dinodesRoom E.sb

/-- So are `n` entries of a short-form directory, from `cursor` on. -/
def LocalRead : Nat → Nat → Nat → Prop
  | 0, _, _ => True
  | n + 1, cursor, i8count =>
    let next := cursor + 3 + (E.dinodes cursor).toNat + 1 + if i8count ≠ 0 then 8 else 4
    next ≤ dinodesRoom E.sb ∧ LocalRead n next (i8count - 1)

/-- What is read of an inode of this type is in `be->dinodes` (module doc). -/
structure InodeReads (ftype dinode : Nat) : Prop where
  btree : ftype = ftDir → diFormat E dinode = fmtBtree → DirRootInside E dinode
  extents : ftype = ftDir → diFormat E dinode = fmtExtents → RecordsRead E dinode 0
    (dirReads E dinode (diNextents E dinode) 0 (signed64 (diSize E dinode)))
  shortForm : ftype = ftDir → diFormat E dinode = fmtLocal → dfork dinode + 2 ≤ dinodesRoom E.sb ∧
    LocalRead E (E.dinodes (dfork dinode)).toNat
      (dfork dinode + 2 + if (E.dinodes (dfork dinode + 1)).toNat ≠ 0 then 8 else 4)
      (E.dinodes (dfork dinode + 1)).toNat
  file : ftype = ftRegFile → diFormat E dinode = fmtExtents →
    RecordsRead E dinode 0 (diNextents E dinode)

end

variable {E : XfsEnv} {self dinode n : Nat} {s s' : Store Buf} {u : Unit}

theorem RecordsRead.tail {i : Nat} (h : RecordsRead E dinode i (n + 1)) :
    RecordsRead E dinode (i + 1) n := by
  intro j hj
  have := h (j + 1) (by omega)
  omega

theorem recordsRead_succ {i : Nat} (h0 : dfork dinode + 16 * i + 16 ≤ dinodesRoom E.sb)
    (h : RecordsRead E dinode (i + 1) n) : RecordsRead E dinode i (n + 1) := by
  intro j hj
  cases j with
  | zero => exact h0
  | succ j =>
    have := h j (by omega)
    omega

/-! ## Blocks -/

theorem devRead_safe {dev : XnvmeDev} {count offset : Nat} {b : Buf} (hpos : 0 < count)
    (hmax : count ≤ blockNbytesMax) : (devRead dev count offset b).Safe := by
  simp only [blockNbytesMax] at hmax
  unfold devRead
  refine (returns_failIf _ _).safe.bind fun _ _ _ => ?_
  by_cases hlba : count % dev.lbaNbytes = 0
  · rw [bind_of_ok (failIf_false (not_not.2 hlba) _ _)]
    refine (returns_failIf _ _).safe.bind fun _ _ _ => ?_
    refine safe_assert_bind (by simp only [bufNbytes]; omega) ?_
    rw [modify_bind]
    cases dev.nvmRead (offset / dev.lbaNbytes) (nlbOf dev count) with
    | none => exact safe_fail _ _
    | some data =>
      -- as many bytes are transferred as were asked for
      have hcount := Nat.div_add_mod count dev.lbaNbytes
      rw [hlba, Nat.add_zero] at hcount
      have hle := Nat.div_le_self count dev.lbaNbytes
      have hq : 0 < count / dev.lbaNbytes := by
        by_contra h0
        rw [Nat.eq_zero_of_not_pos h0, Nat.mul_zero] at hcount
        omega
      have hnlb : nlbOf dev count + 1 = count / dev.lbaNbytes := by
        simp only [nlbOf]
        omega
      refine safe_assert_bind ?_ (safe_ok _ _)
      rw [hnlb, Nat.mul_comm, hcount]
      simp only [bufNbytes]
      omega
  · rw [bind_of_fail (failIf_true hlba _ _)]
    exact safe_fail _ _

theorem devReadInto_safe {dev : XnvmeDev} {count offset : Nat} {s : Store Buf} (hpos : 0 < count)
    (hmax : count ≤ blockNbytesMax) :
    (onBe (devReadInto dev count offset) s : Run Err (Store Buf) Buf).Safe :=
  safe_zoom ((devRead_safe hpos hmax).bind fun _ _ _ => safe_assert_bind hmax (safe_ok _ _))

section
variable (hsb : BlockSizes E.sb)

/-- The entries of a block are decoded in a local array. -/
theorem dblockEntries_safe (dblock : Buf) (self fuel : Nat) : ∀ (ofz : Nat) (s : Store Buf),
    (dblockEntries E dblock self fuel ofz s).Safe := by
  induction fuel with
  | zero =>
    intro ofz s
    unfold dblockEntries
    by_cases hofz : ofz < E.sb.dirblocksize
    · rw [if_pos hofz]
      exact safe_spin
    · rw [if_neg hofz]
      exact safe_ok _ _
  | succ fuel ih =>
    intro ofz s
    unfold dblockEntries
    by_cases hofz : ofz < E.sb.dirblocksize
    · simp only [if_pos hofz]
      by_cases hend : (decodeDentry dblock ofz).2.ino = 0 ∨
          (decodeDentry dblock ofz).2.namelen = 0
      · rw [if_pos hend]
        exact safe_ok _ _
      · rw [if_neg hend]
        by_cases hdot : isDotDentry (decodeDentry dblock ofz).2 = true
        · rw [if_pos hdot]
          exact ih _ _
        · rw [if_neg hdot]
          exact (returns_zoom (claimInodes_returns _ _)).safe.bind fun _ _ _ => ih _ _
    · rw [if_neg hofz]
      exact safe_ok _ _

include hsb

theorem dblockRead_safe (fsbno : Nat) (s : Store Buf) : (dblockRead E fsbno s).Safe :=
  devReadInto_safe hsb.dblock_pos hsb.dblock_le

theorem processDinodeDirExtentsDblock_safe (fsbno self : Nat) (s : Store Buf) :
    (processDinodeDirExtentsDblock E fsbno self s).Safe := by
  unfold processDinodeDirExtentsDblock
  refine (dblockRead_safe hsb fsbno s).bind fun dblock t _ => ?_
  cases dblockMagicOk dblock with
  | true => exact dblockEntries_safe _ _ _ _ _
  | false => exact safe_ok _ _

theorem leafDblock_safe (self fsbno : Nat) (s : Store Buf) : (leafDblock E self fsbno s).Safe := by
  unfold leafDblock
  refine (dblockRead_safe hsb fsbno s).bind fun dblock t _ => ?_
  cases dblockMagicOk dblock with
  | true => exact (dblockEntries_safe _ _ _ _ _).bind fun _ _ _ => safe_ok _ _
  | false => exact safe_ok _ _

omit hsb in
theorem forDblocks_safe {body : Nat → Xm Bool} (hbody : ∀ fsbno s, (body fsbno s).Safe)
    (start nblocks n : Nat) : ∀ (k : Nat) (s : Store Buf),
      (forDblocks E start nblocks body n k s).Safe := by
  induction n with
  | zero =>
    intro k s
    unfold forDblocks
    by_cases hk : k * fsblkPerDblk E < nblocks
    · rw [if_pos hk]
      exact safe_spin
    · rw [if_neg hk]
      exact safe_ok _ _
  | succ n ih =>
    intro k s
    unfold forDblocks
    by_cases hk : k * fsblkPerDblk E < nblocks
    · rw [if_pos hk]
      refine (hbody _ _).bind fun more t _ => ?_
      cases more with
      | true => exact ih _ _
      | false => exact safe_ok _ _
    · rw [if_neg hk]
      exact safe_ok _ _

theorem leafRecords_safe (block : Buf) (self n : Nat) : ∀ (i : Nat) (s : Store Buf),
    (leafRecords E block self n i s).Safe := by
  induction n with
  | zero => exact fun _ _ => safe_ok _ _
  | succ n ih =>
    intro i s
    unfold leafRecords
    refine (forDblocks_safe (leafDblock_safe hsb self) _ _ _ _ s).bind fun more t _ => ?_
    cases more with
    | true => exact ih _ _
    | false => exact safe_ok _ _

theorem btreeLblockProcess_safe (fsbno self : Nat) (s : Store Buf) :
    (btreeLblockProcess E fsbno self s).Safe := by
  unfold btreeLblockProcess
  refine (devReadInto_safe hsb.block_pos hsb.block_le).bind fun block t _ => ?_
  by_cases hlevel : blockLevel block = 0
  · rw [if_pos hlevel]
    refine safe_assert_bind (Nat.pos_iff_ne_zero.1 hsb.block_pos) ?_
    refine (returns_failIf _ _).safe.bind fun _ _ _ => ?_
    exact (returns_failIf _ _).safe.bind fun _ _ _ => leafRecords_safe hsb _ _ _ _ _
  · rw [if_neg hlevel]
    exact safe_fail _ _

/-! ## Directories -/

theorem dirExtentsLoop_safe (n : Nat) : ∀ (i : Nat) (nbytes : Int) (s : Store Buf),
    RecordsRead E dinode i (dirReads E dinode n i nbytes) →
      (dirExtentsLoop E dinode self n i nbytes s).Safe := by
  induction n with
  | zero => exact fun _ _ _ _ => safe_ok _ _
  | succ n ih =>
    intro i nbytes s h
    unfold dirExtentsLoop
    rw [dirReads] at h
    by_cases hb : nbytes > 0
    · rw [if_pos hb] at h ⊢
      refine safe_assert_bind (h 0 (Nat.zero_lt_succ _)) ?_
      refine (forDblocks_safe (fun fsbno s =>
        (processDinodeDirExtentsDblock_safe hsb fsbno self s).bind fun _ _ _ => safe_ok _ _)
          _ _ _ _ s).bind fun _ t _ => ?_
      exact (ih _ _ _ h.tail).bind fun _ _ _ => safe_ok _ _
    · rw [if_neg hb]
      exact safe_ok _ _

omit hsb in
theorem localEntries_safe (n : Nat) : ∀ (i cursor i8count : Nat) (s : Store Buf),
    LocalRead E n cursor i8count → (localEntries E self n i cursor i8count s).Safe := by
  induction n with
  | zero => exact fun _ _ _ _ _ => safe_ok _ _
  | succ n ih => exact fun i _ _ s h => safe_assert_bind h.1 (ih (i + 1) _ _ _ h.2)

section
variable {procIno : Nat → Nat → Xm Unit} (hproc : ∀ ino d s, (procIno ino d s).Safe)
include hproc

omit hsb in
theorem processChildren_safe (self : Nat) (s : Store Buf) :
    (processChildren procIno self s).Safe :=
  safe_forUp (fun _ s _ => hproc _ _ s) _ _ s

theorem processDinodeDirExtents_safe (s : Store Buf) (h : RecordsRead E dinode 0
    (dirReads E dinode (diNextents E dinode) 0 (signed64 (diSize E dinode)))) :
    (processDinodeDirExtents E procIno dinode self s).Safe := by
  unfold processDinodeDirExtents
  refine safe_assert_bind (Nat.pos_iff_ne_zero.1 hsb.block_pos) ?_
  rw [read_bind, setInode_bind]
  refine (dirExtentsLoop_safe hsb _ _ _ _ h).bind fun ran t _ => ?_
  rw [inodeAt_bind]
  exact (processChildren_safe hproc self t).bind fun _ _ _ => (returns_failIf _ _).safe

theorem processDinodeDirBtreeRoot_safe (s : Store Buf) (h : DirRootInside E dinode) :
    (processDinodeDirBtreeRoot E procIno dinode self s).Safe := by
  unfold processDinodeDirBtreeRoot
  refine safe_assert_bind h.1 ?_
  refine (returns_failIf _ _).safe.bind fun _ s₁ _ => ?_
  rw [inodeAt_bind]
  refine (returns_failIf _ _).safe.bind fun _ s₂ _ => ?_
  rw [read_bind, setInode_bind]
  refine (safe_forUp (fun i t hi => ?_) _ _ _).bind fun _ t _ => processChildren_safe hproc self t
  exact safe_assert_bind (h.2 i (of_decide_eq_true hi)) (btreeLblockProcess_safe hsb _ _ _)

omit hsb in
theorem processDinodeDirLocal_safe (s : Store Buf) (h : dfork dinode + 2 ≤ dinodesRoom E.sb)
    (hentries : LocalRead E (E.dinodes (dfork dinode)).toNat
      (dfork dinode + 2 + if (E.dinodes (dfork dinode + 1)).toNat ≠ 0 then 8 else 4)
      (E.dinodes (dfork dinode + 1)).toNat) :
    (processDinodeDirLocal E procIno dinode self s).Safe := by
  unfold processDinodeDirLocal
  refine safe_assert_bind h ?_
  rw [setInode_bind]
  refine (returns_zoom (claimInodes_returns _ _)).safe.bind fun idx t _ => ?_
  rw [setInode_bind]
  refine (localEntries_safe _ _ _ _ _ hentries).bind fun _ t _ => ?_
  exact safe_forUp (fun _ t _ => hproc _ _ _) _ _ t

end

omit hsb in
theorem processDinodeFileExtents_returns (s : Store Buf)
    (h : RecordsRead E dinode 0 (diNextents E dinode)) :
    (processDinodeFileExtents E dinode self s).Returns := by
  unfold processDinodeFileExtents
  refine (returns_zoom (claimExtents_returns _ _)).bind fun idx t _ => ?_
  rw [setInode_bind]
  cases hn : diNextents E dinode with
  | zero => exact returns_ok _ _
  | succ n =>
    rw [hn] at h
    have hlast := h n (Nat.lt_succ_self n)
    obtain ⟨t', ht'⟩ := decodeExtents_ok (dinodesRoom E.sb) E.dinodes (dfork dinode) idx (n + 1) 0
      (t.putInode self { t.inodes.memory self with content := ⟨idx, (n + 1) % 2 ^ 32⟩ }) (by omega)
    rw [ht']
    exact returns_ok _ _

/-- Where an inode is read in `be->dinodes`, and a directory to an end, `process_ino` comes back
from it. -/
theorem processFormat_returns {procIno : Nat → Nat → Xm Unit}
    (hproc : ∀ ino d s, (procIno ino d s).Safe) {fuel : Nat}
    (h : InodeReads E (s.inodes.memory self).ftype dinode)
    (hfile : (s.inodes.memory self).ftype = ftRegFile → diFormat E dinode = fmtExtents)
    (hdir : (s.inodes.memory self).ftype = ftDir →
      processFormat E procIno fuel dinode self s ≠ .spin) :
    (processFormat E procIno fuel dinode self s).Returns := by
  rcases processFormat_cases E procIno fuel dinode self s with ⟨decoder, hd, h₁⟩ | ⟨e, h₁⟩ | ⟨-, h₁⟩
  · rw [h₁] at hdir ⊢
    generalize hft : (s.inodes.memory self).ftype = ftype at h hfile hdir hd
    generalize hfmt : diFormat E dinode = fmt at hfile hd
    cases hd with
    | dirLocal =>
      obtain ⟨hhead, hentries⟩ := h.shortForm rfl hfmt
      exact (processDinodeDirLocal_safe hproc s hhead hentries).returns (hdir rfl)
    | dirExtents =>
      exact (processDinodeDirExtents_safe hsb hproc s (h.extents rfl hfmt)).returns (hdir rfl)
    | dirBtree =>
      refine Safe.returns ?_ (hdir rfl)
      exact processDinodeDirBtreeRoot_safe hsb hproc _ (h.btree rfl hfmt)
    | fileExtents => exact processDinodeFileExtents_returns s (h.file rfl hfmt)
    | fileBtree => exact absurd (hfile rfl) (by decide)
  · rw [h₁]
    exact returns_fail _ _
  · rw [h₁]
    exact returns_ok _ _

end

/-! ## Where it succeeds -/

theorem dirExtentsLoop_reads (n : Nat) : ∀ {i : Nat} {nbytes : Int} {s s' : Store Buf} {ran : Bool},
    dirExtentsLoop E dinode self n i nbytes s = .ok ran s' →
      RecordsRead E dinode i (dirReads E dinode n i nbytes) := by
  induction n with
  | zero => exact fun _ _ hj => absurd hj (Nat.not_lt_zero _)
  | succ n ih =>
    intro i nbytes s s' ran h
    unfold dirExtentsLoop at h
    rw [dirReads]
    by_cases hb : nbytes > 0
    · rw [if_pos hb] at h ⊢
      obtain ⟨h0, h⟩ := assert_bind_ok.1 h
      obtain ⟨_, t, -, h⟩ := bind_ok.1 h
      obtain ⟨ran', t', hloop, -⟩ := bind_ok.1 h
      exact recordsRead_succ h0 (ih hloop)
    · rw [if_neg hb]
      exact fun _ hj => absurd hj (Nat.not_lt_zero _)

theorem localEntries_reads (n : Nat) : ∀ {i cursor i8count : Nat} {s s' : Store Buf},
    localEntries E self n i cursor i8count s = .ok u s' → LocalRead E n cursor i8count := by
  induction n with
  | zero => exact fun _ => trivial
  | succ n ih =>
    intro i cursor i8count s s' h
    unfold localEntries at h
    rw [inodeAt_bind] at h
    obtain ⟨h0, h⟩ := assert_bind_ok.1 h
    exact ⟨h0, ih h⟩

theorem decodeExtents_reads {start : Nat} (n : Nat) : ∀ {i : Nat} {s s' : Store Buf},
    decodeExtents (dinodesRoom E.sb) E.dinodes (dfork dinode) start n i s = .ok u s' →
      RecordsRead E dinode i n := by
  induction n with
  | zero => exact fun _ _ hj => absurd hj (Nat.not_lt_zero _)
  | succ n ih =>
    intro i s s' h
    unfold decodeExtents at h
    obtain ⟨h0, h⟩ := assert_bind_ok.1 h
    exact recordsRead_succ h0 (ih h)

/-- An inode that has been read was read in `be->dinodes`. -/
theorem Decoder.reads {procIno : Nat → Nat → Xm Unit} {fuel ftype fmt : Nat} {decoder : Xm Unit}
    (hd : Decoder E procIno fuel dinode self ftype fmt decoder) (hfmt : diFormat E dinode = fmt)
    (hr : decoder s = .ok u s') : InodeReads E ftype dinode := by
  have other {fmt' : Nat} (hne : fmt ≠ fmt') : diFormat E dinode ≠ fmt' := by
    rw [hfmt]
    exact hne
  cases hd with
  | dirLocal =>
    unfold processDinodeDirLocal at hr
    obtain ⟨hhead, hr⟩ := assert_bind_ok.1 hr
    rw [setInode_bind] at hr
    obtain ⟨idx, t, -, hr⟩ := bind_ok.1 hr
    rw [setInode_bind] at hr
    obtain ⟨_, t', hentries, -⟩ := bind_ok.1 hr
    exact ⟨fun _ h => absurd h (other (by decide)), fun _ h => absurd h (other (by decide)),
      fun _ _ => ⟨hhead, localEntries_reads _ hentries⟩, fun h => absurd h (by decide)⟩
  | dirExtents =>
    unfold processDinodeDirExtents at hr
    obtain ⟨-, hr⟩ := assert_bind_ok.1 hr
    rw [read_bind, setInode_bind] at hr
    obtain ⟨ran, t, hloop, -⟩ := bind_ok.1 hr
    exact ⟨fun _ h => absurd h (other (by decide)), fun _ _ => dirExtentsLoop_reads _ hloop,
      fun _ h => absurd h (other (by decide)), fun h => absurd h (by decide)⟩
  | dirBtree =>
    rw [read_bind, setInode_bind] at hr
    exact ⟨fun _ _ => dirRootInside_of_ok hr, fun _ h => absurd h (other (by decide)),
      fun _ h => absurd h (other (by decide)), fun h => absurd h (by decide)⟩
  | fileExtents =>
    unfold processDinodeFileExtents at hr
    obtain ⟨idx, t, -, hr⟩ := bind_ok.1 hr
    rw [setInode_bind] at hr
    exact ⟨fun h => absurd h (by decide), fun h => absurd h (by decide),
      fun h => absurd h (by decide), fun _ _ => decodeExtents_reads _ hr⟩
  | fileBtree =>
    exact ⟨fun h => absurd h (by decide), fun h => absurd h (by decide),
      fun h => absurd h (by decide), fun _ h => absurd h (other (by decide))⟩

theorem processFormat_reads {procIno : Nat → Nat → Xm Unit} {fuel : Nat}
    (hr : processFormat E procIno fuel dinode self s = .ok u s') :
    InodeReads E (s.inodes.memory self).ftype dinode := by
  rcases processFormat_cases E procIno fuel dinode self s with
    ⟨decoder, hd, h₁⟩ | ⟨e, h₁⟩ | ⟨hfmt, -⟩
  · rw [h₁] at hr
    exact hd.reads rfl hr
  · rw [h₁] at hr
    cases hr
  · simp only [fmtUuid] at hfmt
    have other {fmt : Nat} (h : fmt ≤ 4) : diFormat E dinode ≠ fmt := by omega
    exact ⟨fun _ h => absurd h (other (by decide)), fun _ h => absurd h (other (by decide)),
      fun _ h => absurd h (other (by decide)), fun _ h => absurd h (other (by decide))⟩

end Xallib
