import Xallib.E2E.Machine
import Xallib.Xfs.Proof.Descent
import Xallib.Xfs.Proof.DirBtree

/-!
# When the recursions over B+trees end

The recursions take the level of a block from the block, and go on with its pointers whatever the
level of the block above: nothing on the way down gets smaller. `btree_descent_ends`: they come back
from every root exactly if no block stops the process, and no chain of pointers that the recursion
gets through is a cycle.
-/

namespace Xallib

open Lib Lib.Cm Lib.Run Lib.Buf

/-! ## Inodes -/

section
variable {E : IabEnv} {ag : XalAg}

/-- From every block of the inode allocation B+tree the retrieval comes back that begins with `i`
inodes retrieved. -/
def IabEnds (E : IabEnv) (ag : XalAg) (i : Nat) : Prop :=
  ∀ agiRoot s, agiRoot < 2 ^ 32 → s.index = i →
    ∃ n, (retrieveDinodesViaIab3 E ag n agiRoot s).Returns

/-- The retrieval gets from some block and `i` retrieved inodes to those of `y`. -/
def IabReached (E : IabEnv) (ag : XalAg) (i : Nat) (y : Nat × Nat) : Prop :=
  ∃ blkno < 2 ^ 32, Relation.ReflTransGen (Next (iabKids E ag) (IabPasses E ag)) (blkno, i) y

/-- No block it gets to stops the process, and none is on a cycle. -/
structure IabWellFounded (E : IabEnv) (ag : XalAg) (i : Nat) : Prop where
  passes : ∀ y, IabReached E ag i y → ∀ s, s.index = y.2 → (visitIab E ag y.1 s).Returns
  acyclic : ∀ y, IabReached E ag i y → ¬Relation.TransGen (Next (iabKids E ag) (IabPasses E ag)) y y

theorem IabWellFounded.ends {i : Nat} (h : IabWellFounded E ag i) : IabEnds E ag i := by
  intro agiRoot s hroot hs
  have hacc := acc_of_acyclic (iabReached_finite hroot)
    fun (y : Nat × Nat) hy => h.acyclic y ⟨agiRoot, hroot, hy⟩
  obtain ⟨n, hn⟩ := (visitIab_visits E ag).returns hacc
    (fun y hy t _ ht => h.passes y ⟨agiRoot, hroot, hy⟩ t ht) s trivial hs
  exact ⟨n, by rw [retrieveDinodesViaIab3_eq]; exact hn⟩

theorem IabEnds.wellFounded (hino : dinodeNbytes ≤ E.sb.inodesize) {i : Nat}
    (h : IabEnds E ag i) : IabWellFounded E ag i := by
  have hdescend : ∀ b < 2 ^ 32, ∃ n s, s.index = i ∧ (descend (visitIab E ag) n b s).Returns := by
    intro b hb
    obtain ⟨n, hn⟩ := h b ⟨fun _ => 0, fun _ => 0, fun _ => none, i, false⟩ hb rfl
    exact ⟨n, _, rfl, by rw [← retrieveDinodesViaIab3_eq]; exact hn⟩
  have hstep : ∀ b i k s, IabPasses E ag b i k → True → s.index = i →
      ∃ t, visitIab E ag b s = .ok (iabKids E ag b) t ∧ True ∧ t.index = k := by
    intro b i k s hk _ hs
    obtain ⟨t, ht, hindex⟩ := hk.visit hino hs
    exact ⟨t, ht, trivial, hindex⟩
  constructor
  · rintro y ⟨b, hb, hy⟩ s hs
    obtain ⟨n, s₀, hs₀, hn⟩ := hdescend b hb
    obtain ⟨t, -, ht, hret⟩ := reached_returns hstep hy n s₀ trivial hs₀ hn
    exact (visitIab_alike hino y.1 (hs.trans ht.symm)).returns hret
  · rintro y ⟨b, hb, hy⟩
    obtain ⟨n, s₀, hs₀, hn⟩ := hdescend b hb
    exact acyclic_of_acc (acc_of_descend hstep n (b, i) s₀ trivial hs₀ hn.ne_spin) hy

end

/-! ## Extents -/

section
variable {E : XfsEnv} {self dinode n : Nat} {s : Store Buf}

/-- From every root inside `be->dinodes`, the extents of a file are read. -/
def FileTreesEnd (E : XfsEnv) : Prop :=
  ∀ dinodes dinode self s, FileRootInside { E with dinodes } dinode → StoreOk s →
    self < s.inodes.free →
      ∃ n, (processDinodeFileBtreeRoot { E with dinodes } n dinode self s).Returns

/-- No block stops the process, and there is no cycle. -/
structure FileTreesWellFounded (E : XfsEnv) : Prop where
  passes : ∀ r : FileRef, r.fsbno < 2 ^ 64 → ¬FileStops E r
  acyclic : ∀ r, ¬Relation.TransGen (QuietNext (fileKids E) (FileQuiet E)) r r

theorem fileRefs_finite : {r : FileRef | r.fsbno < 2 ^ 64}.Finite := by
  have hlt := Set.finite_lt_nat (2 ^ 64)
  refine ((hlt.image (FileRef.mk true)).union (hlt.image (FileRef.mk false))).subset ?_
  rintro ⟨leaf, fsbno⟩ h
  cases leaf with
  | true => exact .inl ⟨fsbno, h, rfl⟩
  | false => exact .inr ⟨fsbno, h, rfl⟩

theorem FileTreesWellFounded.acc (h : FileTreesWellFounded E) (r : FileRef) :
    Acc (Function.swap (QuietNext (fileKids E) (FileQuiet E))) r := by
  refine acc_of_acyclic ((fileRefs_finite.insert r).subset fun c hc => ?_) fun c _ => h.acyclic c
  rcases Relation.ReflTransGen.cases_tail hc with rfl | ⟨b, -, hnext⟩
  · exact .inl rfl
  · exact .inr (fileKids_lt hnext.mem)

/-- The loop over the pointers of the root. -/
theorem fileBtreeFiling_loop (n : Nat) (s : Store Buf) :
    (fileFsbnos E dinode).forM (fun fsbno =>
      if (fileBtreePos E dinode).level = 1 then processFileBtreeLeaf E fsbno self
      else processFileBtreeNode E self n fsbno) s =
        (fileRoots E dinode).forM (fileCall E self n) s := by
  rw [fileRoots, ← forM_map]
  have hbody : (fun fsbno => if (fileBtreePos E dinode).level = 1
      then processFileBtreeLeaf E fsbno self else processFileBtreeNode E self n fsbno) =
        fun p => fileCall E self n ⟨(fileBtreePos E dinode).level == 1, p⟩ := by
    funext p
    simp only [fileCall, beq_iff_eq]
  rw [hbody]

theorem FileTreesWellFounded.descends (h : FileTreesWellFounded E)
    (hX : E.mpExtents.Bounded poolReserved extentNbytes) (r : FileRef) (s : Store Buf)
    (hr : r.fsbno < 2 ^ 64) (hs : FileStore self s) :
    ∃ n, (descend (visitFile E self) n r s).Returns := by
  by_cases h72 : 72 ≤ E.sb.blocksize
  · refine (visitFile_visits hX h72 self).returns (x := (r, s.extents.free))
      ((filePasses_spends E).acc h.acc _ r _ rfl) (fun y hy t _ _ => ?_) s hs rfl
    have hdom := reached_inside (·.fsbno < 2 ^ 64) (fun _ => True) fileKids_lt
      (fun _ _ _ _ _ => trivial) hy ⟨hr, trivial⟩
    exact visitFile_returns (h.passes y.1 hdom.1) t
  · refine (visitFile_visits_small hX (Nat.not_le.1 h72) self).returns (x := (r, s.extents.free))
      ⟨_, fun y hnext => absurd hnext.mem List.not_mem_nil⟩ (fun y hy t _ _ => ?_) s hs rfl
    rcases Relation.ReflTransGen.cases_tail hy with rfl | ⟨b, -, hnext⟩
    · exact visitFile_returns (h.passes r hr) t
    · exact absurd hnext.mem List.not_mem_nil

theorem FileTreesWellFounded.root_returns (h : FileTreesWellFounded E)
    (hX : E.mpExtents.Bounded poolReserved extentNbytes) {dinode : Nat}
    (hroot : FileRootInside E dinode) (hok : StoreOk s) (hlt : self < s.inodes.free) :
    ∃ n, (processDinodeFileBtreeRoot E n dinode self s).Returns := by
  have hloop : ∀ t, FileStore self t →
      ∃ n, ((fileRoots E dinode).forM (fileCall E self n) t).Returns := by
    intro t ht
    have hroots : ∀ r ∈ fileRoots E dinode, r.fsbno < 2 ^ 64 := by
      intro r hr
      obtain ⟨p, hp, rfl⟩ := List.mem_map.1 hr
      obtain ⟨i, -, rfl⟩ := List.mem_map.1 hp
      exact be64_lt _ _
    have hreturns : ∃ n, ((fileRoots E dinode).forM (descend (visitFile E self) n) t).Returns := by
      by_cases h72 : 72 ≤ E.sb.blocksize
      · exact (visitFile_visits hX h72 self).forM_returns (fun r s => h.descends hX r s)
          _ t hroots ht
      · exact (visitFile_visits_small hX (Nat.not_le.1 h72) self).forM_returns
          (fun r s => h.descends hX r s) _ t hroots ht
    obtain ⟨n, hn⟩ := hreturns
    exact ⟨n, by rw [forM_mono (body_of_descend n) _ t hn.ne_spin]; exact hn⟩
  obtain ⟨n, hn⟩ := hloop (s.putInode self { s.inodes.memory self with
    content := { (s.inodes.memory self).content with idx := s.extents.free % 2 ^ 32 } })
    ⟨hok.putInode hlt _, hlt⟩
  refine ⟨n, ?_⟩
  rw [processDinodeFileBtreeRoot_eq hroot]
  unfold fileBtreeFiling
  refine (returns_failIf _ _).bind fun _ s₁ h₁ => ?_
  obtain ⟨-, rfl⟩ := failIf_ok.1 h₁
  rw [inodeAt_bind]
  refine (returns_failIf _ _).bind fun _ s₂ h₂ => ?_
  obtain ⟨-, rfl⟩ := failIf_ok.1 h₂
  rw [read_bind, setInode_bind, fileBtreeFiling_loop]
  exact hn

theorem FileTreesWellFounded.ends (h : FileTreesWellFounded E)
    (hX : E.mpExtents.Bounded poolReserved extentNbytes) : FileTreesEnd E := by
  intro dinodes dinode self s hroot hok hlt
  have h' : FileTreesWellFounded { E with dinodes } := ⟨h.passes, h.acyclic⟩
  exact h'.root_returns hX hroot hok hlt

/-- The header of a root, or its first pointer, is outside `be->dinodes`. -/
def FileRootOutside (E : XfsEnv) (dinode : Nat) : Prop :=
  dinodesRoom E.sb < dfork dinode + 4 ∨ 0 < (fileBtreePos E dinode).level ∧
    0 < (fileBtreePos E dinode).numrecs ∧
      dinodesRoom E.sb < dinode + (btreeDinodeMeta E.sb (diForkoff E dinode)).2 + 8

theorem FileRootOutside.crash (h : FileRootOutside E dinode)
    (hcount : (s.inodes.memory self).content.count = 0) (n : Nat) :
    processDinodeFileBtreeRoot E n dinode self s = .crash := by
  unfold processDinodeFileBtreeRoot
  by_cases hhead : dfork dinode + 4 ≤ dinodesRoom E.sb
  · obtain ⟨hlevel, hnum, hfirst⟩ := h.resolve_left (by omega)
    have hlevel' : ¬be16 E.dinodes (dfork dinode) < 1 := by
      have h0 : 0 < be16 E.dinodes (dfork dinode) := hlevel
      omega
    rw [bind_of_ok (assert_true hhead _), bind_of_ok (failIf_false hlevel' _ _), inodeAt_bind,
      bind_of_ok (failIf_false (not_not.2 hcount) _ _), read_bind, setInode_bind]
    obtain ⟨m, hm⟩ : ∃ m, be16 E.dinodes (dfork dinode + 2) = m + 1 :=
      ⟨_, (Nat.succ_pred_eq_of_pos hnum).symm⟩
    rw [hm, forUp_step (decide_eq_true (Nat.succ_pos m)), bind_of_crash]
    exact bind_of_crash (assert_false (by omega) _)
  · exact bind_of_crash (assert_false hhead s)

/-! ### A root with one pointer -/

/-- A dinode whose data fork has the root with the pointer `r`. -/
def rootDinode (r : FileRef) : Buf := fun i =>
  if i = 82 then 1 else if i = 177 then (if r.leaf then 1 else 2) else if i = 179 then 1
  else if 180 ≤ i ∧ i < 188 then (beBytes 8 r.fsbno).getD (i - 180) 0 else 0

theorem fileRoots_rootDinode {r : FileRef} (hr : r.fsbno < 2 ^ 64)
    (hd : E.dinodes = rootDinode r) :
    fileRoots E 0 = [r] ∧ 1 ≤ (fileBtreePos E 0).level := by
  obtain ⟨leaf, fsbno⟩ := r
  have hlevel : be16 E.dinodes 176 = if leaf then 1 else 2 := by
    cases leaf <;> simp [hd, be16, rootDinode]
  have hnumrecs : be16 E.dinodes 178 = 1 := by simp [hd, be16, rootDinode]
  have hforkoff : diForkoff E 0 = 1 := by simp [diForkoff, hd, rootDinode]
  have hofz : (btreeDinodeMeta E.sb 1).2 = 180 := by
    simp only [btreeDinodeMeta, usub, dinodeNbytes]
    omega
  have hptr : be64 E.dinodes 180 = fsbno := by
    have hslice : E.dinodes.slice 180 8 = beBytes 8 fsbno := by
      refine List.ext_getElem (by simp) fun i h1 h2 => ?_
      rw [length_slice] at h1
      have h3 : ∀ k, k ≠ 180 + i → ∀ x y : UInt8, (if 180 + i = k then x else y) = y :=
        fun k hk x y => if_neg (Ne.symm hk)
      simp only [slice, List.getElem_map, List.getElem_range, hd, rootDinode]
      rw [h3 82 (by omega), h3 177 (by omega), h3 179 (by omega), if_pos (by omega),
        Nat.add_sub_cancel_left, List.getD_eq_getElem?_getD,
        List.getElem?_eq_getElem h2, Option.getD_some]
    exact Has.be64 (by rw [Has, length_beBytes]; exact hslice) hr
  have hpos : fileBtreePos E 0 = ⟨if leaf then 1 else 2, 1⟩ := by
    rw [fileBtreePos]
    simp only [dfork, dinodeNbytes, Nat.zero_add, hlevel, hnumrecs]
  refine ⟨?_, ?_⟩
  · rw [fileRoots, fileFsbnos, btreeFsbnos, hpos, hforkoff, hofz]
    simp only [List.range_one, List.map_cons, List.map_nil, Nat.mul_zero, Nat.add_zero,
      Nat.zero_add, hptr]
    cases leaf <;> rfl
  · rw [hpos]
    cases leaf <;> decide

theorem rootDinode_inside {r : FileRef} (hd : E.dinodes = rootDinode r)
    (hroom : 188 ≤ dinodesRoom E.sb) : FileRootInside E 0 := by
  have hnumrecs : be16 E.dinodes 178 = 1 := by simp [hd, be16, rootDinode]
  have hforkoff : diForkoff E 0 = 1 := by simp [diForkoff, hd, rootDinode]
  have hofz : (btreeDinodeMeta E.sb 1).2 = 180 := by
    simp only [btreeDinodeMeta, usub, dinodeNbytes]
    omega
  refine ⟨by simp only [dfork, dinodeNbytes]; omega, fun i hi => ?_⟩
  have hi : i < be16 E.dinodes 178 := hi
  rw [hforkoff, hofz]
  omega

/-- An inode was just claimed; `be->buf` holds `b`. -/
def rootHolding (b : Buf) : Store Buf := ⟨rootClaimed.inodes, rootClaimed.extents, b⟩

/-- The state in which the loop over its pointers begins. -/
def rootBegun (b : Buf) : Store Buf :=
  (rootHolding b).putInode 0 { rootClaimed.inodes.memory 0 with
    content :=
      { (rootClaimed.inodes.memory 0).content with idx := rootClaimed.extents.free % 2 ^ 32 } }

theorem rootBegun_be (b : Buf) : (rootBegun b).be = b := rfl

theorem rootBegun_room (b : Buf) : ExtentRoom (rootBegun b) := by
  show 2 ^ 16 ≤ poolReserved ∧ 0 + 2 ^ 16 < poolReserved
  decide

theorem rootDinode_call {r : FileRef} (hr : r.fsbno < 2 ^ 64)
    (hd : E.dinodes = rootDinode r) (hroom : 188 ≤ dinodesRoom E.sb) (b : Buf) (n : Nat) :
    processDinodeFileBtreeRoot E n 0 0 (rootHolding b) = fileCall E 0 n r (rootBegun b) := by
  obtain ⟨hroots, hlevel⟩ := fileRoots_rootDinode hr hd
  have hcount : ¬((rootHolding b).inodes.memory 0).content.count ≠ 0 := not_not.2 rfl
  rw [processDinodeFileBtreeRoot_eq (rootDinode_inside hd hroom)]
  unfold fileBtreeFiling
  rw [bind_of_ok (failIf_false (by omega) _ _), inodeAt_bind, bind_of_ok (failIf_false hcount _ _),
    read_bind, setInode_bind, fileBtreeFiling_loop, hroots, forM_cons]
  exact bind_ret_apply _ _

/-- A root that comes back has been descended from. -/
theorem FileTreesEnd.descends (h : FileTreesEnd E) (hroom : 188 ≤ dinodesRoom E.sb) {r : FileRef}
    (hr : r.fsbno < 2 ^ 64) (b : Buf) :
    ∃ n, (descend (visitFile E 0) n r (rootBegun b)).Returns := by
  obtain ⟨n, hn⟩ := h (rootDinode r) 0 0 (rootHolding b)
    (rootDinode_inside (E := { E with dinodes := rootDinode r }) rfl hroom)
    ⟨rootClaimed_ok.inodes, rootClaimed_ok.extents⟩ Nat.zero_lt_one
  rw [rootDinode_call (E := { E with dinodes := rootDinode r }) hr rfl hroom] at hn
  have hspin := hn.ne_spin
  rw [← descend_of_body n r _ hspin] at hn
  exact ⟨n + 1, hn⟩

theorem FileTreesEnd.wellFounded (h : FileTreesEnd E) (hroom : 188 ≤ dinodesRoom E.sb) :
    FileTreesWellFounded E := by
  have hacc : ∀ r : FileRef, r.fsbno < 2 ^ 64 →
      Acc (Function.swap (QuietNext (fileKids E) (FileQuiet E))) r := by
    intro r hr
    obtain ⟨n, hn⟩ := h.descends hroom hr fun _ => 0
    exact quiet_acc fileQuiet_passed (rootBegun_room _).free_lt hn.ne_spin
  constructor
  · intro r hr hstops
    obtain ⟨b, hb⟩ := hstops.not_returns 0
    obtain ⟨n, hn⟩ := h.descends hroom hr b
    cases n with
    | zero => exact absurd rfl hn.ne_spin
    | succ n =>
      rw [descend_succ] at hn
      exact hb (rootBegun b) (rootBegun_be b) (rootBegun_room b) hn.of_bind
  · intro r hcyc
    obtain ⟨c, -, hlast⟩ := Relation.TransGen.tail'_iff.1 hcyc
    exact acyclic_of_acc (hacc r (fileKids_lt hlast.mem)) .refl hcyc

end

/-- Allocation group 0 of a device whose blocks all have the bytes `block`. -/
def blocksIab (block : Buf) : IabEnv where
  dev := ⟨bufNbytes, 512, fun _ _ => some block, fun _ => 0⟩
  sb := { smallSb with inopblock := 2, inopblog := 1 }
  ags _ := ⟨0, 0, 3⟩
  khInit := true
  calloc := true
  khPut _ := true

/-- A device with the block `leaf` at 3, and `node` elsewhere. -/
def treeDev (leaf node : Buf) : XnvmeDev :=
  ⟨bufNbytes, 512, fun slba _ => some (if slba = 6 then leaf else node), fun _ => 0⟩

/-- "IAB3", level 0, one record with one inode. -/
def iab3Leaf : Buf := fun i => if 64 ≤ i ∧ i < 71 then 255 else if i = 71 then 254 else
  if i = 62 then 64 else if i = 63 then 63 else ofList 0 [0x49, 0x41, 0x42, 0x33, 0, 0, 0, 1] i

/-- "IAB3", level 1, two records, which point to block 3. -/
def iab3Parent : Buf := fun i =>
  if i = 543 ∨ i = 547 then 3 else ofList 0 [0x49, 0x41, 0x42, 0x33, 0, 1, 0, 2] i

/-- "BMA3", level 0, one record. -/
def bma3Leaf : Buf := fun i => if i = 87 then 1 else ofList 0 [0x42, 0x4d, 0x41, 0x33, 0, 0, 0, 1] i

/-- "BMA3", level 1, two records, which point to block 3. -/
def bma3Parent : Buf := fun i =>
  if i = 551 ∨ i = 559 then 3 else ofList 0 [0x42, 0x4d, 0x41, 0x33, 0, 1, 0, 2] i

/-- Allocation group 0 of a device of nodes over a leaf. -/
def treeIab : IabEnv := { blocksIab iab3Leaf with dev := treeDev iab3Leaf iab3Parent }

/-- A file system of nodes over a leaf. -/
def treeXfs : XfsEnv :=
  { blocksXfs (fun _ => 0) (fun _ => none) bma3Leaf with dev := treeDev bma3Leaf bma3Parent }

theorem blockRead_congr {dev : XnvmeDev} {count o o' : Nat} (ho : o % dev.lbaNbytes = 0)
    (ho' : o' % dev.lbaNbytes = 0) (h : ∀ nlb, dev.nvmRead (o / dev.lbaNbytes) nlb =
      dev.nvmRead (o' / dev.lbaNbytes) nlb) : blockRead dev count o = blockRead dev count o' := by
  simp only [blockRead, ho, ho', h]

/-- There are two kinds of blocks. -/
theorem treeIab_block (b : Nat) :
    iabBlockAt treeIab ⟨0, 0, 3⟩ b = iabBlockAt treeIab ⟨0, 0, 3⟩ 3 ∨
      iabBlockAt treeIab ⟨0, 0, 3⟩ b = iabBlockAt treeIab ⟨0, 0, 3⟩ 0 := by
  have hofz : ∀ k, xalAgbnoAbsoluteOffset treeIab.sb 0 k % 512 = 0 := by
    intro k
    show (0 * 0 + k) * 1024 % 2 ^ 64 % 512 = 0
    omega
  by_cases h6 : xalAgbnoAbsoluteOffset treeIab.sb 0 b / 512 = 6
  · left
    rw [iabBlockAt, blockRead_congr (hofz b) (hofz 3) fun _ => ?_]
    · rfl
    · show some (if xalAgbnoAbsoluteOffset treeIab.sb 0 b / 512 = 6 then _ else _) = _
      rw [if_pos h6]
      rfl
  · right
    rw [iabBlockAt, blockRead_congr (hofz b) (hofz 0) fun _ => ?_]
    · rfl
    · show some (if xalAgbnoAbsoluteOffset treeIab.sb 0 b / 512 = 6 then _ else _) = _
      rw [if_neg h6]
      rfl

theorem treeIab_leaf : iabKids treeIab ⟨0, 0, 3⟩ 3 = [] := by decide +kernel

theorem treeIab_parent : iabKids treeIab ⟨0, 0, 3⟩ 0 = [3, 3] := by decide +kernel

/-- A state with `i` inodes retrieved. -/
def retrievedState (i : Nat) : Retrieval := ⟨fun _ => 0, fun _ => 0, fun _ => none, i, false⟩

/-- The leaf is passed with one inode more. -/
theorem treeIab_leaf_passes {i k : Nat} (hi : i ≤ 1)
    (h : IabPasses treeIab ⟨0, 0, 3⟩ 3 i k) : k = i + 1 := by
  have hrun : ∀ i ≤ 1, (visitIab treeIab ⟨0, 0, 3⟩ 3 (retrievedState i)).okWith
      (fun t => t.index == i + 1) = true := by decide +kernel
  obtain ⟨t, ht, rfl⟩ := h.visit (s := retrievedState i) (by decide) rfl
  obtain ⟨_, t', hr, hindex⟩ := exists_of_okWith (hrun i hi)
  obtain ⟨-, rfl⟩ := Run.ok.inj (ht.symm.trans hr)
  exact of_decide_eq_true hindex

theorem iabKids_congr {E : IabEnv} {ag : XalAg} {b c : Nat}
    (h : iabBlockAt E ag b = iabBlockAt E ag c) : iabKids E ag b = iabKids E ag c := by
  rw [iabKids, iabKids, h]

/-- From a node the retrieval gets to the leaf, twice. -/
theorem treeIab_next {x y : Nat × Nat} (hx : x.2 = 0)
    (h : Next (iabKids treeIab ⟨0, 0, 3⟩) (IabPasses treeIab ⟨0, 0, 3⟩) x y) :
    iabKids treeIab ⟨0, 0, 3⟩ x.1 = [3, 3] ∧ y.1 = 3 ∧ y.2 ≤ 1 := by
  have hparent : iabBlockAt treeIab ⟨0, 0, 3⟩ x.1 = iabBlockAt treeIab ⟨0, 0, 3⟩ 0 := by
    refine (treeIab_block x.1).resolve_left fun hleaf => ?_
    have hmem := h.mem
    rw [iabKids_congr hleaf, treeIab_leaf] at hmem
    exact absurd hmem List.not_mem_nil
  have hkids : iabKids treeIab ⟨0, 0, 3⟩ x.1 = [3, 3] := by
    rw [iabKids_congr hparent, treeIab_parent]
  have hmem := h.mem
  rw [hkids] at hmem
  obtain ⟨k, pre, post, ⟨block, hblock, hstep⟩, hsplit, hpre⟩ := h
  have hlevel : (iabBlockAt treeIab ⟨0, 0, 3⟩ 0).all fun block => blockLevel block == 1 := by
    decide +kernel
  rw [← hparent, hblock, Option.all_some, beq_iff_eq] at hlevel
  have hk : k = 0 := by
    rcases hstep with ⟨-, -, rfl⟩ | ⟨h0, -⟩
    · exact hx
    · omega
  refine ⟨hkids, by simpa using hmem, ?_⟩
  rw [hkids] at hsplit
  match pre, hsplit, hpre with
  | [], _, hpre =>
    cases hpre
    omega
  | [_], hsplit, .cons ⟨n, hpass⟩ .nil =>
    obtain ⟨rfl, -⟩ := List.cons.inj hsplit
    cases n with
    | zero => exact hpass.elim
    | succ n =>
      obtain ⟨j, hj, hthrough⟩ := hpass
      rw [treeIab_leaf] at hthrough
      cases hthrough
      rw [treeIab_leaf_passes (by omega) hj, hk]
  | _ :: _ :: _, hsplit, _ => simp at hsplit

theorem treeIab_wellFounded : IabWellFounded treeIab ⟨0, 0, 3⟩ 0 := by
  have hreached : ∀ y, IabReached treeIab ⟨0, 0, 3⟩ 0 y → y.2 = 0 ∨ y.1 = 3 ∧ y.2 ≤ 1 := by
    rintro y ⟨b, -, hy⟩
    induction hy with
    | refl => exact .inl rfl
    | @tail x y _ hnext ih =>
      rcases ih with h0 | ⟨h3, -⟩
      · exact .inr (treeIab_next h0 hnext).2
      · have hmem := hnext.mem
        rw [h3, treeIab_leaf] at hmem
        exact absurd hmem List.not_mem_nil
  have hleaf : ∀ i ≤ 1, ∀ s, s.index = i → ∀ block, iabBlockAt treeIab ⟨0, 0, 3⟩ 3 = some block →
      (decodeIab3LeafRecords treeIab ⟨0, 0, 3⟩ block s).Returns := by
    intro i hi s hs block hblock
    have hrun : ∀ i ≤ 1, ((iabBlockAt treeIab ⟨0, 0, 3⟩ 3).all fun block =>
        (decodeIab3LeafRecords treeIab ⟨0, 0, 3⟩ block (retrievedState i)).okWith fun _ => true) =
          true := by decide +kernel
    have hrun := hrun i hi
    rw [hblock, Option.all_some] at hrun
    obtain ⟨_, t, hr, -⟩ := exists_of_okWith hrun
    refine (decodeIab3LeafRecords_alike (by decide) block
      (hs.trans rfl : s.index = (retrievedState i).index)).returns ?_
    exact ⟨t, .inl ⟨_, hr⟩⟩
  constructor
  · intro y hy s hs
    have hle : y.2 ≤ 1 := by have := hreached y hy; omega
    have hany : ∀ b, b = 3 ∨ b = 0 → (iabBlockAt treeIab ⟨0, 0, 3⟩ b).any fun block =>
        blockLevel block == if b = 3 then 0 else 1 := by
      rintro b (rfl | rfl) <;> decide +kernel
    rcases treeIab_block y.1 with hy | hy
    · obtain ⟨block, hblock, h0⟩ := (Option.any_eq_true _ _).1 (hany 3 (.inl rfl))
      obtain ⟨b, hread⟩ := readIab3Block_of_block (hy.trans hblock) s
      have h0 : blockLevel block = 0 := by simpa using h0
      rw [visitIab, bind_of_ok hread, if_neg (by omega), if_pos h0]
      exact (hleaf y.2 hle { s with buf := b } hs block hblock).bind fun _ _ _ => returns_ok _ _
    · obtain ⟨block, hblock, h1⟩ := (Option.any_eq_true _ _).1 (hany 0 (.inr rfl))
      obtain ⟨b, hread⟩ := readIab3Block_of_block (hy.trans hblock) s
      have h1 : blockLevel block = 1 := by simpa using h1
      rw [visitIab, bind_of_ok hread, if_pos h1, bind_of_ok (assert_true (by decide) _)]
      exact returns_ok _ _
  · intro y hy hcyc
    obtain ⟨c, hfirst, -⟩ := Relation.TransGen.head'_iff.1 hcyc
    obtain ⟨d, -, hlast⟩ := Relation.TransGen.tail'_iff.1 hcyc
    have hmem := hlast.mem
    rcases treeIab_block d.1 with hd | hd
    · rw [iabKids_congr hd, treeIab_leaf] at hmem
      exact absurd hmem List.not_mem_nil
    · rw [iabKids_congr hd, treeIab_parent] at hmem
      have h3 : y.1 = 3 := by simpa using hmem
      have hmem := hfirst.mem
      rw [h3, treeIab_leaf] at hmem
      exact absurd hmem List.not_mem_nil

/-- The blocks of files are of two kinds as well. -/
theorem treeXfs_block {fsbno : Nat} {block : Buf}
    (h : deviceRead treeXfs.dev 1024 (xalFsbnoOffset .xfs treeXfs.sb fsbno) = some block) :
    blockLevel block ≤ 1 ∧ blockNumrecs block ≤ 2 := by
  rw [deviceRead, Option.ite_none_right_eq_some] at h
  obtain ⟨data, hdata, rfl⟩ := Option.map_eq_some_iff.1 h.2
  cases hdata
  by_cases h6 : xalFsbnoOffset .xfs treeXfs.sb fsbno / treeXfs.dev.lbaNbytes = 6
  · rw [if_pos h6]
    exact ⟨by decide, by decide⟩
  · rw [if_neg h6]
    exact ⟨by decide, by decide⟩

/-- They point to leaves only. -/
theorem treeXfs_kids {r c : FileRef} (h : c ∈ fileKids treeXfs r) :
    r.leaf = false ∧ c.leaf = true := by
  unfold fileKids at h
  cases hat : fileBlockAt treeXfs r.fsbno with
  | none => rw [hat] at h; cases h
  | some block =>
    rw [hat] at h
    obtain ⟨hread, -⟩ := Option.filter_eq_some_iff.1 hat
    have hlevel := (treeXfs_block hread).1
    by_cases h0 : r.leaf = true ∨ blockLevel block = 0
    · simp only [if_pos h0] at h
      cases h
    · simp only [if_neg h0] at h
      obtain ⟨i, -, rfl⟩ := List.mem_map.1 h
      rw [not_or] at h0
      exact ⟨by simpa using h0.1, beq_iff_eq.2 (by omega)⟩

theorem treeXfs_wellFounded : FileTreesWellFounded treeXfs := by
  constructor
  · rintro ⟨leaf, fsbno⟩ _
      ⟨-, ⟨-, -, -, hbuf | ⟨-, hbuf⟩⟩ | ⟨-, h72, -⟩ | ⟨-, b, b', hb, -, -, hlt⟩⟩
    · exact absurd hbuf (by decide)
    · exact absurd hbuf (by decide)
    · exact absurd h72 (by decide)
    · obtain ⟨block, hblock, hbytes⟩ := devRead_block hb
      have hle := (treeXfs_block hblock).2
      rw [← (header_congr hbytes (by decide)).2.2] at hle
      simp only [bufNbytes] at hlt
      omega
  · intro r hcyc
    obtain ⟨c, hfirst, -⟩ := Relation.TransGen.head'_iff.1 hcyc
    obtain ⟨d, -, hlast⟩ := Relation.TransGen.tail'_iff.1 hcyc
    have hnode := (treeXfs_kids hfirst.mem).1
    rw [(treeXfs_kids hlast.mem).2] at hnode
    cases hnode

/-- "IAB3", level 1, one record, which points to block 3. -/
def iab3Node : Buf := fun i =>
  if i = 543 then 3 else ofList 0 [0x49, 0x41, 0x42, 0x33, 0, 1, 0, 1] i

/-- "BMA3", level 2, one record, which points to block 3. -/
def bma3Node : Buf := fun i =>
  if i = 551 then 3 else ofList 0 [0x42, 0x4d, 0x41, 0x33, 0, 2, 0, 1] i

theorem iab3Node_next (i : Nat) : Next (iabKids (blocksIab iab3Node) ⟨0, 0, 3⟩)
    (IabPasses (blocksIab iab3Node) ⟨0, 0, 3⟩) (3, i) (3, i) := by
  have hkids : iabKids (blocksIab iab3Node) ⟨0, 0, 3⟩ 3 = [3] := by decide +kernel
  have hany : (iabBlockAt (blocksIab iab3Node) ⟨0, 0, 3⟩ 3).any fun block =>
      blockLevel block == 1 := by
    decide +kernel
  obtain ⟨block, hblock, h1⟩ := (Option.any_eq_true _ _).1 hany
  exact ⟨i, [], [], ⟨block, hblock, .inl ⟨by simpa using h1, by decide, rfl⟩⟩, hkids, .nil⟩

/-- A file system of such nodes, with a root that points to one. -/
def loopXfs : XfsEnv := blocksXfs (rootDinode ⟨false, 3⟩) (fun _ => none) bma3Node

theorem bma3Node_next : QuietNext (fileKids loopXfs) (FileQuiet loopXfs) ⟨false, 3⟩ ⟨false, 3⟩ := by
  have hkids : fileKids loopXfs ⟨false, 3⟩ = [⟨false, 3⟩] := by decide +kernel
  have hany : (fileBlockAt loopXfs 3).any fun block => blockLevel block == 2 := by decide +kernel
  obtain ⟨block, hblock, h2⟩ := (Option.any_eq_true _ _).1 hany
  rw [beq_iff_eq] at h2
  refine ⟨(), [], [], ⟨by decide, block, hblock, ?_⟩, hkids, .nil⟩
  exact ⟨by omega, by decide⟩

end Xallib
