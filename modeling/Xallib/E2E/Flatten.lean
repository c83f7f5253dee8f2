import Xallib.E2E.Descent
import Xallib.Xfs.Proof.Extents

/-!
# The B+tree of a regular file, flattened

`BmapTree E level fsbno l`: at the block `fsbno` the device has a B+tree of extents of the height
`level`, with the records `l` on its leaves. `file_btree_flattened`: reading the trees below the
root in a dinode stores their records, one after the other. One block is read from the device for
each node and each leaf, all through `be->buf`; what the buffer held plays no part, nor do keys and
siblings.
-/

namespace Xallib

open Lib Lib.Cm Lib.Run Lib.Buf

/-! ## Trees on the device -/

section
variable (E : XfsEnv)

/-- The most records in a block of the B+tree. -/
def bmapMaxrecs : Nat := (E.sb.blocksize - 72) / 16

/-- The pointers stand behind the keys, of which there is room for the most records. -/
def bmapPointer (block : Buf) (i : Nat) : Nat := be64 block (72 + bmapMaxrecs E * 8 + i * 8)

/-- A well-formed tree (module doc). -/
def BmapTree : Nat → Nat → List XalExtent → Prop
  | 0, fsbno, l => ∃ block, fileBlockAt E fsbno = some block ∧ blockLevel block = 0 ∧
      blockNumrecs block ≤ bmapMaxrecs E ∧
      l = (List.range (blockNumrecs block)).map fun i => xfsExtentAt block (72 + 16 * i)
  | level + 1, fsbno, l => ∃ block, fileBlockAt E fsbno = some block ∧
      blockLevel block = level + 1 ∧
      blockNumrecs block ≤ bmapMaxrecs E ∧
      Concat (BmapTree level) ((List.range (blockNumrecs block)).map (bmapPointer E block)) l

end

section
variable {E : XfsEnv} {self dinode fsbno : Nat} {s s' t u : Store Buf} {l m : List XalExtent}

theorem lblockPointer_eq {block : Buf} (hmax : E.sb.blocksize ≤ blockNbytesMax) {i : Nat}
    (hi : i < bmapMaxrecs E) : lblockPointer E block i = bmapPointer E block i := by
  simp only [blockNbytesMax] at hmax
  rw [bmapMaxrecs] at hi
  have hofz : (btreeLblockMeta E.sb).2 = 72 + bmapMaxrecs E * 8 := by
    simp only [btreeLblockMeta, usub, bmapMaxrecs]
    omega
  refine be64_congr fun j hj => ?_
  rw [nodePointers, hofz, if_pos (by rw [bmapMaxrecs]; omega), Nat.add_assoc _ (i * 8) j]

/-! ## What is appended -/

/-- The extents `l` have been stored behind those that were there. -/
structure Appended (s s' : Store Buf) (l : List XalExtent) : Prop where
  le : s.extents.free ≤ s'.extents.free
  keep : ∀ j < s.extents.free, s'.extents.memory j = s.extents.memory j
  stored : storedSince s s' = l

theorem Appended.free (h : Appended s s' l) : s'.extents.free = s.extents.free + l.length := by
  have hle := h.le
  rw [← h.stored, storedSince, List.length_map, List.length_range]
  omega

theorem Appended.refl (s : Store Buf) : Appended s s [] :=
  ⟨Nat.le_refl _, fun _ _ => rfl, by rw [storedSince, Nat.sub_self]; rfl⟩

theorem Appended.trans (h : Appended s t l) (h' : Appended t u m) : Appended s u (l ++ m) := by
  have hle := h.le
  have hle' := h'.le
  refine ⟨Nat.le_trans hle hle', fun j hj => ?_, ?_⟩
  · rw [h'.keep j (by omega), h.keep j hj]
  · rw [← h.stored, ← h'.stored, storedSince, storedSince, storedSince,
      show u.extents.free - s.extents.free =
        t.extents.free - s.extents.free + (u.extents.free - t.extents.free) by omega,
      List.range_add, List.map_append, List.map_map]
    congr 1
    · refine List.map_congr_left fun i hi => h'.keep _ ?_
      have := List.mem_range.1 hi
      omega
    · refine List.map_congr_left fun i _ => ?_
      show u.extents.memory (s.extents.free + (t.extents.free - s.extents.free + i)) = _
      rw [← Nat.add_assoc, Nat.add_sub_cancel' hle]

/-- What the buffer holds plays no part. -/
theorem Appended.be {b : Buf} (h : Appended { s with be := b } u l) : Appended s u l :=
  ⟨h.le, h.keep, h.stored⟩

variable (hX : E.mpExtents.Bounded poolReserved extentNbytes) (h72 : 72 ≤ E.sb.blocksize)
include hX h72

/-- The records of a leaf. -/
theorem processFileBtreeLeaf_appends {u : Unit} (hok : StoreOk s) (htree : BmapTree E 0 fsbno l)
    (h : processFileBtreeLeaf E fsbno self s = .ok u s') : Appended s s' l := by
  obtain ⟨block, hat, -, hmax, rfl⟩ := htree
  obtain ⟨hblock, -⟩ := Option.filter_eq_some_iff.1 hat
  obtain ⟨b, hb, hbytes⟩ := devRead_of_block hblock s.be
  have hread : onBe (devRead E.dev E.sb.blocksize (xalFsbnoOffset .xfs E.sb fsbno)) s =
      .ok () { s with be := b } := zoom_of_ok hb
  unfold processFileBtreeLeaf at h
  rw [bind_of_ok hread, read_bind] at h
  obtain ⟨-, h⟩ := failIf_bind_ok.1 h
  obtain ⟨-, h⟩ := failIf_bind_ok.1 h
  obtain ⟨idx, s₂, hclaim, h⟩ := bind_ok.1 h
  obtain ⟨-, rfl, hfree, hmem, -, -⟩ :=
    (onExtents_claim hX (show StoreOk { s with be := b } from ⟨hok.inodes, hok.extents⟩) _).ok
      hclaim
  rw [setInode_bind] at h
  have hstored := decodeExtents_stored (s := s) (by rw [putInode_extents]; exact hfree) h
  obtain ⟨hfree', -, hkeep⟩ := decodeExtents_memory _ _ _ _ _ h
  rw [putInode_extents, hfree] at hfree'
  refine ⟨by rw [hfree']; exact Nat.le_add_right _ _, fun j hj => ?_, ?_⟩
  · rw [hkeep j hj, putInode_extents, hmem]
  · obtain ⟨-, -, hn⟩ := header_congr hbytes h72
    rw [hstored, hn]
    refine List.map_congr_left fun i hi => xfsExtentAt_congr hbytes ?_
    have := List.mem_range.1 hi
    rw [bmapMaxrecs] at hmax
    omega

omit hX h72 in
/-- The pointers of a node, as the calls for them. -/
theorem fileKids_node {block : Buf} {level : Nat} (hat : fileBlockAt E fsbno = some block)
    (hlevel : blockLevel block = level + 1) (hmax : blockNumrecs block ≤ bmapMaxrecs E)
    (hsize : E.sb.blocksize ≤ blockNbytesMax) : fileKids E ⟨false, fsbno⟩ =
      ((List.range (blockNumrecs block)).map (bmapPointer E block)).map fun p =>
        ⟨level == 0, p⟩ := by
  have hleaf : (level + 1 == 1) = (level == 0) := by cases level <;> rfl
  simp only [fileKids, hat, List.map_map, hlevel, hleaf]
  refine List.map_congr_left fun i hi => ?_
  have hi := List.mem_range.1 hi
  rw [lblockPointer_eq hsize (by omega)]
  rfl

omit hX h72 in
theorem returns_trees {level n : Nat} {ps : List Nat}
    (hcall : ∀ (fsbno : Nat) (l : List XalExtent) (s : Store Buf), BmapTree E level fsbno l →
      (fileCall E self n ⟨level == 0, fsbno⟩ s).Returns)
    (hps : Concat (BmapTree E level) ps l) : ∀ s : Store Buf,
      ((ps.map (FileRef.mk (level == 0))).forM (fileCall E self n) s).Returns := by
  induction hps with
  | nil => exact fun s => returns_ok () s
  | cons hp _ ih => exact fun s => (hcall _ _ s hp).bind fun _ t _ => ih t

/-- Reading a tree stores its records. The induction is on the height. -/
theorem fileCall_appends {s₀ : Store Buf} (level : Nat) : ∀ (n fsbno : Nat) (l : List XalExtent)
    (s s' : Store Buf) (u : Unit), BmapTree E level fsbno l → Filing self s₀ s →
      fileCall E self n ⟨level == 0, fsbno⟩ s = .ok u s' → Filing self s₀ s' ∧ Appended s s' l := by
  induction level with
  | zero =>
    intro n fsbno l s s' u htree hs h
    exact ⟨(processFileBtreeLeaf_spec hX hs fsbno).ok h, processFileBtreeLeaf_appends hX h72
      hs.ok htree h⟩
  | succ level ih =>
    intro n fsbno l s s' u htree hs h
    obtain ⟨block, hat, hlevel, hmax, hkids⟩ := htree
    cases n with
    | zero => cases h
    | succ n =>
      have hnode : fileCall E self (n + 1) ⟨false, fsbno⟩ s = _ := processFileBtreeNode_eq n fsbno s
      rw [show (level + 1 == 0) = false from rfl, hnode] at h
      obtain ⟨kids, t, hvisit, h⟩ := bind_ok.1 h
      obtain ⟨⟨b, rfl⟩, rfl, -, _, -, hsize⟩ := visitNode_ok hvisit
      rw [fileKids_node hat hlevel hmax hsize.2] at h
      rw [← forM_map] at h
      obtain ⟨hs', ha⟩ := forM_concat (I := Filing self s₀) (R := fun l s s' => Appended s s' l)
        .refl (fun _ _ _ _ _ => .trans) (fun p m t t' v => ih n p m t t' v) hkids _ s' u (hs.be b) h
      exact ⟨hs', ha.be⟩

/-! ## The calls come back -/

omit hX in
/-- The block is on the device, so that its read does not stop the process, and it holds its
records. -/
theorem not_fileStops {leaf : Bool} {block : Buf} (hat : fileBlockAt E fsbno = some block)
    (hmax : blockNumrecs block ≤ bmapMaxrecs E) : ¬FileStops E ⟨leaf, fsbno⟩ := by
  obtain ⟨hblock, -⟩ := Option.filter_eq_some_iff.1 hat
  rintro ⟨-, hread | ⟨-, hlt, -⟩ | ⟨-, b, b', hb, -, -, hlt⟩⟩
  · obtain ⟨b, hb, -⟩ := devRead_of_block hblock (fun _ => 0)
    have hreturns : (devRead E.dev E.sb.blocksize (xalFsbnoOffset .xfs E.sb fsbno)
        fun _ => 0).Returns := by
      rw [hb]
      exact returns_ok _ _
    exact devRead_returns_iff.1 hreturns hread
  · omega
  · obtain ⟨block', hblock', hbytes⟩ := devRead_block hb
    obtain rfl := Option.some.inj (hblock.symm.trans hblock')
    rw [deviceRead, Option.ite_none_right_eq_some] at hblock
    have hbuf := hblock.1.2.2.2.1
    rw [(header_congr hbytes h72).2.2] at hlt
    rw [bmapMaxrecs] at hmax
    omega

omit hX in
theorem fileCall_returns (level : Nat) : ∀ (n fsbno : Nat) (l : List XalExtent) (s : Store Buf),
    level ≤ n → BmapTree E level fsbno l → (fileCall E self n ⟨level == 0, fsbno⟩ s).Returns := by
  induction level with
  | zero =>
    intro n fsbno l s _ htree
    obtain ⟨block, hat, -, hmax, -⟩ := htree
    have hvisit : (visitFile E self ⟨true, fsbno⟩ s).Returns :=
      visitFile_returns (not_fileStops h72 hat hmax) s
    exact hvisit.of_bind
  | succ level ih =>
    intro n fsbno l s hle htree
    obtain ⟨block, hat, hlevel, hmax, hkids⟩ := htree
    obtain ⟨n, rfl⟩ : ∃ m, n = m + 1 := ⟨n - 1, by omega⟩
    have hnode : fileCall E self (n + 1) ⟨false, fsbno⟩ s = _ := processFileBtreeNode_eq n fsbno s
    rw [show (level + 1 == 0) = false from rfl, hnode]
    refine (visitFile_returns (not_fileStops h72 hat hmax) s).bind fun kids t hvisit => ?_
    obtain ⟨-, rfl, -, _, -, hsize⟩ := visitNode_ok hvisit
    rw [fileKids_node hat hlevel hmax hsize.2]
    exact returns_trees (fun p m u hp => ih n p m u (by omega) hp) hkids t

end

/-! ## A file -/

/-- The file has the records `l`, and nothing else has changed. -/
structure FileFlattened (slot : Nat) (l : List XalExtent) (s s' : Store Buf) : Prop extends
    Appended s s' l where
  content : (s'.inodes.memory slot).content = ⟨s.extents.free, l.length⟩
  others : ∀ i < s.inodes.free, i ≠ slot → s'.inodes.memory i = s.inodes.memory i
  free_eq : s'.inodes.free = s.inodes.free

/-- The records of the trees below the root are stored, in order; and a depth as large as their
height is enough, where the root is read inside `be->dinodes`. -/
theorem file_btree_flattened (E : XfsEnv) (hX : E.mpExtents.Bounded poolReserved extentNbytes)
    (h72 : 72 ≤ E.sb.blocksize) (level dinode self : Nat) (l : List XalExtent)
    (hlevel : (fileBtreePos E dinode).level = level + 1)
    (htrees : Concat (BmapTree E level) (fileFsbnos E dinode) l) (s : Store Buf) (hok : StoreOk s)
    (hself : self < s.inodes.free) :
    (∀ fuel s', processDinodeFileBtreeRoot E fuel dinode self s = .ok () s' →
      FileFlattened self l s s') ∧
      (FileRootInside E dinode →
        ∀ fuel, level ≤ fuel → (processDinodeFileBtreeRoot E fuel dinode self s).Returns) := by
  have hfiling : (s.inodes.memory self).content.count = 0 → Filing self s (s.putInode self
      { s.inodes.memory self with
        content := { (s.inodes.memory self).content with idx := s.extents.free % 2 ^ 32 } }) := by
    intro hcount
    refine ⟨⟨hok.putInode hself _, hself, Nat.le_refl _, fun i _ hne => putInode_other _ _ _ hne,
      Nat.le_refl _, fun _ _ => rfl⟩, ?_, rfl⟩
    rw [putInode_same, putInode_extents, Nat.mod_eq_of_lt hok.extents_free_lt, Nat.sub_self]
    simp only [hcount]
  have hroots : fileRoots E dinode = (fileFsbnos E dinode).map (FileRef.mk (level == 0)) := by
    have hleaf : (level + 1 == 1) = (level == 0) := by cases level <;> rfl
    rw [fileRoots, hlevel, hleaf]
  constructor
  · intro fuel s' h
    rw [processDinodeFileBtreeRoot_eq (fileRootInside_of_ok h)] at h
    unfold fileBtreeFiling at h
    obtain ⟨-, h⟩ := failIf_bind_ok.1 h
    rw [inodeAt_bind] at h
    obtain ⟨hcount, h⟩ := failIf_bind_ok.1 h
    rw [read_bind, setInode_bind, fileBtreeFiling_loop, hroots] at h
    rw [← forM_map] at h
    obtain ⟨hf, ha⟩ := forM_concat (I := Filing self s) (R := fun l s s' => Appended s s' l) .refl
      (fun _ _ _ _ _ => .trans) (fun p m t t' v => fileCall_appends hX h72 level fuel p m t t' v)
        htrees
      _ s' () (hfiling (not_not.1 hcount)) h
    have ha : Appended s s' l := ⟨ha.le, ha.keep, ha.stored⟩
    refine ⟨ha, ?_, hf.keep, hf.free_eq⟩
    rw [hf.file, ha.free, Nat.add_sub_cancel_left]
  · intro hroot fuel hle
    rw [processDinodeFileBtreeRoot_eq hroot]
    unfold fileBtreeFiling
    refine (returns_failIf _ _).bind fun _ s₁ h₁ => ?_
    obtain ⟨-, rfl⟩ := failIf_ok.1 h₁
    rw [inodeAt_bind]
    refine (returns_failIf _ _).bind fun _ s₂ h₂ => ?_
    obtain ⟨-, rfl⟩ := failIf_ok.1 h₂
    rw [read_bind, setInode_bind, fileBtreeFiling_loop, hroots]
    exact returns_trees (fun p m t hp => fileCall_returns h72 level fuel p m t hle hp) htrees _

/-! ## Two nodes with three leaves -/

section
variable {E : XfsEnv} {fsbno level : Nat} {l : List XalExtent}

theorem BmapTree.leaf (h : (fileBlockAt E fsbno).any (fun block => blockLevel block == 0 &&
      (decide (blockNumrecs block ≤ bmapMaxrecs E) &&
        (List.range (blockNumrecs block)).map (fun i => xfsExtentAt block (72 + 16 * i)) == l)) =
          true) : BmapTree E 0 fsbno l := by
  obtain ⟨block, hat, hblock⟩ := (Option.any_eq_true _ _).1 h
  simp only [Bool.and_eq_true, beq_iff_eq, decide_eq_true_eq] at hblock
  exact ⟨block, hat, hblock.1, hblock.2.1, hblock.2.2.symm⟩

theorem BmapTree.node {ps : List Nat} (h : (fileBlockAt E fsbno).any (fun block =>
      blockLevel block == level + 1 && (decide (blockNumrecs block ≤ bmapMaxrecs E) &&
        (List.range (blockNumrecs block)).map (bmapPointer E block) == ps)) = true)
    (hkids : Concat (BmapTree E level) ps l) : BmapTree E (level + 1) fsbno l := by
  obtain ⟨block, hat, hblock⟩ := (Option.any_eq_true _ _).1 h
  simp only [Bool.and_eq_true, beq_iff_eq, decide_eq_true_eq] at hblock
  exact ⟨block, hat, hblock.1, hblock.2.1, by rw [hblock.2.2]; exact hkids⟩

end

/-- "BMA3", with what follows at `ofz`; the keys of a node are all ones. -/
def bma3Block (level numrecs : UInt8) (ofz : Nat) (bytes : List UInt8) : Buf := fun i =>
  if i < 8 then [0x42, 0x4d, 0x41, 0x33, 0, level, 0, numrecs].getD i 0
  else if i < ofz then 255 else ofList ofz bytes i

/-- A record of `n` blocks from `block` on. -/
def recordBytes (offset block n : Nat) : List UInt8 :=
  beBytes 8 (offset * 2 ^ 9) ++ beBytes 8 (block * 2 ^ 21 + n)

/-- The root of a file has two nodes, at the blocks 3 and 6; the leaves are at 4, 5 and 7. -/
def twoNodes : XfsEnv :=
  { xfsTableEnv { (default : XalSb) with
      nallocated := 1, blocksize := 1024, inodesize := 512, agblocks := 8, agblklog := 3 }
      (fun i => if i = 82 then 24 else if i = 177 ∨ i = 179 then 2 else if i = 275 then 3
        else if i = 283 then 6 else 0) (fun _ => none) with
    dev := ⟨bufNbytes, 512, fun slba _ => some <|
      if slba = 6 then bma3Block 1 2 544 (beBytes 8 4 ++ beBytes 8 5)
      else if slba = 12 then bma3Block 1 1 544 (beBytes 8 7)
      else if slba = 8 then bma3Block 0 2 72 (recordBytes 0 20 3 ++ recordBytes 3 9 1)
      else if slba = 10 then bma3Block 0 1 72 (recordBytes 4 30 2)
      else if slba = 14 then bma3Block 0 1 72 (recordBytes 6 11 5) else fun _ => 0, fun _ => 0⟩ }

theorem file_btree_flattened_nodes :
    (∃ s', processDinodeFileBtreeRoot twoNodes 1 0 0 rootClaimed = .ok () s' ∧
      (s'.inodes.memory 0).content = ⟨0, 4⟩ ∧
      storedSince rootClaimed s' = [⟨0, 20, 3, 0⟩, ⟨3, 9, 1, 0⟩, ⟨4, 30, 2, 0⟩, ⟨6, 11, 5, 0⟩]) ∧
    ∀ fuel, 1 ≤ fuel → (processDinodeFileBtreeRoot twoNodes fuel 0 0 rootClaimed).Returns := by
  have hleaf₁ : BmapTree twoNodes 0 4 [⟨0, 20, 3, 0⟩, ⟨3, 9, 1, 0⟩] := .leaf (by decide +kernel)
  have hleaf₂ : BmapTree twoNodes 0 5 [⟨4, 30, 2, 0⟩] := .leaf (by decide +kernel)
  have hleaf₃ : BmapTree twoNodes 0 7 [⟨6, 11, 5, 0⟩] := .leaf (by decide +kernel)
  have hfirst : BmapTree twoNodes 1 3 [⟨0, 20, 3, 0⟩, ⟨3, 9, 1, 0⟩, ⟨4, 30, 2, 0⟩] :=
    .node (by decide +kernel) (.cons hleaf₁ (.cons hleaf₂ .nil))
  have hsecond : BmapTree twoNodes 1 6 [⟨6, 11, 5, 0⟩] :=
    .node (by decide +kernel) (.cons hleaf₃ .nil)
  have hfsbnos : fileFsbnos twoNodes 0 = [3, 6] := by decide +kernel
  have htrees : Concat (BmapTree twoNodes 1) (fileFsbnos twoNodes 0)
      [⟨0, 20, 3, 0⟩, ⟨3, 9, 1, 0⟩, ⟨4, 30, 2, 0⟩, ⟨6, 11, 5, 0⟩] := by
    rw [hfsbnos]
    exact .cons hfirst (.cons hsecond .nil)
  obtain ⟨hstored, hreturns⟩ := file_btree_flattened twoNodes (mprotectWithin_bounded _ _ _)
    (by decide) 1 0 0 _ (by decide +kernel) htrees rootClaimed rootClaimed_ok Nat.zero_lt_one
  refine ⟨?_, hreturns ⟨by decide +kernel, by unfold FsbnosInside; decide +kernel⟩⟩
  have hrun : (processDinodeFileBtreeRoot twoNodes 1 0 0 rootClaimed).okWith (fun _ => true) =
      true := by
    decide +kernel
  obtain ⟨_, s', hr, -⟩ := exists_of_okWith hrun
  have hflat := hstored 1 s' hr
  exact ⟨s', hr, hflat.content, hflat.stored⟩

end Xallib
