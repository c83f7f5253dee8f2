import Mathlib.Data.Finite.Prod
import Xallib.Lib.Loop
import Xallib.Xfs.Proof.Btree

/-!
# The recursions over B+trees as descents

`retrieve_dinodes_via_iab3` is the descent with `visitIab` (`retrieveDinodesViaIab3_eq`), and
`process_file_btree_node` with `process_file_btree_leaf` that with `visitFile` (`descend_of_body`,
`body_of_descend`). `visitIab_visits` and `visitFile_visits` are what the library asks of a visit:
it names the pointers of the block, whatever the state. How a visit of a block of inodes ends
depends on how many inodes have been retrieved, and on nothing else of the state (`visitIab_alike`).
A leaf of extents claims as many as it has records, and those that can be claimed are limited.
-/

namespace Xallib

open Lib Lib.Cm Lib.Run Lib.Buf

/-! ## Inodes -/

section
variable {E : IabEnv} {ag : XalAg} {blkno : Nat} {s t : Retrieval} {block : Buf} {l : List Nat}

theorem retrieveDinodesViaIab3_eq (n : Nat) : ∀ (blkno : Nat) (s : Retrieval),
    retrieveDinodesViaIab3 E ag n blkno s = descend (visitIab E ag) n blkno s := by
  induction n with
  | zero => exact fun _ _ => rfl
  | succ n ih =>
    intro blkno s
    have hbody : retrieveDinodesViaIab3 E ag n = descend (visitIab E ag) n :=
      funext fun b => funext fun s => ih b s
    unfold retrieveDinodesViaIab3
    rw [descend_succ, visitIab, bind_assoc_apply, hbody]
    refine bind_congr_apply s fun block t => ?_
    by_cases h1 : blockLevel block = 1
    · rw [if_pos h1, if_pos h1, bind_assoc_apply]
      refine bind_congr_apply t fun _ t' => ?_
      rw [forUp_range, forM_map, ret_bind]
    · rw [if_neg h1, if_neg h1]
      by_cases h0 : blockLevel block = 0
      · rw [if_pos h0, if_pos h0, bind_assoc_apply]
        exact (bind_ret_apply _ t).symm
      · rw [if_neg h0, if_neg h0]
        rfl

/-- The block is that of the device. -/
theorem readIab3Block_ok (h : readIab3Block E ag blkno s = .ok block t) :
    iabBlockAt E ag blkno = some block ∧ t.index = s.index := by
  unfold readIab3Block at h
  obtain ⟨b, s₁, hread, h⟩ := bind_ok.1 h
  obtain ⟨hmagic, h⟩ := failIf_bind_ok.1 h
  obtain ⟨rfl, rfl⟩ := Run.ok.inj h
  obtain ⟨buf, hinto, rfl⟩ := zoom_ok.1 hread
  refine ⟨?_, rfl⟩
  rw [iabBlockAt, devReadInto_block hinto, Option.filter_some, if_pos (by simpa using hmagic)]

theorem readIab3Block_of_block (h : iabBlockAt E ag blkno = some block) (s : Retrieval) :
    ∃ b, readIab3Block E ag blkno s = .ok block { s with buf := b } := by
  obtain ⟨hread, hmagic⟩ := Option.filter_eq_some_iff.1 h
  obtain ⟨b, hread⟩ := devReadInto_of_block hread s.buf
  refine ⟨b, ?_⟩
  have hzoom : onBuf (devReadInto E.dev E.sb.blocksize
      (xalAgbnoAbsoluteOffset E.sb ag.seqno blkno)) s = .ok block { s with buf := b } :=
    zoom_of_ok hread
  unfold readIab3Block
  rw [bind_of_ok hzoom, bind_of_ok (failIf_false (by simpa using hmagic) _ _), ret_apply]

theorem iabKids_of_block (h : iabBlockAt E ag blkno = some block) : iabKids E ag blkno =
    if blockLevel block = 1 then (List.range (blockNumrecs block)).map (sblockPointer E block)
      else [] := by
  rw [iabKids, h]

theorem iabKids_lt {b c : Nat} (h : c ∈ iabKids E ag b) : c < 2 ^ 32 := by
  unfold iabKids at h
  cases hb : iabBlockAt E ag b with
  | none => rw [hb] at h; cases h
  | some block =>
    rw [hb] at h
    by_cases h1 : blockLevel block = 1
    · obtain ⟨i, -, rfl⟩ := List.mem_map.1 (by simpa only [if_pos h1] using h)
      exact be32_lt _ _
    · simp only [if_neg h1] at h
      cases h

/-- What a visit says of the block (module doc). -/
theorem visitIab_ok (h : visitIab E ag blkno s = .ok l t) :
    l = iabKids E ag blkno ∧ IabPasses E ag blkno s.index t.index := by
  unfold visitIab at h
  obtain ⟨block, s₁, hread, h⟩ := bind_ok.1 h
  obtain ⟨hblock, hindex⟩ := readIab3Block_ok hread
  rw [iabKids_of_block hblock]
  by_cases h1 : blockLevel block = 1
  · rw [if_pos h1] at h ⊢
    obtain ⟨hofz, h⟩ := assert_bind_ok.1 h
    obtain ⟨rfl, rfl⟩ := Run.ok.inj h
    exact ⟨rfl, block, hblock, .inl ⟨h1, hofz, hindex⟩⟩
  · rw [if_neg h1] at h ⊢
    by_cases h0 : blockLevel block = 0
    · rw [if_pos h0] at h
      obtain ⟨_, s₂, hleaf, h⟩ := bind_ok.1 h
      obtain ⟨rfl, rfl⟩ := Run.ok.inj h
      exact ⟨rfl, block, hblock, .inr ⟨h0, s₁, s₂, hindex, rfl, hleaf⟩⟩
    · rw [if_neg h0] at h
      cases h

theorem visitIab_visits (E : IabEnv) (ag : XalAg) :
    Visits (visitIab E ag) (iabKids E ag) (IabPasses E ag) (fun _ => True) (·.index) where
  names _ hr := (visitIab_ok hr).1
  keep _ _ := trivial
  takes _ hr := (visitIab_ok hr).2

/-! ### How many inodes are retrieved -/

/-- An inode is copied to its place in `be->dinodes`. -/
theorem copyDinode_index {bound : Nat} (hroom : dinodesRoom E.sb ≤ bound) (inodechunk : Buf)
    (i : Nat) (h : s.index ≤ bound) :
    (copyDinode E inodechunk i s).Sat (fun _ t => t.index ≤ bound) fun _ _ => True := by
  unfold copyDinode
  rw [read_bind]
  refine sat_assert_bind fun hin => ?_
  rw [modify_bind, read_bind]
  refine sat_failIf_bind (fun _ => trivial) fun _ => ?_
  show s.index + 1 ≤ bound
  have hsize : E.sb.inodesize = 0 → dinodesRoom E.sb = 0 := fun h0 => by simp [dinodesRoom, h0]
  have hle : E.sb.inodesize ≠ 0 → s.index ≤ s.index * E.sb.inodesize := fun h0 =>
    Nat.le_mul_of_pos_right _ (Nat.pos_of_ne_zero h0)
  omega

theorem decodeIab3LeafRecords_index {bound : Nat} (hroom : dinodesRoom E.sb ≤ bound)
    (h : s.index ≤ bound) :
    (decodeIab3LeafRecords E ag block s).Sat (fun _ t => t.index ≤ bound) fun _ _ => True := by
  refine sat_forUp (fun _ s => s.index ≤ bound) (fun reci s hs _ => ?_) (fun _ _ hs _ => hs) _ _ s h
  refine sat_assert_bind fun _ => ?_
  unfold decodeIab3LeafRecord
  refine sat_assert_bind fun _ => sat_assert_bind fun _ => sat_assert_bind fun _ => ?_
  refine (sat_zoom (sat_of_forall (Q := fun _ b => _) (fun _ _ => hs) fun _ _ => trivial) :
    (onBuf _ _).Sat (fun _ (t : Retrieval) => t.index ≤ bound) _).bind fun _ s₁ h₁ => ?_
  refine (sat_zoom (sat_of_forall (fun _ _ => h₁) fun _ _ => trivial) :
    (onBuf _ _).Sat (fun _ (t : Retrieval) => t.index ≤ bound) _).bind fun _ s₂ h₂ => ?_
  rw [read_bind]
  refine sat_forUp (fun _ s => s.index ≤ bound) (fun i s hs _ => ?_) (fun _ _ hs _ => hs) _ _ s₂ h₂
  by_cases hc : (chunkBit (inobtRecAt block reci).holemask i ||
      chunkBit (inobtRecAt block reci).free i) = true
  · rw [if_pos hc]
    exact hs
  · rw [if_neg hc]
    exact copyDinode_index hroom _ i hs

theorem IabPasses.le {bound i k : Nat} (hroom : dinodesRoom E.sb ≤ bound)
    (h : IabPasses E ag blkno i k) (hi : i ≤ bound) : k ≤ bound := by
  obtain ⟨block, -, ⟨-, -, rfl⟩ | ⟨-, s, t, rfl, rfl, hr⟩⟩ := h
  · exact hi
  · exact (decodeIab3LeafRecords_index hroom hi).ok hr

/-- Finitely much is reached. -/
theorem iabReached_finite {i : Nat} (h : blkno < 2 ^ 32) :
    {y | Relation.ReflTransGen (Next (iabKids E ag) (IabPasses E ag)) (blkno, i) y}.Finite := by
  refine (Set.Finite.prod (Set.finite_lt_nat (2 ^ 32))
    (Set.finite_le_nat (max i (dinodesRoom E.sb)))).subset fun y hy => ?_
  exact reached_inside (· < 2 ^ 32) (· ≤ max i (dinodesRoom E.sb)) iabKids_lt
    (fun _ _ _ hk => hk.le (Nat.le_max_right i (dinodesRoom E.sb))) hy
    ⟨h, Nat.le_max_left i (dinodesRoom E.sb)⟩

/-! ### Leaves

How decoding the records of a leaf ends does not depend on what the buffers hold before, where the
inode number in a dinode is among the bytes that are copied. -/

/-- From any states with as many inodes retrieved, both calls end in the same way. -/
abbrev AlikeAny {α : Type} (x x' : Cm Err Retrieval α) : Prop :=
  Alike (fun s t => t.index = s.index) x x'

theorem copyDinode_alike (hino : dinodeNbytes ≤ E.sb.inodesize) (inodechunk : Buf) (i : Nat) :
    AlikeAny (copyDinode E inodechunk i) (copyDinode E inodechunk i) := by
  intro s t hindex
  have hkey : ∀ (b : Buf) (ofz : Nat),
      be64 (b.copy ofz inodechunk (i * E.sb.inodesize) E.sb.inodesize) (ofz + 152) =
        be64 inodechunk (i * E.sb.inodesize + 152) := by
    intro b ofz
    refine be64_congr fun j hj => ?_
    have hlt : 152 + j < E.sb.inodesize := by
      simp only [dinodeNbytes] at hino
      omega
    rw [Nat.add_assoc, copy_inside hlt, Nat.add_assoc]
  unfold copyDinode
  rw [read_bind, read_bind]
  refine same_assert_bind (by rw [hindex]) fun _ => ?_
  rw [modify_bind, modify_bind, read_bind, read_bind, hkey, hkey]
  exact same_failIf_bind fun _ => ⟨rfl, by simp only [hindex]⟩

theorem decodeIab3LeafRecord_alike (hino : dinodeNbytes ≤ E.sb.inodesize) (r : XalOdfInobtRec) :
    AlikeAny (decodeIab3LeafRecord E ag r) (decodeIab3LeafRecord E ag r) := by
  intro s t hindex
  unfold decodeIab3LeafRecord
  refine same_assert_bind .rfl fun _ => same_assert_bind .rfl fun _ =>
    same_assert_bind .rfl fun _ => ?_
  have hread : Same (fun s' t' => t'.index = s'.index ∧ ∀ i < chunkNbytes E.sb, t'.buf i = s'.buf i)
      (onBuf (devRead E.dev (chunkNbytes E.sb)
        (((xalInoDecodeRelative E.sb r.startino).1 * E.sb.blocksize + ag.offset) % 2 ^ 64))
          { s with buf := s.buf.zero (chunkNbytes E.sb) })
      (onBuf (devRead E.dev (chunkNbytes E.sb)
        (((xalInoDecodeRelative E.sb r.startino).1 * E.sb.blocksize + ag.offset) % 2 ^ 64))
          { t with buf := t.buf.zero (chunkNbytes E.sb) }) :=
    same_zoom (devRead_same _ _) fun b b' hb => ⟨hindex, hb⟩
  refine hread.bind fun _ s₁ t₁ _ h => ?_
  have hchunk : (fun i => if i < chunkNbytes E.sb then t₁.buf i else
      if i < bufNbytes then 0 else E.dev.stray i) =
        fun i => if i < chunkNbytes E.sb then s₁.buf i else
          if i < bufNbytes then 0 else E.dev.stray i := by
    funext i
    by_cases hi : i < chunkNbytes E.sb
    · rw [if_pos hi, if_pos hi, h.2 i hi]
    · rw [if_neg hi, if_neg hi]
  rw [read_bind, read_bind, hchunk]
  refine alike_forUp (fun i => ?_) _ _ h.1
  exact alike_ite (fun _ => alike_ret ()) fun _ => copyDinode_alike hino _ i

theorem decodeIab3LeafRecords_alike (hino : dinodeNbytes ≤ E.sb.inodesize) (block : Buf) :
    AlikeAny (decodeIab3LeafRecords E ag block) (decodeIab3LeafRecords E ag block) := by
  refine alike_forUp (fun reci s t h => ?_) _ _
  exact same_assert_bind .rfl fun _ => decodeIab3LeafRecord_alike hino _ h

theorem readIab3Block_alike (blkno : Nat) :
    AlikeAny (readIab3Block E ag blkno) (readIab3Block E ag blkno) := by
  intro s t hindex
  unfold readIab3Block
  have hread : Same (fun s' t' : Retrieval => t'.index = s'.index)
      (onBuf (devReadInto E.dev E.sb.blocksize (xalAgbnoAbsoluteOffset E.sb ag.seqno blkno)) s)
      (onBuf (devReadInto E.dev E.sb.blocksize (xalAgbnoAbsoluteOffset E.sb ag.seqno blkno)) t) :=
    same_zoom (devReadInto_same _ _) fun _ _ _ => hindex
  exact hread.bind fun _ _ _ _ h => same_failIf_bind fun _ => ⟨rfl, h⟩

/-- How a visit ends depends on the state only in how many inodes have been retrieved. -/
theorem visitIab_alike (hino : dinodeNbytes ≤ E.sb.inodesize) (blkno : Nat) :
    AlikeAny (visitIab E ag blkno) (visitIab E ag blkno) := by
  intro s t hindex
  unfold visitIab
  refine (readIab3Block_alike blkno hindex).bind fun block s₁ t₁ _ h₁ => ?_
  refine alike_ite (fun _ => ?_) (fun _ => alike_ite (fun _ => ?_) fun _ => ?_) h₁
  · exact fun _ _ h => same_assert_bind .rfl fun _ => ⟨rfl, h⟩
  · exact fun _ _ h => (decodeIab3LeafRecords_alike hino block h).bind fun _ _ _ _ h => ⟨rfl, h⟩
  · exact fun _ _ _ => rfl

/-- A block that can be passed is passed from every state with as many inodes retrieved. -/
theorem IabPasses.visit {i k : Nat} (hino : dinodeNbytes ≤ E.sb.inodesize)
    (h : IabPasses E ag blkno i k) (hi : s.index = i) :
    ∃ t, visitIab E ag blkno s = .ok (iabKids E ag blkno) t ∧ t.index = k := by
  obtain ⟨block, hblock, h⟩ := h
  obtain ⟨b, hread⟩ := readIab3Block_of_block hblock s
  rw [iabKids_of_block hblock, visitIab, bind_of_ok hread]
  rcases h with ⟨h1, hofz, rfl⟩ | ⟨h0, s₁, s₂, rfl, rfl, hleaf⟩
  · rw [if_pos h1, if_pos h1, bind_of_ok (assert_true hofz _)]
    exact ⟨_, rfl, hi⟩
  · have h1 : blockLevel block ≠ 1 := by omega
    obtain ⟨t, ht, hindex⟩ := (decodeIab3LeafRecords_alike hino block
      (show ({ s with buf := b } : Retrieval).index = s₁.index from hi)).ok hleaf
    rw [if_neg h1, if_neg h1, if_pos h0, bind_of_ok ht]
    exact ⟨t, rfl, hindex⟩

end

/-! ## Extents -/

section
variable {E : XfsEnv} {self n : Nat} {r : FileRef} {s t : Store Buf} {l : List FileRef}

/-- The call for a pointer. -/
def fileCall (E : XfsEnv) (self n : Nat) (r : FileRef) : Xm Unit :=
  if r.leaf then processFileBtreeLeaf E r.fsbno self else processFileBtreeNode E self n r.fsbno

theorem processFileBtreeNode_eq (n fsbno : Nat) (s : Store Buf) :
    processFileBtreeNode E self (n + 1) fsbno s =
      (visitFile E self ⟨false, fsbno⟩ >>= fun l => l.forM (fileCall E self n)) s := by
  have hleaf : ¬(⟨false, fsbno⟩ : FileRef).leaf = true := Bool.false_ne_true
  unfold processFileBtreeNode visitFile
  rw [if_neg hleaf, bind_assoc_apply]
  refine bind_congr_apply s fun _ s₁ => ?_
  rw [bind_assoc_apply]
  refine bind_congr_apply s₁ fun _ s₂ => ?_
  rw [bind_assoc_apply]
  refine bind_congr_apply s₂ fun _ s₃ => ?_
  rw [read_bind, bind_assoc_apply, read_bind, bind_assoc_apply]
  refine bind_congr_apply s₃ fun _ s₄ => ?_
  rw [bind_assoc_apply]
  refine bind_congr_apply s₄ fun _ s₅ => ?_
  rw [forUp_range, ret_bind, ← forM_map]
  have hbody : (fun i => if blockLevel s₃.be = 1
      then processFileBtreeLeaf E (lblockPointer E s₃.be i) self
      else processFileBtreeNode E self n (lblockPointer E s₃.be i)) =
        fun i => fileCall E self n ⟨blockLevel s₃.be == 1, lblockPointer E s₃.be i⟩ := by
    funext i
    simp only [fileCall, beq_iff_eq]
  rw [hbody]

/-- The descent to a leaf is the call for it. -/
theorem descend_leaf (n fsbno : Nat) (s : Store Buf) :
    descend (visitFile E self) (n + 1) ⟨true, fsbno⟩ s = processFileBtreeLeaf E fsbno self s := by
  rw [descend_succ, visitFile, if_pos rfl, bind_assoc_apply]
  exact bind_ret_apply _ s

/-- The descent does what the calls do that do not use up their bound. -/
theorem descend_of_body (n : Nat) : ∀ (r : FileRef) (s : Store Buf), fileCall E self n r s ≠ .spin →
    descend (visitFile E self) (n + 1) r s = fileCall E self n r s := by
  induction n with
  | zero =>
    rintro ⟨leaf, fsbno⟩ s hs
    cases leaf with
    | true => exact descend_leaf 0 fsbno s
    | false => exact absurd rfl hs
  | succ n ih =>
    rintro ⟨leaf, fsbno⟩ s hs
    cases leaf with
    | true => exact descend_leaf _ fsbno s
    | false =>
      have hnode : fileCall E self (n + 1) ⟨false, fsbno⟩ s = _ := processFileBtreeNode_eq n fsbno s
      rw [hnode] at hs ⊢
      rw [descend_succ]
      refine bind_congr_ok rfl fun l t ht => forM_mono ih l t ?_
      rw [bind_of_ok ht] at hs
      exact hs

/-- And the other way round. -/
theorem body_of_descend (n : Nat) : ∀ (r : FileRef) (s : Store Buf),
    descend (visitFile E self) n r s ≠ .spin →
      fileCall E self n r s = descend (visitFile E self) n r s := by
  induction n with
  | zero => exact fun _ _ h => absurd rfl h
  | succ n ih =>
    rintro ⟨leaf, fsbno⟩ s hs
    cases leaf with
    | true => exact (descend_leaf n fsbno s).symm
    | false =>
      have hnode : fileCall E self (n + 1) ⟨false, fsbno⟩ s = _ := processFileBtreeNode_eq n fsbno s
      rw [hnode, descend_succ]
      rw [descend_succ] at hs
      refine bind_congr_ok rfl fun l t ht => forM_mono ih l t ?_
      rw [bind_of_ok ht] at hs
      exact hs

/-! ### One block -/

/-- The pointers of a node are in its block, if its header is. -/
theorem lblockOfz_le_iff (hmax : E.sb.blocksize ≤ blockNbytesMax) :
    (btreeLblockMeta E.sb).2 ≤ E.sb.blocksize ↔ 72 ≤ E.sb.blocksize := by
  simp only [blockNbytesMax] at hmax
  simp only [btreeLblockMeta, usub]
  omega

/-- Records are decoded exactly if they are in the buffer. -/
theorem decodeExtents_ok (room : Nat) (buf : Buf) (ofz start n : Nat) : ∀ (i : Nat) (s : Store Buf),
    ofz + 16 * (i + n) ≤ room → ∃ t, decodeExtents room buf ofz start n i s = .ok () t := by
  induction n with
  | zero => exact fun _ s _ => ⟨s, rfl⟩
  | succ n ih =>
    intro i s h
    unfold decodeExtents
    rw [bind_of_ok (assert_true (by omega) s)]
    exact ih (i + 1) _ (by omega)

theorem decodeExtents_crash (room : Nat) (buf : Buf) (ofz start n : Nat) :
    ∀ (i : Nat) (s : Store Buf), ofz + 16 * i ≤ room → room < ofz + 16 * (i + n) →
      decodeExtents room buf ofz start n i s = .crash := by
  induction n with
  | zero =>
    intro i s hle hlt
    omega
  | succ n ih =>
    intro i s hle hlt
    unfold decodeExtents
    by_cases hin : ofz + 16 * i + 16 ≤ room
    · rw [bind_of_ok (assert_true hin s)]
      exact ih (i + 1) _ (by omega) (by omega)
    · exact bind_of_crash (assert_false hin s)

/-- What reading a leaf does. -/
theorem processFileBtreeLeaf_ok (hX : E.mpExtents.Bounded poolReserved extentNbytes) {fsbno : Nat}
    {u : Unit} (hs : StoreOk s) (hlt : self < s.inodes.free)
    (h : processFileBtreeLeaf E fsbno self s = .ok u t) :
    StoreOk t ∧ self < t.inodes.free ∧ s.extents.free ≤ t.extents.free ∧
      (72 ≤ E.sb.blocksize → t.extents.free = s.extents.free → FileQuiet E ⟨true, fsbno⟩) := by
  unfold processFileBtreeLeaf at h
  obtain ⟨_, s₁, hread, h⟩ := bind_ok.1 h
  obtain ⟨b, hb, rfl⟩ := zoom_ok.1 hread
  obtain ⟨block, hblock, hbytes⟩ := devRead_block hb
  rw [read_bind] at h
  obtain ⟨hmagic, h⟩ := failIf_bind_ok.1 h
  obtain ⟨hlevel, h⟩ := failIf_bind_ok.1 h
  obtain ⟨idx, s₂, hc, h⟩ := bind_ok.1 h
  have hs' : StoreOk { s with be := b } := ⟨hs.inodes, hs.extents⟩
  obtain ⟨hok, rfl, hfree, -, hin, -⟩ := (onExtents_claim hX hs' _).ok hc
  rw [setInode_bind] at h
  have hlt₂ : self < s₂.inodes.free := by rw [hin]; exact hlt
  obtain ⟨hok', hin', hfree', -⟩ := (decodeExtents_spec _ _ _ _ _ (hok.putInode hlt₂ _)
    (by rw [putInode_extents, hfree, Nat.add_zero])).ok h
  rw [putInode_extents, hfree] at hfree'
  refine ⟨hok', by rw [hin', putInode_free]; exact hlt₂, by rw [hfree']; exact Nat.le_add_right _ _,
    fun h72 he => ⟨h72, block, ?_, ?_⟩⟩
  · rw [fileBlockAt, hblock, Option.filter_some, if_pos]
    rw [← (header_congr hbytes h72).1]
    simpa using hmagic
  · obtain ⟨-, hl, hn⟩ := header_congr hbytes h72
    rw [if_pos rfl, ← hl, ← hn]
    refine ⟨not_not.1 hlevel, ?_⟩
    have hfree'' : t.extents.free = s.extents.free + blockNumrecs b := hfree'
    omega

/-- What looking at a node does. -/
theorem visitNode_ok {fsbno : Nat} (h : visitFile E self ⟨false, fsbno⟩ s = .ok l t) :
    (∃ b, t = { s with be := b }) ∧ l = fileKids E ⟨false, fsbno⟩ ∧ FileQuiet E ⟨false, fsbno⟩ := by
  have hleaf : ¬(⟨false, fsbno⟩ : FileRef).leaf = true := Bool.false_ne_true
  unfold visitFile at h
  rw [if_neg hleaf] at h
  obtain ⟨hmax, h⟩ := failIf_bind_ok.1 h
  obtain ⟨_, s₁, hread, h⟩ := bind_ok.1 h
  obtain ⟨b, hb, rfl⟩ := zoom_ok.1 hread
  obtain ⟨block, hblock, hbytes⟩ := devRead_block hb
  obtain ⟨hofz, h⟩ := assert_bind_ok.1 h
  rw [read_bind] at h
  obtain ⟨hmagic, h⟩ := failIf_bind_ok.1 h
  obtain ⟨hlevel, h⟩ := failIf_bind_ok.1 h
  obtain ⟨rfl, rfl⟩ := Run.ok.inj h
  have hmax := Nat.not_lt.1 hmax
  have h72 := (lblockOfz_le_iff hmax).1 hofz
  obtain ⟨hm, hl, hn⟩ := header_congr hbytes h72
  have hat : fileBlockAt E fsbno = some block := by
    rw [fileBlockAt, hblock, Option.filter_some, if_pos (by rw [← hm]; simpa using hmagic)]
  refine ⟨⟨b, rfl⟩, ?_, h72, block, hat, ?_⟩
  · have h0 : ¬(false = true ∨ blockLevel block = 0) := by
      rw [← hl]
      simpa using hlevel
    simp only [fileKids, hat, if_neg h0, hl, hn, lblockPointer_congr hbytes]
  · rw [if_neg hleaf, ← hl]
    exact ⟨hlevel, hmax⟩

/-- A leaf whose records are in `be->buf` is decoded. -/
theorem processFileBtreeLeaf_returns {fsbno : Nat}
    (hread : ¬ReadStops E.dev E.sb.blocksize (xalFsbnoOffset .xfs E.sb fsbno))
    (hfits : ¬LeafOverruns E fsbno) (s : Store Buf) :
    (processFileBtreeLeaf E fsbno self s).Returns := by
  unfold processFileBtreeLeaf
  refine (returns_zoom (devRead_returns_iff.2 hread)).bind fun _ s₁ hr => ?_
  obtain ⟨b, hb, rfl⟩ := zoom_ok.1 hr
  rw [read_bind]
  by_cases hmagic : be32 b 0 ≠ bmapCrcMagic
  · rw [bind_of_fail (failIf_true hmagic _ _)]
    exact returns_fail _ _
  rw [bind_of_ok (failIf_false hmagic _ _)]
  by_cases hlevel : blockLevel b ≠ 0
  · rw [bind_of_fail (failIf_true hlevel _ _)]
    exact returns_fail _ _
  rw [bind_of_ok (failIf_false hlevel _ _)]
  refine (returns_zoom (claimExtents_returns _ _)).bind fun idx s₂ _ => ?_
  rw [setInode_bind]
  have hin : 72 + 16 * (0 + blockNumrecs b) ≤ bufNbytes := by
    by_contra hlt
    exact hfits ⟨s.be, b, hb, not_not.1 hmagic, not_not.1 hlevel, by omega⟩
  obtain ⟨t, ht⟩ := decodeExtents_ok bufNbytes b 72 idx (blockNumrecs b) 0 _ hin
  exact ⟨t, .inl ⟨(), ht⟩⟩

/-- No block has more records than can be claimed at once. -/
def ExtentRoom (s : Store Buf) : Prop :=
  2 ^ 16 ≤ s.extents.growby ∧ s.extents.free + 2 ^ 16 < s.extents.allocated

theorem ExtentRoom.free_lt (h : ExtentRoom s) : s.extents.free < s.extents.allocated := by
  have hlt := h.2
  omega

theorem processFileBtreeLeaf_overruns (self : Nat) {fsbno : Nat} (h : LeafOverruns E fsbno) :
    ∃ b, ∀ s : Store Buf, s.be = b → ExtentRoom s →
      ¬(processFileBtreeLeaf E fsbno self s).Returns := by
  obtain ⟨b, b', hb, hmagic, hlevel, hlt⟩ := h
  refine ⟨b, fun s hbe hroom hr => ?_⟩
  have hread : onBe (devRead E.dev E.sb.blocksize (xalFsbnoOffset .xfs E.sb fsbno)) s =
      .ok () { s with be := b' } := zoom_of_ok (hbe.symm ▸ hb)
  have hn : blockNumrecs b' < 2 ^ 16 := be16_lt _ _
  have hfails : ¬ClaimFails E.mpExtents (blockNumrecs b') s.extents := by
    rintro (hgrow | ⟨hfull, -⟩)
    · exact absurd hroom.1 (by omega)
    · exact absurd hroom.2 (by omega)
  obtain ⟨memory, hclaim⟩ := claimExtents_of_not_fails hfails
  have hclaim : onExtents (xalPoolClaimExtents E.mpExtents (blockNumrecs b'))
      { s with be := b' } = .ok _ _ := zoom_of_ok hclaim
  unfold processFileBtreeLeaf at hr
  rw [bind_of_ok hread, read_bind, bind_of_ok (failIf_false (not_not.2 hmagic) _ _),
    bind_of_ok (failIf_false (not_not.2 hlevel) _ _), bind_of_ok hclaim, setInode_bind,
    decodeExtents_crash _ _ _ _ _ _ _ (by decide) (by rw [Nat.zero_add]; exact hlt)] at hr
  exact not_returns_crash hr

/-- A visit of a block that does not stop the process comes back. -/
theorem visitFile_returns (h : ¬FileStops E r) (s : Store Buf) :
    (visitFile E self r s).Returns := by
  obtain ⟨leaf, fsbno⟩ := r
  cases leaf with
  | true =>
    rw [visitFile, if_pos rfl]
    refine (processFileBtreeLeaf_returns (fun hread => h ⟨.inl rfl, .inl hread⟩) (fun hover =>
      h ⟨.inl rfl, .inr (.inr ⟨rfl, hover⟩)⟩) s).bind fun _ _ _ => returns_ok _ _
  | false =>
    have hleaf : ¬(⟨false, fsbno⟩ : FileRef).leaf = true := Bool.false_ne_true
    rw [visitFile, if_neg hleaf]
    by_cases hmax : E.sb.blocksize > blockNbytesMax
    · rw [bind_of_fail (failIf_true hmax _ _)]
      exact returns_fail _ _
    rw [bind_of_ok (failIf_false hmax _ _)]
    have hmax := Nat.not_lt.1 hmax
    refine (returns_zoom (devRead_returns_iff.2 fun hr => h ⟨.inr hmax, .inl hr⟩)).bind
      fun _ s₁ hr => ?_
    obtain ⟨b, hb, rfl⟩ := zoom_ok.1 hr
    obtain ⟨block, hblock, -⟩ := devRead_block hb
    have h72 : ¬E.sb.blocksize < 72 := fun hlt =>
      h ⟨.inr hmax, .inr (.inl ⟨rfl, hlt, by rw [hblock]; rfl⟩)⟩
    rw [bind_of_ok (assert_true ((lblockOfz_le_iff hmax).2 (Nat.not_lt.1 h72)) _), read_bind]
    refine (returns_failIf _ _).bind fun _ s₂ _ => (returns_failIf _ _).bind fun _ s₃ _ => ?_
    exact returns_ok _ _

/-- A visit of one that does, with room for its records, does not. -/
theorem FileStops.not_returns (self : Nat) (h : FileStops E r) :
    ∃ b, ∀ s : Store Buf, s.be = b → ExtentRoom s → ¬(visitFile E self r s).Returns := by
  obtain ⟨leaf, fsbno⟩ := r
  obtain ⟨hmax, hread | ⟨hl, h72, hsome⟩ | ⟨hl, hover⟩⟩ := h
  · refine ⟨fun _ => 0, fun s _ _ hr => ?_⟩
    cases leaf with
    | true =>
      rw [visitFile, if_pos rfl] at hr
      exact devRead_returns_iff.1 hr.of_bind.of_bind.of_zoom hread
    | false =>
      have hmax := hmax.resolve_left Bool.false_ne_true
      have hleaf : ¬(⟨false, fsbno⟩ : FileRef).leaf = true := Bool.false_ne_true
      rw [visitFile, if_neg hleaf, bind_of_ok (failIf_false (by omega) _ _)] at hr
      exact devRead_returns_iff.1 hr.of_bind.of_zoom hread
  · obtain rfl : leaf = false := hl
    have hmax := hmax.resolve_left Bool.false_ne_true
    refine ⟨fun _ => 0, fun s _ _ hr => ?_⟩
    obtain ⟨block, hblock⟩ := Option.isSome_iff_exists.1 hsome
    obtain ⟨b, hb, -⟩ := devRead_of_block hblock s.be
    have hzoom : onBe (devRead E.dev E.sb.blocksize (xalFsbnoOffset .xfs E.sb fsbno)) s =
        .ok () { s with be := b } := zoom_of_ok hb
    have hleaf : ¬(⟨false, fsbno⟩ : FileRef).leaf = true := Bool.false_ne_true
    rw [visitFile, if_neg hleaf, bind_of_ok (failIf_false (by omega) _ _), bind_of_ok hzoom,
      bind_of_crash (assert_false _ _)] at hr
    · exact not_returns_crash hr
    · rw [lblockOfz_le_iff hmax]
      omega
  · obtain rfl : leaf = true := hl
    obtain ⟨b, hb⟩ := processFileBtreeLeaf_overruns self hover
    refine ⟨b, fun s hbe hroom hr => hb s hbe hroom ?_⟩
    rw [visitFile, if_pos rfl] at hr
    exact hr.of_bind

/-- What a claim of extents needs, and keeps. -/
def FileStore (self : Nat) (s : Store Buf) : Prop := StoreOk s ∧ self < s.inodes.free

/-- What a visit does. -/
theorem visitFile_ok (hX : E.mpExtents.Bounded poolReserved extentNbytes) (hs : FileStore self s)
    (h : visitFile E self r s = .ok l t) : FileStore self t ∧ s.extents.free ≤ t.extents.free ∧
      (72 ≤ E.sb.blocksize → l = fileKids E r ∧ (t.extents.free = s.extents.free → FileQuiet E r)) ∧
      (E.sb.blocksize < 72 → l = []) := by
  obtain ⟨leaf, fsbno⟩ := r
  cases leaf with
  | true =>
    unfold visitFile at h
    rw [if_pos rfl] at h
    obtain ⟨_, s₁, hleaf, h⟩ := bind_ok.1 h
    obtain ⟨rfl, rfl⟩ := Run.ok.inj h
    obtain ⟨hok, hlt, hle, hquiet⟩ := processFileBtreeLeaf_ok hX hs.1 hs.2 hleaf
    refine ⟨⟨hok, hlt⟩, hle, fun h72 => ⟨?_, hquiet h72⟩, fun _ => rfl⟩
    unfold fileKids
    cases fileBlockAt E fsbno with
    | none => rfl
    | some block => exact (if_pos (.inl rfl)).symm
  | false =>
    obtain ⟨⟨b, rfl⟩, hl, hquiet⟩ := visitNode_ok h
    refine ⟨⟨⟨hs.1.inodes, hs.1.extents⟩, hs.2⟩, Nat.le_refl _, fun _ => ⟨hl, fun _ => hquiet⟩,
      fun h72 => ?_⟩
    exact absurd hquiet.1 (by omega)

theorem fileKids_lt {r c : FileRef} (h : c ∈ fileKids E r) : c.fsbno < 2 ^ 64 := by
  unfold fileKids at h
  cases hb : fileBlockAt E r.fsbno with
  | none => rw [hb] at h; cases h
  | some block =>
    rw [hb] at h
    by_cases h0 : r.leaf = true ∨ blockLevel block = 0
    · simp only [if_pos h0] at h
      cases h
    · simp only [if_neg h0] at h
      obtain ⟨i, -, rfl⟩ := List.mem_map.1 h
      exact be64_lt _ _

theorem FileStore.limited (h : FileStore self s) : s.extents.free ≤ poolReserved :=
  Nat.le_trans h.1.extents.free_le h.1.extents.allocated_le

/-- Extents are claimed, or the block is quiet. -/
def FilePasses (E : XfsEnv) (r : FileRef) (i k : Nat) : Prop :=
  i ≤ k ∧ k ≤ poolReserved ∧ (k = i → FileQuiet E r)

theorem filePasses_spends (E : XfsEnv) : Spends (FilePasses E) (FileQuiet E) poolReserved where
  le h := h.1
  limited h := h.2.1
  quiet h := h.2.2 rfl

theorem visitFile_visits (hX : E.mpExtents.Bounded poolReserved extentNbytes)
    (h72 : 72 ≤ E.sb.blocksize) (self : Nat) :
    Visits (visitFile E self) (fileKids E) (FilePasses E) (FileStore self) (·.extents.free) where
  names hs h := ((visitFile_ok hX hs h).2.2.1 h72).1
  keep hs h := (visitFile_ok hX hs h).1
  takes hs h := by
    obtain ⟨hstore, hle, hblock, -⟩ := visitFile_ok hX hs h
    exact ⟨hle, hstore.limited, (hblock h72).2⟩

/-- Where there is no room for the header of a node, none is passed. -/
theorem visitFile_visits_small (hX : E.mpExtents.Bounded poolReserved extentNbytes)
    (h72 : E.sb.blocksize < 72) (self : Nat) :
    Visits (visitFile E self) (fun _ => []) (fun _ _ _ => True) (FileStore self)
      (·.extents.free) where
  names hs h := (visitFile_ok hX hs h).2.2.2 h72
  keep hs h := (visitFile_ok hX hs h).1
  takes _ _ := trivial

/-- A claim of nothing, where the pool need not grow for it. -/
theorem claimExtents_zero {mp : Mprotect} {p : XalPool XalExtent} (h : p.free < p.allocated) :
    xalPoolClaimExtents mp 0 p = .ok (p.free % 2 ^ 32) p := by
  have hroom : claimRoom mp 0 p = .ok () p := by
    unfold claimRoom
    rw [read_bind, bind_of_ok (failIf_false (Nat.not_lt_zero _) _ _), if_neg (by omega), ret_apply]
  unfold xalPoolClaimExtents
  rw [bind_of_ok hroom]
  rfl

/-- A quiet block is passed from any state with room for more. -/
theorem fileQuiet_passed (r : FileRef) (s : Store Buf) (h : FileQuiet E r)
    (hs : s.extents.free < s.extents.allocated) :
    ∃ t, visitFile E self r s = .ok (fileKids E r) t ∧
      t.extents.free < t.extents.allocated := by
  obtain ⟨leaf, fsbno⟩ := r
  obtain ⟨h72, block, hat, hkind⟩ := h
  obtain ⟨hblock, hmagic⟩ := Option.filter_eq_some_iff.1 hat
  obtain ⟨b, hb, hbytes⟩ := devRead_of_block hblock s.be
  have hread : onBe (devRead E.dev E.sb.blocksize (xalFsbnoOffset .xfs E.sb fsbno)) s =
      .ok () { s with be := b } := zoom_of_ok hb
  obtain ⟨hm, hl, hn⟩ := header_congr hbytes h72
  have hmagic : ¬be32 b 0 ≠ bmapCrcMagic := by
    rw [hm]
    simpa using hmagic
  cases leaf with
  | true =>
    rw [if_pos rfl, ← hl, ← hn] at hkind
    have hkids : fileKids E ⟨true, fsbno⟩ = [] := by
      simp only [fileKids, hat, true_or, if_true]
    have hclaim : onExtents (xalPoolClaimExtents E.mpExtents 0) { s with be := b } =
        .ok (s.extents.free % 2 ^ 32) { s with be := b } := zoom_of_ok (claimExtents_zero hs)
    have hleaf : ∃ v, processFileBtreeLeaf E fsbno self s =
        .ok () (({ s with be := b } : Store Buf).putInode self v) := by
      unfold processFileBtreeLeaf
      rw [bind_of_ok hread, read_bind, bind_of_ok (failIf_false hmagic _ _),
        bind_of_ok (failIf_false (not_not.2 hkind.1) _ _), hkind.2, bind_of_ok hclaim,
          setInode_bind]
      exact ⟨_, rfl⟩
    obtain ⟨v, hr⟩ := hleaf
    refine ⟨({ s with be := b } : Store Buf).putInode self v, ?_, hs⟩
    rw [hkids, visitFile, if_pos rfl, bind_of_ok hr, ret_apply]
  | false =>
    have hleaf : ¬(⟨false, fsbno⟩ : FileRef).leaf = true := Bool.false_ne_true
    rw [if_neg hleaf, ← hl] at hkind
    have hofz := (lblockOfz_le_iff hkind.2).2 h72
    refine ⟨{ s with be := b }, ?_, hs⟩
    have h0 : ¬(false = true ∨ blockLevel block = 0) := by
      rw [← hl]
      simpa using hkind.1
    rw [visitFile, if_neg hleaf, bind_of_ok (failIf_false (by omega) _ _), bind_of_ok hread,
      bind_of_ok (assert_true hofz _), read_bind, bind_of_ok (failIf_false hmagic _ _),
      bind_of_ok (failIf_false hkind.1 _ _), ret_apply]
    simp only [fileKids, hat, if_neg h0, hl, hn, lblockPointer_congr hbytes]

end

end Xallib
