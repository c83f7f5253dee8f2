import Xallib.E2E.Machine

/-!
# Extent records, packed and decoded

A record of an extent has 128 bits in two words: a flag, the offset in the file (54 bits), the block
(52 bits, 9 of them in the first word) and the number of blocks (21 bits). `decode_xfs_extent` takes
the flag from the top of the second word, which is bit 42 of the block: `extents_roundtrip` says for
which records it gives back what was packed.
-/

namespace Xallib

open Lib Lib.Buf Lib.Cm Lib.Run

/-- A record in the data fork of a file, or in a leaf of its B+tree. -/
@[ext] structure BmbtRec where
  flag : Nat
  startoff : Nat
  startblock : Nat
  blockcount : Nat
  flag_lt : flag < 2
  startoff_lt : startoff < 2 ^ 54
  startblock_lt : startblock < 2 ^ 52
  blockcount_lt : blockcount < 2 ^ 21

namespace BmbtRec

variable (r : BmbtRec)

/-- The first word. -/
def l0 : Nat := r.flag <<< 63 ||| r.startoff <<< 9 ||| r.startblock >>> 43

/-- The second word. -/
def l1 : Nat := (r.startblock % 2 ^ 43) <<< 21 ||| r.blockcount

/-- The record on disk. -/
def bytes : List UInt8 := beBytes 8 r.l0 ++ beBytes 8 r.l1

/-- What the record says. -/
def extent : XalExtent := ⟨r.startoff, r.startblock, r.blockcount, r.flag⟩

/-- Bit 42 of the block is the flag. -/
def FlagIsBlockBit : Prop := r.flag = r.startblock / 2 ^ 42 % 2

theorem l0_eq : r.l0 = r.flag * 2 ^ 63 + (r.startoff * 2 ^ 9 + r.startblock / 2 ^ 43) := by
  have h1 := r.startoff_lt
  have h2 := r.startblock_lt
  rw [l0, Nat.or_assoc, Nat.shiftRight_eq_div_pow,
    ← Nat.shiftLeft_add_eq_or_of_lt (show r.startblock / 2 ^ 43 < 2 ^ 9 by omega),
    ← Nat.shiftLeft_add_eq_or_of_lt (by rw [Nat.shiftLeft_eq]; omega), Nat.shiftLeft_eq,
    Nat.shiftLeft_eq]

theorem l1_eq : r.l1 = r.startblock % 2 ^ 43 * 2 ^ 21 + r.blockcount := by
  rw [l1, ← Nat.shiftLeft_add_eq_or_of_lt r.blockcount_lt, Nat.shiftLeft_eq]

theorem l0_lt : r.l0 < 2 ^ 64 := by
  have h0 := r.flag_lt
  have h1 := r.startoff_lt
  have h2 := r.startblock_lt
  rw [l0_eq]
  omega

theorem l1_lt : r.l1 < 2 ^ 64 := by
  have := r.blockcount_lt
  rw [l1_eq]
  omega

@[simp] theorem length_bytes : r.bytes.length = 16 := by
  rw [bytes, List.length_append, length_beBytes, length_beBytes]

/-- What the decoder makes of the record. -/
theorem decode_eq : decodeXfsExtent r.l0 r.l1 =
    ⟨r.startoff, r.startblock, r.blockcount, r.startblock / 2 ^ 42 % 2⟩ := by
  have h0 := r.flag_lt
  have h1 := r.startoff_lt
  have h2 := r.startblock_lt
  have h3 := r.blockcount_lt
  have hoffset : (r.l0 <<< 1 % 2 ^ 64) >>> 10 = r.startoff := by
    rw [Nat.shiftLeft_eq, Nat.shiftRight_eq_div_pow, l0_eq]
    omega
  have hblock : ((r.l0 &&& 0x1FF) <<< 43 % 2 ^ 64) ||| (r.l1 >>> 21) = r.startblock := by
    have hlow : r.l1 >>> 21 = r.startblock % 2 ^ 43 := by
      rw [Nat.shiftRight_eq_div_pow, l1_eq]
      omega
    have hhigh : (r.l0 &&& 0x1FF) <<< 43 % 2 ^ 64 = (r.startblock / 2 ^ 43) <<< 43 := by
      rw [show (0x1FF : Nat) = 2 ^ 9 - 1 by decide, Nat.and_two_pow_sub_one_eq_mod,
        Nat.shiftLeft_eq, Nat.shiftLeft_eq, l0_eq]
      omega
    rw [hlow, hhigh, ← Nat.shiftLeft_add_eq_or_of_lt (Nat.mod_lt _ (Nat.two_pow_pos 43)),
      Nat.shiftLeft_eq]
    omega
  have hcount : r.l1 &&& 0x1FFFFF = r.blockcount := by
    rw [show (0x1FFFFF : Nat) = 2 ^ 21 - 1 by decide, Nat.and_two_pow_sub_one_eq_mod, l1_eq]
    omega
  have hflag : r.l1 >>> 63 = r.startblock / 2 ^ 42 % 2 := by
    rw [Nat.shiftRight_eq_div_pow, l1_eq]
    omega
  rw [decodeXfsExtent, hoffset, hblock, hcount, hflag]

theorem decode_eq_extent_iff : decodeXfsExtent r.l0 r.l1 = r.extent ↔ r.FlagIsBlockBit := by
  rw [decode_eq, extent, FlagIsBlockBit, XalExtent.mk.injEq]
  exact ⟨fun h => h.2.2.2.symm, fun h => ⟨rfl, rfl, rfl, h.symm⟩⟩

/-- Two records that decode to the same extent differ in the flag only. -/
theorem decode_inj_iff {r r' : BmbtRec} :
    decodeXfsExtent r.l0 r.l1 = decodeXfsExtent r'.l0 r'.l1 ↔
      r.startoff = r'.startoff ∧ r.startblock = r'.startblock ∧ r.blockcount = r'.blockcount := by
  rw [decode_eq, decode_eq, XalExtent.mk.injEq]
  exact ⟨fun h => ⟨h.1, h.2.1, h.2.2.1⟩, fun h => ⟨h.1, h.2.1, h.2.2, by rw [h.2.1]⟩⟩

end BmbtRec

/-- A record is read where it stands. -/
theorem xfsExtentAt_rec {buf : Buf} {ofz : Nat} {r : BmbtRec} (h : Has buf ofz r.bytes) :
    xfsExtentAt buf ofz = decodeXfsExtent r.l0 r.l1 := by
  rw [BmbtRec.bytes, has_append, length_beBytes] at h
  rw [xfsExtentAt, h.1.be64 r.l0_lt, h.2.be64 r.l1_lt]

theorem xfsExtentAt_records {buf : Buf} : ∀ {ofz : Nat} {recs : List BmbtRec},
    Has buf ofz (recs.flatMap BmbtRec.bytes) →
      (List.range recs.length).map (fun i => xfsExtentAt buf (ofz + 16 * i)) =
        recs.map fun r => decodeXfsExtent r.l0 r.l1 := by
  intro ofz recs
  induction recs generalizing ofz with
  | nil => intro _; rfl
  | cons r recs ih =>
    intro h
    rw [List.flatMap_cons, has_append, BmbtRec.length_bytes] at h
    rw [List.length_cons, List.range_succ_eq_map, List.map_cons, List.map_map, List.map_cons,
      ← ih h.2, Nat.mul_zero, Nat.add_zero, xfsExtentAt_rec h.1]
    refine congrArg _ (List.map_congr_left fun i _ => ?_)
    show xfsExtentAt buf (ofz + 16 * (i + 1)) = xfsExtentAt buf (ofz + 16 + 16 * i)
    rw [Nat.mul_add, Nat.mul_one, Nat.add_right_comm, Nat.add_assoc]

/-! ## What is stored -/

section
variable {E : XfsEnv} {self dinode fsbno : Nat} {s s' : Store Buf}

/-- The extents that were claimed between `s` and `s'`. -/
def storedSince (s s' : Store Buf) : List XalExtent :=
  (List.range (s'.extents.free - s.extents.free)).map fun i =>
    s'.extents.memory (s.extents.free + i)

/-- The loop stores one extent for each record. -/
theorem decodeExtents_memory (room : Nat) (buf : Buf) (ofz start n : Nat) :
    ∀ {i : Nat} {s s' : Store Buf}, decodeExtents room buf ofz start n i s = .ok () s' →
      s'.extents.free = s.extents.free ∧
      (∀ j, i ≤ j → j < i + n → s'.extents.memory (start + j) = xfsExtentAt buf (ofz + 16 * j)) ∧
      ∀ j < start + i, s'.extents.memory j = s.extents.memory j := by
  induction n with
  | zero =>
    intro i s s' h
    cases h
    exact ⟨rfl, fun j h1 h2 => absurd h2 (by omega), fun _ _ => rfl⟩
  | succ n ih =>
    intro i s s' h
    unfold decodeExtents at h
    obtain ⟨-, h⟩ := assert_bind_ok.1 h
    rw [setExtent_bind] at h
    obtain ⟨hfree, hnew, hold⟩ := ih h
    refine ⟨hfree, fun j h1 h2 => ?_, fun j hj => ?_⟩
    · by_cases hj : j = i
      · rw [hj, hold _ (by omega), putExtent_same]
      · exact hnew j (by omega) (by omega)
    · rw [hold j (by omega), putExtent_other _ _ _ (by omega)]

theorem decodeExtents_stored {room : Nat} {buf : Buf} {ofz n : Nat} {s₁ : Store Buf}
    (hfree : s₁.extents.free = s.extents.free + n)
    (h : decodeExtents room buf ofz s.extents.free n 0 s₁ = .ok () s') :
    storedSince s s' = (List.range n).map fun i => xfsExtentAt buf (ofz + 16 * i) := by
  obtain ⟨hfree', hnew, -⟩ := decodeExtents_memory _ _ _ _ _ h
  rw [storedSince, hfree', hfree, Nat.add_sub_cancel_left]
  refine List.map_congr_left fun i hi => hnew i (Nat.zero_le _) ?_
  rw [Nat.zero_add]
  exact List.mem_range.1 hi

variable (hX : E.mpExtents.Bounded poolReserved extentNbytes)
include hX

theorem processDinodeFileExtents_stored (hok : StoreOk s)
    (h : processDinodeFileExtents E dinode self s = .ok () s') :
    storedSince s s' = (List.range (diNextents E dinode)).map fun i =>
      xfsExtentAt E.dinodes (dfork dinode + 16 * i) := by
  unfold processDinodeFileExtents at h
  obtain ⟨idx, s₁, hclaim, h⟩ := bind_ok.1 h
  obtain ⟨-, rfl, hfree, -, -, -⟩ := (onExtents_claim hX hok _).ok hclaim
  rw [setInode_bind] at h
  exact decodeExtents_stored (by rw [putInode_extents]; exact hfree) h

/-- The block that a read of the leaf `fsbno` delivers. -/
def LeafBlock (E : XfsEnv) (fsbno : Nat) (s : Store Buf) (block : Buf) : Prop :=
  devRead E.dev E.sb.blocksize (xalFsbnoOffset .xfs E.sb fsbno) s.be = .ok () block

theorem processFileBtreeLeaf_stored (hok : StoreOk s)
    (h : processFileBtreeLeaf E fsbno self s = .ok () s') :
    ∃ block, LeafBlock E fsbno s block ∧ storedSince s s' =
      (List.range (blockNumrecs block)).map fun i => xfsExtentAt block (72 + 16 * i) := by
  unfold processFileBtreeLeaf at h
  obtain ⟨_, s₁, hbe, h⟩ := bind_ok.1 h
  obtain ⟨block, hread, rfl⟩ := zoom_ok.1 hbe
  rw [read_bind] at h
  obtain ⟨_, _, hmagic, h⟩ := bind_ok.1 h
  obtain ⟨-, rfl⟩ := failIf_ok.1 hmagic
  obtain ⟨_, _, hlevel, h⟩ := bind_ok.1 h
  obtain ⟨-, rfl⟩ := failIf_ok.1 hlevel
  obtain ⟨idx, s₂, hclaim, h⟩ := bind_ok.1 h
  have hok₁ : StoreOk { s with be := block } := ⟨hok.inodes, hok.extents⟩
  obtain ⟨-, rfl, hfree, -, -, -⟩ := (onExtents_claim hX hok₁ _).ok hclaim
  rw [setInode_bind] at h
  exact ⟨block, hread, decodeExtents_stored (by rw [putInode_extents]; exact hfree) h⟩

end

/-- Decoding gives back what was packed exactly where the flag is bit 42 of the block. -/
theorem map_decode_eq_iff {recs : List BmbtRec} :
    recs.map (fun r => decodeXfsExtent r.l0 r.l1) = recs.map BmbtRec.extent ↔
      ∀ r ∈ recs, r.FlagIsBlockBit := by
  rw [List.map_inj_left]
  exact forall₂_congr fun r _ => r.decode_eq_extent_iff

/-- The extents stored are those packed, exactly where the flags are bit 42 of the blocks; and two
records are told apart, unless they differ in the flag only. -/
theorem extents_roundtrip (E : XfsEnv) (hX : E.mpExtents.Bounded poolReserved extentNbytes)
    (recs : List BmbtRec) (self : Nat) (s s' : Store Buf) (hok : StoreOk s) :
    (∀ dinode, diNextents E dinode = recs.length →
      Has E.dinodes (dfork dinode) (recs.flatMap BmbtRec.bytes) →
      processDinodeFileExtents E dinode self s = .ok () s' →
      (storedSince s s' = recs.map BmbtRec.extent ↔ ∀ r ∈ recs, r.FlagIsBlockBit)) ∧
    (∀ fsbno, (∀ block, LeafBlock E fsbno s block → blockNumrecs block = recs.length ∧
        Has block 72 (recs.flatMap BmbtRec.bytes)) →
      processFileBtreeLeaf E fsbno self s = .ok () s' →
      (storedSince s s' = recs.map BmbtRec.extent ↔ ∀ r ∈ recs, r.FlagIsBlockBit)) ∧
    ∀ r r' : BmbtRec, (decodeXfsExtent r.l0 r.l1 = decodeXfsExtent r'.l0 r'.l1 → r = r') ↔
      (r.startoff = r'.startoff → r.startblock = r'.startblock → r.blockcount = r'.blockcount →
        r.flag = r'.flag) := by
  refine ⟨fun dinode hn hhas h => ?_, fun fsbno hblock h => ?_, fun r r' => ?_⟩
  · rw [processDinodeFileExtents_stored hX hok h, hn, xfsExtentAt_records hhas]
    exact map_decode_eq_iff
  · obtain ⟨block, hread, hstored⟩ := processFileBtreeLeaf_stored hX hok h
    obtain ⟨hn, hhas⟩ := hblock block hread
    rw [hstored, hn, xfsExtentAt_records hhas]
    exact map_decode_eq_iff
  · rw [BmbtRec.decode_inj_iff]
    constructor
    · intro h h1 h2 h3
      rw [h ⟨h1, h2, h3⟩]
    · rintro h ⟨h1, h2, h3⟩
      exact BmbtRec.ext (h h1 h2 h3) h1 h2 h3

/-! ## One record -/

/-- The record of one block at the start of a file, at block 7. -/
def writtenRec (flag : Nat) (h : flag < 2) : BmbtRec :=
  ⟨flag, 0, 7, 1, h, by decide, by decide, by decide⟩

/-- A dinode, and a leaf on a device, with the record `r`. -/
def recordEnv (r : BmbtRec) : XfsEnv :=
  { xfsTableEnv { (default : XalSb) with nallocated := 1, blocksize := 512, inodesize := 512 }
      (fun i => if i = 79 then 1 else ofList 176 r.bytes i) fun _ => none with
    dev := ⟨bufNbytes, 512, fun _ _ => some fun i =>
      if i < 72 then [0x42, 0x4d, 0x41, 0x33, 0, 0, 0, 1].getD i 0 else ofList 72 r.bytes i,
      fun _ => 0⟩ }

/-- The pools before anything is indexed. -/
def blankStore : Store Buf := (xfsOpened default).store

theorem blankStore_ok : StoreOk blankStore := (xfsOpened_reach default).alive.storeOk

/-- The record is read back from the device. -/
theorem recordEnv_leaf {r : BmbtRec} (hr : (devRead (recordEnv r).dev 512
    (xalFsbnoOffset .xfs (recordEnv r).sb 0) blankStore.be).okWith
      (fun block => blockNumrecs block == 1 && block.slice 72 16 == r.bytes) = true)
    {block : Buf} (h : LeafBlock (recordEnv r) 0 blankStore block) :
    blockNumrecs block = [r].length ∧ Has block 72 ([r].flatMap BmbtRec.bytes) := by
  have hread : devRead (recordEnv r).dev 512 _ _ = .ok () block := h
  rw [hread, okWith, Bool.and_eq_true, beq_iff_eq, beq_iff_eq] at hr
  rw [List.flatMap_singleton, Has, BmbtRec.length_bytes]
  exact hr

/-- A written extent comes back, from a dinode and from a leaf; and it is no other one. -/
theorem extents_roundtrip_written :
    (∃ s', processDinodeFileExtents (recordEnv (writtenRec 0 (by decide))) 0 0 blankStore =
      .ok () s' ∧
      storedSince blankStore s' = [⟨0, 7, 1, 0⟩]) ∧
    (∃ s', processFileBtreeLeaf (recordEnv (writtenRec 0 (by decide))) 0 0 blankStore = .ok () s' ∧
      storedSince blankStore s' = [⟨0, 7, 1, 0⟩]) ∧
    ∀ r : BmbtRec, r.startoff ≠ 0 → decodeXfsExtent (writtenRec 0 (by decide)).l0
      (writtenRec 0 (by decide)).l1 = decodeXfsExtent r.l0 r.l1 → writtenRec 0 (by decide) = r := by
  have hrt (s' : Store Buf) := extents_roundtrip (recordEnv (writtenRec 0 (by decide)))
    (mprotectWithin_bounded _ _ _) [writtenRec 0 (by decide)] 0 blankStore s' blankStore_ok
  have hflag : ∀ r ∈ [writtenRec 0 (by decide)], r.FlagIsBlockBit := by
    intro r hr
    rw [List.mem_singleton.1 hr]
    rfl
  refine ⟨?_, ?_, fun r hr => ?_⟩
  · have hrun : (processDinodeFileExtents (recordEnv (writtenRec 0 (by decide))) 0 0
        blankStore).okWith (fun _ => true) = true := by decide +kernel
    obtain ⟨_, s', h, -⟩ := exists_of_okWith hrun
    exact ⟨s', h, ((hrt s').1 0 (by decide +kernel) (by unfold Has; decide +kernel) h).2 hflag⟩
  · have hrun : (processFileBtreeLeaf (recordEnv (writtenRec 0 (by decide))) 0 0
        blankStore).okWith (fun _ => true) = true := by decide +kernel
    obtain ⟨_, s', h, -⟩ := exists_of_okWith hrun
    exact ⟨s', h, ((hrt s').2.1 0 (fun _ hb => recordEnv_leaf (by decide +kernel) hb) h).2 hflag⟩
  · exact ((hrt blankStore).2.2 _ r).2 fun h0 => absurd h0.symm hr

/-- An unwritten extent comes back as a written one. -/
theorem extents_roundtrip_unwritten :
    (∃ s', processDinodeFileExtents (recordEnv (writtenRec 1 (by decide))) 0 0 blankStore =
      .ok () s' ∧
      storedSince blankStore s' ≠ [writtenRec 1 (by decide)].map BmbtRec.extent) ∧
    ∃ r r' : BmbtRec, decodeXfsExtent r.l0 r.l1 = decodeXfsExtent r'.l0 r'.l1 ∧ r.l0 ≠ r'.l0 := by
  constructor
  · have hrun : (processDinodeFileExtents (recordEnv (writtenRec 1 (by decide))) 0 0
        blankStore).okWith (fun s' => storedSince blankStore s' == [⟨0, 7, 1, 0⟩]) = true := by
      decide +kernel
    obtain ⟨_, s', h, hs⟩ := exists_of_okWith hrun
    rw [beq_iff_eq] at hs
    exact ⟨s', h, by rw [hs]; decide⟩
  · exact ⟨writtenRec 0 (by decide), writtenRec 1 (by decide), by decide, by decide⟩

end Xallib
