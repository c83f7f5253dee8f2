import Mathlib.Data.List.Basic
import Xallib.Lib.Loop
import Xallib.Xfs.Dinodes

/-!
# The inodes a leaf record stands for

`allocated r`: the inodes of the chunk of `r` that are in no hole and not free. `copied r`: those
that `decode_iab3_leaf_records` copies. They are among the allocated ones (`copied_eq`), and
`decodeIab3LeafRecords_iff` says when they are all of them: the hole mask is read as if it had a bit
for each inode, and the inodes from `count` on are left out.
-/

namespace Xallib

open Lib Lib.Cm Lib.Run Lib.Buf

/-! ## Records and geometry -/

/-- One bit of the hole mask stands for four inodes. -/
def inHole (r : XalOdfInobtRec) (i : Nat) : Bool := r.holemask.testBit (i / 4)

/-- The allocated inodes of a chunk. -/
def allocated (r : XalOdfInobtRec) : List Nat :=
  (List.range chunkNino).filter fun i => !inHole r i && !r.free.testBit i

/-- A record as the file system writes it. -/
structure InobtRecOk (r : XalOdfInobtRec) : Prop where
  free_of_hole : ∀ i < chunkNino, inHole r i = true → r.free.testBit i = true
  count : r.count = ((List.range chunkNino).filter fun i => !inHole r i).length

/-- The geometry of a file system. -/
structure Geometry (sb : XalSb) : Prop where
  inodesize_ge : 256 ≤ sb.inodesize
  inodesize_le : sb.inodesize ≤ 2048
  inopblock : sb.inopblock = 2 ^ sb.inopblog
  blocksize : sb.blocksize = sb.inopblock * sb.inodesize
  blocksize_le : sb.blocksize ≤ 65536

/-- The device reads what is on `disk`, in blocks that divide those of the file system. -/
structure ReadsDisk (E : IabEnv) (ag : XalAg) (disk : Buf) : Prop where
  lba : ∃ k, E.dev.lbaNbytes = 2 ^ k ∧ 9 ≤ k
  blocksize : E.dev.lbaNbytes ∣ E.sb.blocksize
  offset : E.dev.lbaNbytes ∣ ag.offset
  mdts : bufNbytes ≤ E.dev.mdtsNbytes
  reads : ∀ slba nlb, (nlb + 1) * E.dev.lbaNbytes ≤ bufNbytes → ∃ data,
    E.dev.nvmRead slba nlb = some data ∧
      ∀ i < (nlb + 1) * E.dev.lbaNbytes, data i = disk (slba * E.dev.lbaNbytes + i)

/-- The inodes the loop over a chunk copies. -/
def copied (r : XalOdfInobtRec) : List Nat :=
  (List.range r.count).filter fun i => !(chunkBit r.holemask i || chunkBit r.free i)

section
variable {r : XalOdfInobtRec}

theorem InobtRecOk.count_le (h : InobtRecOk r) : r.count ≤ chunkNino := by
  rw [h.count]
  exact Nat.le_trans (List.length_filter_le _ _) (Nat.le_of_eq List.length_range)

theorem mem_allocated {i : Nat} :
    i ∈ allocated r ↔ i < chunkNino ∧ inHole r i = false ∧ r.free.testBit i = false := by
  simp [allocated]

/-- The copied inodes are the allocated ones that are counted and that the hole mask, read with one
bit for each inode, does not have. -/
theorem copied_eq (h : InobtRecOk r) :
    copied r = (allocated r).filter fun i => decide (i < r.count) && !chunkBit r.holemask i := by
  have hrange : List.range r.count =
      (List.range chunkNino).filter fun i => decide (i < r.count) := by
    obtain ⟨m, hm⟩ := Nat.exists_eq_add_of_le h.count_le
    rw [hm, List.range_add, List.filter_append, List.filter_eq_self.2 (by simp),
      List.filter_eq_nil_iff.2 (by simp), List.append_nil]
  rw [copied, allocated, hrange, List.filter_filter, List.filter_filter]
  refine List.filter_congr fun i hi => ?_
  rw [List.mem_range] at hi
  have hmod : i % 64 = i := Nat.mod_eq_of_lt hi
  have hole := h.free_of_hole i hi
  simp only [chunkBit, hmod]
  cases hh : inHole r i with
  | true => simp [hole hh]
  | false => cases r.free.testBit i <;> cases r.holemask.testBit i <;> simp

theorem copied_length_le (h : InobtRecOk r) : (copied r).length ≤ (allocated r).length := by
  rw [copied_eq h]
  exact List.length_filter_le _ _

theorem copied_eq_allocated (h : InobtRecOk r) :
    (copied r).length = (allocated r).length ↔
      ∀ i ∈ allocated r, i < r.count ∧ chunkBit r.holemask i = false := by
  rw [copied_eq h, List.length_filter_eq_length_iff]
  simp

theorem lt_of_mem_copied (h : InobtRecOk r) {i : Nat} (hi : i ∈ copied r) : i < chunkNino := by
  rw [copied_eq h] at hi
  exact (mem_allocated.1 (List.mem_filter.1 hi).1).1

end

theorem Geometry.blocksize_ge {sb : XalSb} (h : Geometry sb) : 256 ≤ sb.blocksize := by
  rw [h.blocksize, h.inopblock]
  exact Nat.le_trans h.inodesize_ge (Nat.le_mul_of_pos_left _ (Nat.two_pow_pos _))

/-- The bytes of a chunk. -/
theorem Geometry.chunkNbytes {sb : XalSb} (h : Geometry sb) :
    chunkNbytes sb = if sb.inopblock ≤ chunkNino then chunkNino * sb.inodesize else 0 := by
  unfold Xallib.chunkNbytes
  by_cases hi : sb.inopblock ≤ chunkNino
  · have hk : sb.inopblog ≤ 6 := by
      rw [h.inopblock] at hi
      exact (Nat.pow_le_pow_iff_right (by decide)).1 (show 2 ^ sb.inopblog ≤ 2 ^ 6 from hi)
    have hdvd : sb.inopblock ∣ chunkNino := h.inopblock ▸ Nat.pow_dvd_pow 2 hk
    rw [if_pos hi, h.blocksize, ← Nat.mul_assoc, Nat.div_mul_cancel hdvd]
  · rw [if_neg hi, Nat.div_eq_of_lt (by omega), Nat.zero_mul]

/-! ## Reading a chunk -/

section
variable {E : IabEnv} {ag : XalAg} {disk : Buf}

/-- A read of the device, inside the buffer. -/
theorem ReadsDisk.reads_chunk (h : ReadsDisk E ag disk) {count offset : Nat} (h0 : count ≠ 0)
    (hle : count ≤ bufNbytes) (hcount : E.dev.lbaNbytes ∣ count) (hoff : E.dev.lbaNbytes ∣ offset)
    (buf : Buf) : ∃ buf', devRead E.dev count offset buf = .ok () buf' ∧
      ∀ i < count, buf' i = disk (offset + i) := by
  obtain ⟨k, hk, hk9⟩ := h.lba
  have hlba : 512 ≤ E.dev.lbaNbytes := by
    rw [hk]; exact Nat.pow_le_pow_right (show 0 < 2 by decide) hk9
  obtain ⟨n, rfl⟩ := hcount
  obtain ⟨m, rfl⟩ := hoff
  have hpos : 0 < E.dev.lbaNbytes := by omega
  have hn0 : n ≠ 0 := fun h => h0 (by rw [h, Nat.mul_zero])
  have hn : 512 * n ≤ bufNbytes := Nat.le_trans (Nat.mul_le_mul_right n hlba) hle
  have hnlb : nlbOf E.dev (E.dev.lbaNbytes * n) + 1 = n := by
    simp only [bufNbytes] at hn
    rw [nlbOf, Nat.mul_div_cancel_left n hpos]
    omega
  have hlen : (nlbOf E.dev (E.dev.lbaNbytes * n) + 1) * E.dev.lbaNbytes = E.dev.lbaNbytes * n := by
    rw [hnlb, Nat.mul_comm]
  obtain ⟨data, hdata, hread⟩ := h.reads m (nlbOf E.dev (E.dev.lbaNbytes * n))
    (by rw [hlen]; exact hle)
  refine ⟨(buf.zero (E.dev.lbaNbytes * n)).copy 0 data 0 (E.dev.lbaNbytes * n), ?_, fun i hi => ?_⟩
  · unfold devRead
    rw [bind_of_ok (failIf_false (Nat.not_lt.2 (Nat.le_trans hle h.mdts)) _ _),
      bind_of_ok (failIf_false (by rw [Nat.mul_mod_right]; exact not_not.2 rfl) _ _),
      bind_of_ok (failIf_false (by rw [Nat.mul_mod_right]; exact not_not.2 rfl) _ _),
      bind_of_ok (assert_true hle _), modify_bind, Nat.mul_div_cancel_left m hpos, hdata]
    show (assert _ >>= _) _ = _
    rw [bind_of_ok (assert_true (by rw [hlen]; exact hle) _), modify_apply, hlen]
  · have hcopy : ((buf.zero (E.dev.lbaNbytes * n)).copy 0 data 0 (E.dev.lbaNbytes * n)) (0 + i) =
        data (0 + i) := copy_inside hi
    simp only [Nat.zero_add] at hcopy
    rw [hcopy, hread i (by rw [hlen]; exact hi), Nat.mul_comm]

/-- A read of no bytes asks for 65536 blocks, which do not fit in the buffer. -/
theorem ReadsDisk.reads_nothing (h : ReadsDisk E ag disk) (offset : Nat) (buf : Buf) (u : Unit)
    (buf' : Buf) : devRead E.dev 0 offset buf ≠ .ok u buf' := by
  intro hr
  obtain ⟨k, hk, hk9⟩ := h.lba
  have hlba : 512 ≤ E.dev.lbaNbytes := by
    rw [hk]; exact Nat.pow_le_pow_right (show 0 < 2 by decide) hk9
  have hnlb : nlbOf E.dev 0 = 65535 :=
    (congrArg (fun n => (n + 2 ^ 64 - 1) % 2 ^ 16) (Nat.zero_div _)).trans (by decide)
  unfold devRead at hr
  obtain ⟨_, _, -, hr⟩ := bind_ok.1 hr
  obtain ⟨_, _, -, hr⟩ := bind_ok.1 hr
  obtain ⟨_, _, -, hr⟩ := bind_ok.1 hr
  obtain ⟨_, _, -, hr⟩ := bind_ok.1 hr
  rw [modify_bind] at hr
  cases hd : E.dev.nvmRead (offset / E.dev.lbaNbytes) (nlbOf E.dev 0) with
  | none => rw [hd] at hr; cases hr
  | some data =>
    rw [hd] at hr
    obtain ⟨_, _, ha, -⟩ := bind_ok.1 hr
    obtain ⟨hle, -⟩ := assert_ok.1 ha
    rw [hnlb] at hle
    simp only [bufNbytes] at hle
    omega

/-! ## Copying the inodes -/

/-- The images `imgs` of inodes have been appended to `be->dinodes`. -/
structure Retrieved (inodesize : Nat) (imgs : List (List UInt8)) (s s' : Retrieval) : Prop where
  index : s'.index = s.index + imgs.length
  images : (List.range imgs.length).map (fun k => s'.dinodes.slice ((s.index + k) * inodesize)
    inodesize) = imgs
  keep : ∀ i < s.index * inodesize, s'.dinodes i = s.dinodes i

theorem Retrieved.nil (inodesize : Nat) (s : Retrieval) : Retrieved inodesize [] s s :=
  ⟨rfl, rfl, fun _ _ => rfl⟩

theorem Retrieved.append {inodesize : Nat} {a b : List (List UInt8)} {s s₁ s' : Retrieval}
    (ha : Retrieved inodesize a s s₁) (hb : Retrieved inodesize b s₁ s') :
    Retrieved inodesize (a ++ b) s s' := by
  have hle : s.index * inodesize ≤ s₁.index * inodesize :=
    Nat.mul_le_mul_right _ (by rw [ha.index]; omega)
  refine ⟨by rw [hb.index, ha.index, List.length_append, Nat.add_assoc], ?_, fun i hi => ?_⟩
  · rw [List.length_append, List.range_add, List.map_append, List.map_map]
    congr 1
    · refine Eq.trans (List.map_congr_left fun k hk => ?_) ha.images
      rw [List.mem_range] at hk
      have hend : (s.index + k) * inodesize + inodesize ≤ s₁.index * inodesize := by
        rw [← Nat.succ_mul, ha.index]
        exact Nat.mul_le_mul_right _ (by omega)
      exact slice_congr fun i _ h2 => hb.keep i (by omega)
    · refine Eq.trans (List.map_congr_left fun k _ => ?_) hb.images
      show s'.dinodes.slice ((s.index + (a.length + k)) * inodesize) inodesize = _
      rw [ha.index, Nat.add_assoc]
  · rw [hb.keep i (by omega), ha.keep i hi]

/-- The number of slots in `be->dinodes`. -/
def dinodesSlots (sb : XalSb) : Nat := dinodesRoom sb / sb.inodesize

theorem slot_fits_iff {sb : XalSb} (hsize : 160 ≤ sb.inodesize) (index : Nat) :
    index * sb.inodesize + max sb.inodesize 160 ≤ dinodesRoom sb ↔ index + 1 ≤ dinodesSlots sb := by
  rw [dinodesSlots, Nat.le_div_iff_mul_le (by omega), Nat.max_eq_left hsize, Nat.succ_mul]

/-- One copy. -/
theorem copyDinode_spec (hsize : 160 ≤ E.sb.inodesize) (chunk : Buf) (i : Nat) (s : Retrieval) :
    (copyDinode E chunk i s).OkIff (E.khPut (be64 chunk (i * E.sb.inodesize + 152)) = true ∧
      s.index + 1 ≤ dinodesSlots E.sb)
      fun _ => Retrieved E.sb.inodesize [chunk.slice (i * E.sb.inodesize) E.sb.inodesize] s := by
  unfold copyDinode
  rw [read_bind]
  refine OkIff.congr (okIff_assert_bind fun _ => ?_)
    ((and_congr_left' (slot_fits_iff hsize s.index)).trans and_comm)
  rw [modify_bind, read_bind]
  have hino : be64 (s.dinodes.copy (s.index * E.sb.inodesize) chunk (i * E.sb.inodesize)
      E.sb.inodesize) (s.index * E.sb.inodesize + 152) = be64 chunk (i * E.sb.inodesize + 152) :=
    be64_congr fun j hj => by
      rw [Nat.add_assoc, copy_inside (by omega), Nat.add_assoc]
  refine OkIff.congr (c := ¬_ ∧ True) (okIff_failIf_bind fun _ => ?_) (by simp only [hino]; simp)
  refine ⟨fun _ => ⟨(), _, rfl, rfl, ?_, fun j hj => copy_outside (.inl hj)⟩, fun _ => trivial⟩
  simp only [List.length_singleton, List.range_one, List.map_cons, List.map_nil, Nat.add_zero]
  rw [slice_copy]

/-- The loop over a chunk. -/
theorem decodeChunk_spec (hsize : 160 ≤ E.sb.inodesize) (chunk : Buf) (r : XalOdfInobtRec)
    (s : Retrieval) : (decodeChunk E chunk r s).OkIff
      ((∀ i ∈ copied r, E.khPut (be64 chunk (i * E.sb.inodesize + 152)) = true) ∧
        FitsBehind (dinodesSlots E.sb) s.index
          ((copied r).map fun i => chunk.slice (i * E.sb.inodesize) E.sb.inodesize))
      fun _ => Retrieved E.sb.inodesize
        ((copied r).map fun i => chunk.slice (i * E.sb.inodesize) E.sb.inodesize) s := by
  unfold decodeChunk
  rw [forUp_range, forM_filter, List.map_eq_flatMap]
  refine okIff_forM_room Retrieval.index (Retrieved.nil _) (fun _ _ _ _ _ => Retrieved.append)
    (fun _ _ _ h => h.index) (fun i _ s => ?_) s
  exact (copyDinode_spec hsize chunk i s).congr (by simp [FitsBehind])

/-! ## One record -/

/-- Where the chunk of a record is on the disk. -/
def chunkOffset (E : IabEnv) (ag : XalAg) (r : XalOdfInobtRec) : Nat :=
  ((xalInoDecodeRelative E.sb r.startino).1 * E.sb.blocksize + ag.offset) % 2 ^ 64

/-- The bytes of inode `i` of the chunk, as they are on the disk. -/
def dinodeImage (E : IabEnv) (ag : XalAg) (disk : Buf) (r : XalOdfInobtRec) (i : Nat) :
    List UInt8 :=
  disk.slice (chunkOffset E ag r + i * E.sb.inodesize) E.sb.inodesize

/-- Its number. -/
def dinodeIno (E : IabEnv) (ag : XalAg) (disk : Buf) (r : XalOdfInobtRec) (i : Nat) : Nat :=
  be64 disk (chunkOffset E ag r + i * E.sb.inodesize + 152)

theorem ReadsDisk.chunkOffset (h : ReadsDisk E ag disk) (hg : Geometry E.sb) (r : XalOdfInobtRec) :
    E.dev.lbaNbytes ∣ chunkOffset E ag r := by
  obtain ⟨k, hk, -⟩ := h.lba
  have hpos : 0 < E.sb.blocksize := Nat.lt_of_lt_of_le (by decide) hg.blocksize_ge
  have hle : 2 ^ k ≤ 2 ^ 16 := by
    rw [← hk]
    exact Nat.le_trans (Nat.le_of_dvd hpos h.blocksize) hg.blocksize_le
  have h64 : E.dev.lbaNbytes ∣ 2 ^ 64 := by
    rw [hk]
    exact Nat.pow_dvd_pow 2 (by have := (Nat.pow_le_pow_iff_right (by decide)).1 hle; omega)
  exact (Nat.dvd_mod_iff h64).2
    (Nat.dvd_add (Nat.dvd_mul_left_of_dvd h.blocksize _) h.offset)

/-- Reading a chunk of `n` bytes at `offset`, and the loop over it. -/
theorem readChunk_spec (hd : ReadsDisk E ag disk) (hsize : 160 ≤ E.sb.inodesize)
    (r : XalOdfInobtRec) {n offset : Nat} (h0 : n ≠ 0) (hlt : n < bufNbytes)
    (hn : E.dev.lbaNbytes ∣ n) (hoff : E.dev.lbaNbytes ∣ offset)
    (hcover : ∀ i ∈ copied r, (i + 1) * E.sb.inodesize ≤ n) (s : Retrieval) :
    ((onBuf (modify fun buf => buf.zero n) >>= fun _ => onBuf (devRead E.dev n offset) >>= fun _ =>
      Cm.read >>= fun s => decodeChunk E (fun i => if i < n then s.buf i else
        if i < bufNbytes then 0 else E.dev.stray i) r) s).OkIff
      ((∀ i ∈ copied r, E.khPut (be64 disk (offset + i * E.sb.inodesize + 152)) = true) ∧
        FitsBehind (dinodesSlots E.sb) s.index
          ((copied r).map fun i => disk.slice (offset + i * E.sb.inodesize) E.sb.inodesize))
      fun _ => Retrieved E.sb.inodesize
        ((copied r).map fun i => disk.slice (offset + i * E.sb.inodesize) E.sb.inodesize) s := by
  obtain ⟨buf', hr, hbuf⟩ := hd.reads_chunk h0 (Nat.le_of_lt hlt) hn hoff (s.buf.zero n)
  have hzero : onBuf (modify fun buf => buf.zero n) s = .ok () { s with buf := s.buf.zero n } := rfl
  have hread : onBuf (devRead E.dev n offset) { s with buf := s.buf.zero n } =
      .ok () { s with buf := buf' } := zoom_of_ok hr
  rw [bind_of_ok hzero, bind_of_ok hread, read_bind]
  have hbyte : ∀ i ∈ copied r, ∀ j < E.sb.inodesize,
      (if i * E.sb.inodesize + j < n then buf' (i * E.sb.inodesize + j) else
        if i * E.sb.inodesize + j < bufNbytes then 0 else E.dev.stray (i * E.sb.inodesize + j)) =
      disk (offset + i * E.sb.inodesize + j) := by
    intro i hi j hj
    have hle := hcover i hi
    rw [Nat.add_mul, Nat.one_mul] at hle
    rw [if_pos (by omega), hbuf _ (by omega), Nat.add_assoc]
  have hspec := decodeChunk_spec hsize (fun i => if i < n then buf' i else
    if i < bufNbytes then 0 else E.dev.stray i) r { s with buf := buf' }
  refine (hspec.mono fun _ s' h => ?_).congr (and_congr (forall₂_congr fun i hi => ?_) ?_)
  · refine ⟨h.index.trans (by simp), ?_, h.keep⟩
    have himg := h.images
    rw [List.length_map] at himg ⊢
    refine himg.trans (List.map_congr_left fun i hi => List.map_congr_left fun j hj => ?_)
    exact hbyte i hi j (List.mem_range.1 hj)
  · refine Eq.congr (congrArg E.khPut (be64_congr fun j hj => ?_)) rfl
    rw [Nat.add_assoc, Nat.add_assoc (offset + i * E.sb.inodesize)]
    exact hbyte i hi _ (by omega)
  · simp [FitsBehind]

/-- Nothing but the room in `be->dinodes` keeps the selected inodes of a record from being
copied. -/
def RecordCopies (E : IabEnv) (ag : XalAg) (disk : Buf) (r : XalOdfInobtRec) : Prop :=
  (xalInoDecodeRelative E.sb r.startino).2 = 0 ∧ E.sb.inopblock ≤ chunkNino ∧
    E.sb.inodesize < 2048 ∧ ∀ i ∈ copied r, E.khPut (dinodeIno E ag disk r i) = true

theorem decodeIab3LeafRecord_spec (hg : Geometry E.sb) (hd : ReadsDisk E ag disk)
    {r : XalOdfInobtRec} (hr : InobtRecOk r) (s : Retrieval) :
    (decodeIab3LeafRecord E ag r s).OkIff
      (RecordCopies E ag disk r ∧
        FitsBehind (dinodesSlots E.sb) s.index ((copied r).map (dinodeImage E ag disk r)))
      fun _ => Retrieved E.sb.inodesize ((copied r).map (dinodeImage E ag disk r)) s := by
  have hge := hg.inodesize_ge
  have hin : E.sb.inopblock ≠ 0 := by
    rw [hg.inopblock]; exact Nat.ne_of_gt (Nat.two_pow_pos _)
  have hoff := hd.chunkOffset hg r
  have hchunk := hg.chunkNbytes
  by_cases hio : E.sb.inopblock ≤ chunkNino
  · rw [if_pos hio] at hchunk
    have hdvd : E.dev.lbaNbytes ∣ chunkNbytes E.sb := Nat.dvd_mul_left_of_dvd hd.blocksize _
    refine OkIff.congr (okIff_assert_bind fun _ => okIff_assert_bind fun _ =>
      okIff_assert_bind fun hlt => readChunk_spec hd (by omega) r (by rw [hchunk, chunkNino]; omega)
        hlt hdvd hoff (fun i hi => ?_) s) ?_
    · rw [hchunk]
      exact Nat.mul_le_mul_right _ (lt_of_mem_copied hr hi)
    · rw [hchunk, bufNbytes, chunkNino] at *
      rw [RecordCopies, and_assoc]
      refine and_congr_right fun _ => ⟨fun h => ?_, fun h => ?_⟩
      · exact ⟨⟨hio, by omega, h.2.2.1⟩, h.2.2.2⟩
      · exact ⟨hin, by omega, h.1.2.2, h.2⟩
  · -- a chunk of no bytes
    rw [if_neg hio] at hchunk
    refine OkIff.congr (c := False) (okIff_of_not fun u s' hres => ?_)
      ⟨False.elim, fun h => hio h.1.2.1⟩
    unfold decodeIab3LeafRecord at hres
    simp only [hchunk] at hres
    obtain ⟨_, _, -, hres⟩ := bind_ok.1 hres
    obtain ⟨_, _, -, hres⟩ := bind_ok.1 hres
    obtain ⟨_, _, -, hres⟩ := bind_ok.1 hres
    obtain ⟨_, _, -, hres⟩ := bind_ok.1 hres
    obtain ⟨_, _, hread, -⟩ := bind_ok.1 hres
    obtain ⟨_, hread, -⟩ := zoom_ok.1 hread
    exact hd.reads_nothing _ _ _ _ hread

/-! ## A leaf -/

/-- The records of a leaf. -/
def inobtRecords (block : Buf) : List XalOdfInobtRec :=
  (List.range (blockNumrecs block)).map (inobtRecAt block)

/-- What is asked of a record, for its inodes to be retrieved. -/
structure RecordFits (E : IabEnv) (ag : XalAg) (disk : Buf) (r : XalOdfInobtRec) : Prop where
  aligned : (xalInoDecodeRelative E.sb r.startino).2 = 0
  inopblock : E.sb.inopblock ≤ chunkNino
  inodesize : E.sb.inodesize < 2048
  counted : ∀ i ∈ allocated r, i < r.count
  unmasked : ∀ i ∈ allocated r, chunkBit r.holemask i = false
  room : ∀ i ∈ allocated r, E.khPut (dinodeIno E ag disk r i) = true

/-- The most records in the local array of a block. -/
def leafRecordsMax : Nat := 4092

theorem records_inside_iff (n : Nat) :
    (∀ i < n, 56 + i * 16 + 16 ≤ blockNbytesMax) ↔ n ≤ leafRecordsMax := by
  constructor
  · intro h
    by_contra hn
    exact absurd (h leafRecordsMax (by omega)) (by decide)
  · intro hn i hi
    simp only [leafRecordsMax, blockNbytesMax] at hn ⊢
    omega

/-- What the loop over a leaf does. -/
theorem decodeIab3LeafRecords_spec (hg : Geometry E.sb) (hd : ReadsDisk E ag disk) {block : Buf}
    (hrec : ∀ r ∈ inobtRecords block, InobtRecOk r) (s : Retrieval) :
    (decodeIab3LeafRecords E ag block s).OkIff
      ((blockNumrecs block ≤ leafRecordsMax ∧
        ∀ r ∈ inobtRecords block, RecordCopies E ag disk r) ∧ FitsBehind (dinodesSlots E.sb) s.index
          ((inobtRecords block).flatMap fun r => (copied r).map (dinodeImage E ag disk r)))
      fun _ => Retrieved E.sb.inodesize
        ((inobtRecords block).flatMap fun r => (copied r).map (dinodeImage E ag disk r)) s := by
  unfold decodeIab3LeafRecords
  rw [forUp_range, inobtRecords, List.flatMap_map]
  refine OkIff.congr (okIff_forM_room Retrieval.index (Retrieved.nil _)
    (fun _ _ _ _ _ => Retrieved.append) (fun _ _ _ h => h.index)
    (C := fun i => 56 + i * 16 + 16 ≤ blockNbytesMax ∧ RecordCopies E ag disk (inobtRecAt block i))
    (fun i hi s => ?_) s) (and_congr_left' ?_)
  · refine (okIff_assert_bind fun _ => decodeIab3LeafRecord_spec hg hd ?_ s).congr and_assoc.symm
    exact hrec _ (List.mem_map_of_mem hi)
  · simp only [List.mem_range, List.forall_mem_map, forall₂_and, records_inside_iff]

theorem length_flatMap_le {α β : Type} {f g : α → List β} {l : List α}
    (hle : ∀ a ∈ l, (f a).length ≤ (g a).length) :
    (l.flatMap f).length ≤ (l.flatMap g).length := by
  induction l with
  | nil => exact Nat.le_refl _
  | cons a l ih =>
    simp only [List.flatMap_cons, List.length_append]
    exact Nat.add_le_add (hle a List.mem_cons_self)
      (ih fun b hb => hle b (List.mem_cons_of_mem a hb))

/-- If lists are no longer than others, and as long together, then each is as long. -/
theorem length_eq_of_flatMap {α β : Type} {f g : α → List β} {l : List α}
    (hle : ∀ a ∈ l, (f a).length ≤ (g a).length)
    (h : (l.flatMap f).length = (l.flatMap g).length) : ∀ a ∈ l, (f a).length = (g a).length := by
  induction l with
  | nil => simp
  | cons a l ih =>
    have hl := length_flatMap_le fun b hb => hle b (List.mem_cons_of_mem a hb)
    have ha := hle a List.mem_cons_self
    simp only [List.flatMap_cons, List.length_append] at h
    intro b hb
    rcases List.mem_cons.1 hb with rfl | hb
    · omega
    · exact ih (fun c hc => hle c (List.mem_cons_of_mem a hc)) (by omega) b hb

/-- The bytes of all allocated inodes of a leaf, as they are on the disk. -/
def leafImages (E : IabEnv) (ag : XalAg) (disk block : Buf) : List (List UInt8) :=
  (inobtRecords block).flatMap fun r => (allocated r).map (dinodeImage E ag disk r)

/-- What is asked of a leaf, when `index` inodes have been retrieved: its records are in the local
array of the block, each of them fits, and `be->dinodes` has room for their allocated inodes. -/
structure LeafFits (E : IabEnv) (ag : XalAg) (disk block : Buf) (index : Nat) : Prop where
  numrecs : blockNumrecs block ≤ leafRecordsMax
  records : ∀ r ∈ inobtRecords block, RecordFits E ag disk r
  slots : FitsBehind (dinodesSlots E.sb) index (leafImages E ag disk block)

/-- The loop over a leaf appends the images of all allocated inodes of its chunks, in order, if and
only if the leaf fits. -/
theorem decodeIab3LeafRecords_iff (hg : Geometry E.sb) (hd : ReadsDisk E ag disk) {block : Buf}
    (hrec : ∀ r ∈ inobtRecords block, InobtRecOk r) (s : Retrieval) :
    (∃ s', decodeIab3LeafRecords E ag block s = .ok () s' ∧
      Retrieved E.sb.inodesize (leafImages E ag disk block) s s') ↔
    LeafFits E ag disk block s.index := by
  have hspec := decodeIab3LeafRecords_spec hg hd hrec s
  have himages (hcopied : ∀ r ∈ inobtRecords block, copied r = allocated r) :
      ((inobtRecords block).flatMap fun r => (copied r).map (dinodeImage E ag disk r)) =
        leafImages E ag disk block :=
    List.flatMap_congr fun r hr => by rw [hcopied r hr]
  constructor
  · rintro ⟨s', hr, hall⟩
    have hlen := (hspec.post hr).index.symm.trans hall.index
    have heq := length_eq_of_flatMap (fun r hr => by
      rw [List.length_map, List.length_map]; exact copied_length_le (hrec r hr))
      (Nat.add_left_cancel hlen)
    have hcopied : ∀ r ∈ inobtRecords block, copied r = allocated r ∧
        ∀ i ∈ allocated r, i < r.count ∧ chunkBit r.holemask i = false := by
      intro r hmem
      have hr' := heq r hmem
      rw [List.length_map, List.length_map] at hr'
      have hfit := (copied_eq_allocated (hrec r hmem)).1 hr'
      exact ⟨by rw [copied_eq (hrec r hmem), List.filter_eq_self.2 fun i hi => by simp [hfit i hi]],
        hfit⟩
    obtain ⟨⟨hnumrecs, hcopies⟩, hroom⟩ := hspec.only hr
    rw [himages fun r hr => (hcopied r hr).1] at hroom
    refine ⟨hnumrecs, fun r hmem => ?_, hroom⟩
    obtain ⟨h1, h2, h3, h4⟩ := hcopies r hmem
    obtain ⟨heq, hfit⟩ := hcopied r hmem
    rw [heq] at h4
    exact ⟨h1, h2, h3, fun i hi => (hfit i hi).1, fun i hi => (hfit i hi).2, h4⟩
  · intro hfit
    have hcopied : ∀ r ∈ inobtRecords block, copied r = allocated r := fun r hr => by
      rw [copied_eq (hrec r hr)]
      exact List.filter_eq_self.2 fun i hi => by
        simp [(hfit.records r hr).counted i hi, (hfit.records r hr).unmasked i hi]
    rw [himages hcopied] at hspec
    have hcopies : ∀ r ∈ inobtRecords block, RecordCopies E ag disk r := by
      intro r hr
      have hf := hfit.records r hr
      exact ⟨hf.aligned, hf.inopblock, hf.inodesize, by rw [hcopied r hr]; exact hf.room⟩
    obtain ⟨_, s', hr, hret⟩ := hspec.ok ⟨⟨hfit.numrecs, hcopies⟩, hfit.slots⟩
    exact ⟨s', hr, hret⟩

end

/-! ## A full chunk and a sparse one -/

/-- A disk with 8 inodes of 512 bytes in a block. -/
def smallInodes : IabEnv where
  dev := ⟨bufNbytes, 512, fun slba _ => some fun i => UInt8.ofNat ((slba * 512 + i) / 512),
    fun _ => 0⟩
  sb := { (default : XalSb) with
    nallocated := 64, blocksize := 4096, inodesize := 512, inopblock := 8, inopblog := 3 }
  ags _ := default
  khInit := true
  calloc := true
  khPut _ := true

theorem smallInodes_geometry : Geometry smallInodes.sb := by
  constructor <;> decide

theorem smallInodes_reads :
    ReadsDisk smallInodes default fun i => UInt8.ofNat (i / 512) where
  lba := ⟨9, rfl, Nat.le_refl 9⟩
  blocksize := ⟨8, rfl⟩
  offset := ⟨0, rfl⟩
  mdts := Nat.le_refl _
  reads _ _ _ := ⟨_, rfl, fun _ _ => rfl⟩

/-- A leaf with one record. -/
def oneRecord (r : XalOdfInobtRec) : Buf :=
  ofList 6 (beBytes 2 1 ++ List.replicate 48 0 ++ beBytes 4 r.startino ++ beBytes 2 r.holemask ++
    beBytes 1 r.count ++ beBytes 1 r.freecount ++ beBytes 8 r.free)

/-- The second chunk, full, with inode 0 free. -/
def fullRecord : XalOdfInobtRec := ⟨64, 0, 64, 1, 1⟩

/-- The second chunk, sparse: its second half is a hole. -/
def sparseRecord : XalOdfInobtRec := ⟨64, 0xff00, 32, 0, 0xffffffff00000000⟩

/-- Nothing has been retrieved. -/
def noneRetrieved : Retrieval := ⟨fun _ => 0, fun _ => 0, fun _ => none, 0, true⟩

theorem decodeIab3LeafRecords_full :
    ∃ s', decodeIab3LeafRecords smallInodes default (oneRecord fullRecord) noneRetrieved =
      .ok () s' ∧
      Retrieved 512 (leafImages smallInodes default (fun i => UInt8.ofNat (i / 512))
        (oneRecord fullRecord)) noneRetrieved s' := by
  have hrec : inobtRecords (oneRecord fullRecord) = [fullRecord] := by decide +kernel
  refine (decodeIab3LeafRecords_iff smallInodes_geometry smallInodes_reads (fun r hr => ?_) _).2
    ⟨by decide +kernel, fun r hr => ?_, fun _ => ?_⟩
  · rw [hrec, List.mem_singleton] at hr
    subst hr
    exact ⟨by decide, by decide⟩
  · rw [hrec, List.mem_singleton] at hr
    subst hr
    exact ⟨by decide, by decide, by decide, by decide, by decide, fun _ _ => rfl⟩
  · rw [leafImages, hrec]
    simp only [List.flatMap_cons, List.flatMap_nil, List.append_nil, List.length_map]
    decide

/-- Of the 32 inodes of the sparse chunk, 8 are taken for holes. -/
theorem decodeIab3LeafRecords_sparse :
    Geometry smallInodes.sb ∧ ReadsDisk smallInodes default (fun i => UInt8.ofNat (i / 512)) ∧
    (∀ r ∈ inobtRecords (oneRecord sparseRecord), InobtRecOk r) ∧
      ¬∃ s', decodeIab3LeafRecords smallInodes default (oneRecord sparseRecord) noneRetrieved =
          .ok () s' ∧
        Retrieved 512 (leafImages smallInodes default (fun i => UInt8.ofNat (i / 512))
          (oneRecord sparseRecord)) noneRetrieved s' := by
  have hrec : inobtRecords (oneRecord sparseRecord) = [sparseRecord] := by decide +kernel
  have hok : ∀ r ∈ inobtRecords (oneRecord sparseRecord), InobtRecOk r := by
    intro r hr
    rw [hrec, List.mem_singleton] at hr
    subst hr
    exact ⟨by decide, by decide⟩
  refine ⟨smallInodes_geometry, smallInodes_reads, hok, fun ⟨s', hr, hall⟩ => ?_⟩
  have hspec := decodeIab3LeafRecords_spec smallInodes_geometry smallInodes_reads hok noneRetrieved
  have hindex := (hspec.post hr).index.symm.trans hall.index
  rw [leafImages, hrec] at hindex
  simp only [List.flatMap_cons, List.flatMap_nil, List.append_nil, List.length_map] at hindex
  exact absurd hindex (by decide +kernel)

end Xallib
