import Xallib.Lib.Checked
import Xallib.Xfs.Index

/-!
# The B+tree readers with their accesses checked

`xal_dinodes_retrieve`, `process_file_btree_leaf` and `process_file_btree_node`, with what they
call, as in `Dinodes.lean` and `Index.lean`, but for the accesses. Each record and pointer has to be
in the `blocksize` bytes of the block that it is read from, and each inode has to be stored in one
of the `nallocated` slots that `be->dinodes` has room for.

`process_dinode_file_btree_root` and `process_dinode_dir_btree_root` have to read each pointer in
the inode, where XFS stores it (`rootAccess`).
-/

namespace Xallib

open Lib Lib.Cm Lib.Buf

/-! ## Inodes -/

section
variable (E : IabEnv)

def copyDinodeChecked (inodechunk : Buf) (chunkIndex : Nat) : Cm (Option Err) Retrieval Unit := do
  let s ← read
  inside (s.index < E.sb.nallocated ∧ (s.index + 1) * E.sb.inodesize ≤ dinodesRoom E.sb)
  unchecked (copyDinode E inodechunk chunkIndex)

def decodeChunkChecked (inodechunk : Buf) (r : XalOdfInobtRec) : Cm (Option Err) Retrieval Unit :=
  forUp (fun _ i => i < r.count)
    (fun i => if chunkBit r.holemask i || chunkBit r.free i then pure ()
      else copyDinodeChecked E inodechunk i) r.count 0

def decodeIab3LeafRecordChecked (ag : XalAg) (r : XalOdfInobtRec) :
    Cm (Option Err) Retrieval Unit := do
  let (agbno, agbino) := xalInoDecodeRelative E.sb r.startino
  assert (agbino = 0)
  assert (E.sb.inopblock ≠ 0)
  let chunkOffset := (agbno * E.sb.blocksize + ag.offset) % 2 ^ 64
  assert (chunkNbytes E.sb < bufNbytes)
  unchecked (onBuf (modify fun buf => buf.zero (chunkNbytes E.sb)))
  unchecked (onBuf (devRead E.dev (chunkNbytes E.sb) chunkOffset))
  let s ← read
  let inodechunk : Buf := fun i => if i < chunkNbytes E.sb then s.buf i else
    if i < bufNbytes then 0 else E.dev.stray i
  decodeChunkChecked E inodechunk r

def decodeIab3LeafRecordsChecked (ag : XalAg) (block : Buf) : Cm (Option Err) Retrieval Unit :=
  forUp (fun _ reci => reci < blockNumrecs block)
    (fun reci => do
      inside (56 + 16 * reci + 16 ≤ E.sb.blocksize)
      assert (56 + reci * 16 + 16 ≤ blockNbytesMax)
      decodeIab3LeafRecordChecked E ag (inobtRecAt block reci)) (blockNumrecs block) 0

def retrieveDinodesViaIab3Checked (ag : XalAg) : Nat → Nat → Cm (Option Err) Retrieval Unit
  | 0, _ => fun _ => .spin
  | fuel + 1, blkno => do
    let block ← unchecked (readIab3Block E ag blkno)
    if blockLevel block = 1 then do
      assert ((btreeSblockMeta E.sb).2 ≤ E.sb.blocksize)
      forUp (fun _ i => i < blockNumrecs block)
        (fun i => do
          inside ((btreeSblockMeta E.sb).2 + 4 * i + 4 ≤ E.sb.blocksize)
          retrieveDinodesViaIab3Checked ag fuel (sblockPointer E block i)) (blockNumrecs block) 0
    else if blockLevel block = 0 then decodeIab3LeafRecordsChecked E ag block
    else unchecked (fail ⟨.level, -EINVAL⟩)

/-- `dropDinodes`, for checked functions. -/
def dropDinodesChecked (x : Cm (Option Err) Retrieval Unit) : Cm (Option Err) Retrieval Unit :=
  fun s => match x s with
  | .fail e s' => .fail e { s' with retrieved := false }
  | r => r

def xalDinodesRetrieveChecked (fuel : Nat) : Cm (Option Err) Retrieval Unit := do
  unchecked (failIf (E.khInit = false) ⟨.memory, -EINVAL⟩)
  modify fun s => { s with dinodesMap := fun _ => none, index := 0, retrieved := false }
  unchecked (failIf (E.calloc = false) ⟨.memory, -ENOMEM⟩)
  modify fun s => { s with dinodes := fun _ => 0, retrieved := true }
  forUp (fun _ seqno => seqno < E.sb.agcount)
    (fun seqno => dropDinodesChecked
      (retrieveDinodesViaIab3Checked E (E.ags seqno) fuel (E.ags seqno).agiRoot)) E.sb.agcount 0

end

/-! ## Extents -/

section
variable (E : XfsEnv)

def decodeExtentsChecked (room : Nat) (buf : Buf) (ofz start : Nat) :
    Nat → Nat → Cm (Option Err) (Store Buf) Unit
  | 0, _ => pure ()
  | n + 1, rec => do
    inside (ofz + 16 * rec + 16 ≤ E.sb.blocksize)
    assert (ofz + 16 * rec + 16 ≤ room)
    unchecked (setExtent (start + rec) (xfsExtentAt buf (ofz + 16 * rec)))
    decodeExtentsChecked room buf ofz start n (rec + 1)

def processFileBtreeLeafChecked (fsbno self : Nat) : Cm (Option Err) (Store Buf) Unit := do
  unchecked (onBe (devRead E.dev E.sb.blocksize (xalFsbnoOffset .xfs E.sb fsbno)))
  let s ← read
  unchecked (failIf (be32 s.be 0 ≠ bmapCrcMagic) ⟨.magic, -EINVAL⟩)
  unchecked (failIf (blockLevel s.be ≠ 0) ⟨.level, -EINVAL⟩)
  let numrecs := blockNumrecs s.be
  let extentStart ← unchecked (onExtents (xalPoolClaimExtents E.mpExtents numrecs))
  unchecked (setInode self fun v => { v with
    content := { v.content with count := (v.content.count + numrecs) % 2 ^ 32 } })
  decodeExtentsChecked E bufNbytes s.be 72 extentStart numrecs 0

def processFileBtreeNodeChecked (self : Nat) : Nat → Nat → Cm (Option Err) (Store Buf) Unit
  | 0, _ => fun _ => .spin
  | fuel + 1, fsbno => do
    unchecked (failIf (E.sb.blocksize > blockNbytesMax) ⟨.argument, -EINVAL⟩)
    unchecked (onBe (devRead E.dev E.sb.blocksize (xalFsbnoOffset .xfs E.sb fsbno)))
    assert ((btreeLblockMeta E.sb).2 ≤ E.sb.blocksize)
    let s ← read
    unchecked (failIf (be32 s.be 0 ≠ bmapCrcMagic) ⟨.magic, -EINVAL⟩)
    unchecked (failIf (blockLevel s.be = 0) ⟨.level, -EINVAL⟩)
    forUp (fun _ i => i < blockNumrecs s.be)
      (fun i => do
        inside ((btreeLblockMeta E.sb).2 + 8 * i + 8 ≤ E.sb.blocksize)
        if blockLevel s.be = 1 then processFileBtreeLeafChecked E (lblockPointer E s.be i) self
        else processFileBtreeNodeChecked self fuel (lblockPointer E s.be i)) (blockNumrecs s.be) 0

end

/-! ## Roots -/

section
variable (E : XfsEnv) (dinode : Nat)

/-- The bytes of the data fork: all that follows the dinode, if there is no attribute fork. -/
def dataForkNbytes : Nat :=
  if diForkoff E dinode = 0 then E.sb.inodesize - dinodeNbytes else 8 * diForkoff E dinode

/-- Where in the inode XFS stores the pointer `i` of the root: behind two fields of 16 bits, and the
keys that there is room for. -/
def rootPointerOfz (i : Nat) : Nat :=
  dinodeNbytes + 4 + 8 * ((dataForkNbytes E dinode - 4) / 16) + 8 * i

/-- The pointer `i` of the root is read: it has to be one of those there is room for. -/
def rootAccess (i : Nat) : Cm (Option Err) (Store Buf) Unit :=
  let ofz := (btreeDinodeMeta E.sb (diForkoff E dinode)).2 + 8 * i
  inside (ofz = rootPointerOfz E dinode i ∧ i < (dataForkNbytes E dinode - 4) / 16 ∧
    ofz + 8 ≤ E.sb.inodesize)

def processDinodeFileBtreeRootChecked (fuel self : Nat) : Cm (Option Err) (Store Buf) Unit := do
  assert (dfork dinode + 4 ≤ dinodesRoom E.sb)
  let level := be16 E.dinodes (dfork dinode)
  let numrecs := be16 E.dinodes (dfork dinode + 2)
  unchecked (failIf (level < 1) ⟨.level, -EINVAL⟩)
  let cursor := dinode + (btreeDinodeMeta E.sb (diForkoff E dinode)).2
  let v ← unchecked (inodeAt self)
  unchecked (failIf (v.content.count ≠ 0) ⟨.dentries, -EINVAL⟩)
  let s ← read
  unchecked (setInode self fun v =>
    { v with content := { v.content with idx := s.extents.free % 2 ^ 32 } })
  forUp (fun _ i => i < numrecs)
    (fun i => do
      rootAccess E dinode i
      assert (cursor + 8 * i + 8 ≤ dinodesRoom E.sb)
      unchecked (
        let pointer := be64 E.dinodes (cursor + 8 * i)
        if level = 1 then processFileBtreeLeaf E pointer self
        else processFileBtreeNode E self fuel pointer)) numrecs 0

def processDinodeDirBtreeRootChecked (procIno : Nat → Nat → Xm Unit) (self : Nat) :
    Cm (Option Err) (Store Buf) Unit := do
  assert (dfork dinode + 2 ≤ dinodesRoom E.sb)
  let level := be16 E.dinodes (dfork dinode)
  let numrecs := be16 E.dinodes (dfork dinode)
  unchecked (failIf (level < 1) ⟨.level, -EINVAL⟩)
  let fsbnos := dinode + (btreeDinodeMeta E.sb (diForkoff E dinode)).2
  let v ← unchecked (inodeAt self)
  unchecked (failIf (v.content.count ≠ 0) ⟨.dentries, -EINVAL⟩)
  let s ← read
  unchecked (setInode self fun v =>
    { v with content := { v.content with idx := s.inodes.free % 2 ^ 32 } })
  forUp (fun _ i => i < numrecs)
    (fun i => do
      rootAccess E dinode i
      assert (fsbnos + 8 * i + 8 ≤ dinodesRoom E.sb)
      unchecked (btreeLblockProcess E (be64 E.dinodes (fsbnos + 8 * i)) self)) numrecs 0
  unchecked (processChildren procIno self)

end

/-! ## The checks apart, the functions are the same -/

section
variable (E : IabEnv)

theorem decodeChunkChecked_guards (inodechunk : Buf) (r : XalOdfInobtRec) :
    Guards (decodeChunkChecked E inodechunk r) (decodeChunk E inodechunk r) := by
  refine guards_forUp (fun i => guards_ite (guards_ret ()) ?_) _ _
  exact fun s => (guards_unchecked (copyDinode E inodechunk i)).inside s

theorem decodeIab3LeafRecordChecked_guards (ag : XalAg) (r : XalOdfInobtRec) :
    Guards (decodeIab3LeafRecordChecked E ag r) (decodeIab3LeafRecord E ag r) := by
  refine (guards_assert _).bind fun _ => (guards_assert _).bind fun _ =>
    (guards_assert _).bind fun _ => ?_
  refine (guards_unchecked _).bind fun _ => (guards_unchecked _).bind fun _ => ?_
  exact guards_read_bind fun s => decodeChunkChecked_guards E _ r

theorem retrieveDinodesViaIab3Checked_guards (ag : XalAg) (fuel : Nat) : ∀ blkno,
    Guards (retrieveDinodesViaIab3Checked E ag fuel blkno)
      (retrieveDinodesViaIab3 E ag fuel blkno) := by
  induction fuel with
  | zero => exact fun _ _ => .inr rfl
  | succ fuel ih =>
    intro blkno
    unfold retrieveDinodesViaIab3Checked retrieveDinodesViaIab3
    refine (guards_unchecked _).bind fun block => guards_ite ?_ (guards_ite ?_ (guards_unchecked _))
    · exact (guards_assert _).bind fun _ => guards_forUp (fun i => (ih _).inside) _ _
    · refine guards_forUp (fun i => Guards.inside ?_) _ _
      exact (guards_assert _).bind fun _ => decodeIab3LeafRecordChecked_guards E ag _

theorem dropDinodesChecked_guards {y : Cm (Option Err) Retrieval Unit} {x : Cm Err Retrieval Unit}
    (h : Guards y x) : Guards (dropDinodesChecked y) (dropDinodes x) := by
  intro s
  unfold dropDinodesChecked dropDinodes
  rcases h s with ⟨t, ht⟩ | hs
  · rw [ht]
    exact .inl ⟨_, rfl⟩
  · rw [hs]
    cases x s with
    | ok _ _ => exact .inr rfl
    | fail _ _ => exact .inr rfl
    | crash => exact .inr rfl
    | spin => exact .inr rfl

theorem xalDinodesRetrieveChecked_guards (fuel : Nat) :
    Guards (xalDinodesRetrieveChecked E fuel) (xalDinodesRetrieve E fuel) := by
  refine (guards_unchecked _).bind fun _ => guards_modify_bind _ ?_
  refine (guards_unchecked _).bind fun _ => guards_modify_bind _ ?_
  exact guards_forUp (fun g => dropDinodesChecked_guards
    (retrieveDinodesViaIab3Checked_guards E _ fuel _)) _ _

end

section
variable (E : XfsEnv)

theorem decodeExtentsChecked_guards (room : Nat) (buf : Buf) (ofz start n : Nat) : ∀ i,
    Guards (decodeExtentsChecked E room buf ofz start n i)
      (decodeExtents room buf ofz start n i) := by
  induction n with
  | zero => exact fun _ => guards_ret ()
  | succ n ih =>
    intro i
    refine Guards.inside ((guards_assert _).bind fun _ => ?_)
    exact (guards_unchecked _).bind fun _ => ih (i + 1)

theorem processFileBtreeLeafChecked_guards (fsbno self : Nat) :
    Guards (processFileBtreeLeafChecked E fsbno self) (processFileBtreeLeaf E fsbno self) := by
  refine (guards_unchecked _).bind fun _ => guards_read_bind fun s => ?_
  refine (guards_unchecked _).bind fun _ => (guards_unchecked _).bind fun _ => ?_
  refine (guards_unchecked _).bind fun idx => (guards_unchecked _).bind fun _ => ?_
  exact decodeExtentsChecked_guards E _ _ _ _ _ _

theorem processFileBtreeNodeChecked_guards (self fuel : Nat) : ∀ fsbno,
    Guards (processFileBtreeNodeChecked E self fuel fsbno)
      (processFileBtreeNode E self fuel fsbno) := by
  induction fuel with
  | zero => exact fun _ _ => .inr rfl
  | succ fuel ih =>
    intro fsbno
    unfold processFileBtreeNodeChecked processFileBtreeNode
    refine (guards_unchecked _).bind fun _ => (guards_unchecked _).bind fun _ => ?_
    refine (guards_assert _).bind fun _ => guards_read_bind fun s => ?_
    refine (guards_unchecked _).bind fun _ => (guards_unchecked _).bind fun _ => ?_
    exact guards_forUp (fun i => Guards.inside (guards_ite
      (processFileBtreeLeafChecked_guards E _ self) (ih _))) _ _

theorem processDinodeFileBtreeRootChecked_guards (dinode fuel self : Nat) :
    Guards (processDinodeFileBtreeRootChecked E dinode fuel self)
      (processDinodeFileBtreeRoot E fuel dinode self) := by
  refine (guards_assert _).bind fun _ => ?_
  refine (guards_unchecked _).bind fun _ => (guards_unchecked _).bind fun v => ?_
  refine (guards_unchecked _).bind fun _ => guards_read_bind fun s =>
    (guards_unchecked _).bind fun _ => ?_
  refine guards_forUp (fun i => Guards.inside ?_) _ _
  exact (guards_assert _).bind fun _ => guards_unchecked _

theorem processDinodeDirBtreeRootChecked_guards (dinode : Nat) (procIno : Nat → Nat → Xm Unit)
    (self : Nat) : Guards (processDinodeDirBtreeRootChecked E dinode procIno self)
      (processDinodeDirBtreeRoot E procIno dinode self) := by
  refine (guards_assert _).bind fun _ => ?_
  refine (guards_unchecked _).bind fun _ => (guards_unchecked _).bind fun v => ?_
  refine (guards_unchecked _).bind fun _ => guards_read_bind fun s =>
    (guards_unchecked _).bind fun _ => ?_
  refine (guards_forUp (fun i => Guards.inside ?_) _ _).bind fun _ => guards_unchecked _
  exact (guards_assert _).bind fun _ => guards_unchecked _

end

end Xallib
