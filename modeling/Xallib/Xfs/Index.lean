import Xallib.Xfs.Dinodes

/-!
# `xal_index` of the XFS backend

`process_ino` and what it calls, over the pools and `be->buf`. An inode is passed as its slot. The
functions that call `process_ino` back take it as the parameter `procIno`; `processIno` closes the
loop, with a bound on the depth. Loops of the source over several variables are recursions whose
first argument is a bound on their rounds.
-/

namespace Xallib

open Lib Lib.Cm Lib.Buf

/-- What the indexing reads and does not write: the device and the superblock, the dinodes as
retrieved, the answers of `mprotect`, and what `process_dinode_dir_extents` finds in `err`, which
it does not initialise (by slot). -/
structure XfsEnv where
  dev : XnvmeDev
  sb : XalSb
  dinodes : Buf
  dinodesMap : Nat → Option Nat
  retrieved : Bool
  mpInodes : Mprotect
  mpExtents : Mprotect
  uninit : Nat → Int

/-- Functions of the backend. -/
abbrev Xm (α : Type) := Cm Err (Store Buf) α

section
variable (E : XfsEnv)

/-- `dinodes_get`: the offset of the dinode in `be->dinodes`. -/
def dinodesGet (ino : Nat) : Xm Nat :=
  match E.dinodesMap ino with
  | none => fail ⟨.dinode, -EINVAL⟩
  | some dinode => pure dinode

def diMode (dinode : Nat) : Nat := be16 E.dinodes (dinode + 2)
def diFormat (dinode : Nat) : Nat := (E.dinodes (dinode + 5)).toNat
def diSize (dinode : Nat) : Nat := be64 E.dinodes (dinode + 56)
def diIno (dinode : Nat) : Nat := be64 E.dinodes (dinode + 152)
def diForkoff (dinode : Nat) : Nat := (E.dinodes (dinode + 82)).toNat

/-- `di_nextents`, or `di_big_nextents` where that is 0. -/
def diNextents (dinode : Nat) : Nat :=
  if be32 E.dinodes (dinode + 76) ≠ 0 then be32 E.dinodes (dinode + 76)
  else be64 E.dinodes (dinode + 24)

/-- The offset of the data fork in `be->dinodes`. -/
def dfork (dinode : Nat) : Nat := dinode + dinodeNbytes

def fsblkPerDblk : Nat := E.sb.dirblocksize / E.sb.blocksize

/-! ## Directory blocks -/

/-- `self->content.dentries.count += 1` -/
def countDentry (self : Nat) : Xm Unit :=
  setInode self fun v =>
    { v with content := { v.content with count := (v.content.count + 1) % 2 ^ 32 } }

/-- The loop over the entries of a directory block, from offset `ofz` on; the same in
`process_dinode_dir_extents_dblock` and in `btree_lblock_decode_leaf_records`. -/
def dblockEntries (dblock : Buf) (self : Nat) : Nat → Nat → Xm Unit
  | 0, ofz => fun s => if ofz < E.sb.dirblocksize then .spin else .ok () s
  | fuel + 1, ofz =>
    if ofz < E.sb.dirblocksize then
      let nbytes := (decodeDentry dblock ofz).1
      let dentry := (decodeDentry dblock ofz).2
      if dentry.ino = 0 ∨ dentry.namelen = 0 then pure ()
      else if isDotDentry dentry then dblockEntries dblock self fuel (ofz + nbytes)
      else do
        let slot ← onInodes (xalPoolClaimInodes E.mpInodes 1)
        setInode slot fun _ => { dentry with parentIdx := self }
        countDentry self
        dblockEntries dblock self fuel (ofz + nbytes)
    else pure ()

/-- The read of a directory block, at `fsbno`. -/
def dblockRead (fsbno : Nat) : Xm Buf :=
  onBe (devReadInto E.dev E.sb.dirblocksize (xalFsbnoOffset .xfs E.sb fsbno))

def dblockMagicOk (dblock : Buf) : Bool :=
  be32 dblock 0 == dir3DataMagic || be32 dblock 0 == dir3BlockMagic

/-- A block with another magic number is skipped: the source returns `err`, which is 0. -/
def processDinodeDirExtentsDblock (fsbno self : Nat) : Xm Unit := do
  let dblock ← dblockRead E fsbno
  if dblockMagicOk dblock then dblockEntries E dblock self (E.sb.dirblocksize + 1) 64
  else pure ()

/-- `for (fsblk = 0; fsblk < nblocks; fsblk += fsblk_per_dblk)`, round `k` on; `body` tells whether
to go on. -/
def forDblocks (start nblocks : Nat) (body : Nat → Xm Bool) : Nat → Nat → Xm Bool
  | 0, k => fun s => if k * fsblkPerDblk E < nblocks then .spin else .ok true s
  | n + 1, k =>
    if k * fsblkPerDblk E < nblocks then do
      let more ← body (start + k * fsblkPerDblk E)
      if more then forDblocks start nblocks body n (k + 1) else pure false
    else pure true

/-- `for (i = 0; i < self->content.dentries.count; ++i) process_ino(..)`, with `count` read again
in each round. -/
def processChildren (procIno : Nat → Nat → Xm Unit) (self : Nat) : Xm Unit :=
  forUp (fun s i => i < (s.inodes.memory self).content.count)
    (fun i => do
      let v ← inodeAt self
      let inode ← inodeAt (v.content.idx + i)
      procIno inode.ino (v.content.idx + i)) (2 ^ 32) 0

/-! ## Directories -/

/-- The extent loop of `process_dinode_dir_extents`, extent `i` on; the result tells whether `err`
was assigned. -/
def dirExtentsLoop (dinode self : Nat) : Nat → Nat → Int → Xm Bool
  | 0, _, _ => pure false
  | n + 1, i, nbytes =>
    if nbytes > 0 then do
      assert (dfork dinode + 16 * i + 16 ≤ dinodesRoom E.sb)
      let extent := xfsExtentAt E.dinodes (dfork dinode + 16 * i)
      let _ ← forDblocks E extent.startBlock extent.nblocks
        (fun fsbno => do processDinodeDirExtentsDblock E fsbno self; pure true) extent.nblocks 0
      let ran ← dirExtentsLoop dinode self n (i + 1) (nbytes - extent.nblocks * E.sb.blocksize)
      pure (decide (0 < extent.nblocks) || ran)
    else pure false

/-- `(int64_t)size` -/
def signed64 (n : Nat) : Int := if n < 2 ^ 63 then n else n - 2 ^ 64

def processDinodeDirExtents (procIno : Nat → Nat → Xm Unit) (dinode self : Nat) : Xm Unit := do
  assert (E.sb.blocksize ≠ 0)
  let s ← read
  setInode self fun v => { v with content := { v.content with idx := s.inodes.free % 2 ^ 32 } }
  let ran ← dirExtentsLoop E dinode self (diNextents E dinode) 0 (signed64 (diSize E dinode))
  let v ← inodeAt self
  processChildren procIno self
  -- `return err`, with `err` as the loops left it
  failIf (ran = false ∧ v.content.count = 0 ∧ E.uninit self ≠ 0) ⟨.dentries, E.uninit self⟩

/-- One directory block of `btree_lblock_decode_leaf_records`; where its magic number is wrong the
decoder returns, with 0. -/
def leafDblock (self fsbno : Nat) : Xm Bool := do
  let dblock ← dblockRead E fsbno
  if dblockMagicOk dblock then do
    dblockEntries E dblock self (E.sb.dirblocksize + 1) 64
    pure true
  else pure false

def leafRecords (block : Buf) (self : Nat) : Nat → Nat → Xm Unit
  | 0, _ => pure ()
  | n + 1, i => do
    let extent := xfsExtentAt block (72 + 16 * i)
    let more ← forDblocks E extent.startBlock extent.nblocks (leafDblock E self) extent.nblocks 0
    if more then leafRecords block self n (i + 1) else pure ()

def btreeLblockDecodeLeafRecords (block : Buf) (self : Nat) : Xm Unit := do
  assert (E.sb.blocksize ≠ 0)
  failIf (be32 block 0 ≠ bmapCrcMagic) ⟨.magic, -EINVAL⟩
  failIf (blockLevel block ≠ 0) ⟨.level, -EINVAL⟩
  leafRecords E block self (blockNumrecs block) 0

def btreeLblockDecodeNodeRecords : Xm Unit := fail ⟨.level, -ENOSYS⟩

def btreeLblockProcess (fsbno self : Nat) : Xm Unit := do
  let block ← onBe (devReadInto E.dev E.sb.blocksize (xalFsbnoOffset .xfs E.sb fsbno))
  if blockLevel block = 0 then btreeLblockDecodeLeafRecords E block self
  else btreeLblockDecodeNodeRecords

/-- The level and the number of records are both read from the first field of the root. -/
def processDinodeDirBtreeRoot (procIno : Nat → Nat → Xm Unit) (dinode self : Nat) : Xm Unit := do
  assert (dfork dinode + 2 ≤ dinodesRoom E.sb)
  let level := be16 E.dinodes (dfork dinode)
  let numrecs := be16 E.dinodes (dfork dinode)
  failIf (level < 1) ⟨.level, -EINVAL⟩
  let fsbnos := dinode + (btreeDinodeMeta E.sb (diForkoff E dinode)).2
  let v ← inodeAt self
  failIf (v.content.count ≠ 0) ⟨.dentries, -EINVAL⟩
  let s ← read
  setInode self fun v => { v with content := { v.content with idx := s.inodes.free % 2 ^ 32 } }
  forUp (fun _ i => i < numrecs)
    (fun i => do
      assert (fsbnos + 8 * i + 8 ≤ dinodesRoom E.sb)
      btreeLblockProcess E (be64 E.dinodes (fsbnos + 8 * i)) self) numrecs 0
  processChildren procIno self

/-- The first loop of `process_dinode_dir_local`, entry `i` on, with its cursor and `i8count`. -/
def localEntries (self : Nat) : Nat → Nat → Nat → Nat → Xm Unit
  | 0, _, _, _ => pure ()
  | n + 1, i, cursor, i8count => do
    let v ← inodeAt self
    let namelen := (E.dinodes cursor).toNat
    let ofz := cursor + 3 + namelen
    let next := ofz + 1 + if i8count ≠ 0 then 8 else 4
    assert (next ≤ dinodesRoom E.sb)
    setInode (v.content.idx + i) fun dentry => { dentry with
      namelen
      name := E.dinodes.slice (cursor + 3) namelen
      ftype := (E.dinodes ofz).toNat
      ino := if i8count ≠ 0 then be64 E.dinodes (ofz + 1) else be32 E.dinodes (ofz + 1) }
    localEntries self n (i + 1) next (i8count - 1)

def processDinodeDirLocal (procIno : Nat → Nat → Xm Unit) (dinode self : Nat) : Xm Unit := do
  assert (dfork dinode + 2 ≤ dinodesRoom E.sb)
  let count := (E.dinodes (dfork dinode)).toNat
  let i8count := (E.dinodes (dfork dinode + 1)).toNat
  setInode self fun v => { v with content := { v.content with count } }
  let idx ← onInodes (xalPoolClaimInodes E.mpInodes count)
  setInode self fun v => { v with content := { v.content with idx } }
  localEntries E self count 0 (dfork dinode + 2 + if i8count ≠ 0 then 8 else 4) i8count
  forUp (fun _ i => i < count)
    (fun i => do
      let v ← inodeAt self
      setInode (v.content.idx + i) fun dentry => { dentry with parentIdx := self }
      let dentry ← inodeAt (v.content.idx + i)
      procIno dentry.ino (v.content.idx + i)) count 0

/-! ## Regular files -/

/-- `decode_xfs_extent` for the `n` records from offset `ofz` of `buf` on, which has `room` bytes,
to the extents from `start` on. -/
def decodeExtents (room : Nat) (buf : Buf) (ofz start : Nat) : Nat → Nat → Xm Unit
  | 0, _ => pure ()
  | n + 1, rec => do
    assert (ofz + 16 * rec + 16 ≤ room)
    setExtent (start + rec) (xfsExtentAt buf (ofz + 16 * rec))
    decodeExtents room buf ofz start n (rec + 1)

def processDinodeFileExtents (dinode self : Nat) : Xm Unit := do
  let nextents := diNextents E dinode
  let idx ← onExtents (xalPoolClaimExtents E.mpExtents nextents)
  setInode self fun v => { v with content := ⟨idx, nextents % 2 ^ 32⟩ }
  decodeExtents (dinodesRoom E.sb) E.dinodes (dfork dinode) idx nextents 0

def processFileBtreeLeaf (fsbno self : Nat) : Xm Unit := do
  onBe (devRead E.dev E.sb.blocksize (xalFsbnoOffset .xfs E.sb fsbno))
  let s ← read
  failIf (be32 s.be 0 ≠ bmapCrcMagic) ⟨.magic, -EINVAL⟩
  failIf (blockLevel s.be ≠ 0) ⟨.level, -EINVAL⟩
  let numrecs := blockNumrecs s.be
  let extentStart ← onExtents (xalPoolClaimExtents E.mpExtents numrecs)
  setInode self fun v => { v with
    content := { v.content with count := (v.content.count + numrecs) % 2 ^ 32 } }
  decodeExtents bufNbytes s.be 72 extentStart numrecs 0

/-- The pointer `i` of a long-format node. -/
def lblockPointer (block : Buf) (i : Nat) : Nat :=
  be64 (nodePointers E.dev E.sb block (btreeLblockMeta E.sb).2) (i * 8)

/-- `fuel` bounds the depth. -/
def processFileBtreeNode (self : Nat) : Nat → Nat → Xm Unit
  | 0, _ => fun _ => .spin
  | fuel + 1, fsbno => do
    failIf (E.sb.blocksize > blockNbytesMax) ⟨.argument, -EINVAL⟩
    onBe (devRead E.dev E.sb.blocksize (xalFsbnoOffset .xfs E.sb fsbno))
    assert ((btreeLblockMeta E.sb).2 ≤ E.sb.blocksize)
    let s ← read
    failIf (be32 s.be 0 ≠ bmapCrcMagic) ⟨.magic, -EINVAL⟩
    failIf (blockLevel s.be = 0) ⟨.level, -EINVAL⟩
    forUp (fun _ i => i < blockNumrecs s.be)
      (fun i => if blockLevel s.be = 1 then processFileBtreeLeaf E (lblockPointer E s.be i) self
        else processFileBtreeNode self fuel (lblockPointer E s.be i)) (blockNumrecs s.be) 0

def processDinodeFileBtreeRoot (fuel dinode self : Nat) : Xm Unit := do
  assert (dfork dinode + 4 ≤ dinodesRoom E.sb)
  let level := be16 E.dinodes (dfork dinode)
  let numrecs := be16 E.dinodes (dfork dinode + 2)
  failIf (level < 1) ⟨.level, -EINVAL⟩
  let cursor := dinode + (btreeDinodeMeta E.sb (diForkoff E dinode)).2
  let v ← inodeAt self
  failIf (v.content.count ≠ 0) ⟨.dentries, -EINVAL⟩
  let s ← read
  setInode self fun v => { v with content := { v.content with idx := s.extents.free % 2 ^ 32 } }
  forUp (fun _ i => i < numrecs)
    (fun i => do
      assert (cursor + 8 * i + 8 ≤ dinodesRoom E.sb)
      let pointer := be64 E.dinodes (cursor + 8 * i)
      if level = 1 then processFileBtreeLeaf E pointer self
      else processFileBtreeNode E self fuel pointer) numrecs 0

/-! ## The recursion -/

/-- `XAL_DINODE_FMT_DEV` to `XAL_DINODE_FMT_UUID` -/
def fmtDev : Nat := 0
def fmtLocal : Nat := 1
def fmtExtents : Nat := 2
def fmtBtree : Nat := 3
def fmtUuid : Nat := 4

/-- The `switch` of `process_ino` on the format; a format it does not know is no error. -/
def processFormat (procIno : Nat → Nat → Xm Unit) (fuel dinode self : Nat) : Xm Unit := do
  let v ← inodeAt self
  if diFormat E dinode = fmtBtree then
    if v.ftype = ftDir then do
      let s ← read
      setInode self fun v => { v with content := { v.content with idx := s.inodes.free % 2 ^ 32 } }
      processDinodeDirBtreeRoot E procIno dinode self
    else if v.ftype = ftRegFile then processDinodeFileBtreeRoot E fuel dinode self
    else fail ⟨.format, -ENOSYS⟩
  else if diFormat E dinode = fmtExtents then
    if v.ftype = ftDir then processDinodeDirExtents E procIno dinode self
    else if v.ftype = ftRegFile then processDinodeFileExtents E dinode self
    else fail ⟨.format, -ENOSYS⟩
  else if diFormat E dinode = fmtLocal then
    if v.ftype = ftDir then processDinodeDirLocal E procIno dinode self
    else fail ⟨.format, -ENOSYS⟩
  else if diFormat E dinode = fmtDev ∨ diFormat E dinode = fmtUuid then fail ⟨.format, -ENOSYS⟩
  else pure ()

/-- `process_ino`; `fuel` bounds the depth. The last field read of the dinode itself is the inode
number, which ends 160 bytes into it. -/
def processIno : Nat → Nat → Nat → Xm Unit
  | 0, _, _ => fun _ => .spin
  | fuel + 1, ino, self => do
    let dinode ← dinodesGet E ino
    assert (dinode + 160 ≤ dinodesRoom E.sb)
    deriveFtype (diMode E dinode) self
    setInode self fun v => { v with size := diSize E dinode, ino := diIno E dinode }
    processFormat E (processIno fuel) fuel dinode self

/-! ## The index -/

/-- `xal_be_xfs_index`; the results of the two `xal_pool_clear` are not looked at. -/
def xalBeXfsIndex (fuel : Nat) : Cm Err (Xal Buf) Unit := do
  failIf (E.retrieved = false) ⟨.argument, -EINVAL⟩
  onStore (ignore (onInodes (xalPoolClear E.mpInodes)))
  onStore (ignore (onExtents (xalPoolClear E.mpExtents)))
  let rootIdx ← onStore (onInodes (xalPoolClaimInodes E.mpInodes 1))
  modify fun xal => { xal with rootIdx }
  onStore (setInode rootIdx (initRoot E.sb))
  onStore (processIno E fuel E.sb.rootino rootIdx)
  modify fun xal => { xal with dirty := false }

end

end Xallib
