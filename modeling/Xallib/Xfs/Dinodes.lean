import Xallib.Xfs.Decode

/-!
# Retrieving the allocated inodes

`xal_dinodes_retrieve` and what it calls: the blocks of the inode allocation B+tree (IAB3), whose
leaf records name chunks of 64 inodes, from which the allocated ones are copied to `be->dinodes`.
The hash map is a function; `khPut` tells for which inode numbers `kh_put` finds memory.
-/

namespace Xallib

open Lib Lib.Cm Lib.Buf

/-- `CHUNK_NINO` -/
def chunkNino : Nat := 64

/-- What the retrieval reads and does not write. -/
structure IabEnv where
  dev : XnvmeDev
  sb : XalSb
  ags : Nat → XalAg
  khInit : Bool
  calloc : Bool
  khPut : Nat → Bool

/-- What it writes: `be->buf`, `be->dinodes`, `be->dinodes_map` (the offset of the dinode) and
`*index`; `retrieved` is cleared where `be->dinodes` is set to `NULL`. -/
structure Retrieval where
  buf : Buf
  dinodes : Buf
  dinodesMap : Nat → Option Nat
  index : Nat
  retrieved : Bool

def onBuf {α : Type} (x : Cm Err Buf α) : Cm Err Retrieval α :=
  zoom (·.buf) (fun s b => { s with buf := b }) x

/-- `struct xal_odf_inobt_rec` -/
structure XalOdfInobtRec where
  startino : Nat
  holemask : Nat
  count : Nat
  freecount : Nat
  free : Nat
  deriving DecidableEq, Repr

/-- The record `reci` of a leaf, behind the header of 56 bytes. -/
def inobtRecAt (block : Buf) (reci : Nat) : XalOdfInobtRec where
  startino := be32 block (56 + reci * 16)
  holemask := be16 block (56 + reci * 16 + 4)
  count := (block (56 + reci * 16 + 6)).toNat
  freecount := (block (56 + reci * 16 + 7)).toNat
  free := be64 block (56 + reci * 16 + 8)

/-- `pos.level` and `pos.numrecs` of a B+tree block. -/
def blockLevel (block : Buf) : Nat := be16 block 4
def blockNumrecs (block : Buf) : Nat := be16 block 6

section
variable (E : IabEnv)

def readIab3Block (ag : XalAg) (blkno : Nat) : Cm Err Retrieval Buf := do
  let block ← onBuf (devReadInto E.dev E.sb.blocksize (xalAgbnoAbsoluteOffset E.sb ag.seqno blkno))
  failIf (be32 block 0 ≠ ibtCrcMagic) ⟨.magic, -EINVAL⟩
  pure block

/-- `(1ULL << chunk_index)` as a test; the processor takes the count modulo 64. -/
def chunkBit (mask chunkIndex : Nat) : Bool := mask.testBit (chunkIndex % 64)

/-- The copy of one inode of a chunk to `be->dinodes`, and its entry in the map under the inode
number, which is read there at offset 152. -/
def copyDinode (inodechunk : Buf) (chunkIndex : Nat) : Cm Err Retrieval Unit := do
  let s ← read
  let cursor := chunkIndex * E.sb.inodesize
  let ofz := s.index * E.sb.inodesize
  assert (ofz + max E.sb.inodesize 160 ≤ dinodesRoom E.sb)
  modify fun s => { s with dinodes := s.dinodes.copy ofz inodechunk cursor E.sb.inodesize }
  let s ← read
  let ino := be64 s.dinodes (ofz + 152)
  failIf (E.khPut ino = false) ⟨.khPut, - EIO⟩
  modify fun s => { s with
    dinodesMap := fun i => if i = ino then some ofz else s.dinodesMap i
    index := s.index + 1 }

/-- The loop over the inodes of a chunk. -/
def decodeChunk (inodechunk : Buf) (r : XalOdfInobtRec) : Cm Err Retrieval Unit :=
  forUp (fun _ i => i < r.count)
    (fun i => if chunkBit r.holemask i || chunkBit r.free i then pure ()
      else copyDinode E inodechunk i) r.count 0

def chunkNbytes (sb : XalSb) : Nat := chunkNino / sb.inopblock * sb.blocksize

/-- One round of `decode_iab3_leaf_records`. -/
def decodeIab3LeafRecord (ag : XalAg) (r : XalOdfInobtRec) : Cm Err Retrieval Unit := do
  let (agbno, agbino) := xalInoDecodeRelative E.sb r.startino
  assert (agbino = 0)
  assert (E.sb.inopblock ≠ 0)
  let chunkOffset := (agbno * E.sb.blocksize + ag.offset) % 2 ^ 64
  assert (chunkNbytes E.sb < bufNbytes)
  onBuf (modify fun buf => buf.zero (chunkNbytes E.sb))
  onBuf (devRead E.dev (chunkNbytes E.sb) chunkOffset)
  let s ← read
  let inodechunk : Buf := fun i => if i < chunkNbytes E.sb then s.buf i else
    if i < bufNbytes then 0 else E.dev.stray i
  decodeChunk E inodechunk r

/-- A record is converted in place, in the local array of its block. -/
def decodeIab3LeafRecords (ag : XalAg) (block : Buf) : Cm Err Retrieval Unit :=
  forUp (fun _ reci => reci < blockNumrecs block)
    (fun reci => do
      assert (56 + reci * 16 + 16 ≤ blockNbytesMax)
      decodeIab3LeafRecord E ag (inobtRecAt block reci)) (blockNumrecs block) 0

/-- The pointer `i` of a short-format node. -/
def sblockPointer (block : Buf) (i : Nat) : Nat :=
  be32 (nodePointers E.dev E.sb block (btreeSblockMeta E.sb).2) (i * 4)

/-- `retrieve_dinodes_via_iab3` with `decode_iab3_node_records`; `fuel` bounds the depth. -/
def retrieveDinodesViaIab3 (ag : XalAg) : Nat → Nat → Cm Err Retrieval Unit
  | 0, _ => fun _ => .spin
  | fuel + 1, blkno => do
    let block ← readIab3Block E ag blkno
    if blockLevel block = 1 then do
      assert ((btreeSblockMeta E.sb).2 ≤ E.sb.blocksize)
      forUp (fun _ i => i < blockNumrecs block)
        (fun i => retrieveDinodesViaIab3 ag fuel (sblockPointer E block i)) (blockNumrecs block) 0
    else if blockLevel block = 0 then decodeIab3LeafRecords E ag block
    else fail ⟨.level, -EINVAL⟩

/-- Where the retrieval of an allocation group fails, `be->dinodes` is freed and set to `NULL`. -/
def dropDinodes (x : Cm Err Retrieval Unit) : Cm Err Retrieval Unit := fun s =>
  match x s with
  | .fail e s' => .fail e { s' with retrieved := false }
  | r => r

def xalDinodesRetrieve (fuel : Nat) : Cm Err Retrieval Unit := do
  failIf (E.khInit = false) ⟨.memory, -EINVAL⟩
  modify fun s => { s with dinodesMap := fun _ => none, index := 0, retrieved := false }
  failIf (E.calloc = false) ⟨.memory, -ENOMEM⟩
  modify fun s => { s with dinodes := fun _ => 0, retrieved := true }
  forUp (fun _ seqno => seqno < E.sb.agcount)
    (fun seqno => dropDinodes
      (retrieveDinodesViaIab3 E (E.ags seqno) fuel (E.ags seqno).agiRoot)) E.sb.agcount 0

end

end Xallib
