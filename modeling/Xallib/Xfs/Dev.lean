import Xallib.Base.Core
import Xallib.Lib.Buf

/-!
# The device, and the geometry arithmetic of `xal_be_xfs.c`

The device library is a parameter: `nvmRead slba nlb` are the bytes of the `nlb + 1` blocks from
`slba` on, or `none` where the command fails. Reads go through one buffer of `bufNbytes` bytes, the
state here; a block is copied on into a local array of `blockNbytesMax` bytes. A write past the end
of either stops the process; what a read past the end of the local array finds is `stray`. A read or
a write past the end of the heap object `be->dinodes` (`dinodesRoom`) stops the process as well.
-/

namespace Xallib

open Lib Lib.Cm Lib.Buf

/-- `BUF_NBYTES` -/
def bufNbytes : Nat := 4096 * 32

/-- `ODF_BLOCK_FS_BYTES_MAX` -/
def blockNbytesMax : Nat := 64 * 1024

/-- The device with its limits, and its answers to read commands. -/
structure XnvmeDev where
  mdtsNbytes : Nat
  lbaNbytes : Nat
  nvmRead : Nat → Nat → Option Buf
  stray : Buf

/-- `struct xal_ag` -/
structure XalAg where
  seqno : Nat
  offset : Nat
  agiRoot : Nat
  deriving DecidableEq, Repr, Inhabited

/-- The number of blocks of a read command, less one, in its 16-bit field: a read of no bytes asks
for 65536 blocks. -/
def nlbOf (dev : XnvmeDev) (count : Nat) : Nat := (count / dev.lbaNbytes + 2 ^ 64 - 1) % 2 ^ 16

def devRead (dev : XnvmeDev) (count offset : Nat) : Cm Err Buf Unit := do
  failIf (count > dev.mdtsNbytes) ⟨.read, -EINVAL⟩
  failIf (count % dev.lbaNbytes ≠ 0) ⟨.read, -EINVAL⟩
  failIf (offset % dev.lbaNbytes ≠ 0) ⟨.read, -EINVAL⟩
  assert (count ≤ bufNbytes)
  modify fun buf => buf.zero count
  match dev.nvmRead (offset / dev.lbaNbytes) (nlbOf dev count) with
  | none => fail ⟨.read, - EIO⟩
  | some data => do
    assert ((nlbOf dev count + 1) * dev.lbaNbytes ≤ bufNbytes)
    modify fun buf => buf.copy 0 data 0 ((nlbOf dev count + 1) * dev.lbaNbytes)

/-- `dev_read_into` a local array of zero bytes. -/
def devReadInto (dev : XnvmeDev) (count offset : Nat) : Cm Err Buf Buf := do
  devRead dev count offset
  assert (count ≤ blockNbytesMax)
  let iobuf ← read
  pure fun i => if i < count then iobuf i else if i < blockNbytesMax then 0 else dev.stray i

/-! ## Geometry -/

/-- `xal_ino_decode_relative`: the block in the allocation group, and the inode in the block. -/
def xalInoDecodeRelative (sb : XalSb) (ino : Nat) : Nat × Nat :=
  ((ino >>> sb.inopblog) &&& (2 ^ sb.agblklog - 1), ino &&& (2 ^ sb.inopblog - 1))

/-- `xal_ino_decode_absolute`: the allocation group, and the rest, which `xal_ino_decode_relative`
is passed as 32 bits. -/
def xalInoDecodeAbsolute (sb : XalSb) (ino : Nat) : Nat × Nat × Nat :=
  ((ino >>> (sb.inopblog + sb.agblklog)) % 2 ^ 32, xalInoDecodeRelative sb (ino % 2 ^ 32))

/-- `xal_agbno_absolute_offset` -/
def xalAgbnoAbsoluteOffset (sb : XalSb) (seqno agbno : Nat) : Nat :=
  (seqno * sb.agblocks + agbno) * sb.blocksize % 2 ^ 64

/-- `xal_ino_decode_absolute_offset` -/
def xalInoDecodeAbsoluteOffset (sb : XalSb) (ino : Nat) : Nat :=
  let (seqno, agbno, agbino) := xalInoDecodeAbsolute sb ino
  let offset := (seqno * sb.agblocks + agbno) * sb.blocksize % 2 ^ 64
  (offset + agbino * sb.inodesize) % 2 ^ 64

/-- Subtraction of `size_t`. -/
def usub (a b : Nat) : Nat := (a + 2 ^ 64 - b) % 2 ^ 64

/-- The size of `struct xal_odf_dinode`. -/
def dinodeNbytes : Nat := 176

/-- The size of `be->dinodes`, as `xal_dinodes_retrieve` allocates it. -/
def dinodesRoom (sb : XalSb) : Nat := sb.nallocated * sb.inodesize % 2 ^ 64

/-- `btree_dinode_meta`: the most records in the data fork of an inode, and the offset of the
pointers; `forkoff` is the inode's `di_forkoff`. -/
def btreeDinodeMeta (sb : XalSb) (forkoff : Nat) : Nat × Nat :=
  let attrOfz := dinodeNbytes + forkoff * 8
  let attrNbytes := usub sb.inodesize attrOfz
  let dataNbytes := usub (usub sb.inodesize dinodeNbytes) attrNbytes
  let mrecs := usub dataNbytes 4 / 16
  (mrecs, (dinodeNbytes + 2 + 2 + mrecs * 8) % 2 ^ 64)

/-- `btree_lblock_meta`: the most records in a long-format block, and the offset of the
pointers. -/
def btreeLblockMeta (sb : XalSb) : Nat × Nat :=
  let mrecs := usub sb.blocksize 72 / 16
  (mrecs, (72 + mrecs * 8) % 2 ^ 64)

/-- `btree_sblock_meta`: the same for a short-format block. -/
def btreeSblockMeta (sb : XalSb) : Nat × Nat :=
  let mrecs := usub sb.blocksize 56 / 8
  (mrecs, (56 + mrecs * 4) % 2 ^ 64)

/-- The local array `pointers` of a node: what `memcpy` copies of the block, from `ofz` on. -/
def nodePointers (dev : XnvmeDev) (sb : XalSb) (block : Buf) (ofz : Nat) : Buf := fun i =>
  if i < sb.blocksize - ofz then block (ofz + i) else if i < blockNbytesMax then 0 else dev.stray i

end Xallib
