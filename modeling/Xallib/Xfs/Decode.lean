import Xallib.Xfs.Dev

/-!
# Decoding directory entries and extents

`decode_dentry` and `decode_xfs_extent`, the decoders of the two kinds of records the XFS backend
reads from directory blocks, data forks and B+tree leaves.
-/

namespace Xallib

open Lib Lib.Cm Lib.Buf

/-- `XAL_ODF_DIR3_BLOCK_MAGIC` -/
def dir3BlockMagic : Nat := 0x58444233

/-- `XAL_ODF_DIR3_DATA_MAGIC` -/
def dir3DataMagic : Nat := 0x58444433

/-- `XAL_ODF_BMAP_CRC_MAGIC` -/
def bmapCrcMagic : Nat := 0x424d4133

/-- `XAL_ODF_IBT_CRC_MAGIC` -/
def ibtCrcMagic : Nat := 0x49414233

/-- `decode_dentry` at offset `ofz` of `buf`, into an inode of zero bytes: the bytes to advance,
and the inode. -/
def decodeDentry (buf : Buf) (ofz : Nat) : Nat × XalInode :=
  let freetag := be16 buf ofz
  if freetag = 0xffff then
    -- an unused region: only its length is read, the inode stays zero
    (be16 buf (ofz + 2), default)
  else
    let namelen := (buf (ofz + 8)).toNat
    let nbytes := (8 + 1 + 1 + 2) + namelen
    ((nbytes + 7) / 8 * 8,
      { (default : XalInode) with
        ino := be64 buf ofz
        namelen
        name := buf.slice (ofz + 9) namelen
        ftype := (buf (ofz + 9 + namelen)).toNat })

/-- The byte at index `i` of the `name` field. -/
def XalInode.nameAt (v : XalInode) (i : Nat) : UInt8 := v.name.getD i 0

/-- `'.'` -/
def dot : UInt8 := 46

/-- The test of the loops over a directory block for the entries `.` and `..`. -/
def isDotDentry (v : XalInode) : Bool :=
  (v.namelen == 1 && v.nameAt 0 == dot) ||
    (v.namelen == 2 && v.nameAt 0 == dot && v.nameAt 1 == dot)

/-- `decode_xfs_extent`, in 64-bit arithmetic. -/
def decodeXfsExtent (l0 l1 : Nat) : XalExtent where
  startOffset := (l0 <<< 1 % 2 ^ 64) >>> 10
  startBlock := ((l0 &&& 0x1FF) <<< 43 % 2 ^ 64) ||| (l1 >>> 21)
  nblocks := l1 &&& 0x1FFFFF
  flag := l1 >>> 63

/-- The extent whose `struct pair_u64` is at offset `ofz`. -/
def xfsExtentAt (buf : Buf) (ofz : Nat) : XalExtent :=
  decodeXfsExtent (be64 buf ofz) (be64 buf (ofz + 8))

end Xallib
