import Xallib.Lib.Run

/-!
# The data of `libxal.h`

The structures of the public header, the error codes the library returns and the storage both
backends share (`Store`: the pools of inodes and extents, and what a backend keeps beside them).

`union xal_inode_content` has two members of the same layout, `dentries` (`inodes_idx`, `count`)
and `extents` (`extent_idx`, `count`); `XalContent` is that storage, read as either. Names are the
bytes of a C string or, for the XFS backend, the `namelen` bytes copied into the field.
-/

namespace Xallib

/-- A C string: its bytes without the terminator. -/
abbrev CStr := List UInt8

/-- `'/'` -/
def slash : UInt8 := 47

def EIO : Int := 5
def EAGAIN : Int := 11
def ENOMEM : Int := 12
def EINVAL : Int := 22
def ENOSYS : Int := 38
def EOVERFLOW : Int := 75
def ESTALE : Int := 116

def UINT32_MAX : Nat := 4294967295

/-- The call that failed, as the debug line of the source names it. -/
inductive Failure
  | argument | claim | mprotect | shm | map
  | read | dinode | ftype | format | magic | level | dentries
  | stat | opendir | memory | openFile | fiemap | khPut | watch
  | event | walk
  deriving DecidableEq, Repr

/-- A negative status with the call it stems from. -/
structure Err where
  why : Failure
  code : Int
  deriving DecidableEq, Repr

/-- `union xal_inode_content` (module doc). -/
structure XalContent where
  idx : Nat
  count : Nat
  deriving DecidableEq, Repr, Inhabited

/-- `struct xal_inode` -/
structure XalInode where
  ino : Nat
  size : Nat
  content : XalContent
  ftype : Nat
  namelen : Nat
  name : CStr
  parentIdx : Nat
  deriving DecidableEq, Repr, Inhabited

/-- `struct xal_extent` -/
structure XalExtent where
  startOffset : Nat
  startBlock : Nat
  nblocks : Nat
  flag : Nat
  deriving DecidableEq, Repr, Inhabited

/-- `struct xal_sb` -/
structure XalSb where
  blocksize : Nat
  sectsize : Nat
  inodesize : Nat
  inopblock : Nat
  inopblog : Nat
  icount : Nat
  nallocated : Nat
  rootino : Nat
  agblocks : Nat
  agblklog : Nat
  agcount : Nat
  dirblocksize : Nat
  lbaBlksze : Nat
  deriving DecidableEq, Repr, Inhabited

/-- `XAL_POOL_IDX_NONE` -/
def poolIdxNone : Nat := UINT32_MAX

/-- `XAL_ODF_DIR3_FT_REG_FILE` -/
def ftRegFile : Nat := 1

/-- `XAL_ODF_DIR3_FT_DIR` -/
def ftDir : Nat := 2

def xalInodeIsDir (inode : XalInode) : Bool := inode.ftype == ftDir

def xalInodeIsFile (inode : XalInode) : Bool := inode.ftype == ftRegFile

/-- `S_ISDIR` -/
def isDirMode (mode : Nat) : Bool := mode &&& 0o170000 == 0o040000

/-- `S_ISREG` -/
def isRegMode (mode : Nat) : Bool := mode &&& 0o170000 == 0o100000

end Xallib
