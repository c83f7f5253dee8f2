import Xallib.Base.Core

/-!
# `xal_inode_pp`

The printer of an inode and, if it is a directory, of all inodes below. What has been put out so far
is the state: a list of lines (`PpLine`), each as the values that `printf` is passed. The number of
bytes that `printf` returns for a line is a parameter.
-/

namespace Xallib

open Lib Lib.Cm

variable {δ : Type}

/-- `BMAP_BLOCK_SIZE` -/
def bmapBlockSize : Nat := 512

/-- A line, with the inode for the first one, which the text does not tell. -/
inductive PpLine
  | xalInode (inode : Option Nat)
  | ino (n : Nat)
  | size (n : Nat)
  | namelen (n : Nat)
  | name (s : CStr)
  | ftype (n : Nat)
  | dentriesCount (n : Nat)
  | extentsCount (n : Nat)
  | extent (fofzBegin fofzEnd bofzBegin bofzEnd : Nat)
  deriving DecidableEq, Repr

/-- The line of an extent, computed as `size_t`. -/
def ppExtent (xal : Xal δ) (extent : XalExtent) : PpLine :=
  let blocksize := xal.sb.blocksize
  let nbytes := extent.nblocks * blocksize % 2 ^ 64
  let fofzBegin := extent.startOffset * blocksize % 2 ^ 64 / bmapBlockSize
  let bofzBegin := xalFsbnoOffset xal.type xal.sb extent.startBlock / bmapBlockSize
  .extent fofzBegin ((fofzBegin + nbytes / bmapBlockSize + 2 ^ 64 - 1) % 2 ^ 64)
    bofzBegin ((bofzBegin + nbytes / bmapBlockSize + 2 ^ 64 - 1) % 2 ^ 64)

/-- What is put out for an inode itself, all of it before its children. -/
def ppLines (xal : Xal δ) (inode : Nat) : List PpLine :=
  let v := xal.store.inodes.memory inode
  [.xalInode (some inode), .ino v.ino, .size v.size, .namelen v.namelen,
      .name ((v.name.take 256).takeWhile (· ≠ 0)), .ftype v.ftype] ++
    if v.ftype = ftDir then [.dentriesCount v.content.count]
    else if v.ftype = ftRegFile then .extentsCount v.content.count ::
      (List.range v.content.count).map fun i =>
        ppExtent xal (xal.store.extents.memory (v.content.idx + i))
    else []

/-- The sum of the results of `printf`, as an `int`. -/
def wrtnOf (printf : PpLine → Int) (lines : List PpLine) : Int :=
  (lines.map printf).sum.bmod (2 ^ 32)

/-- `xal_inode_pp`, with a bound on the rounds of a loop and one on the depth. The counter of the
loop over the children has 8 bits. -/
def xalInodePp (xal : Xal δ) (printf : PpLine → Int) (rounds : Nat) :
    Nat → Option Nat → Cm Err (List PpLine) Int
  | 0, _ => fun _ => .spin
  | _ + 1, none => do
    modify (· ++ [.xalInode none])
    pure (wrtnOf printf [.xalInode none])
  | fuel + 1, some inode => do
    let v := xal.store.inodes.memory inode
    modify (· ++ ppLines xal inode)
    if v.ftype = ftDir then
      forUp (fun _ i => i % 2 ^ 8 < v.content.count) (fun i => do
        let _ ← xalInodePp xal printf rounds fuel (some (v.content.idx + i % 2 ^ 8))
        pure ()) rounds 0
      pure (wrtnOf printf (ppLines xal inode))
    else pure (wrtnOf printf (ppLines xal inode))

end Xallib
