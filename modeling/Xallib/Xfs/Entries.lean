import Xallib.Xfs.Index

/-!
# What a directory lists

The entries the decoders of `xal_be_xfs.c` find in directory blocks, on the leaves of a B+tree
directory and in a short-form directory, as functions of what the device and the dinodes hold
(`dirListing`). `Yield α` is a reader of entries: the entries and a result, or `none` where a block
cannot be read or decoded (`blockRead`); entries come in the order in which they are read.
-/

namespace Xallib

open Lib Lib.Buf

/-- The entries that a decoder lists and its result; `none` where it fails. -/
def Yield (α : Type) : Type := Option (List XalInode × α)

namespace Yield

variable {α β : Type}

protected def bind (y : Yield α) (f : α → Yield β) : Yield β :=
  match y with
  | none => none
  | some (l, a) =>
    match f a with
    | none => none
    | some (m, b) => some (l ++ m, b)

instance : Monad Yield where
  pure a := some ([], a)
  bind := Yield.bind

def nothing : Yield α := none

/-- List one entry. -/
def entry (v : XalInode) : Yield Unit := some ([v], ())

def ofOption (x : Option α) : Yield α := x.map ([], ·)

/-- The entries. -/
def list (y : Yield α) : Option (List XalInode) := y.map (·.1)

end Yield

/-- The block that `dev_read_into` reads: `none` where it fails, or the process stops. -/
def blockRead (dev : XnvmeDev) (count offset : Nat) : Option Buf :=
  let nbytes := (nlbOf dev count + 1) * dev.lbaNbytes
  if count ≤ dev.mdtsNbytes ∧ count % dev.lbaNbytes = 0 ∧ offset % dev.lbaNbytes = 0 ∧
      count ≤ blockNbytesMax ∧ nbytes ≤ bufNbytes then
    (dev.nvmRead (offset / dev.lbaNbytes) (nlbOf dev count)).map fun data i =>
      if i < count then (if i < nbytes then data i else 0)
      else if i < blockNbytesMax then 0 else dev.stray i
  else none

section
variable (E : XfsEnv) (self : Nat)

def dblockAt (fsbno : Nat) : Option Buf :=
  blockRead E.dev E.sb.dirblocksize (xalFsbnoOffset .xfs E.sb fsbno)

def lblockAt (fsbno : Nat) : Option Buf :=
  blockRead E.dev E.sb.blocksize (xalFsbnoOffset .xfs E.sb fsbno)

/-- The entries of a directory block from offset `ofz` on, as children of `self`. -/
def dblockYield (dblock : Buf) : Nat → Nat → Yield Unit
  | 0, ofz => if ofz < E.sb.dirblocksize then .nothing else pure ()
  | fuel + 1, ofz =>
    if ofz < E.sb.dirblocksize then
      let nbytes := (decodeDentry dblock ofz).1
      let dentry := (decodeDentry dblock ofz).2
      if dentry.ino = 0 ∨ dentry.namelen = 0 then pure ()
      else if isDotDentry dentry then dblockYield dblock fuel (ofz + nbytes)
      else do
        Yield.entry { dentry with parentIdx := self }
        dblockYield dblock fuel (ofz + nbytes)
    else pure ()

/-- The entries of one directory block of an extent of a leaf. -/
def leafDblockYield (fsbno : Nat) : Yield Bool := do
  let dblock ← .ofOption (dblockAt E fsbno)
  if dblockMagicOk dblock then do
    dblockYield E self dblock (E.sb.dirblocksize + 1) 64
    pure true
  else pure false

/-- The entries of the blocks of an extent, block `k` on. -/
def dblocksYield (start nblocks : Nat) (body : Nat → Yield Bool) : Nat → Nat → Yield Bool
  | 0, k => if k * fsblkPerDblk E < nblocks then .nothing else pure true
  | n + 1, k =>
    if k * fsblkPerDblk E < nblocks then do
      let more ← body (start + k * fsblkPerDblk E)
      if more then dblocksYield start nblocks body n (k + 1) else pure false
    else pure true

/-- The entries of the extents of a leaf, record `i` on. -/
def leafRecordsYield (block : Buf) : Nat → Nat → Yield Unit
  | 0, _ => pure ()
  | n + 1, i => do
    let extent := xfsExtentAt block (72 + 16 * i)
    let more ← dblocksYield E extent.startBlock extent.nblocks (leafDblockYield E self)
        extent.nblocks 0
    if more then leafRecordsYield block n (i + 1) else pure ()

/-- What `btree_lblock_decode_leaf_records` yields for the block. -/
def leafYield (block : Buf) : Yield Unit :=
  if E.sb.blocksize ≠ 0 ∧ be32 block 0 = bmapCrcMagic ∧ blockLevel block = 0 then
    leafRecordsYield E self block (blockNumrecs block) 0
  else .nothing

/-- The same for the block at `fsbno`. -/
def lblockYield (fsbno : Nat) : Yield Unit := do
  let block ← .ofOption (lblockAt E fsbno)
  leafYield E self block

/-- The entries of one directory block of an extent of the data fork. -/
def dirDblockYield (fsbno : Nat) : Yield Unit := do
  let dblock ← .ofOption (dblockAt E fsbno)
  if dblockMagicOk dblock then dblockYield E self dblock (E.sb.dirblocksize + 1) 64 else pure ()

/-- The entries of the extents of the data fork, extent `i` on, with the bytes left of the
directory; the result is that of `dirExtentsLoop`. -/
def dirExtentsYield (dinode : Nat) : Nat → Nat → Int → Yield Bool
  | 0, _, _ => pure false
  | n + 1, i, nbytes =>
    if nbytes > 0 then do
      let extent := xfsExtentAt E.dinodes (dfork dinode + 16 * i)
      let _ ← dblocksYield E extent.startBlock extent.nblocks
        (fun fsbno => do dirDblockYield E self fsbno; pure true) extent.nblocks 0
      let ran ← dirExtentsYield dinode n (i + 1) (nbytes - extent.nblocks * E.sb.blocksize)
      pure (decide (0 < extent.nblocks) || ran)
    else pure false

end

/-! ## Directories -/

/-- `struct xal_odf_btree_pos` -/
structure BtreePos where
  level : Nat
  numrecs : Nat
  deriving DecidableEq, Repr

section
variable (E : XfsEnv) (dinode : Nat)

/-- The root as `process_dinode_dir_btree_root` decodes it. -/
def dirBtreePos : BtreePos := ⟨be16 E.dinodes (dfork dinode), be16 E.dinodes (dfork dinode)⟩

/-- The root as `process_dinode_file_btree_root` decodes it. -/
def fileBtreePos : BtreePos := ⟨be16 E.dinodes (dfork dinode), be16 E.dinodes (dfork dinode + 2)⟩

/-- The first `n` pointers of the root. -/
def btreeFsbnos (n : Nat) : List Nat := (List.range n).map fun i =>
  be64 E.dinodes (dinode + (btreeDinodeMeta E.sb (diForkoff E dinode)).2 + 8 * i)

def dirFsbnos : List Nat := btreeFsbnos E dinode (dirBtreePos E dinode).numrecs

def fileFsbnos : List Nat := btreeFsbnos E dinode (fileBtreePos E dinode).numrecs

/-- The first `n` pointers of the root are read inside `be->dinodes`. -/
def FsbnosInside (n : Nat) : Prop := ∀ i < n,
  dinode + (btreeDinodeMeta E.sb (diForkoff E dinode)).2 + 8 * i + 8 ≤ dinodesRoom E.sb

/-- What is read of the root of a directory, or of a file, is read there. -/
def DirRootInside : Prop := dfork dinode + 2 ≤ dinodesRoom E.sb ∧
  FsbnosInside E dinode (dirBtreePos E dinode).numrecs

def FileRootInside : Prop := dfork dinode + 4 ≤ dinodesRoom E.sb ∧
  FsbnosInside E dinode (fileBtreePos E dinode).numrecs

/-- The `n` entries of a short-form directory from `cursor` on. -/
def localList : Nat → Nat → Nat → List XalInode
  | 0, _, _ => []
  | n + 1, cursor, i8count =>
    let namelen := (E.dinodes cursor).toNat
    let ofz := cursor + 3 + namelen
    { (default : XalInode) with
      namelen
      name := E.dinodes.slice (cursor + 3) namelen
      ftype := (E.dinodes ofz).toNat
      ino := if i8count ≠ 0 then be64 E.dinodes (ofz + 1) else be32 E.dinodes (ofz + 1) } ::
        localList n (ofz + 1 + if i8count ≠ 0 then 8 else 4) (i8count - 1)

/-- What the directory at `dinode` lists, in whichever format, as entries without a parent; nothing
in a format `process_ino` does not know. -/
def dirListing : Option (List XalInode) :=
  if diFormat E dinode = fmtBtree then
    ((dirFsbnos E dinode).mapM fun p => (lblockYield E 0 p).list).map List.flatten
  else if diFormat E dinode = fmtExtents then
    (dirExtentsYield E 0 dinode (diNextents E dinode) 0 (signed64 (diSize E dinode))).list
  else if diFormat E dinode = fmtLocal then
    let i8count := (E.dinodes (dfork dinode + 1)).toNat
    some (localList E (E.dinodes (dfork dinode)).toNat
      (dfork dinode + 2 + if i8count ≠ 0 then 8 else 4) i8count)
  else some []

end

end Xallib
