import Xallib.Lib.Descent
import Xallib.Xfs.Entries

/-!
# The blocks of the B+trees

What the recursions over B+trees find on the device: the blocks with their pointers, of the inode
allocation B+tree of an allocation group (`iabKids`) and of the extents of a regular file
(`fileKids`). A block of the latter is referred to as a leaf or as a node (`FileRef`), by the level
of the block above.

`visitIab`, `visitFile`: what the functions do with one block, up to the calls of themselves. A
block of inodes is passed (`IabPasses`) if this succeeds; how many inodes have been retrieved before
decides where they are copied to. A block of extents is quiet (`FileQuiet`) if it succeeds and
claims none.
-/

namespace Xallib

open Lib Lib.Cm Lib.Buf

/-- The bytes that `dev_read` puts at the start of its buffer: `none` where it fails, or the process
stops. -/
def deviceRead (dev : XnvmeDev) (count offset : Nat) : Option Buf :=
  let nbytes := (nlbOf dev count + 1) * dev.lbaNbytes
  if count ≤ dev.mdtsNbytes ∧ count % dev.lbaNbytes = 0 ∧ offset % dev.lbaNbytes = 0 ∧
      count ≤ bufNbytes ∧ nbytes ≤ bufNbytes then
    (dev.nvmRead (offset / dev.lbaNbytes) (nlbOf dev count)).map fun data i =>
      if i < count ∧ i < nbytes then data i else 0
  else none

/-- `dev_read` stops the process: the block, or what the command transfers, is larger than the
buffer. -/
def ReadStops (dev : XnvmeDev) (count offset : Nat) : Prop :=
  count ≤ dev.mdtsNbytes ∧ count % dev.lbaNbytes = 0 ∧ offset % dev.lbaNbytes = 0 ∧
    (bufNbytes < count ∨ (dev.nvmRead (offset / dev.lbaNbytes) (nlbOf dev count)).isSome ∧
      bufNbytes < (nlbOf dev count + 1) * dev.lbaNbytes)

/-! ## Inodes -/

section
variable (E : IabEnv) (ag : XalAg)

/-- A block of the inode allocation B+tree. -/
def iabBlockAt (blkno : Nat) : Option Buf :=
  (blockRead E.dev E.sb.blocksize (xalAgbnoAbsoluteOffset E.sb ag.seqno blkno)).filter fun block =>
    be32 block 0 == ibtCrcMagic

/-- The blocks a node points to. -/
def iabKids (blkno : Nat) : List Nat :=
  match iabBlockAt E ag blkno with
  | none => []
  | some block =>
    if blockLevel block = 1 then (List.range (blockNumrecs block)).map (sblockPointer E block)
      else []

/-- `retrieve_dinodes_via_iab3` on one block. -/
def visitIab (blkno : Nat) : Cm Err Retrieval (List Nat) := do
  let block ← readIab3Block E ag blkno
  if blockLevel block = 1 then do
    assert ((btreeSblockMeta E.sb).2 ≤ E.sb.blocksize)
    pure ((List.range (blockNumrecs block)).map (sblockPointer E block))
  else if blockLevel block = 0 then do
    decodeIab3LeafRecords E ag block
    pure []
  else fail ⟨.level, -EINVAL⟩

/-- The block is passed from `i` retrieved inodes to `k`. -/
def IabPasses (blkno i k : Nat) : Prop := ∃ block, iabBlockAt E ag blkno = some block ∧
  (blockLevel block = 1 ∧ (btreeSblockMeta E.sb).2 ≤ E.sb.blocksize ∧ k = i ∨
    blockLevel block = 0 ∧ ∃ s s', s.index = i ∧ s'.index = k ∧
      decodeIab3LeafRecords E ag block s = .ok () s')

end

/-! ## Extents -/

/-- A pointer in the B+tree of a file: to a leaf, or to a node. -/
structure FileRef where
  leaf : Bool
  fsbno : Nat
  deriving DecidableEq, Repr

section
variable (E : XfsEnv)

/-- A block of the B+tree of a file. -/
def fileBlockAt (fsbno : Nat) : Option Buf :=
  (deviceRead E.dev E.sb.blocksize (xalFsbnoOffset .xfs E.sb fsbno)).filter fun block =>
    be32 block 0 == bmapCrcMagic

/-- The pointers of a node. -/
def fileKids (r : FileRef) : List FileRef :=
  match fileBlockAt E r.fsbno with
  | none => []
  | some block =>
    if r.leaf = true ∨ blockLevel block = 0 then []
    else (List.range (blockNumrecs block)).map fun i =>
      ⟨blockLevel block == 1, lblockPointer E block i⟩

/-- The pointers of the root, in the dinode. -/
def fileRoots (dinode : Nat) : List FileRef :=
  (fileFsbnos E dinode).map fun p => ⟨(fileBtreePos E dinode).level == 1, p⟩

/-- `process_file_btree_leaf` and `process_file_btree_node` on one block. -/
def visitFile (self : Nat) (r : FileRef) : Xm (List FileRef) :=
  if r.leaf then do
    processFileBtreeLeaf E r.fsbno self
    pure []
  else do
    failIf (E.sb.blocksize > blockNbytesMax) ⟨.argument, -EINVAL⟩
    onBe (devRead E.dev E.sb.blocksize (xalFsbnoOffset .xfs E.sb r.fsbno))
    assert ((btreeLblockMeta E.sb).2 ≤ E.sb.blocksize)
    let s ← read
    failIf (be32 s.be 0 ≠ bmapCrcMagic) ⟨.magic, -EINVAL⟩
    failIf (blockLevel s.be = 0) ⟨.level, -EINVAL⟩
    pure ((List.range (blockNumrecs s.be)).map fun i =>
      ⟨blockLevel s.be == 1, lblockPointer E s.be i⟩)

def FileQuiet (r : FileRef) : Prop := 72 ≤ E.sb.blocksize ∧
  ∃ block, fileBlockAt E r.fsbno = some block ∧
    if r.leaf then blockLevel block = 0 ∧ blockNumrecs block = 0
    else blockLevel block ≠ 0 ∧ E.sb.blocksize ≤ blockNbytesMax

/-- The leaf is read, and has more records than `be->buf`. -/
def LeafOverruns (fsbno : Nat) : Prop :=
  ∃ b b', devRead E.dev E.sb.blocksize (xalFsbnoOffset .xfs E.sb fsbno) b = .ok () b' ∧
    be32 b' 0 = bmapCrcMagic ∧ blockLevel b' = 0 ∧ bufNbytes < 72 + 16 * blockNumrecs b'

/-- The process stops in a read, at a node whose pointers would not be in it, or at a leaf whose
records are not in `be->buf`. -/
def FileStops (r : FileRef) : Prop :=
  (r.leaf = true ∨ E.sb.blocksize ≤ blockNbytesMax) ∧
    (ReadStops E.dev E.sb.blocksize (xalFsbnoOffset .xfs E.sb r.fsbno) ∨
      r.leaf = false ∧ E.sb.blocksize < 72 ∧
        (deviceRead E.dev E.sb.blocksize (xalFsbnoOffset .xfs E.sb r.fsbno)).isSome ∨
      r.leaf = true ∧ LeafOverruns E r.fsbno)

/-- The block holds its header and, if it is a leaf, its records; the pointers of a node are in
their local array. -/
structure FileFits (r : FileRef) : Prop where
  header : 72 ≤ E.sb.blocksize
  records : r.leaf = true → ∀ block, fileBlockAt E r.fsbno = some block → blockLevel block = 0 →
    72 + 16 * blockNumrecs block ≤ E.sb.blocksize
  pointers : r.leaf = false → ∀ block, fileBlockAt E r.fsbno = some block →
    blockLevel block ≠ 0 → 8 * blockNumrecs block ≤ blockNbytesMax

end

end Xallib
