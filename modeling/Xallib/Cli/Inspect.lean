import Xallib.Base.Core

/-!
# The inspectors of `cli.c`

The callbacks with which `xal --find` and `xal --bmap` walk an index. What has been put out is a
list of lines (`CliLine`), the paths as text, the numbers of an extent as numbers; a type that is
neither that of a directory nor that of a regular file is put out without the end of the line.

`devUri` is the URI of the device; the command line does not come here with an empty one.
-/

namespace Xallib

open Lib Lib.Cm

inductive CliLine
  | unknown (name : CStr)
  | path (text : CStr)
  | noExtents (text : CStr)
  | file (text : CStr)
  | extent (fofzBegin fofzEnd bofzBegin bofzEnd : Nat)
  deriving DecidableEq, Repr

/-- `struct xal_nodeinspector_args`, with what has been put out. -/
structure XalNodeinspectorArgs where
  ndirs : Nat
  nfiles : Nat
  out : List CliLine
  deriving DecidableEq, Repr

/-- The unit of the numbers that are put out, a literal in `pp_inode_extents`. -/
def sectorSize : Nat := 512

section
variable {δ : Type} (xal : Xal δ) (devUri : CStr)

/-- The URI, and the path of the inode below it; `fuel` bounds the depth. -/
def ppNodePath (fuel inode : Nat) : Cm Err CStr Unit := do
  modify (· ++ devUri)
  if (xal.store.inodes.memory inode).parentIdx ≠ poolIdxNone ∧ devUri.getLast? = some slash then
    modify (· ++ [slash])
  else pure ()
  let _ ← xalInodePathPp xal fuel (some inode)
  pure ()

/-- Put out a line with a text in it. -/
def putLine (line : CStr → CliLine) (text : Cm Err CStr Unit) :
    Cm Err XalNodeinspectorArgs Unit := fun args =>
  match text [] with
  | .ok _ t => .ok () { args with out := args.out ++ [line t] }
  | .fail e _ => .fail e args
  | .crash => .crash
  | .spin => .spin

def nodeInspectorFind (fuel : Nat) : WalkCb XalNodeinspectorArgs := fun inode _ => do
  let v := xal.store.inodes.memory inode
  if xalInodeIsDir v then do
    modify fun args => { args with ndirs := args.ndirs + 1 }
    putLine .path (ppNodePath xal devUri fuel inode)
  else if xalInodeIsFile v then do
    modify fun args => { args with nfiles := args.nfiles + 1 }
    putLine .path (ppNodePath xal devUri fuel inode)
  else modify fun args => { args with out := args.out ++ [.unknown (printedName v)] }

/-- The line of an extent, computed as `size_t`. -/
def extentLine (extent : XalExtent) : CliLine :=
  let blocksize := xal.sb.blocksize
  let nsectors := extent.nblocks * blocksize % 2 ^ 64 / sectorSize
  let fofzBegin := extent.startOffset * blocksize % 2 ^ 64 / sectorSize
  let bofzBegin := xalFsbnoOffset xal.type xal.sb extent.startBlock / sectorSize
  .extent fofzBegin ((fofzBegin + nsectors + (2 ^ 64 - 1)) % 2 ^ 64) bofzBegin
    ((bofzBegin + nsectors + (2 ^ 64 - 1)) % 2 ^ 64)

/-- `pp_inode_extents` -/
def ppInodeExtents (inode : Nat) : List CliLine :=
  let v := xal.store.inodes.memory inode
  (List.range v.content.count).map fun i =>
    extentLine xal (xal.store.extents.memory (v.content.idx + i))

def nodeInspectorBmap (fuel : Nat) : WalkCb XalNodeinspectorArgs := fun inode _ => do
  let v := xal.store.inodes.memory inode
  if xalInodeIsDir v then modify fun args => { args with ndirs := args.ndirs + 1 }
  else if xalInodeIsFile v then do
    modify fun args => { args with nfiles := args.nfiles + 1 }
    if v.content.count = 0 then putLine .noExtents (ppNodePath xal devUri fuel inode)
    else do
      putLine .file (ppNodePath xal devUri fuel inode)
      modify fun args => { args with out := args.out ++ ppInodeExtents xal inode }
  else modify fun args => { args with out := args.out ++ [.unknown (printedName v)] }

/-- `xal --find` and `xal --bmap` once the device is indexed, with bounds on the depths. -/
def cliWalk (inspector : Nat → WalkCb XalNodeinspectorArgs) (fuel : Nat) :
    Cm Err XalNodeinspectorArgs Unit :=
  xalWalk xal (xalGetRoot xal) (some (inspector fuel)) fuel

end

end Xallib
