import Xallib.Cli.Inspect
import Xallib.Fiemap.Index

/-!
# `xal_bmap_mp_yaml.c`

The tool that puts out the extents of the files below a mountpoint as the operating system reports
them, to be compared with `xal --bmap`. `ioctl` gives the answer of `FS_IOC_FIEMAP` by `fm_start`,
with as many extents as it has room for.

`blockSize` is the constant `BLOCK_SIZE`: 1024 from `<linux/fs.h>`, and 512 where that does not
define it.
-/

namespace Xallib

open Lib Lib.Cm

/-- `FIEMAP_EXTENT_LAST` -/
def fiemapExtentLast : Nat := 1

/-- The row of an extent, in 64-bit arithmetic. -/
def toolRow (blockSize : Nat) (fe : FiemapExtent) : CliLine :=
  let logicalStart := fe.feLogical / blockSize
  let physicalStart := fe.fePhysical / blockSize
  let lengthBlocks := fe.feLength / blockSize
  .extent logicalStart ((logicalStart + lengthBlocks + (2 ^ 64 - 1)) % 2 ^ 64) physicalStart
    ((physicalStart + lengthBlocks + (2 ^ 64 - 1)) % 2 ^ 64)

section
variable (blockSize : Nat) (ioctl : Nat → Except Nat (List FiemapExtent)) (fpath : CStr)

/-- The `while (1)` of `process_file` from `start` on, with a bound on its rounds. -/
def processRounds : Nat → Nat → Bool → Cm Err (List CliLine) Unit
  | 0, _, _ => fun _ => .spin
  | fuel + 1, start, printedHeader =>
    match ioctl start with
    | .error _ => pure ()
    | .ok extents =>
      match extents.getLast? with
      | none => pure ()
      | some last => do
        modify (· ++ (if printedHeader then [] else [.file fpath]) ++
          extents.map (toolRow blockSize))
        if last.feFlags &&& fiemapExtentLast ≠ 0 then pure ()
        else processRounds fuel ((last.feLogical + last.feLength) % 2 ^ 64) true

/-- `process_file`; `isFile`: the type of what `nftw` has found is `FTW_F`. -/
def processFile (isFile : Bool) (openFile : Except Nat Unit) (fuel : Nat) :
    Cm Err (List CliLine) Unit :=
  if isFile = false then pure () else
  match openFile with
  | .error _ => pure ()
  | .ok _ => processRounds blockSize ioctl fpath fuel 0 false

end

end Xallib
