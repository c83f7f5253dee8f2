import Xallib.Base.Core
import Xallib.Fiemap.PathTable

/-!
# What the FIEMAP backend asks the operating system

The answers are functions of the path, fixed for one call of the library. A failing call gives its
error number. `malloc`, `realloc` and `strdup` are asked for by the object they are for, `kh_put` by
the key.
-/

namespace Xallib

open Lib

/-- The fields of `struct stat` the backend reads. -/
structure Stat where
  stMode : Nat
  stIno : Nat
  stSize : Nat
  deriving DecidableEq, Repr

/-- `struct fiemap_extent` -/
structure FiemapExtent where
  feLogical : Nat
  fePhysical : Nat
  feLength : Nat
  feFlags : Nat
  deriving DecidableEq, Repr

/-- The operating system (module doc). `fiemapCount` is the `ioctl` with room for no extents,
`fiemapRead` the one with room for a number of them: `fm_mapped_extents`, and the array;
`extentsInPlace`: the `realloc` for them leaves the block where it is. -/
structure Kernel where
  stat : CStr → Except Nat Stat
  opendir : CStr → Except Nat (List CStr)
  openFile : CStr → Except Nat Unit
  fiemapCount : CStr → Except Nat Nat
  fiemapRead : CStr → Nat → Except Nat (Nat × (Nat → FiemapExtent))
  addWatch : CStr → Except Nat Nat
  dirMemory : CStr → Bool
  fiemapMemory : CStr → Bool
  extentsMemory : CStr → Bool
  extentsInPlace : CStr → Bool
  khPutPath : CStr → Bool
  khPutWd : Nat → Bool

def ENOENT : Nat := 2

/-- A file system of directories with their entries and files with their extents, in which every
call on these succeeds; the watch descriptors are the positions of the directories. -/
def tableKernel (dirs : List (CStr × List CStr)) (files : List (CStr × List FiemapExtent)) :
    Kernel where
  stat path :=
    if (dirs.lookup path).isSome then .ok ⟨0o040755, 1, 0⟩
    else if (files.lookup path).isSome then .ok ⟨0o100644, 2, 0⟩
    else .error ENOENT
  opendir path := match dirs.lookup path with
    | some names => .ok names
    | none => .error ENOENT
  openFile path := if (files.lookup path).isSome then .ok () else .error ENOENT
  fiemapCount path := match files.lookup path with
    | some extents => .ok extents.length
    | none => .error ENOENT
  fiemapRead path _ := match files.lookup path with
    | some extents => .ok (extents.length, fun i => extents.getD i ⟨0, 0, 0, 0⟩)
    | none => .error ENOENT
  addWatch path := .ok (dirs.findIdx fun dir => dir.1 == path)
  dirMemory _ := true
  fiemapMemory _ := true
  extentsMemory _ := true
  extentsInPlace _ := true
  khPutPath _ := true
  khPutWd _ := true

/-- `enum xal_watchmode` -/
inductive XalWatchmode
  | none | dirtyDetection | extentUpdate
  deriving DecidableEq, Repr

/-- What a call of the FIEMAP backend reads and does not write. -/
structure FiemapEnv where
  kernel : Kernel
  mountpoint : CStr
  sb : XalSb
  watchMode : XalWatchmode
  mpInodes : Mprotect
  mpExtents : Mprotect

/-- What it writes beside the pools: the map of paths, if there is one, and the map of watch
descriptors. -/
structure FiemapBe where
  pathInodeMap : Option PathTable
  inodeMap : Nat → Option Nat

/-- What the keys of the map of paths read. -/
def inodeNames (s : Store FiemapBe) (inode : Nat) : CStr := (s.inodes.memory inode).name

/-- The calls of a library on such a file system. -/
def tableEnv (K : Kernel) (mountpoint : CStr) (sb : XalSb) (watchMode : XalWatchmode)
    (clear : Nat) : FiemapEnv where
  kernel := K
  mountpoint
  sb
  watchMode
  mpInodes := mprotectWithin poolReserved inodeNbytes clear
  mpExtents := mprotectWithin poolReserved extentNbytes clear

/-- Functions of the backend. -/
abbrev Fm (α : Type) := Cm Err (Store FiemapBe) α

end Xallib
