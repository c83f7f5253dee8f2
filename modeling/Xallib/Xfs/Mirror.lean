import Xallib.Xfs.Entries
import Xallib.Lib.Label

/-!
# What an XFS index stands for

The tree of a file system as its directories list it. A node is an entry of a directory, without the
parent (`rootEntry` for the root); `entryKids` are the entries below it. `IsEntry v e` is what the
index stores for the entry `e`.
-/

namespace Xallib

open Lib

section
variable (E : XfsEnv)

/-- The type of an entry: what its directory tells, or else the mode of its inode. -/
def entryType (e : XalInode) : Nat :=
  if e.ftype ≠ 0 then e.ftype else
    match E.dinodesMap e.ino with
    | none => 0
    | some dinode =>
      if isDirMode (diMode E dinode) then ftDir
      else if isRegMode (diMode E dinode) then ftRegFile
      else 0

/-- The entries below an entry. -/
def entryKids (e : XalInode) : List XalInode :=
  match E.dinodesMap e.ino with
  | none => []
  | some dinode => if entryType E e = ftDir then (dirListing E dinode).getD [] else []

def rootEntry : XalInode := { (default : XalInode) with ino := E.sb.rootino, ftype := ftDir }

/-- The slot holds the entry, with the fields of its dinode. -/
structure IsEntry (v e : XalInode) : Prop where
  name : v.name = e.name
  namelen : v.namelen = e.namelen
  ftype : v.ftype = entryType E e
  dinode : ∃ dinode, E.dinodesMap e.ino = some dinode ∧ v.ino = diIno E dinode ∧
    v.size = diSize E dinode ∧ (v.ftype = ftDir → (dirListing E dinode).isSome = true)

/-- The bytes of a name. -/
def XalInode.nameBytes (v : XalInode) : CStr := v.name.take v.namelen

/-- What the file system has at a path, as its directories list it. -/
abbrev XfsListed : List CStr → XalInode → Prop :=
  Found (entryKids E) XalInode.nameBytes (rootEntry E)

end

end Xallib
