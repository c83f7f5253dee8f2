import Xallib.Khash.Table

/-!
# The map of paths

`kh_path_to_inode_t`: its keys are pointers to the names of inodes in the pool, here the slots of
these, and so are its values. A function of `khash.h` reads the names through the keys (`named`), so
that a table answers by what the pool holds when it is asked: where an index writes the pool again,
the keys that are there already come to read differently.
-/

namespace Xallib

/-- `kh_path_to_inode_t` -/
abbrev PathTable : Type := Kh Nat Nat

/-- The table with its keys as they read now. With its value goes the pointer that its key is. -/
def named (names : Nat → CStr) (t : PathTable) : Kh CStr (Nat × Nat) where
  nBuckets := t.nBuckets
  size := t.size
  nOccupied := t.nOccupied
  upperBound := t.upperBound
  flags := t.flags
  keys i := names (t.keys i)
  vals i := (t.keys i, t.vals i)

/-- The pointers again. -/
def unnamed (h : Kh CStr (Nat × Nat)) : PathTable where
  nBuckets := h.nBuckets
  size := h.size
  nOccupied := h.nOccupied
  upperBound := h.upperBound
  flags := h.flags
  keys i := (h.vals i).1
  vals i := (h.vals i).2

/-- `kh_put` of the name of an inode, and the assignment to `kh_value`, where the memory is there. A
key that is found stays. The search for a bucket ends, since there is always an empty one. -/
def khPutName (names : Nat → CStr) (inode : Nat) (t : PathTable) : PathTable :=
  match khPut x31Hash .all (names inode) (named names t) with
  | .ok (x, ret) h =>
    let key := if ret = 0 then (h.vals x).1 else inode
    unnamed { h with vals := fun j => if j = x then (key, inode) else h.vals j }
  | _ => t

/-- `kh_get` of a path, and `kh_val` unless that is `kh_end`. -/
def khGetPath (names : Nat → CStr) (path : CStr) (t : PathTable) : Option Nat :=
  match khLookup x31Hash path (named names t) with
  | .ok found _ => found.map Prod.snd
  | _ => none

end Xallib
