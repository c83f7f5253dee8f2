import Xallib.Base.Proof.Tree
import Xallib.Fiemap.Index

/-!
# What a FIEMAP index stands for

`Mirrors K sb X f path names`: the siblings `f` are the entries `names` of the directory `path`, as
the operating system `K` answers: each has the full path as its name, a directory has below it the
sorted entries `opendir` reports, a regular file the extents FIEMAP reports (`reported`), stored in
the extent memory `X`. `watchAll`, `pathEntries`: what indexing them puts into the two maps.
-/

namespace Xallib

open Lib Lib.Forest

section
variable (K : Kernel) (sb : XalSb)

/-- The extents FIEMAP reports for a file, as the index stores them; none where there is no memory
to ask for them. -/
def reported (path : CStr) : List XalExtent :=
  if K.fiemapMemory path then
    match K.fiemapCount path with
    | .error _ => []
    | .ok mapped =>
      match K.fiemapRead path mapped with
      | .error _ => []
      | .ok (n, extents) => (List.range n).map fun i => storedExtent sb (extents i)
  else []

/-- The inode `v` with the children `k` is what `path` is; `kids` are the entries of a directory. -/
def IsInode (X : Nat → XalExtent) (path : CStr) (v : XalInode) (k : Forest XalInode)
    (kids : CStr → List CStr → Prop) : Prop :=
  (∃ st, K.stat path = .ok st ∧ v.ino = st.stIno ∧ v.size = st.stSize) ∧
    (v.ftype = ftDir ∧ (∃ names, K.opendir path = .ok names ∧ kids path (sortEntries names)) ∨
      v.ftype = ftRegFile ∧ k = .nil ∧ extentsOf X v = reported K sb path)

/-- The type of an entry is that of the mode `stat` reports. -/
def HasMode (path : CStr) (v : XalInode) : Prop :=
  ∀ st, K.stat path = .ok st → (v.ftype = ftDir ↔ isDirMode st.stMode = true)

/-- The forest has the entries `names` of `path`, each as the kernel reports it. -/
def Mirrors (X : Nat → XalExtent) : Forest XalInode → CStr → List CStr → Prop
  | .nil, _, names => names = []
  | .cons v k r, path, names => ∃ n rest, names = n :: rest ∧ v.name = joinPath path n ∧
      v.namelen = v.name.length ∧ v.name.length ≤ pathMaxlen ∧ HasMode K v.name v ∧
      IsInode K sb X v.name v k (Mirrors X k) ∧ Mirrors X r path rest

end

/-! ## The map of watch descriptors -/

section
variable (E : FiemapEnv)

/-- What the map gets where an inode is begun: a directory is watched. -/
def watchInode (path : CStr) (v : XalInode) (slot : Nat) (map : Nat → Option Nat) :
    Nat → Option Nat :=
  if v.ftype = ftDir ∧ E.watchMode ≠ .none then
    match E.kernel.addWatch path with
    | .error _ => map
    | .ok wd => fun w => if w = wd then some slot else map w
  else map

/-- Only the type of the inode matters. -/
theorem watchInode_congr {path : CStr} {v v' : XalInode} {slot : Nat} {map : Nat → Option Nat}
    (h : v.ftype = v'.ftype) : watchInode E path v slot map = watchInode E path v' slot map := by
  rw [watchInode, watchInode, h]

theorem watchInode_file {path : CStr} {v : XalInode} {slot : Nat} {map : Nat → Option Nat}
    (h : v.ftype ≠ ftDir) : watchInode E path v slot map = map := if_neg fun h' => h h'.1

/-- What it gets while the siblings `f` are indexed. -/
def watchAll : Forest XalInode → Nat → Nat → (Nat → Option Nat) → Nat → Option Nat
  | .nil, _, _, map => map
  | .cons v k r, slot, lo, map =>
    watchAll r (slot + 1) (lo + k.size)
      (watchAll k lo (lo + k.width) (watchInode E v.name v slot map))

/-! ## The map of paths -/

/-- What a map of paths maps. -/
abbrev PathMap : Type := CStr → Option Nat

/-- The entry of an inode that is indexed as `path`: its name, unless it is a file without
memory. -/
def leaveEntry (path : CStr) (v : XalInode) (slot : Nat) : List (CStr × Nat) :=
  if v.ftype = ftDir ∨ E.kernel.fiemapMemory path = true then [(v.name, slot)] else []

/-- The entries of siblings, and of what is below them. -/
def pathEntries : Forest XalInode → Nat → Nat → List (CStr × Nat)
  | .nil, _, _ => []
  | .cons v k r, slot, lo => pathEntries k lo (lo + k.width) ++ leaveEntry E v.name v slot ++
      pathEntries r (slot + 1) (lo + k.size)

end

/-- A put into the table, if there is one. -/
def addPath (names : Nat → CStr) (inode : Nat) (be : FiemapBe) : FiemapBe :=
  { be with pathInodeMap := be.pathInodeMap.map (khPutName names inode) }

/-- The map after the entries have been put into it. -/
def putPaths : List (CStr × Nat) → PathMap → PathMap
  | [], map => map
  | e :: l, map => putPaths l fun path => if path = e.1 then some e.2 else map path

section
variable {l m : List (CStr × Nat)} {map : PathMap}

theorem putPaths_append : putPaths (l ++ m) map = putPaths m (putPaths l map) := by
  induction l generalizing map with
  | nil => rfl
  | cons e l ih => exact ih

/-- A path leads to one of its entries, or where it led before. -/
theorem putPaths_cases (l : List (CStr × Nat)) (map : PathMap) (path : CStr) :
    (∃ i, (path, i) ∈ l ∧ putPaths l map path = some i) ∨
      (∀ i, (path, i) ∉ l) ∧ putPaths l map path = map path := by
  induction l generalizing map with
  | nil => exact .inr ⟨fun _ => List.not_mem_nil, rfl⟩
  | cons e l ih =>
    rcases ih (fun q => if q = e.1 then some e.2 else map q) with ⟨i, hi, hput⟩ | ⟨hno, hput⟩
    · exact .inl ⟨i, List.mem_cons_of_mem e hi, hput⟩
    · by_cases he : path = e.1
      · refine .inl ⟨e.2, ?_, hput.trans (if_pos he)⟩
        rw [he]
        exact List.mem_cons_self
      · refine .inr ⟨fun i hi => ?_, hput.trans (if_neg he)⟩
        rcases List.mem_cons.1 hi with rfl | hi
        · exact he rfl
        · exact hno i hi

end

end Xallib
