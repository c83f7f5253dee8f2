import Mathlib.Data.List.DropRight
import Xallib.Fiemap.Index
import Xallib.Lib.Search

/-!
# Looking up a path

`xal_get_inode`: in the map of paths where there is one, else by traversal, component by component
with a `bsearch` over the dentries. An inode is returned as its slot, a failure as the negative
status. The content of an inode is searched as dentries whatever its type, as in the source.

`xal_build_lookup_hashmap`: the map of paths, built from an index.
-/

namespace Xallib

open Lib Lib.Cm

def strcmp (a b : CStr) : Ordering := compare a b

/-- The part of a name behind its last `'/'`, as `strrchr` finds it. -/
def basename (name : CStr) : CStr := name.rtakeWhile (· != slash)

def compareNameToInode (component : CStr) (inode : XalInode) : Ordering :=
  strcmp component (basename inode.name)

section
variable (mountpoint : CStr) (x : Xal FiemapBe)

/-- The `bsearch` for a component below `search`. -/
def bsearchChild (search : Nat) (component : CStr) : Option Nat :=
  let content := (x.store.inodes.memory search).content
  (bsearch (fun i => compareNameToInode component (x.store.inodes.memory (content.idx + i)))
    content.count).map (content.idx + ·)

/-- The loop of `search_by_traversal` over the components. -/
def searchComponents : Nat → List CStr → Option Nat
  | search, [] => some search
  | search, component :: rest => do
    let child ← bsearchChild x search component
    searchComponents child rest

def searchByTraversal (root : Nat) (path : CStr) : Except Int Nat :=
  if path.length ≤ mountpoint.length + 1 then .error (-EINVAL)
  else if path.take mountpoint.length ≠ mountpoint then .error (-EINVAL)
  else match searchComponents x root ((path.drop (mountpoint.length + 1)).splitOn slash) with
    | none => .error (-(ENOENT : Int))
    | some found => .ok found

/-- The slots that the loop reads. -/
def searchReads : Nat → List CStr → List Nat
  | _, [] => []
  | search, component :: rest =>
    let content := (x.store.inodes.memory search).content
    (probes (fun i => compareNameToInode component (x.store.inodes.memory (content.idx + i)))
      content.count).map (content.idx + ·) ++
      match bsearchChild x search component with
      | none => []
      | some child => searchReads child rest

/-- The slots that `search_by_traversal` reads. Beyond the mapped part of the pool a read stops the
process. -/
def traversalReads (root : Nat) (path : CStr) : List Nat :=
  if path.length ≤ mountpoint.length + 1 then []
  else if path.take mountpoint.length ≠ mountpoint then []
  else searchReads x root ((path.drop (mountpoint.length + 1)).splitOn slash)

def xalGetInode (path : CStr) : Except Int Nat :=
  if x.type ≠ .fiemap then .error (-EINVAL)
  else match x.store.be.pathInodeMap with
    | some map =>
      match khGetPath (inodeNames x.store) path map with
      | none => .error (-EINVAL)
      | some inode => .ok inode
    | none => searchByTraversal mountpoint x x.rootIdx path

end

/-! ## The map of paths -/

/-- The map in place of the one there was. -/
def setPathMap (map : Option PathTable) (x : Xal FiemapBe) : Xal FiemapBe :=
  { x with store := { x.store with be := { x.store.be with pathInodeMap := map } } }

section
variable (K : Kernel) (x : Xal FiemapBe)

/-- The entry of an inode, unless it has no name. -/
def putNamed (inode : Nat) : Cm Err PathTable Unit := do
  let v := x.store.inodes.memory inode
  if 0 < v.namelen then do
    failIf (K.khPutPath v.name = false) ⟨.khPut, - EIO⟩
    modify (khPutName (inodeNames x.store) inode)
  else pure ()

/-- `build_hashmap_walk`; `fuel` bounds the depth. -/
def buildHashmapWalk : Nat → Nat → Cm Err PathTable Unit
  | 0, _ => fun _ => .spin
  | fuel + 1, inode => do
    putNamed K x inode
    let v := x.store.inodes.memory inode
    if xalInodeIsDir v then
      forUp (fun _ i => i < v.content.count) (fun i => buildHashmapWalk fuel (v.content.idx + i))
        v.content.count 0
    else pure ()

end

/-- `khInitPath`: there is memory for the map. -/
def xalBuildLookupHashmap (K : Kernel) (khInitPath : Bool) (fuel : Nat) :
    Cm Err (Xal FiemapBe) Unit := do
  let x ← read
  failIf (x.type ≠ .fiemap) ⟨.argument, -EINVAL⟩
  modify (setPathMap none)
  failIf (khInitPath = false) ⟨.memory, -ENOMEM⟩
  match buildHashmapWalk K x fuel x.rootIdx khInit with
  | .ok _ map => modify (setPathMap (some map))
  | .fail e _ => fail e
  | .crash => crash
  | .spin => fun _ => .spin

/-! ## Strings -/

section
variable {a b n path : CStr}

theorem strcmp_cons (x y : UInt8) : strcmp (x :: a) (y :: b) = (compare x y).then (strcmp a b) :=
  List.compareLex_cons_cons

theorem strcmpLe_iff : strcmpLe a b = true ↔ strcmp a b ≠ .gt := by
  induction a generalizing b with
  | nil => cases b <;> exact iff_of_true rfl (fun h => nomatch h)
  | cons x a ih =>
    cases b with
    | nil => exact iff_of_false Bool.false_ne_true (fun h => h rfl)
    | cons y b =>
      have hcompare : compare x y = if x < y then .lt else if x = y then .eq else .gt := rfl
      rw [strcmp_cons, strcmpLe, hcompare]
      by_cases hlt : x < y
      · simp [hlt]
      · by_cases heq : x = y
        · simp [heq, ih]
        · simp [hlt, heq]

theorem basename_joinPath (hn : slash ∉ n) : basename (joinPath path n) = n := by
  have hall : ∀ c ∈ n.reverse, (c != slash) = true := by
    intro c hc
    rw [bne_iff_ne]
    rintro rfl
    exact hn (List.mem_reverse.1 hc)
  rw [basename, joinPath, List.rtakeWhile, List.reverse_append, List.reverse_cons,
    List.append_assoc,
    List.takeWhile_append_of_pos hall]
  simp

theorem strcmp_trans {c : CStr} (h : strcmp a b ≠ .gt) (h' : strcmp b c ≠ .gt) :
    strcmp a c ≠ .gt := by
  have hab : (compare a b).isLE := Ordering.ne_gt_iff_isLE.1 h
  have hbc : (compare b c).isLE := Ordering.ne_gt_iff_isLE.1 h'
  have hac : (compare a c).isLE := Std.TransCmp.isLE_trans hab hbc
  exact Ordering.ne_gt_iff_isLE.2 hac

theorem strcmp_total (a b : CStr) : strcmp a b ≠ .gt ∨ strcmp b a ≠ .gt := by
  by_cases h : strcmp a b = .gt
  · rw [strcmp, Std.OrientedCmp.gt_iff_lt] at h
    exact .inr (by rw [strcmp, h]; decide)
  · exact .inl h

instance : Std.Total fun a b : CStr => strcmpLe a b = true :=
  ⟨fun a b => by simp only [strcmpLe_iff]; exact strcmp_total a b⟩

instance : IsTrans CStr fun a b => strcmpLe a b = true :=
  ⟨fun a b c => by simp only [strcmpLe_iff]; exact strcmp_trans⟩

/-- The sorted entries of a directory that lists each name once are strictly ascending. -/
theorem sortEntries_ascending {names : List CStr} (hnodup : names.Nodup) :
    (sortEntries names).Pairwise fun a b => strcmp a b = .lt := by
  have hsorted := List.pairwise_insertionSort (fun a b => strcmpLe a b = true)
    (names.filter isDirectoryMember)
  have hdistinct : (sortEntries names).Nodup :=
    (List.perm_insertionSort _ _).nodup_iff.2 (hnodup.filter _)
  refine (hsorted.and hdistinct).imp fun {a b} hab => ?_
  have hle := strcmpLe_iff.1 hab.1
  cases h : strcmp a b with
  | lt => rfl
  | eq => exact absurd (Std.LawfulEqOrd.eq_of_compare h) hab.2
  | gt => exact absurd h hle

end

end Xallib
