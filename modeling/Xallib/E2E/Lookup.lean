import Xallib.E2E.Paths
import Xallib.Fiemap.Lookup

/-!
# Indexed paths are found

`DirNames`: directories list each name once, and a name is not empty and holds no `'/'`. The
dentries of a directory are then in strictly ascending order (`children_ascending`), so that
`bsearch` finds each of them (`bsearchChild_eq_some_iff`). `indexed_path_found`: after a successful
index the traversal finds every inode by its stored path.
-/

namespace Xallib

open Lib Lib.Forest Lib.Cm Lib.Run

/-- What `readdir` returns. -/
structure DirNames (K : Kernel) : Prop where
  nodup : ∀ path names, K.opendir path = .ok names → names.Nodup
  ne_nil : ∀ path names, K.opendir path = .ok names → ∀ n ∈ names, n ≠ []
  no_slash : ∀ path names, K.opendir path = .ok names → ∀ n ∈ names, slash ∉ n

section
variable {K : Kernel} {mountpoint path : CStr} {n : CStr}

theorem DirNames.entry (hN : DirNames K) (hn : n ∈ entriesAt K path) : n ≠ [] ∧ slash ∉ n := by
  unfold entriesAt at hn
  cases hop : K.opendir path with
  | error e => rw [hop] at hn; cases hn
  | ok names =>
    rw [hop] at hn
    have hmem : n ∈ names := (List.mem_filter.1 ((List.mem_insertionSort _).1 hn)).1
    exact ⟨hN.ne_nil _ _ hop n hmem, hN.no_slash _ _ hop n hmem⟩

theorem DirNames.ascending (hN : DirNames K) :
    (entriesAt K path).Pairwise fun a b => strcmp a b = .lt := by
  unfold entriesAt
  cases hop : K.opendir path with
  | error e => exact .nil
  | ok names => exact sortEntries_ascending (hN.nodup _ _ hop)

theorem fiemapKids_stored {c c' : FiemapNode} (hc : c' ∈ fiemapKids K c) : c'.stored = c'.path := by
  unfold fiemapKids at hc
  by_cases hd : c.dir = true
  · rw [if_pos hd] at hc
    obtain ⟨n, -, rfl⟩ := List.mem_map.1 hc
    rfl
  · rw [if_neg hd] at hc
    cases hc

/-- All but the root are stored under their paths. -/
theorem listed_stored {q : List CStr} {c : FiemapNode} (h : FiemapListed K mountpoint q c)
    (hq : q ≠ []) : c.stored = c.path := by
  cases h with
  | root => exact absurd rfl hq
  | kid _ hc => exact fiemapKids_stored hc

/-- What is listed has the path that leads there. -/
theorem listed_path (hN : DirNames K) {q : List CStr} {c : FiemapNode}
    (h : FiemapListed K mountpoint q c) :
    c.path = mountpoint ++ joinNames q ∧ ∀ n ∈ q, n ≠ [] ∧ slash ∉ n := by
  induction h with
  | root => exact ⟨(List.append_nil _).symm, fun _ h => absurd h List.not_mem_nil⟩
  | @kid q c c' _ hc ih =>
    unfold fiemapKids at hc
    by_cases hd : c.dir = true
    · rw [if_pos hd] at hc
      obtain ⟨n, hn, rfl⟩ := List.mem_map.1 hc
      refine ⟨?_, fun m hm => ?_⟩
      · show joinPath c.path n = _
        rw [ih.1, joinPath, joinNames_append, List.append_assoc]
        simp [joinNames, fiemapEntry]
      · rcases List.mem_append.1 hm with hm | hm
        · exact ih.2 m hm
        · obtain rfl := List.mem_singleton.1 hm
          exact hN.entry hn
    · rw [if_neg hd] at hc
      cases hc

end

theorem searchComponents_append {x : Xal FiemapBe} (a b : List CStr) : ∀ search,
    searchComponents x search (a ++ b) =
      (searchComponents x search a).bind fun found => searchComponents x found b := by
  induction a with
  | nil => exact fun _ => rfl
  | cons component a ih =>
    intro search
    show (bsearchChild x search component).bind _ =
      ((bsearchChild x search component).bind _).bind _
    cases bsearchChild x search component with
    | none => rfl
    | some child => exact ih child

/-- Slot `i` stands for the node `c` that is listed at `q`. -/
abbrev FiemapAt (E : FiemapEnv) (x : Xal FiemapBe) : List CStr → Nat → FiemapNode → Prop :=
  SlotAt x (fiemapKids E.kernel) FiemapNode.base (fiemapRoot E.mountpoint)

section
variable {E : FiemapEnv} {x : Xal FiemapBe} {k : Forest XalInode} {q : List CStr} {i j d : Nat}
  {c : FiemapNode}

/-- A directory has one dentry for each of its entries. -/
theorem dir_dents (ht : FiemapTree E x k) (hs : FiemapAt E x q d c)
    (hd : (x.store.inodes.memory d).ftype = ftDir) :
    fiemapKids E.kernel c = (entriesAt E.kernel c.path).map (fiemapEntry E.kernel c.path) ∧
      (x.store.inodes.memory d).content.count = (entriesAt E.kernel c.path).length := by
  obtain ⟨hF, hcount⟩ := ht.labelAt hs
  have hkids : fiemapKids E.kernel c = (entriesAt E.kernel c.path).map
      (fiemapEntry E.kernel c.path) := by
    rcases hF.kind with ⟨-, hdir, -⟩ | ⟨hf, -, -⟩
    · rw [fiemapKids, if_pos hdir]
    · rw [hd] at hf
      exact absurd hf ftDir_ne_ftRegFile
  refine ⟨hkids, ?_⟩
  rw [hkids, List.length_map, dents_dir hd] at hcount
  exact hcount

variable (hN : DirNames E.kernel) (ht : FiemapTree E x k)
include hN ht

/-- A dentry stands for the entry at its place, whose name is the last of its path. -/
theorem dentry_stands (hs : FiemapAt E x q d c) (hd : (x.store.inodes.memory d).ftype = ftDir)
    {n : CStr} (hn : (entriesAt E.kernel c.path)[j]? = some n) :
    FiemapAt E x (q ++ [n]) ((x.store.inodes.memory d).content.idx + j)
        (fiemapEntry E.kernel c.path n) ∧
      basename (x.store.inodes.memory ((x.store.inodes.memory d).content.idx + j)).name = n := by
  obtain ⟨hkids, hcount⟩ := dir_dents ht hs hd
  obtain ⟨hlt, -⟩ := List.getElem?_eq_some_iff.1 hn
  have hkid := hs.kid (j := j)
    (by rw [dents_dir hd]; show j < (x.store.inodes.memory d).content.count; rw [hcount]; exact hlt)
    (show _ = some (fiemapEntry E.kernel c.path n) by rw [hkids, List.getElem?_map, hn]; rfl)
  rw [dents_dir hd] at hkid
  refine ⟨hkid, ?_⟩
  rw [(ht.labelAt hkid).fact.name]
  exact basename_joinPath (hN.entry (List.mem_of_getElem? hn)).2

/-- The dentries of a directory are in strictly ascending order. -/
theorem children_ascending (hs : FiemapAt E x q d c)
    (hd : (x.store.inodes.memory d).ftype = ftDir) :
    Ascending (fun i => basename (x.store.inodes.memory
      ((x.store.inodes.memory d).content.idx + i)).name)
        (x.store.inodes.memory d).content.count := by
  obtain ⟨-, hcount⟩ := dir_dents ht hs hd
  intro i j hij hj
  rw [hcount] at hj
  have hj' := List.getElem?_eq_getElem hj
  have hi' := List.getElem?_eq_getElem (Nat.lt_trans hij hj)
  simp only [(dentry_stands hN ht hs hd hi').2, (dentry_stands hN ht hs hd hj').2]
  exact List.pairwise_iff_getElem.1 hN.ascending i j _ _ hij

/-- The search below a directory finds exactly its entries. -/
theorem bsearchChild_eq_some_iff (hs : FiemapAt E x q d c)
    (hd : (x.store.inodes.memory d).ftype = ftDir) {n : CStr} :
    bsearchChild x d n = some i ↔ ∃ j, (entriesAt E.kernel c.path)[j]? = some n ∧
      i = (x.store.inodes.memory d).content.idx + j := by
  obtain ⟨-, hcount⟩ := dir_dents ht hs hd
  have hsearch : ∀ j, bsearch (fun i => compareNameToInode n (x.store.inodes.memory
      ((x.store.inodes.memory d).content.idx + i))) (x.store.inodes.memory d).content.count =
        some j ↔
      (entriesAt E.kernel c.path)[j]? = some n := by
    intro j
    refine (bsearch_eq_some_iff (children_ascending hN ht hs hd) n).trans ?_
    constructor
    · rintro ⟨hj, hkey⟩
      rw [hcount] at hj
      have hn := List.getElem?_eq_getElem hj
      rw [(dentry_stands hN ht hs hd hn).2] at hkey
      rw [hn, hkey]
    · intro hn
      obtain ⟨hj, -⟩ := List.getElem?_eq_some_iff.1 hn
      exact ⟨by rw [hcount]; exact hj, (dentry_stands hN ht hs hd hn).2⟩
  simp only [bsearchChild, Option.map_eq_some_iff, hsearch]
  exact exists_congr fun j => and_congr_right fun _ => eq_comm

/-- The search for the names of a path arrives at its slot. -/
theorem searchComponents_stands (hs : FiemapAt E x q i c) :
    searchComponents x x.rootIdx q = some i := by
  induction hs with
  | root => rfl
  | @kid q d j c c' hs hj hc ih =>
    have hd : (x.store.inodes.memory d).ftype = ftDir := by
      by_contra hne
      rw [dents_of_ne hne] at hj
      exact absurd hj (Nat.not_lt_zero _)
    obtain ⟨hkids, -⟩ := dir_dents ht hs hd
    rw [hkids, List.getElem?_map, Option.map_eq_some_iff] at hc
    obtain ⟨n, hn, rfl⟩ := hc
    rw [searchComponents_append, ih, dents_dir hd]
    show (bsearchChild x d n).bind _ = _
    rw [(bsearchChild_eq_some_iff hN ht hs hd).2 ⟨j, hn, rfl⟩]
    rfl

end

/-- The components of a path are its names. -/
theorem splitOn_joinNames {q : List CStr} (hq : q ≠ []) (hno : ∀ n ∈ q, slash ∉ n) :
    ((joinNames q).drop 1).splitOn slash = q := by
  induction q with
  | nil => exact absurd rfl hq
  | cons n q ih =>
    obtain ⟨hn, hrest⟩ := List.forall_mem_cons.1 hno
    rw [joinNames_cons, List.cons_append, List.drop_succ_cons, List.drop_zero]
    cases q with
    | nil =>
      rw [show joinNames [] = [] from rfl, List.append_nil]
      exact List.splitOn_eq_singleton hn
    | cons m q =>
      have hm := ih (List.cons_ne_nil m q) hrest
      rw [joinNames_cons, List.cons_append, List.drop_succ_cons, List.drop_zero] at hm
      rw [joinNames_cons, List.cons_append, List.splitOn_append_cons_self_of_not_mem hn, hm]

/-- A path below the mountpoint is searched from the root on. -/
theorem searchByTraversal_joinNames {mountpoint : CStr} {x : Xal FiemapBe} {root i : Nat}
    {q : List CStr} (hq : q ≠ []) (hne : ∀ n ∈ q, n ≠ [] ∧ slash ∉ n)
    (h : searchComponents x root q = some i) :
    searchByTraversal mountpoint x root (mountpoint ++ joinNames q) = .ok i := by
  have hlen : 1 < (joinNames q).length := by
    cases q with
    | nil => exact absurd rfl hq
    | cons n q =>
      have hpos := List.length_pos_of_ne_nil (hne n List.mem_cons_self).1
      rw [joinNames_cons, List.cons_append, List.length_cons, List.length_append]
      omega
  have hcomponents : ((mountpoint ++ joinNames q).drop (mountpoint.length + 1)).splitOn slash =
      q := by
    rw [← List.drop_drop, List.drop_left]
    exact splitOn_joinNames hq fun n hn => (hne n hn).2
  rw [searchByTraversal, if_neg (by rw [List.length_append]; omega),
    if_neg (by rw [List.take_left]; exact not_not.2 rfl), hcomponents, h]

/-- After a successful index the traversal finds every inode but the root by its stored path, and
the dentries of each directory are in strictly ascending order of their names. -/
theorem indexed_path_found (shm : Bool) (fuel : Nat) (E : FiemapEnv) (x x' : Xal FiemapBe)
    (hx : FiemapReach shm x) (hE : FiemapCall E x) (hN : DirNames E.kernel)
    (h : xalIndex (xalBeFiemapIndex E fuel) x = .ok () x') :
    (x'.store.be.pathInodeMap = none → ∀ i, x'.rootIdx < i → i < x'.store.inodes.free →
      xalGetInode E.mountpoint x' (x'.store.inodes.memory i).name = .ok i) ∧
    ∀ d, x'.rootIdx ≤ d → d < x'.store.inodes.free → (x'.store.inodes.memory d).ftype = ftDir →
      ∀ i j, i < j → j < (x'.store.inodes.memory d).content.count →
        strcmp (basename (x'.store.inodes.memory ((x'.store.inodes.memory d).content.idx + i)).name)
          (basename (x'.store.inodes.memory ((x'.store.inodes.memory d).content.idx + j)).name) =
          .lt := by
  have htype := (hx.index hE h).alive.type_eq
  obtain ⟨⟨-, -, hroot, -, -⟩, k, hk⟩ := hx.done hE h
  have ht := hk.tree hroot
  have hfree : x'.store.inodes.free = x'.rootIdx + 1 + k.size := by rw [hk.free, hroot]
  constructor
  · intro hmap i h1 h2
    obtain ⟨q, c, hs, hat⟩ := ht.stands FiemapNode.base (Nat.le_of_lt h1) (by omega)
    have hq : q ≠ [] := fun h0 => by
      have := (slotAt_root_iff ht hs).2 h0
      omega
    have hl := ht.listed_iff.1 ⟨i, hs⟩
    obtain ⟨hpath, hne⟩ := listed_path hN hl
    rw [hat.fact.name, listed_stored hl hq, hpath, xalGetInode, if_neg (not_not.2 htype), hmap]
    exact searchByTraversal_joinNames hq hne (searchComponents_stands hN ht hs)
  · intro d h1 h2 hd
    obtain ⟨q, c, hs, -⟩ := ht.stands FiemapNode.base h1 (by omega)
    exact children_ascending hN ht hs hd

theorem tableKernel_dirNames {dirs : List (CStr × List CStr)}
    {files : List (CStr × List FiemapExtent)}
    (h : ∀ dir ∈ dirs, dir.2.Nodup ∧ ∀ n ∈ dir.2, n ≠ [] ∧ slash ∉ n) :
    DirNames (tableKernel dirs files) :=
  ⟨fun _ _ hop => (h _ (tableKernel_opendir hop)).1,
    fun _ _ hop n hn => ((h _ (tableKernel_opendir hop)).2 n hn).1,
    fun _ _ hop n hn => ((h _ (tableKernel_opendir hop)).2 n hn).2⟩

/-- The file `/m/d/c` is found below the directory `d`, whose entries are read as `c`, `b`. -/
theorem indexed_path_found_nested :
    ∃ x', xalIndex (xalBeFiemapIndex (treeDir 0) 3) (fiemapOpened (treeDir 0).sb false) =
        .ok () x' ∧
      (x'.store.inodes.memory 4).name = [47, 109, 47, 100, 47, 99] ∧
      xalGetInode (treeDir 0).mountpoint x' (x'.store.inodes.memory 4).name = .ok 4 ∧
      strcmp (basename (x'.store.inodes.memory 3).name) (basename (x'.store.inodes.memory 4).name) =
        .lt := by
  have hrun : (xalIndex (xalBeFiemapIndex (treeDir 0) 3) (fiemapOpened (treeDir 0).sb false)).okWith
      (fun x => x.rootIdx == 0 && x.store.inodes.free == 5 && x.store.be.pathInodeMap.isNone &&
        (x.store.inodes.memory 4).name == [47, 109, 47, 100, 47, 99] &&
        (x.store.inodes.memory 2).ftype == ftDir &&
        (x.store.inodes.memory 2).content.idx == 3 &&
        (x.store.inodes.memory 2).content.count == 2) = true := by decide +kernel
  obtain ⟨_, x', hr, hp⟩ := exists_of_okWith hrun
  simp only [Bool.and_eq_true, beq_iff_eq, Option.isNone_iff_eq_none] at hp
  obtain ⟨⟨⟨⟨⟨⟨hroot, hfree⟩, hmap⟩, hname⟩, htype⟩, hidx⟩, hcount⟩ := hp
  have hN : DirNames (treeDir 0).kernel := tableKernel_dirNames (by decide)
  obtain ⟨hfound, hasc⟩ := indexed_path_found true 3 (treeDir 0) _ _ (fiemapOpened_reach _ _)
    (tableEnv_call rfl) hN hr
  have hlt := hasc 2 (by omega) (by omega) htype 0 1 (by omega) (by omega)
  rw [hidx] at hlt
  exact ⟨x', hr, hname, hfound hmap 4 (by omega) (by omega), hlt⟩

end Xallib
