import Xallib.E2E.Strays
import Xallib.Fiemap.Proof.Lookup

/-!
# The two modes of looking up a path

`indexEntries` and `builtEntries` are what the map of paths is filled with while indexing, and from
an index. An index may begin with a map that an earlier one has filled; it still leads to the
inodes as long as each value is the slot that its key points to (`OwnKeys`).
`lookups_agree_iff`: when the lookups agree.
-/

namespace Xallib

open Lib Lib.Forest Lib.Cm Lib.Run

/-! ## What is in the maps -/

theorem xalGetInode_map {mountpoint : CStr} {x : Xal FiemapBe} {t : PathTable} {path : CStr}
    (htype : x.type = .fiemap) (hmap : x.store.be.pathInodeMap = some t) :
    (xalGetInode mountpoint x path).toOption = khGetPath (inodeNames x.store) path t := by
  rw [xalGetInode, if_neg (not_not.2 htype), hmap]
  dsimp only
  cases khGetPath (inodeNames x.store) path t <;> rfl

theorem searchComponents_setPathMap {x : Xal FiemapBe} {map : Option PathTable} (rest : List CStr) :
    ∀ search, searchComponents (setPathMap map x) search rest = searchComponents x search rest := by
  induction rest with
  | nil => exact fun _ => rfl
  | cons n rest ih =>
    intro search
    show (bsearchChild x search n).bind _ = (bsearchChild x search n).bind _
    cases bsearchChild x search n with
    | none => rfl
    | some child => exact ih child

theorem searchByTraversal_setPathMap {mountpoint : CStr} {x : Xal FiemapBe}
    {map : Option PathTable} {root : Nat} {path : CStr} :
    searchByTraversal mountpoint (setPathMap map x) root path =
      searchByTraversal mountpoint x root path := by
  unfold searchByTraversal
  rw [searchComponents_setPathMap]

theorem xalGetInode_traversal {mountpoint : CStr} {x : Xal FiemapBe} {path : CStr}
    (htype : x.type = .fiemap) :
    xalGetInode mountpoint (setPathMap none x) path =
      searchByTraversal mountpoint x x.rootIdx path := by
  have htype' : (setPathMap none x).type = .fiemap := htype
  rw [xalGetInode, if_neg (not_not.2 htype')]
  exact searchByTraversal_setPathMap

section
variable {E : FiemapEnv} {be : FiemapBe} {x : Xal FiemapBe} {k : Forest XalInode} {i : Nat}
  {path : CStr}

/-- What indexing puts into the map. -/
def indexEntries (E : FiemapEnv) (x : Xal FiemapBe) (k : Forest XalInode) : List (CStr × Nat) :=
  pathEntries E k (x.rootIdx + 1) (x.rootIdx + 1 + k.width) ++ [([], x.rootIdx)]

theorem indexed_map (hk : FiemapRooted E be x.rootIdx x k)
    (hmap : be.pathInodeMap = some khInit) : ∃ t, x.store.be.pathInodeMap = some t ∧
      MapsFrom x t (putPaths (indexEntries E x k) fun _ => none) :=
  hk.paths hmap

theorem mem_indexEntries (hk : FiemapRooted E be x.rootIdx x k) :
    (path, i) ∈ indexEntries E x k ↔ (PathOf x path i ∧
      ((x.store.inodes.memory i).ftype = ftDir ∨ E.kernel.fiemapMemory path = true)) ∨
        path = [] ∧ i = x.rootIdx := by
  obtain ⟨-, -, hplaced, -⟩ := hk.placed
  have hsize := size_eq k
  have hfree := hk.free
  rw [indexEntries, List.mem_append, mem_pathEntries hplaced (Nat.le_refl _), List.mem_singleton,
    Prod.mk.injEq, ← and_assoc]
  have hocc : Occ k (x.rootIdx + 1) (x.rootIdx + 1 + k.width) i ∧
      (x.store.inodes.memory i).name = path ↔ PathOf x path i := by
    unfold Occ
    constructor
    · rintro ⟨hi, hname⟩
      exact ⟨by omega, by omega, hname⟩
    · rintro ⟨hlt, hi, hname⟩
      exact ⟨by omega, hname⟩
  rw [hocc]

/-- What building the map puts into it. -/
def builtEntries (x : Xal FiemapBe) (k : Forest XalInode) : List (CStr × Nat) :=
  (visits (.cons (x.store.inodes.memory x.rootIdx) k .nil) x.rootIdx (x.rootIdx + 1) 0).flatMap
    fun c => namedEntry (x.store.inodes.memory c.1) c.1

theorem built_map {K : Kernel} {khInitPath : Bool} {fuel : Nat} {x' : Xal FiemapBe} {u : Unit}
    (hk : FiemapRooted E be x.rootIdx x k) (hok : StoreOk x.store)
    (h : xalBuildLookupHashmap K khInitPath fuel x = .ok u x') :
    ∃ t, x' = setPathMap (some t) x ∧
      MapsFrom x t (putPaths (builtEntries x k) fun _ => none) := by
  unfold xalBuildLookupHashmap at h
  rw [read_bind] at h
  obtain ⟨-, h⟩ := failIf_bind_ok.1 h
  rw [modify_bind] at h
  obtain ⟨-, h⟩ := failIf_bind_ok.1 h
  cases hr : buildHashmapWalk K x fuel x.rootIdx khInit with
  | ok _ t =>
    rw [hr] at h
    exact ⟨t, (Run.ok.inj h).2.symm, buildHashmapWalk_ok hok hk.free hk.placed maps_khInit hr⟩
  | fail e t =>
    rw [hr] at h
    cases h
  | crash =>
    rw [hr] at h
    cases h
  | spin =>
    rw [hr] at h
    cases h

theorem mem_builtEntries (hk : FiemapRooted E be x.rootIdx x k) :
    (path, i) ∈ builtEntries x k ↔ path ≠ [] ∧ PathOf x path i := by
  have ht := hk.tree rfl
  have hfree := hk.free
  have hvisit : (∃ d, (i, d) ∈ visits (.cons (x.store.inodes.memory x.rootIdx) k .nil) x.rootIdx
      (x.rootIdx + 1) 0) ↔ x.rootIdx ≤ i ∧ i < x.store.inodes.free := by
    rw [mem_visits (by simp), hfree]
    simp only [Occ, width_cons, width_nil, deep_cons, deep_nil]
    omega
  have hnamelen : x.rootIdx < i → i < x.store.inodes.free →
      (x.store.inodes.memory i).namelen = (x.store.inodes.memory i).name.length := by
    intro h1 h2
    obtain ⟨q, c, -, hat⟩ := ht.stands FiemapNode.base (Nat.le_of_lt h1) (by omega)
    rw [hat.fact.namelen, hat.fact.name]
  constructor
  · intro h
    obtain ⟨⟨i', d⟩, hv, he⟩ := List.mem_flatMap.1 h
    obtain ⟨rfl, hlen, hname⟩ := mem_namedEntry.1 he
    obtain ⟨hle, hi⟩ := hvisit.1 ⟨d, hv⟩
    have hroot : i ≠ x.rootIdx := by
      rintro rfl
      rw [hk.namelen] at hlen
      exact absurd hlen (Nat.lt_irrefl 0)
    have hlt : x.rootIdx < i := by omega
    refine ⟨?_, hlt, hi, hname⟩
    rw [hnamelen hlt hi, hname] at hlen
    exact List.ne_nil_of_length_pos hlen
  · rintro ⟨hpath, hlt, hi, hname⟩
    obtain ⟨d, hd⟩ := hvisit.2 ⟨Nat.le_of_lt hlt, hi⟩
    refine List.mem_flatMap.2 ⟨(i, d), hd, mem_namedEntry.2 ⟨rfl, ?_, hname⟩⟩
    rw [hnamelen hlt hi, hname]
    exact List.length_pos_of_ne_nil hpath

end

/-! ## When the lookups agree -/

/-- With the map and without it the same inode is found, or none, and no read stops the process. -/
structure LookupsAgree (mountpoint : CStr) (x : Xal FiemapBe) (path : CStr) : Prop where
  inside : ∀ i ∈ traversalReads mountpoint x x.rootIdx path, i < x.store.inodes.allocated
  same : (xalGetInode mountpoint x path).toOption =
    (xalGetInode mountpoint (setPathMap none x) path).toOption

/-- When the lookups agree after an index that began with an empty map: it puts the root under the
empty path, and leaves out the files for whose extents there was no memory. -/
structure IndexedAgree (E : FiemapEnv) (x : Xal FiemapBe) (path : CStr) : Prop where
  ne_nil : path ≠ []
  inside : ¬StraysOutside E.mountpoint x path
  file : ∀ i, PathOf x path i → xalInodeIsFile (x.store.inodes.memory i) = true →
    E.kernel.fiemapMemory path = true
  other : (∀ i, ¬PathOf x path i) → ∀ j, ¬StraysTo E.mountpoint x path j

/-- The map of paths is the table `t`, each value of which is the slot that its key points to. -/
structure OwnKeys (x : Xal FiemapBe) (t : PathTable) : Prop where
  map : x.store.be.pathInodeMap = some t
  shaped : KhShaped t
  vals : ∀ i < t.nBuckets, t.live i = true → t.vals i = t.keys i

theorem ownKeys_khInit {x : Xal FiemapBe} (hmap : x.store.be.pathInodeMap = some khInit) :
    OwnKeys x khInit :=
  ⟨hmap, .fresh rfl rfl rfl rfl, fun i hi => absurd hi (Nat.not_lt_zero i)⟩

section
variable {E : FiemapEnv} {x : Xal FiemapBe} {k : Forest XalInode} {i : Nat} {path : CStr}

theorem pathOf_setPathMap {map : Option PathTable} : PathOf (setPathMap map x) path i ↔
    PathOf x path i :=
  ⟨fun h => ⟨h.lt, h.free, h.name⟩, fun h => ⟨h.lt, h.free, h.name⟩⟩

variable (hN : DirNames E.kernel) (ht : FiemapTree E x k)
  (hfree : x.store.inodes.free = x.rootIdx + 1 + k.size)
include hN ht hfree

theorem lookupsAgree_iff {t : PathTable} {found : Option Nat} (htype : x.type = .fiemap)
    (hmap : x.store.be.pathInodeMap = some t)
    (hfound : khGetPath (inodeNames x.store) path t = found)
    (hmapped : x.store.inodes.free ≤ x.store.inodes.allocated) : LookupsAgree E.mountpoint x path ↔
      ¬StraysOutside E.mountpoint x path ∧
        ∀ j, found = some j ↔ PathOf x path j ∨ StraysTo E.mountpoint x path j := by
  have hsame : (xalGetInode E.mountpoint x path).toOption =
      (xalGetInode E.mountpoint (setPathMap none x) path).toOption ↔
      ∀ j, found = some j ↔ PathOf x path j ∨ StraysTo E.mountpoint x path j := by
    rw [xalGetInode_map htype hmap, hfound, xalGetInode_traversal htype, Option.ext_iff]
    exact forall_congr' fun j => iff_congr Iff.rfl (traversal_eq_some_iff hN ht hfree)
  rw [← traversal_outside_iff hN ht hfree hmapped, ← hsame]
  constructor
  · rintro ⟨hinside, hs⟩
    refine ⟨?_, hs⟩
    rintro ⟨i, hi, hout⟩
    have := hinside i hi
    omega
  · rintro ⟨hinside, hs⟩
    refine ⟨fun i hi => ?_, hs⟩
    by_contra hout
    exact hinside ⟨i, hi, by omega⟩

/-- At the path of an inode only this inode is found. -/
theorem PathOf.agree_iff {found : Option Nat} (h : PathOf x path i) :
    (¬StraysOutside E.mountpoint x path ∧
      ∀ j, found = some j ↔ PathOf x path j ∨ StraysTo E.mountpoint x path j) ↔
        found = some i := by
  constructor
  · rintro ⟨-, hall⟩
    exact (hall i).2 (.inl h)
  · intro hi
    refine ⟨(h.not_strays hN ht hfree (j := i)).2, fun j => ?_⟩
    rw [hi]
    constructor
    · intro hj
      obtain rfl := Option.some.inj hj
      exact .inl h
    · rintro (hj | hj)
      · rw [h.unique hN ht hfree hj]
      · exact absurd hj (h.not_strays hN ht hfree).1

theorem PathOf.indexedAgree (h : PathOf x path i)
    (hread : (x.store.inodes.memory i).ftype = ftDir ∨ E.kernel.fiemapMemory path = true) :
    IndexedAgree E x path where
  ne_nil := h.ne_nil hN ht hfree
  inside := (h.not_strays hN ht hfree (j := i)).2
  file i' hi' hfile := by
    obtain rfl := h.unique hN ht hfree hi'
    refine hread.resolve_left fun hdir => ?_
    rw [xalInodeIsFile, hdir] at hfile
    exact absurd hfile (by decide)
  other hnone := absurd h (hnone i)

/-- A directory, or a file whose extents were read. -/
theorem PathOf.read (h : PathOf x path i) (hfile : ∀ i, PathOf x path i →
    xalInodeIsFile (x.store.inodes.memory i) = true → E.kernel.fiemapMemory path = true) :
    (x.store.inodes.memory i).ftype = ftDir ∨ E.kernel.fiemapMemory path = true := by
  obtain ⟨q, c, -, -, -, hs⟩ := h.listed hN ht hfree
  rcases (ht.labelAt hs).fact.kind with ⟨hdir, -⟩ | ⟨hft, -⟩
  · exact .inl hdir
  · exact .inr (hfile i h (by simp [xalInodeIsFile, hft]))

omit ht hfree hN in
theorem indexedAgree_none (hpath : path ≠ []) (hnone : ∀ i, ¬PathOf x path i) :
    IndexedAgree E x path ↔ ¬StraysOutside E.mountpoint x path ∧
      ∀ j, ¬StraysTo E.mountpoint x path j :=
  ⟨fun h => ⟨h.inside, h.other hnone⟩,
    fun h => ⟨hpath, h.1, fun i hi => absurd hi (hnone i), fun _ => h.2⟩⟩

/-- The empty path does not stray. -/
theorem not_agree_nil {found : Option Nat} (hfound : found ≠ none) :
    ¬(¬StraysOutside E.mountpoint x [] ∧
      ∀ j, found = some j ↔ PathOf x [] j ∨ StraysTo E.mountpoint x [] j) := by
  rintro ⟨-, hall⟩
  obtain ⟨j, hj⟩ := Option.ne_none_iff_exists'.1 hfound
  rcases (hall j).1 hj with hpath | ⟨hbelow, -⟩ | ⟨hfile, -⟩
  · exact hpath.ne_nil hN ht hfree rfl
  · exact absurd hbelow.length (Nat.not_lt_zero _)
  · exact absurd hfile.length (Nat.not_lt_zero _)

end

/-! Both maps, over an index that is finished. -/

section
variable {E : FiemapEnv} {be : FiemapBe} {x : Xal FiemapBe} {k : Forest XalInode} {i : Nat}
  {t : PathTable} {path : CStr} (hN : DirNames E.kernel) (hk : FiemapRooted E be x.rootIdx x k)
  (halive : Alive .fiemap x)
include hN hk halive

theorem indexed_agree_iff (hmap : be.pathInodeMap = some khInit) :
    LookupsAgree E.mountpoint x path ↔ IndexedAgree E x path := by
  have ht := hk.tree rfl
  have hentry := fun i => @mem_indexEntries E be x k i path hk
  obtain ⟨t, hxmap, hmaps⟩ := indexed_map hk hmap
  rw [lookupsAgree_iff hN ht hk.free halive.type_eq hxmap hmaps.get
    halive.storeOk.inodes.free_le]
  rcases putPaths_cases (indexEntries E x k) (fun _ => none) path with
    ⟨i, hi, hput⟩ | ⟨hno, hput⟩
  · rcases (hentry i).1 hi with ⟨hpath, hread⟩ | ⟨rfl, rfl⟩
    · -- the index has put the inode of the path
      exact iff_of_true ((hpath.agree_iff hN ht hk.free).2 hput)
        (hpath.indexedAgree hN ht hk.free hread)
    · -- the empty path leads to the root
      exact iff_of_false (not_agree_nil hN ht hk.free (by rw [hput]; exact Option.some_ne_none _))
        fun h => h.ne_nil rfl
  · have hne : path ≠ [] := fun h0 => hno x.rootIdx ((hentry _).2 (.inr ⟨h0, rfl⟩))
    by_cases hpath : ∃ i, PathOf x path i
    · -- a file without memory has been left out
      obtain ⟨i, hpath⟩ := hpath
      rw [hpath.agree_iff hN ht hk.free, hput]
      refine iff_of_false (fun h => nomatch h) fun h => hno i ((hentry i).2 (.inl ⟨hpath, ?_⟩))
      exact hpath.read hN ht hk.free h.file
    · have hnone : ∀ i, ¬PathOf x path i := fun i hi => hpath ⟨i, hi⟩
      rw [indexedAgree_none hne hnone, hput]
      simp [hnone]

omit hN in
/-- A name is that of an inode, if the index begins with the pool. -/
theorem pathOf_of_name (hclear : x.rootIdx = 0) (hpath : path ≠ [])
    (hname : inodeNames x.store i = path) : PathOf x path i := by
  refine ⟨?_, ?_, hname⟩
  · rw [hclear]
    refine Nat.pos_of_ne_zero fun h0 => hpath ?_
    rw [← hname, h0, ← hclear]
    exact hk.name
  · -- behind the free slot the pool is clean
    by_contra hle
    rw [inodeNames, halive.storeOk.inodes.clean i (by omega)] at hname
    exact hpath hname.symm

/-- Over a map that held elements: a path that no inode has is not found by it. -/
theorem unindexed_agree_iff (hclear : x.rootIdx = 0) (hmap : be.pathInodeMap.isSome)
    (hpath : path ≠ []) (hnone : ∀ i, ¬PathOf x path i) : LookupsAgree E.mountpoint x path ↔
      ¬StraysOutside E.mountpoint x path ∧ ∀ j, ¬StraysTo E.mountpoint x path j := by
  obtain ⟨t, hxmap⟩ := Option.isSome_iff_exists.1 (hk.isSome.trans hmap)
  have hget : khGetPath (inodeNames x.store) path t = none := by
    refine Option.eq_none_iff_forall_ne_some.2 fun j hj => ?_
    obtain ⟨i, hname⟩ := khGetPath_name hj
    exact hnone i (pathOf_of_name hk halive hclear hpath hname)
  rw [lookupsAgree_iff hN (hk.tree rfl) hk.free halive.type_eq hxmap hget
    halive.storeOk.inodes.free_le]
  simp [hnone]

omit hN in
/-- What an index puts into a map that has room. -/
theorem refilled (hmap : be.pathInodeMap = some t) (hs : KhShaped t)
    (hroom : t.size + poolReserved < 2 ^ 30) : ∃ names t', x.store.be.pathInodeMap = some t' ∧
      Refills (indexEntries E x k) names (inodeNames x.store) t t' ∧
      t'.size ≤ t.size + poolReserved := by
  have hlen : (indexEntries E x k).length ≤ poolReserved := by
    have hentries := length_pathEntries (E := E) k (x.rootIdx + 1) (x.rootIdx + 1 + k.width)
    have hfree := hk.free
    have hle := Nat.le_trans halive.storeOk.inodes.free_le halive.storeOk.inodes.allocated_le
    rw [indexEntries, List.length_append, List.length_singleton]
    omega
  obtain ⟨names, t', ht', hr⟩ := hk.refills t hmap hs
    (Nat.lt_of_le_of_lt (Nat.add_le_add_left hlen _) hroom)
  exact ⟨names, t', ht', hr, Nat.le_trans hr.size (Nat.add_le_add_left hlen _)⟩

section
variable {x₀ : Xal FiemapBe} (hclear : x.rootIdx = 0)
  (hbe : be.pathInodeMap = x₀.store.be.pathInodeMap) (hown : OwnKeys x₀ t)
  (hroom : t.size + poolReserved < 2 ^ 30)
include hclear hbe hown hroom

/-- Over a map whose values are the slots of their keys. -/
theorem refilled_agree_iff (hfile : ∀ i, PathOf x path i →
    xalInodeIsFile (x.store.inodes.memory i) = true → E.kernel.fiemapMemory path = true) :
    LookupsAgree E.mountpoint x path ↔ IndexedAgree E x path := by
  have ht := hk.tree rfl
  have hentry := fun path i => @mem_indexEntries E be x k i path hk
  obtain ⟨names, t', hxmap, hr, -⟩ := refilled hk halive (hbe.trans hown.map) hown.shaped hroom
  -- an element whose key reads as the path of an inode has its slot as the value
  have hval : ∀ j < t'.nBuckets, t'.live j = true → path ≠ [] →
      inodeNames x.store (t'.keys j) = path → PathOf x path (t'.vals j) := by
    intro j hj hlive hne hname
    rcases hr.elems j hj hlive with ⟨i, hi, hlive', hkey, hv⟩ | ⟨⟨p, i⟩, he, hv, hkey⟩
    · rw [hv, hown.vals i hi hlive', ← hkey]
      exact pathOf_of_name hk halive hclear hne hname
    · obtain rfl : path = p := hname.symm.trans hkey
      rcases (hentry path i).1 he with ⟨hpath, -⟩ | ⟨h0, -⟩
      · rw [hv]
        exact hpath
      · exact absurd h0 hne
  have hfound : ∀ i, (path, i) ∈ indexEntries E x k → ∃ j < t'.nBuckets, t'.live j = true ∧
      inodeNames x.store (t'.keys j) = path ∧
      khGetPath (inodeNames x.store) path t' = some (t'.vals j) :=
    fun i hi => (hr.put _ hi).get hr.shaped
  have hiff := @lookupsAgree_iff E x k path hN ht hk.free t' _ halive.type_eq hxmap rfl
    halive.storeOk.inodes.free_le
  by_cases hne : path = []
  · subst hne
    obtain ⟨j, -, -, -, hget⟩ := hfound x.rootIdx ((hentry _ _).2 (.inr ⟨rfl, rfl⟩))
    rw [hiff]
    exact iff_of_false (not_agree_nil hN ht hk.free (by rw [hget]; exact Option.some_ne_none _))
      fun h => h.ne_nil rfl
  by_cases hpath : ∃ i, PathOf x path i
  · obtain ⟨i, hpath⟩ := hpath
    have hread := hpath.read hN ht hk.free hfile
    obtain ⟨j, hj, hlive, hname, hget⟩ := hfound i ((hentry _ _).2 (.inl ⟨hpath, hread⟩))
    rw [hiff, hpath.agree_iff hN ht hk.free, hget,
      (hval j hj hlive hne hname).unique hN ht hk.free hpath]
    exact iff_of_true rfl (hpath.indexedAgree hN ht hk.free hread)
  · have hnone : ∀ i, ¬PathOf x path i := fun i hi => hpath ⟨i, hi⟩
    rw [indexedAgree_none hne hnone]
    exact unindexed_agree_iff hN hk halive hclear (by rw [hbe, hown.map]; rfl) hne hnone

/-- It stays one, if the index has a slot for each key. -/
theorem refilled_ownKeys (hkeys : ∀ key, HasKey t key → key < x.store.inodes.free) :
    ∃ t', OwnKeys x t' ∧ t'.size ≤ t.size + poolReserved := by
  have ht := hk.tree rfl
  have hfree := hk.free
  have hentry := fun path i => @mem_indexEntries E be x k i path hk
  obtain ⟨names, t', hxmap, hr, hsize⟩ := refilled hk halive (hbe.trans hown.map) hown.shaped hroom
  refine ⟨t', ⟨hxmap, hr.shaped, fun j hj hlive => ?_⟩, hsize⟩
  have hlt : t'.keys j < x.store.inodes.free := by
    rcases hr.keys _ ⟨j, hj, hlive, rfl⟩ with hkey | ⟨⟨p, i⟩, he, hkey⟩
    · exact hkeys _ hkey
    · rw [hkey]
      rcases (hentry p i).1 he with ⟨hpath, -⟩ | ⟨-, rfl⟩
      · exact hpath.free
      · omega
  rcases hr.elems j hj hlive with ⟨i, hi, hlive', hkey, hv⟩ | ⟨⟨p, i⟩, he, hv, hkey⟩
  · rw [hv, hkey]
    exact hown.vals i hi hlive'
  · rw [hv]
    rcases (hentry p i).1 he with ⟨hpath, -⟩ | ⟨rfl, rfl⟩
    · exact hpath.unique hN ht hk.free
        (pathOf_of_name hk halive hclear (hpath.ne_nil hN ht hk.free) hkey)
    · -- only the root has no name
      by_contra hne
      have hpath : PathOf x [] (t'.keys j) := ⟨by omega, hlt, hkey⟩
      exact hpath.ne_nil hN ht hk.free rfl

end

theorem built_agree_iff {K : Kernel} {khInitPath : Bool} {fuel : Nat} {x' : Xal FiemapBe}
    {u : Unit} (h : xalBuildLookupHashmap K khInitPath fuel x = .ok u x') :
    LookupsAgree E.mountpoint x' path ↔
      ¬StraysOutside E.mountpoint x' path ∧ ∀ j, ¬StraysTo E.mountpoint x' path j := by
  obtain ⟨t, hbuilt, hmaps⟩ := built_map hk halive.storeOk h
  have ht : FiemapTree E x' k := hbuilt ▸ hk.tree rfl
  have hfree : x'.store.inodes.free = x'.rootIdx + 1 + k.size := hbuilt ▸ hk.free
  have hentry : ∀ i, (path, i) ∈ builtEntries x k ↔ PathOf x' path i := by
    intro i
    rw [mem_builtEntries hk, hbuilt, pathOf_setPathMap]
    exact and_iff_right_of_imp fun h => h.ne_nil hN (hk.tree rfl) hk.free
  have hmap : x'.store.be.pathInodeMap = some t := hbuilt ▸ rfl
  have hget : khGetPath (inodeNames x'.store) path t =
      putPaths (builtEntries x k) (fun _ => none) path := hbuilt ▸ hmaps.get
  rw [lookupsAgree_iff hN ht hfree (hbuilt ▸ halive.type_eq) hmap hget
    (hbuilt ▸ halive.storeOk.inodes.free_le)]
  rcases putPaths_cases (builtEntries x k) (fun _ => none) path with ⟨i, hi, hput⟩ | ⟨hno, hput⟩
  · have hpath := (hentry i).1 hi
    refine iff_of_true ((hpath.agree_iff hN ht hfree).2 hput)
      ⟨(hpath.not_strays hN ht hfree (j := i)).2, fun j => (hpath.not_strays hN ht hfree).1⟩
  · have hnone : ∀ i, ¬PathOf x' path i := fun i hi => hno i ((hentry i).2 hi)
    simp [hput, hnone]

theorem built_ownKeys (hclear : x.rootIdx = 0) {K : Kernel} {khInitPath : Bool} {fuel : Nat}
    {x' : Xal FiemapBe} {u : Unit} (h : xalBuildLookupHashmap K khInitPath fuel x = .ok u x') :
    ∃ t, OwnKeys x' t ∧ t.size ≤ poolReserved := by
  obtain ⟨t, rfl, hmaps⟩ := built_map hk halive.storeOk h
  refine ⟨t, ⟨rfl, shaped_named.1 hmaps.inv.shaped, fun i hi hlive => ?_⟩,
    Nat.le_trans hmaps.size_le (Nat.le_trans halive.storeOk.inodes.free_le
      halive.storeOk.inodes.allocated_le)⟩
  have hput := (hmaps.key hi hlive).2
  rcases putPaths_cases (builtEntries x k) (fun _ => none) (inodeNames x.store (t.keys i)) with
    ⟨j, hj, hput'⟩ | ⟨-, hput'⟩
  · obtain ⟨hne, hpath⟩ := (mem_builtEntries hk).1 hj
    obtain rfl := Option.some.inj (hput.symm.trans hput')
    exact hpath.unique hN (hk.tree rfl) hk.free (pathOf_of_name hk halive hclear hne rfl)
  · rw [hput'] at hput
    cases hput

end

/-- When the lookup by the map agrees with the traversal: by that of an index that began with an
empty map; by that of an index that began with another, at a path that no inode has, and at any path
if each value was the slot of its key, as it is again after an index with a slot for each key; and
by the one that is built from an index. -/
theorem lookups_agree_iff (shm : Bool) (fuel : Nat) (E : FiemapEnv) (x x' : Xal FiemapBe)
    (hx : FiemapReach shm x) (hE : FiemapCall E x) (hN : DirNames E.kernel)
    (h : xalIndex (xalBeFiemapIndex E fuel) x = .ok () x') (path : CStr) :
    (x.store.be.pathInodeMap = some khInit →
      (LookupsAgree E.mountpoint x' path ↔ IndexedAgree E x' path)) ∧
    (x.store.be.pathInodeMap.isSome = true → E.mpInodes.clear = 0 → path ≠ [] →
      (∀ i, ¬PathOf x' path i) →
        (LookupsAgree E.mountpoint x' path ↔ ¬StraysOutside E.mountpoint x' path ∧
          ∀ j, ¬StraysTo E.mountpoint x' path j)) ∧
    (∀ t, OwnKeys x t → t.size + poolReserved < 2 ^ 30 → E.mpInodes.clear = 0 →
      ((∀ i, PathOf x' path i → xalInodeIsFile (x'.store.inodes.memory i) = true →
        E.kernel.fiemapMemory path = true) →
          (LookupsAgree E.mountpoint x' path ↔ IndexedAgree E x' path)) ∧
      ((∀ key, HasKey t key → key < x'.store.inodes.free) →
        ∃ t', OwnKeys x' t' ∧ t'.size ≤ t.size + poolReserved)) ∧
    ∀ (K : Kernel) (khInitPath : Bool) (fuel' : Nat) (x'' : Xal FiemapBe),
      xalBuildLookupHashmap K khInitPath fuel' x' = .ok () x'' →
        (LookupsAgree E.mountpoint x'' path ↔ ¬StraysOutside E.mountpoint x'' path ∧
          ∀ j, ¬StraysTo E.mountpoint x'' path j) ∧
        (E.mpInodes.clear = 0 → ∃ t, OwnKeys x'' t ∧ t.size ≤ poolReserved) := by
  have halive := (hx.index hE h).alive
  obtain ⟨⟨-, -, hroot, -, -⟩, k, hk⟩ := hx.done hE h
  have hslot : E.mpInodes.clear = 0 → x'.rootIdx = 0 := fun hclear => by
    rw [hroot, freeAfterClear, if_pos hclear]
  rw [← hroot] at hk
  have hbe : (beCleared E x.store.be).pathInodeMap = x.store.be.pathInodeMap := by
    unfold beCleared
    split <;> rfl
  exact ⟨fun hmap => indexed_agree_iff hN hk halive (hbe.trans hmap),
    fun hmap hclear => unindexed_agree_iff hN hk halive (hslot hclear) (by rw [hbe, hmap]),
    fun t hown hroom hclear => ⟨refilled_agree_iff hN hk halive (hslot hclear) hbe hown hroom,
      refilled_ownKeys hN hk halive (hslot hclear) hbe hown hroom⟩,
    fun K khInitPath fuel' x'' hbuilt => ⟨built_agree_iff hN hk halive hbuilt,
      fun hclear => built_ownKeys hN hk halive (hslot hclear) hbuilt⟩⟩

/-! ## A file with two extents -/

/-- The files of `/m`, each with two extents. -/
def filesEnv (files : List UInt8) : FiemapEnv :=
  tableEnv (tableKernel [([47, 109], files.map fun c => [c])]
    (files.map fun c => ([47, 109, 47, c], [⟨0, 8192, 1024, 0⟩, ⟨1024, 4096, 1024, 1⟩])))
    [47, 109] smallSb .none 0

/-- The file `/m/a`. -/
abbrev twoExtents : FiemapEnv := filesEnv [97]

/-- The lookups at the path agree. -/
def agreeAt (mountpoint : CStr) (x : Xal FiemapBe) (path : CStr) : Bool :=
  (traversalReads mountpoint x x.rootIdx path).all (· < x.store.inodes.allocated) &&
    (xalGetInode mountpoint x path).toOption ==
      (xalGetInode mountpoint (setPathMap none x) path).toOption

theorem agreeAt_iff {mountpoint : CStr} {x : Xal FiemapBe} {path : CStr} :
    agreeAt mountpoint x path = true ↔ LookupsAgree mountpoint x path := by
  simp only [agreeAt, Bool.and_eq_true, List.all_eq_true, decide_eq_true_eq, beq_iff_eq]
  exact ⟨fun h => ⟨h.1, h.2⟩, fun h => ⟨h.inside, h.same⟩⟩

/-- At the path of the file the lookups agree. Once it has been removed, they do there again; and
once it has been renamed to `/m/b`, they do at this path. -/
theorem lookups_agree_iff_file :
    ∃ x x' x'' y, xalIndex (xalBeFiemapIndex twoExtents 2) (fiemapOpened smallSb true) =
        .ok () x ∧
      xalBuildLookupHashmap twoExtents.kernel true 2 x = .ok () x' ∧
      xalIndex (xalBeFiemapIndex (filesEnv []) 2) x = .ok () x'' ∧
      xalIndex (xalBeFiemapIndex (filesEnv [98]) 2) x = .ok () y ∧
      IndexedAgree twoExtents x [47, 109, 47, 97] ∧
      (¬StraysOutside twoExtents.mountpoint x' [47, 109, 47, 97] ∧
        ∀ j, ¬StraysTo twoExtents.mountpoint x' [47, 109, 47, 97] j) ∧
      (¬StraysOutside twoExtents.mountpoint x'' [47, 109, 47, 97] ∧
        ∀ j, ¬StraysTo twoExtents.mountpoint x'' [47, 109, 47, 97] j) ∧
      IndexedAgree (filesEnv [98]) y [47, 109, 47, 98] := by
  have hrun : (xalIndex (xalBeFiemapIndex twoExtents 2) (fiemapOpened smallSb true)).okWith
      (fun x => (agreeAt twoExtents.mountpoint x [47, 109, 47, 97] &&
        (xalIndex (xalBeFiemapIndex (filesEnv [98]) 2) x).okWith fun y =>
          agreeAt twoExtents.mountpoint y [47, 109, 47, 98]) &&
        ((xalBuildLookupHashmap twoExtents.kernel true 2 x).okWith fun x' =>
          agreeAt twoExtents.mountpoint x' [47, 109, 47, 97]) &&
        (xalIndex (xalBeFiemapIndex (filesEnv []) 2) x).okWith fun x'' =>
          x.store.be.pathInodeMap.isSome && decide (x''.store.inodes.free ≤ x''.rootIdx + 1) &&
            agreeAt twoExtents.mountpoint x'' [47, 109, 47, 97]) = true := by
    decide +kernel
  obtain ⟨_, x, hr, hp⟩ := exists_of_okWith hrun
  rw [Bool.and_eq_true, Bool.and_eq_true, Bool.and_eq_true] at hp
  obtain ⟨_, x', hr', hp'⟩ := exists_of_okWith hp.1.2
  obtain ⟨_, x'', hr'', hp''⟩ := exists_of_okWith hp.2
  obtain ⟨_, y, hy, hpy⟩ := exists_of_okWith hp.1.1.2
  rw [Bool.and_eq_true, Bool.and_eq_true, decide_eq_true_eq] at hp''
  have hnone : ∀ i, ¬PathOf x'' [47, 109, 47, 97] i := fun i hi => by
    have hlt := hi.lt
    have hfree := hi.free
    omega
  have hcall : FiemapCall twoExtents (fiemapOpened smallSb true) := tableEnv_call rfl
  have hx : FiemapReach true x := (fiemapOpened_reach _ _).index hcall hr
  have hsb : x.sb = smallSb := by rw [((fiemapOpened_reach _ _).done hcall hr).kept]; rfl
  have hagree := lookups_agree_iff true 2 twoExtents _ _ (fiemapOpened_reach _ _) hcall
    (tableKernel_dirNames (by decide)) hr [47, 109, 47, 97]
  have hremoved := lookups_agree_iff true 2 (filesEnv []) _ _ hx (tableEnv_call hsb)
    (tableKernel_dirNames (by decide)) hr'' [47, 109, 47, 97]
  have hrenamed := lookups_agree_iff true 2 (filesEnv [98]) _ _ hx (tableEnv_call hsb)
    (tableKernel_dirNames (by decide)) hy [47, 109, 47, 98]
  obtain ⟨t, hown, hsize⟩ := (hagree.2.2.1 khInit (ownKeys_khInit rfl) (by decide) rfl).2
    fun key ⟨i, hi, _⟩ => absurd hi (Nat.not_lt_zero i)
  exact ⟨x, x', x'', y, hr, hr', hr'', hy, (hagree.1 rfl).1 (agreeAt_iff.1 hp.1.1.1),
    (hagree.2.2.2 _ _ _ _ hr').1.1 (agreeAt_iff.1 hp'),
    (hremoved.2.1 hp''.1.1 rfl (by decide) hnone).1 (agreeAt_iff.1 hp''.2),
    ((hrenamed.2.2.1 t hown (Nat.lt_of_le_of_lt (Nat.add_le_add_right hsize _) (by decide))
      rfl).1 fun _ _ _ => rfl).1 (agreeAt_iff.1 hpy)⟩

/-- The paths `/mxa` and `/m/a/a` lead to the file by traversal, and nowhere by the map. And after
`/m/a` has been removed and `/m/b` created, with an index each time, the path `/m/b` leads to the
root by the map, whose key is now the name of the new file. -/
theorem lookups_disagree : FiemapReach true (fiemapOpened smallSb true) ∧
    FiemapCall twoExtents (fiemapOpened smallSb true) ∧ DirNames twoExtents.kernel ∧
    ∃ x x', xalIndex (xalBeFiemapIndex twoExtents 2) (fiemapOpened smallSb true) = .ok () x ∧
      xalBuildLookupHashmap twoExtents.kernel true 2 x = .ok () x' ∧
      (∀ path ∈ [[47, 109, 120, 97], [47, 109, 47, 97, 47, 97]],
        ¬LookupsAgree twoExtents.mountpoint x path ∧
          ¬LookupsAgree twoExtents.mountpoint x' path) ∧
      ∃ y z, xalIndex (xalBeFiemapIndex (filesEnv []) 2) x = .ok () y ∧
        xalIndex (xalBeFiemapIndex (filesEnv [98]) 2) y = .ok () z ∧
        ¬LookupsAgree twoExtents.mountpoint z [47, 109, 47, 98] ∧
        xalGetInode twoExtents.mountpoint z [47, 109, 47, 98] = .ok z.rootIdx := by
  have hrun : (xalIndex (xalBeFiemapIndex twoExtents 2) (fiemapOpened smallSb true)).okWith
      (fun x => ((xalBuildLookupHashmap twoExtents.kernel true 2 x).okWith fun x' =>
        [[47, 109, 120, 97], [47, 109, 47, 97, 47, 97]].all fun path =>
          !agreeAt twoExtents.mountpoint x path && !agreeAt twoExtents.mountpoint x' path) &&
        (xalIndex (xalBeFiemapIndex (filesEnv []) 2) x).okWith fun y =>
          (xalIndex (xalBeFiemapIndex (filesEnv [98]) 2) y).okWith fun z =>
            !agreeAt twoExtents.mountpoint z [47, 109, 47, 98] &&
              match xalGetInode twoExtents.mountpoint z [47, 109, 47, 98] with
              | .ok i => decide (i = z.rootIdx)
              | .error _ => false) = true := by
    decide +kernel
  obtain ⟨_, x, hr, hp⟩ := exists_of_okWith hrun
  rw [Bool.and_eq_true] at hp
  obtain ⟨_, x', hr', hp'⟩ := exists_of_okWith hp.1
  obtain ⟨_, y, hy, hp''⟩ := exists_of_okWith hp.2
  obtain ⟨_, z, hz, hp''⟩ := exists_of_okWith hp''
  rw [Bool.and_eq_true, Bool.not_eq_true'] at hp''
  refine ⟨fiemapOpened_reach _ _, tableEnv_call rfl, tableKernel_dirNames (by decide), x,
    x', hr, hr', fun path hpath => ?_, y, z, hy, hz, fun h => ?_, ?_⟩
  · have hno := List.all_eq_true.1 hp' path hpath
    simp only [Bool.and_eq_true, Bool.not_eq_true'] at hno
    exact ⟨fun h => by simp [agreeAt_iff.2 h] at hno, fun h => by simp [agreeAt_iff.2 h] at hno⟩
  · simp [agreeAt_iff.2 h] at hp''
  · have hroot := hp''.2
    split at hroot
    · rename_i i hi
      rw [hi, of_decide_eq_true hroot]
    · cases hroot

end Xallib
