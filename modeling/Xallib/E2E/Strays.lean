import Xallib.E2E.Lookup

/-!
# Where the lookup by traversal strays

Over an index, `PathOf x path i` says that the inode in slot `i` is stored under the path. The
traversal finds it, but it also strays (`StraysTo`, `StraysOutside`): it does not look at the
character behind the mountpoint, and it searches below a regular file, whose extents it takes for
dentries. Apart from that it finds nothing (`traversal_eq_some_iff`).
-/

namespace Xallib

open Lib Lib.Forest Lib.Cm Lib.Run

/-- An inode other than the root, by the path that is stored for it. -/
structure PathOf (x : Xal FiemapBe) (path : CStr) (i : Nat) : Prop where
  lt : x.rootIdx < i
  free : i < x.store.inodes.free
  name : (x.store.inodes.memory i).name = path

section
variable (mountpoint : CStr) (x : Xal FiemapBe) (path : CStr)

/-- The path is longer than the mountpoint and one more character, and begins with the
mountpoint. -/
structure BelowMountpoint : Prop where
  length : mountpoint.length + 1 < path.length
  starts : path.take mountpoint.length = mountpoint

/-- The path leads on behind the regular file in slot `f`, with the components `b`. -/
structure BelowFile (f : Nat) (b : List CStr) : Prop extends BelowMountpoint mountpoint path where
  ne_nil : b ≠ []
  file : xalInodeIsFile (x.store.inodes.memory f) = true
  split : ∃ a, (path.drop (mountpoint.length + 1)).splitOn slash = a ++ b ∧
    PathOf x (mountpoint ++ joinNames a) f

/-- The traversal takes the path for that of slot `j` (module doc). -/
inductive StraysTo (j : Nat) : Prop
  | separator : BelowMountpoint mountpoint path → path[mountpoint.length]? ≠ some slash →
      PathOf x (mountpoint ++ slash :: path.drop (mountpoint.length + 1)) j → StraysTo j
  | file {f : Nat} {b : List CStr} : BelowFile mountpoint x path f b →
      searchComponents x f b = some j → StraysTo j

/-- The traversal reads beyond the mapped part of the pool, below a regular file. -/
def StraysOutside : Prop :=
  ∃ f b, BelowFile mountpoint x path f b ∧ ∃ i ∈ searchReads x f b, x.store.inodes.allocated ≤ i

end

/-! ## Paths -/

/-- The components of a string, each behind a `'/'`. -/
theorem joinNames_splitOn (s : CStr) : joinNames (s.splitOn slash) = slash :: s := by
  induction s with
  | nil => rfl
  | cons c s ih =>
    rw [List.splitOn_cons_eq_if_modifyHead]
    by_cases hc : c = slash
    · rw [if_pos (by simpa using hc), joinNames_cons, ih, hc]
      rfl
    · rw [if_neg (by simpa using hc)]
      cases hs : s.splitOn slash with
      | nil => exact absurd hs (List.splitOn_ne_nil _ _)
      | cons n rest =>
        rw [hs, joinNames_cons, List.cons_append] at ih
        rw [List.modifyHead_cons, joinNames_cons, List.cons_append, List.cons_append,
          (List.cons.inj ih).2]

theorem no_slash_splitOn (s : CStr) : ∀ n ∈ s.splitOn slash, slash ∉ n := by
  induction s with
  | nil =>
    intro n hn
    rw [List.splitOn_nil, List.mem_singleton] at hn
    rw [hn]
    exact List.not_mem_nil
  | cons c s ih =>
    rw [List.splitOn_cons_eq_if_modifyHead]
    by_cases hc : c = slash
    · rw [if_pos (by simpa using hc), List.forall_mem_cons]
      exact ⟨List.not_mem_nil, ih⟩
    · rw [if_neg (by simpa using hc)]
      cases hs : s.splitOn slash with
      | nil => exact absurd hs (List.splitOn_ne_nil _ _)
      | cons n rest =>
        rw [hs, List.forall_mem_cons] at ih
        rw [List.modifyHead_cons, List.forall_mem_cons, List.mem_cons, not_or]
        exact ⟨⟨fun h => hc h.symm, ih.1⟩, ih.2⟩

/-- Names that join to the same path are the same. -/
theorem joinNames_injective {q q' : List CStr} (hq : ∀ n ∈ q, slash ∉ n)
    (hq' : ∀ n ∈ q', slash ∉ n) (h : joinNames q = joinNames q') : q = q' := by
  cases q with
  | nil =>
    cases q' with
    | nil => rfl
    | cons n q' => exact absurd h (List.cons_ne_nil _ _).symm
  | cons n q =>
    cases q' with
    | nil => exact absurd h (List.cons_ne_nil _ _)
    | cons n' q' =>
      rw [← splitOn_joinNames (List.cons_ne_nil n q) hq, h,
        splitOn_joinNames (List.cons_ne_nil n' q') hq']

theorem BelowMountpoint.eq_append {mountpoint path : CStr} (h : BelowMountpoint mountpoint path)
    (hslash : path[mountpoint.length]? = some slash) :
    mountpoint ++ slash :: path.drop (mountpoint.length + 1) = path := by
  obtain ⟨hlt, hget⟩ := List.getElem?_eq_some_iff.1 hslash
  rw [← hget, ← List.drop_eq_getElem_cons hlt]
  nth_rewrite 1 [← h.starts]
  exact List.take_append_drop _ _

/-! ## What is stored -/

section
variable {E : FiemapEnv} {x : Xal FiemapBe} {k : Forest XalInode} {q : List CStr} {i j : Nat}
  {c : FiemapNode} {path : CStr}

/-- What is listed below is listed in a directory. -/
theorem slotAt_prefix {a : List CStr} (hs : FiemapAt E x q i c) :
    ∀ {b : List CStr}, q = a ++ b → b ≠ [] →
      ∃ d c', FiemapAt E x a d c' ∧ (x.store.inodes.memory d).ftype = ftDir := by
  induction hs with
  | root =>
    intro b hq hb
    exact absurd (List.append_eq_nil_iff.1 hq.symm).2 hb
  | @kid q d j c c' hd hj _ ih =>
    intro b hq hb
    have hdir : (x.store.inodes.memory d).ftype = ftDir := by
      by_contra hne
      rw [dents_of_ne hne] at hj
      exact absurd hj (Nat.not_lt_zero _)
    rw [← List.dropLast_append_getLast hb, ← List.append_assoc] at hq
    obtain ⟨hq, -⟩ := List.append_inj' hq rfl
    by_cases hb' : b.dropLast = []
    · rw [hb', List.append_nil] at hq
      exact ⟨d, c, hq ▸ hd, hdir⟩
    · exact ih hq hb'

variable (hN : DirNames E.kernel) (ht : FiemapTree E x k)
  (hfree : x.store.inodes.free = x.rootIdx + 1 + k.size)
include hN ht hfree

/-- A stored path is that of a listing. -/
theorem PathOf.listed (h : PathOf x path i) : ∃ q c, q ≠ [] ∧ (∀ n ∈ q, n ≠ [] ∧ slash ∉ n) ∧
    path = E.mountpoint ++ joinNames q ∧ FiemapAt E x q i c := by
  have hlt := h.lt
  have hi := h.free
  rw [hfree] at hi
  obtain ⟨q, c, hs, hat⟩ := ht.stands FiemapNode.base (Nat.le_of_lt hlt) hi
  have hq : q ≠ [] := by
    intro h0
    have hroot := (slotAt_root_iff ht hs).2 h0
    omega
  have hl := ht.listed_iff.1 ⟨i, hs⟩
  obtain ⟨hpath, hnames⟩ := listed_path hN hl
  refine ⟨q, c, hq, hnames, ?_, hs⟩
  rw [← h.name, hat.fact.name, listed_stored hl hq, hpath]

/-- The paths of the inodes are those of the listing. -/
theorem pathOf_iff (hq : ∀ n ∈ q, slash ∉ n) :
    PathOf x (E.mountpoint ++ joinNames q) i ↔ q ≠ [] ∧ ∃ c, FiemapAt E x q i c := by
  constructor
  · intro h
    obtain ⟨q', c, hne, hnames, hpath, hs⟩ := h.listed hN ht hfree
    obtain rfl := joinNames_injective hq (fun n hn => (hnames n hn).2)
      (List.append_cancel_left hpath)
    exact ⟨hne, c, hs⟩
  · rintro ⟨hne, c, hs⟩
    have hl := ht.listed_iff.1 ⟨i, hs⟩
    have hin := ht.slot_of_stands hs
    have hroot : i ≠ x.rootIdx := fun h0 => hne ((slotAt_root_iff ht hs).1 h0)
    refine ⟨by omega, by omega, ?_⟩
    rw [(ht.labelAt hs).fact.name, listed_stored hl hne, (listed_path hN hl).1]

theorem PathOf.ne_nil (h : PathOf x path i) : path ≠ [] := by
  obtain ⟨q, c, hq, -, rfl, -⟩ := h.listed hN ht hfree
  obtain ⟨n, q, rfl⟩ := List.exists_cons_of_ne_nil hq
  simp [joinNames_cons]

theorem PathOf.unique (h : PathOf x path i) (h' : PathOf x path j) : i = j := by
  obtain ⟨q, c, hq, hnames, rfl, hs⟩ := h.listed hN ht hfree
  obtain ⟨-, c', hs'⟩ := (pathOf_iff hN ht hfree fun n hn => (hnames n hn).2).1 h'
  have hfound := searchComponents_stands hN ht hs
  rw [searchComponents_stands hN ht hs'] at hfound
  exact (Option.some.inj hfound).symm

end

/-! ## What the traversal finds -/

section
variable {E : FiemapEnv} {x : Xal FiemapBe} {k : Forest XalInode} {q : List CStr} {i j f : Nat}
  {c : FiemapNode} {path : CStr}

theorem searchReads_append (a b : List CStr) : ∀ search, searchReads x search (a ++ b) =
    searchReads x search a ++ match searchComponents x search a with
      | none => []
      | some found => searchReads x found b := by
  induction a with
  | nil => exact fun _ => rfl
  | cons component a ih =>
    intro search
    show _ ++ _ = (_ ++ _) ++ match (bsearchChild x search component).bind _ with
      | none => []
      | some found => searchReads x found b
    cases bsearchChild x search component with
    | none => simp
    | some child =>
      simp only [List.append_eq, ih, List.append_assoc]
      rfl

variable (hN : DirNames E.kernel) (ht : FiemapTree E x k)
include hN ht

/-- The search from a slot on arrives at what is listed, or runs into a file. -/
theorem searchComponents_cases (rest : List CStr) : ∀ {q : List CStr} {i : Nat} {c : FiemapNode},
    FiemapAt E x q i c → searchComponents x i rest = some j →
      (∃ c', FiemapAt E x (q ++ rest) j c') ∨ ∃ a b f c', rest = a ++ b ∧ b ≠ [] ∧
        FiemapAt E x (q ++ a) f c' ∧ xalInodeIsFile (x.store.inodes.memory f) = true ∧
          searchComponents x f b = some j := by
  induction rest with
  | nil =>
    intro q i c hs h
    obtain rfl := Option.some.inj h
    exact .inl ⟨c, by rwa [List.append_nil]⟩
  | cons n rest ih =>
    intro q i c hs h
    rcases (ht.labelAt hs).fact.kind with ⟨hdir, -⟩ | ⟨hfile, -⟩
    · obtain ⟨child, hchild, h'⟩ := Option.bind_eq_some_iff.1 h
      obtain ⟨j', hj', rfl⟩ := (bsearchChild_eq_some_iff hN ht hs hdir).1 hchild
      rcases ih (dentry_stands hN ht hs hdir hj').1 h' with
        ⟨c', hs'⟩ | ⟨a, b, f, c', rfl, hb, hs', hf, hj⟩
      · rw [List.append_assoc] at hs'
        exact .inl ⟨c', hs'⟩
      · rw [List.append_assoc] at hs'
        exact .inr ⟨n :: a, b, f, c', rfl, hb, hs', hf, hj⟩
    · exact .inr ⟨[], n :: rest, i, c, rfl, List.cons_ne_nil _ _, by rwa [List.append_nil],
        by simp [xalInodeIsFile, hfile], h⟩

/-- It reads dentries, or runs into a file. -/
theorem searchReads_cases (rest : List CStr) : ∀ {q : List CStr} {i : Nat} {c : FiemapNode},
    FiemapAt E x q i c → j ∈ searchReads x i rest →
      j < x.rootIdx + 1 + k.size ∨ ∃ a b f c', rest = a ++ b ∧ b ≠ [] ∧
        FiemapAt E x (q ++ a) f c' ∧ xalInodeIsFile (x.store.inodes.memory f) = true ∧
          j ∈ searchReads x f b := by
  induction rest with
  | nil =>
    intro q i c _ h
    cases h
  | cons n rest ih =>
    intro q i c hs h
    rcases (ht.labelAt hs).fact.kind with ⟨hdir, -⟩ | ⟨hfile, -⟩
    · rcases List.mem_append.1 h with h | h
      · obtain ⟨m, hm, rfl⟩ := List.mem_map.1 h
        have hlt := lt_of_mem_probesFrom hm
        obtain ⟨-, hcount⟩ := dir_dents ht hs hdir
        have hn := List.getElem?_eq_getElem (hcount ▸ hlt)
        exact .inl (ht.slot_of_stands (dentry_stands hN ht hs hdir hn).1).2
      · cases hchild : bsearchChild x i n with
        | none =>
          rw [hchild] at h
          cases h
        | some child =>
          rw [hchild] at h
          obtain ⟨j', hj', rfl⟩ := (bsearchChild_eq_some_iff hN ht hs hdir).1 hchild
          rcases ih (dentry_stands hN ht hs hdir hj').1 h with
            hlt | ⟨a, b, f, c', rfl, hb, hs', hf, hj⟩
          · exact .inl hlt
          · rw [List.append_assoc] at hs'
            exact .inr ⟨n :: a, b, f, c', rfl, hb, hs', hf, hj⟩
    · exact .inr ⟨[], n :: rest, i, c, rfl, List.cons_ne_nil _ _, by rwa [List.append_nil],
        by simp [xalInodeIsFile, hfile], h⟩

end

theorem searchByTraversal_eq_some_iff {mountpoint : CStr} {x : Xal FiemapBe} {root j : Nat}
    {path : CStr} :
    (searchByTraversal mountpoint x root path).toOption = some j ↔ BelowMountpoint mountpoint path ∧
      searchComponents x root ((path.drop (mountpoint.length + 1)).splitOn slash) = some j := by
  unfold searchByTraversal
  by_cases hlen : path.length ≤ mountpoint.length + 1
  · rw [if_pos hlen]
    refine iff_of_false (fun h => nomatch h) fun h => ?_
    have := h.1.length
    omega
  by_cases hpre : path.take mountpoint.length = mountpoint
  · rw [if_neg hlen, if_neg (not_not.2 hpre)]
    have hbelow : BelowMountpoint mountpoint path := ⟨by omega, hpre⟩
    cases searchComponents x root ((path.drop (mountpoint.length + 1)).splitOn slash) with
    | none => exact iff_of_false (fun h => nomatch h) fun h => nomatch h.2
    | some found => exact (and_iff_right hbelow).symm
  · rw [if_neg hlen, if_pos hpre]
    exact iff_of_false (fun h => nomatch h) fun h => hpre h.1.starts

theorem mem_traversalReads {mountpoint : CStr} {x : Xal FiemapBe} {root j : Nat} {path : CStr} :
    j ∈ traversalReads mountpoint x root path ↔ BelowMountpoint mountpoint path ∧
      j ∈ searchReads x root ((path.drop (mountpoint.length + 1)).splitOn slash) := by
  unfold traversalReads
  by_cases hlen : path.length ≤ mountpoint.length + 1
  · rw [if_pos hlen]
    refine iff_of_false List.not_mem_nil fun h => ?_
    have := h.1.length
    omega
  by_cases hpre : path.take mountpoint.length = mountpoint
  · rw [if_neg hlen, if_neg (not_not.2 hpre)]
    have hbelow : BelowMountpoint mountpoint path := ⟨by omega, hpre⟩
    exact (and_iff_right hbelow).symm
  · rw [if_neg hlen, if_pos hpre]
    exact iff_of_false List.not_mem_nil fun h => hpre h.1.starts

section
variable {E : FiemapEnv} {x : Xal FiemapBe} {k : Forest XalInode} {i j f : Nat} {path : CStr}
  {b : List CStr} (hN : DirNames E.kernel) (ht : FiemapTree E x k)
  (hfree : x.store.inodes.free = x.rootIdx + 1 + k.size)
include hN ht hfree

theorem belowFile_iff : BelowFile E.mountpoint x path f b ↔ BelowMountpoint E.mountpoint path ∧
    ∃ a c, (path.drop (E.mountpoint.length + 1)).splitOn slash = a ++ b ∧ b ≠ [] ∧
      FiemapAt E x a f c ∧ xalInodeIsFile (x.store.inodes.memory f) = true := by
  have hno := no_slash_splitOn (path.drop (E.mountpoint.length + 1))
  constructor
  · rintro ⟨hbelow, hb, hfile, a, hsplit, hpath⟩
    rw [hsplit] at hno
    obtain ⟨-, c, hs⟩ :=
      (pathOf_iff hN ht hfree fun n hn => hno n (List.mem_append_left b hn)).1 hpath
    exact ⟨hbelow, a, c, hsplit, hb, hs, hfile⟩
  · rintro ⟨hbelow, a, c, hsplit, hb, hs, hfile⟩
    rw [hsplit] at hno
    refine ⟨hbelow, hb, hfile, a, hsplit,
      (pathOf_iff hN ht hfree fun n hn => hno n (List.mem_append_left b hn)).2 ⟨?_, c, hs⟩⟩
    -- the root is a directory
    rintro rfl
    obtain rfl := (slotAt_root_iff ht hs).2 rfl
    obtain ⟨-, rfl⟩ := ht.unique hs .root
    rcases (ht.labelAt hs).fact.kind with ⟨hdir, -⟩ | ⟨-, hdir, -⟩
    · rw [xalInodeIsFile, hdir] at hfile
      exact absurd hfile (by decide)
    · cases hdir

/-- The traversal finds the inode of the path, or strays. -/
theorem traversal_eq_some_iff : (searchByTraversal E.mountpoint x x.rootIdx path).toOption =
    some j ↔
    PathOf x path j ∨ StraysTo E.mountpoint x path j := by
  have hno := no_slash_splitOn (path.drop (E.mountpoint.length + 1))
  rw [searchByTraversal_eq_some_iff]
  constructor
  · rintro ⟨hbelow, hsearch⟩
    rcases searchComponents_cases hN ht _ Stands.root hsearch with
      ⟨c, hs⟩ | ⟨a, b, f, c, hsplit, hb, hs, hf, hj⟩
    · have hpath := (pathOf_iff hN ht hfree hno).2 ⟨List.splitOn_ne_nil _ _, c, hs⟩
      rw [joinNames_splitOn] at hpath
      by_cases hslash : path[E.mountpoint.length]? = some slash
      · rw [hbelow.eq_append hslash] at hpath
        exact .inl hpath
      · exact .inr (.separator hbelow hslash hpath)
    · exact .inr (.file ((belowFile_iff hN ht hfree).2 ⟨hbelow, a, c, hsplit, hb, hs, hf⟩) hj)
  · rintro (h | ⟨hbelow, -, hpath⟩ | ⟨hfile, hj⟩)
    · obtain ⟨q, c, hq, hnames, rfl, hs⟩ := h.listed hN ht hfree
      rw [← searchByTraversal_eq_some_iff,
        searchByTraversal_joinNames hq hnames (searchComponents_stands hN ht hs)]
      rfl
    · rw [← joinNames_splitOn] at hpath
      obtain ⟨-, c, hs⟩ := (pathOf_iff hN ht hfree hno).1 hpath
      exact ⟨hbelow, searchComponents_stands hN ht hs⟩
    · obtain ⟨hbelow, a, c, hsplit, -, hs, -⟩ := (belowFile_iff hN ht hfree).1 hfile
      rw [hsplit, searchComponents_append, searchComponents_stands hN ht hs]
      exact ⟨hbelow, hj⟩

/-- It reads beyond the mapped part of the pool only below a file. -/
theorem traversal_outside_iff (hmapped : x.store.inodes.free ≤ x.store.inodes.allocated) :
    (∃ i ∈ traversalReads E.mountpoint x x.rootIdx path, x.store.inodes.allocated ≤ i) ↔
      StraysOutside E.mountpoint x path := by
  constructor
  · rintro ⟨i, hi, hout⟩
    obtain ⟨hbelow, hi⟩ := mem_traversalReads.1 hi
    rcases searchReads_cases hN ht _ Stands.root hi with hlt | ⟨a, b, f, c, hsplit, hb, hs, hf, hi⟩
    · omega
    · exact ⟨f, b, (belowFile_iff hN ht hfree).2 ⟨hbelow, a, c, hsplit, hb, hs, hf⟩, i, hi, hout⟩
  · rintro ⟨f, b, hfile, i, hi, hout⟩
    obtain ⟨hbelow, a, c, hsplit, -, hs, -⟩ := (belowFile_iff hN ht hfree).1 hfile
    refine ⟨i, mem_traversalReads.2 ⟨hbelow, ?_⟩, hout⟩
    rw [hsplit, searchReads_append, searchComponents_stands hN ht hs]
    exact List.mem_append_right _ hi

/-- A path of an inode does not lead behind a file. -/
theorem PathOf.not_belowFile (h : PathOf x path i) : ¬BelowFile E.mountpoint x path f b := by
  intro hfile
  obtain ⟨-, a, c, hsplit, hb, hs, hf⟩ := (belowFile_iff hN ht hfree).1 hfile
  obtain ⟨q, c', hq, hnames, rfl, hs'⟩ := h.listed hN ht hfree
  rw [← List.drop_drop, List.drop_left, splitOn_joinNames hq fun n hn => (hnames n hn).2] at hsplit
  obtain ⟨d, c'', hd, hdir⟩ := slotAt_prefix hs' hsplit hb
  have hfound := searchComponents_stands hN ht hs
  rw [searchComponents_stands hN ht hd] at hfound
  obtain rfl := Option.some.inj hfound
  rw [xalInodeIsFile, hdir] at hf
  exact absurd hf (by decide)

theorem PathOf.not_strays (h : PathOf x path i) : ¬StraysTo E.mountpoint x path j ∧
    ¬StraysOutside E.mountpoint x path := by
  constructor
  · rintro (⟨-, hslash, -⟩ | ⟨hfile, -⟩)
    · obtain ⟨q, c, hq, -, rfl, -⟩ := h.listed hN ht hfree
      obtain ⟨n, q, rfl⟩ := List.exists_cons_of_ne_nil hq
      exact hslash (by simp [joinNames_cons])
    · exact h.not_belowFile hN ht hfree hfile
  · rintro ⟨f, b, hfile, -⟩
    exact h.not_belowFile hN ht hfree hfile

end

end Xallib
