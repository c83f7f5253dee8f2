import Mathlib.Data.List.TakeWhile
import Xallib.Fiemap.Tree
import Xallib.Xfs.Proof.Mirror

/-!
# The paths of inodes

`xal_inode_path_pp` prints `/` and the name of each inode on the way from the root. The names of an
XFS index are those of the directory entries; the names of a FIEMAP index are full paths.

`inode_paths`: the slots of an index stand for what the file system lists, at the same paths, and
the string printed for a slot is its path (`joinNames`) exactly if the slot is the root's, or the
index is one of the XFS backend and no name on the path holds a zero byte, which ends what is
printed of it.
-/

namespace Xallib

open Lib Lib.Forest Lib.Cm Lib.Run

/-- `'/'` and the name, for each name of a path. -/
def joinNames (names : List CStr) : CStr := names.flatMap (slash :: ·)

theorem joinNames_append (a b : List CStr) : joinNames (a ++ b) = joinNames a ++ joinNames b :=
  List.flatMap_append

theorem joinNames_cons (n : CStr) (names : List CStr) :
    joinNames (n :: names) = slash :: n ++ joinNames names := rfl

section
variable {δ ν : Type} {x : Xal δ} {kids : ν → List ν} {F : XalInode → ν → Prop} {name : ν → CStr}
  {r c : ν} {k : Forest XalInode} {q : List CStr} {i : Nat} {p p' : CStr}

/-- `xal_inode_path_pp` prints `p` for the slot `i`. -/
def PrintsPath (x : Xal δ) (i : Nat) (p : CStr) : Prop :=
  ∀ fuel out, i < fuel → xalInodePathPp x fuel (some i) out = .ok p.length (out ++ p)

theorem PrintsPath.unique (h : PrintsPath x i p) (h' : PrintsPath x i p') : p = p' := by
  have hr := (h (i + 1) [] (Nat.lt_succ_self i)).symm.trans (h' (i + 1) [] (Nat.lt_succ_self i))
  exact (Run.ok.inj hr).2

/-- The slot stands for the node, at a path of the names `name`. -/
abbrev SlotAt (x : Xal δ) (kids : ν → List ν) (name : ν → CStr) (r : ν) :
    List CStr → Nat → ν → Prop :=
  Stands kids name (fun v => (dents v).1) (fun v => (dents v).2) x.store.inodes.memory x.rootIdx r

/-- The slots of an index stand for what `kids` and `name` list below `r`; what is printed for a
slot is its path exactly if `C`. -/
structure PathsOf (x : Xal δ) (kids : ν → List ν) (name : ν → CStr) (r : ν)
    (C : List CStr → Nat → Prop) : Prop where
  every : ∀ i, x.rootIdx ≤ i → i < x.store.inodes.free → ∃ q c, SlotAt x kids name r q i c
  slot : ∀ q i c, SlotAt x kids name r q i c → x.rootIdx ≤ i ∧ i < x.store.inodes.free
  unique : ∀ q i c q' c', SlotAt x kids name r q i c → SlotAt x kids name r q' i c' →
    q' = q ∧ c' = c
  listed : ∀ q c, (∃ i, SlotAt x kids name r q i c) ↔ Found kids name r q c
  prints : ∀ q i c, SlotAt x kids name r q i c → (PrintsPath x i (joinNames q) ↔ C q i)
  same : (∀ q i c, SlotAt x kids name r q i c → C q i) → ∀ p,
    (∃ i, x.rootIdx ≤ i ∧ i < x.store.inodes.free ∧ PrintsPath x i p) ↔
      ∃ q c, Found kids name r q c ∧ p = joinNames q

/-- The inodes of an index, from the root on, stand for the tree below `r`. -/
abbrev IndexOf (x : Xal δ) (kids : ν → List ν) (F : XalInode → ν → Prop) (r : ν)
    (k : Forest XalInode) : Prop :=
  LabelTree kids F (·.parentIdx) (fun v => (dents v).1) (fun v => (dents v).2)
    x.store.inodes.memory x.rootIdx poolIdxNone r k

/-- The names in the inodes, one after the other. -/
theorem prints_of_stands (ht : IndexOf x kids F r k) (hsize : x.rootIdx + 1 + k.size < 2 ^ 32)
    (hname : ∀ q i c, SlotAt x kids name r q i c → i ≠ x.rootIdx →
      printedName (x.store.inodes.memory i) = name c) (hs : SlotAt x kids name r q i c) :
    PrintsPath x i (joinNames q) := by
  induction hs with
  | root =>
    intro fuel out hf
    cases fuel with
    | zero => omega
    | succ fuel =>
      have hroot : (x.store.inodes.memory x.rootIdx).parentIdx = poolIdxNone := ht.placed.2.1.1
      show (if _ then _ else _ : Cm Err CStr Nat) out = _
      rw [if_pos hroot, ret_apply]
      exact congrArg (Run.ok 0) (List.append_nil out).symm
  | @kid q d j c c' hd hj hc ih =>
    intro fuel out hf
    obtain ⟨hpar, hle, hlt⟩ := ht.child_of_stands hd hj
    have hkid := hname _ _ _ (hd.kid hj hc) (by omega)
    have hin := ht.slot_of_stands hd
    cases fuel with
    | zero => omega
    | succ fuel =>
      show (if _ then _ else _ : Cm Err CStr Nat) out = _
      rw [if_neg (by rw [hpar]; simp only [poolIdxNone, UINT32_MAX]; omega), hpar,
        bind_of_ok (ih fuel out (by omega)), modify_bind, ret_apply, hkid, joinNames_append]
      refine congrArg₂ Run.ok ?_ ?_
      · simp [joinNames]
      · simp [joinNames]

/-- A slot that stands for a node is the root's exactly if its path is empty. -/
theorem slotAt_root_iff (ht : IndexOf x kids F r k) (hs : SlotAt x kids name r q i c) :
    i = x.rootIdx ↔ q = [] := by
  rcases hs.cases with ⟨rfl, rfl, -⟩ | ⟨q₀, d, j, c₀, hd, hj, -, rfl, rfl⟩
  · exact iff_of_true rfl rfl
  · obtain ⟨-, hle, hlt⟩ := ht.child_of_stands hd hj
    exact iff_of_false (by omega) (by simp)

theorem IndexOf.pathsOf {C : List CStr → Nat → Prop} (ht : IndexOf x kids F r k)
    (hfree : x.store.inodes.free = x.rootIdx + 1 + k.size)
    (hprints : ∀ q i c, SlotAt x kids name r q i c → (PrintsPath x i (joinNames q) ↔ C q i)) :
    PathsOf x kids name r C := by
  have hevery : ∀ i, x.rootIdx ≤ i → i < x.store.inodes.free →
      ∃ q c, SlotAt x kids name r q i c := by
    intro i h1 h2
    obtain ⟨q, c, hs, -⟩ := ht.stands name h1 (by omega)
    exact ⟨q, c, hs⟩
  have hslot : ∀ q i c, SlotAt x kids name r q i c → x.rootIdx ≤ i ∧ i < x.store.inodes.free := by
    intro q i c hs
    rw [hfree]
    exact ht.slot_of_stands hs
  refine ⟨hevery, hslot, fun q i c q' c' hs => ht.unique hs, fun q c => ht.listed_iff, hprints,
    fun hC p => ?_⟩
  constructor
  · rintro ⟨i, h1, h2, hp⟩
    obtain ⟨q, c, hs⟩ := hevery i h1 h2
    exact ⟨q, c, ht.listed_iff.1 ⟨i, hs⟩, hp.unique ((hprints q i c hs).2 (hC q i c hs))⟩
  · rintro ⟨q, c, hl, rfl⟩
    obtain ⟨i, hs⟩ := ht.listed_iff.2 hl
    obtain ⟨h1, h2⟩ := hslot q i c hs
    exact ⟨i, h1, h2, (hprints q i c hs).2 (hC q i c hs)⟩

end

/-! ## The names that are printed -/

/-- What `printf` puts out of a name. -/
def untilNul (n : CStr) : CStr := n.takeWhile (· ≠ 0)

theorem length_untilNul_le (n : CStr) : (untilNul n).length ≤ n.length :=
  (List.takeWhile_prefix _).length_le

theorem untilNul_eq_iff {n : CStr} : untilNul n = n ↔ 0 ∉ n := by
  rw [untilNul, List.takeWhile_eq_self_iff]
  constructor
  · intro h h0
    simpa using h 0 h0
  · intro h b hb
    simpa using fun h0 : b = 0 => h (h0 ▸ hb)

theorem joinNames_untilNul {q q' : List CStr}
    (h : List.Forall₂ (fun n n' => n' = untilNul n) q q') :
    (joinNames q').length ≤ (joinNames q).length ∧
      (joinNames q = joinNames q' ↔ ∀ n ∈ q, 0 ∉ n) := by
  induction h with
  | nil => exact ⟨Nat.le_refl _, by simp⟩
  | @cons n n' q q' hn _ ih =>
    obtain ⟨hle, hiff⟩ := ih
    subst hn
    have hn := length_untilNul_le n
    simp only [joinNames_cons, List.length_append, List.length_cons, List.forall_mem_cons]
    refine ⟨by omega, fun he => ?_, fun hq => ?_⟩
    · have hlen := congrArg List.length he
      simp only [List.length_append, List.length_cons] at hlen
      obtain ⟨h1, h2⟩ := List.append_inj he (by simp only [List.length_cons]; omega)
      exact ⟨untilNul_eq_iff.1 (List.cons.inj h1).2.symm, hiff.1 h2⟩
    · rw [untilNul_eq_iff.2 hq.1, hiff.2 hq.2]

/-- Longer names make longer paths. -/
theorem joinNames_longer {q q' : List CStr}
    (h : List.Forall₂ (fun n n' => n.length < n'.length) q q') :
    (joinNames q).length ≤ (joinNames q').length ∧
      (q ≠ [] → (joinNames q).length < (joinNames q').length) := by
  induction h with
  | nil => exact ⟨Nat.le_refl _, fun h0 => absurd rfl h0⟩
  | cons hn _ ih =>
    simp only [joinNames_cons, List.length_append, List.length_cons]
    exact ⟨by omega, fun _ => by omega⟩

/-! ## The two backends -/

theorem XfsTree.pathsOf {E : XfsEnv} {x : Xal Buf} {k : Forest XalInode} (ht : XfsTree E x k)
    (hfree : x.store.inodes.free = x.rootIdx + 1 + k.size) (hok : StoreOk x.store) :
    PathsOf x (entryKids E) XalInode.nameBytes (rootEntry E) fun q _ => ∀ n ∈ q, 0 ∉ n := by
  have hlt := hok.free_lt
  refine IndexOf.pathsOf ht hfree fun q i c hs => ?_
  obtain ⟨q', hs', hq⟩ := hs.renamed (fun e => untilNul e.nameBytes) (fun n n' => n' = untilNul n)
    fun _ _ _ => rfl
  have hp : PrintsPath x i (joinNames q') := by
    refine prints_of_stands ht (by omega) (fun q i c hs _ => ?_) hs'
    obtain ⟨hname, hlen, -, -⟩ := (ht.labelAt hs).fact
    rw [printedName, hname, hlen]
    rfl
  rw [← (joinNames_untilNul hq).2]
  exact ⟨fun h => h.unique hp, fun h => h ▸ hp⟩

/-- The stored paths hold no zero byte. -/
theorem CStrings.stored {E : FiemapEnv} (hC : CStrings E) {q : List CStr} {c : FiemapNode}
    (h : FiemapListed E.kernel E.mountpoint q c) : 0 ∉ c.path ∧ 0 ∉ c.stored := by
  induction h with
  | root => exact ⟨hC.mountpoint, List.not_mem_nil⟩
  | @kid q c c' _ hc ih =>
    unfold fiemapKids entriesAt at hc
    by_cases hd : c.dir = true
    · rw [if_pos hd] at hc
      cases hop : E.kernel.opendir c.path with
      | error e => rw [hop] at hc; cases hc
      | ok names =>
        rw [hop] at hc
        obtain ⟨n, hn, rfl⟩ := List.mem_map.1 hc
        have hmem : n ∈ names := (List.mem_filter.1 ((List.mem_insertionSort _).1 hn)).1
        have hpath : 0 ∉ joinPath c.path n := by
          rw [joinPath, List.mem_append, List.mem_cons]
          rintro (h0 | h0 | h0)
          · exact ih.1 h0
          · exact absurd h0 (by decide)
          · exact hC.entry _ _ hop n hmem h0
        exact ⟨hpath, hpath⟩
    · rw [if_neg hd] at hc
      cases hc

/-- The stored path of an entry is longer than its name. -/
theorem fiemapKids_longer {K : Kernel} (c : FiemapNode) :
    ∀ c' ∈ fiemapKids K c, c'.base.length < c'.stored.length := by
  intro c' hc
  unfold fiemapKids at hc
  by_cases hd : c.dir = true
  · rw [if_pos hd] at hc
    obtain ⟨n, -, rfl⟩ := List.mem_map.1 hc
    simp only [fiemapEntry, joinPath, List.length_append, List.length_cons]
    omega
  · rw [if_neg hd] at hc
    cases hc

theorem FiemapTree.pathsOf {E : FiemapEnv} {x : Xal FiemapBe} {k : Forest XalInode}
    (ht : FiemapTree E x k) (hfree : x.store.inodes.free = x.rootIdx + 1 + k.size)
    (hok : StoreOk x.store) (hC : CStrings E) :
    PathsOf x (fiemapKids E.kernel) FiemapNode.base (fiemapRoot E.mountpoint)
      fun _ i => i = x.rootIdx := by
  have hlt := hok.free_lt
  refine IndexOf.pathsOf ht hfree fun q i c hs => ?_
  obtain ⟨q', hs', hq⟩ := hs.renamed FiemapNode.stored (fun n n' => n.length < n'.length)
    fiemapKids_longer
  have hp : PrintsPath x i (joinNames q') := by
    refine prints_of_stands ht (by omega) (fun q i c hs _ => ?_) hs'
    obtain ⟨q₀, hs₀, -⟩ := hs.renamed FiemapNode.base (fun _ _ => True) fun _ _ _ => trivial
    obtain ⟨hname, hlen, -, -, -⟩ := (ht.labelAt hs).fact
    rw [printedName, hname, hlen, List.take_length]
    exact untilNul_eq_iff.2 (hC.stored (ht.listed_iff.1 ⟨i, hs₀⟩)).2
  rw [slotAt_root_iff ht hs]
  constructor
  · intro h
    by_contra h0
    have he := congrArg List.length (h.unique hp)
    have := (joinNames_longer hq).2 h0
    omega
  · rintro rfl
    cases hq
    exact hp

/-- The printed paths are the paths of the listing, exactly under the condition. -/
theorem inode_paths (shm : Bool) (fuel : Nat) :
    (∀ E x x', XfsReach shm x → XfsCall E x → xalIndex (xalBeXfsIndex E fuel) x = .ok () x' →
      PathsOf x' (entryKids E) XalInode.nameBytes (rootEntry E) fun q _ => ∀ n ∈ q, 0 ∉ n) ∧
    ∀ E x x', FiemapReach shm x → FiemapCall E x → CStrings E →
      xalIndex (xalBeFiemapIndex E fuel) x = .ok () x' →
      PathsOf x' (fiemapKids E.kernel) FiemapNode.base (fiemapRoot E.mountpoint)
        fun _ i => i = x'.rootIdx := by
  constructor
  · intro E x x' hx hE hr
    obtain ⟨k, ht, hfree⟩ := xalIndex_xfs_tree hE hx.alive.storeOk hr
    exact ht.pathsOf hfree (hx.rooted hE hr).ok
  · intro E x x' hx hE hC hr
    obtain ⟨⟨hok, -, hroot, -, -⟩, k, hk⟩ := hx.done hE hr
    exact (hk.tree hroot).pathsOf (by rw [hk.free, hroot]) hok hC

/-! ## A tree, and one file -/

theorem tableEnv_cStrings {dirs : List (CStr × List CStr)}
    {files : List (CStr × List FiemapExtent)} {mountpoint : CStr} {sb : XalSb}
    {watchMode : XalWatchmode} {clear : Nat} (hm : 0 ∉ mountpoint)
    (h : ∀ dir ∈ dirs, ∀ n ∈ dir.2, 0 ∉ n) :
    CStrings (tableEnv (tableKernel dirs files) mountpoint sb watchMode clear) where
  mountpoint := hm
  entry path names hop := h (path, names) (tableKernel_opendir hop)

theorem inode_paths_nested :
    (∃ x', xalIndex (xalBeXfsIndex treeDisk 3) (xfsOpened treeDisk.sb) = .ok () x' ∧
      x'.store.inodes.free = 5 ∧
      PathsOf x' (entryKids treeDisk) XalInode.nameBytes (rootEntry treeDisk)
        fun q _ => ∀ n ∈ q, 0 ∉ n) ∧
    ∃ x', xalIndex (xalBeFiemapIndex (treeDir 0) 3) (fiemapOpened (treeDir 0).sb false) =
        .ok () x' ∧
      x'.store.inodes.free = 5 ∧
      PathsOf x' (fiemapKids (treeDir 0).kernel) FiemapNode.base (fiemapRoot (treeDir 0).mountpoint)
        fun _ i => i = x'.rootIdx := by
  constructor
  · have hrun : (xalIndex (xalBeXfsIndex treeDisk 3) (xfsOpened treeDisk.sb)).okWith
        (fun x => x.store.inodes.free == 5) = true := by decide +kernel
    obtain ⟨_, x', hr, hfree⟩ := exists_of_okWith hrun
    exact ⟨x', hr, eq_of_beq hfree, (inode_paths true 3).1 _ _ _ (xfsOpened_reach _)
      (xfsTableEnv_call _ _ _) hr⟩
  · have hrun : (xalIndex (xalBeFiemapIndex (treeDir 0) 3)
        (fiemapOpened (treeDir 0).sb false)).okWith (fun x => x.store.inodes.free == 5) = true := by
      decide +kernel
    obtain ⟨_, x', hr, hfree⟩ := exists_of_okWith hrun
    have hC : CStrings (treeDir 0) := tableEnv_cStrings (by decide) (by decide)
    exact ⟨x', hr, eq_of_beq hfree, (inode_paths true 3).2 _ _ _ (fiemapOpened_reach _ _)
      (tableEnv_call rfl) hC hr⟩

/-- The file `a` below the mountpoint `/m`. -/
def oneFile : FiemapEnv :=
  tableEnv (tableKernel [([47, 109], [[97]])] [([47, 109, 47, 97], [])]) [47, 109] default .none 0

/-- The FIEMAP backend prints `//m/a` for the file `/a`. -/
theorem inode_paths_doubled :
    ∃ x', xalIndex (xalBeFiemapIndex oneFile 2) (fiemapOpened default false) = .ok () x' ∧
      SlotAt x' (fiemapKids oneFile.kernel) FiemapNode.base (fiemapRoot oneFile.mountpoint) [[97]] 1
        (fiemapEntry oneFile.kernel [47, 109] [97]) ∧
      xalInodePathPp x' 2 (some 1) [] = .ok 5 [47, 47, 109, 47, 97] ∧
      joinNames [[97]] = [47, 97] ∧ ¬PrintsPath x' 1 (joinNames [[97]]) := by
  have hrun : (xalIndex (xalBeFiemapIndex oneFile 2) (fiemapOpened default false)).okWith
      (fun x => x.rootIdx == 0 && dents (x.store.inodes.memory 0) == (1, 1) &&
        (xalInodePathPp x 2 (some 1) []).okPair fun n s => n == 5 && s == [47, 47, 109, 47, 97]) =
      true := by decide +kernel
  obtain ⟨_, x', hr, hp⟩ := exists_of_okWith hrun
  simp only [Bool.and_eq_true, beq_iff_eq] at hp
  obtain ⟨⟨hroot, hdents⟩, hprint⟩ := hp
  have hprint : xalInodePathPp x' 2 (some 1) [] = .ok 5 [47, 47, 109, 47, 97] := by
    obtain ⟨n, s, hr, hp⟩ := exists_of_okPair hprint
    simp only [Bool.and_eq_true, beq_iff_eq] at hp
    obtain ⟨rfl, rfl⟩ := hp
    exact hr
  refine ⟨x', hr, ?_, hprint, rfl, fun h => ?_⟩
  · have hroot₀ : SlotAt x' (fiemapKids oneFile.kernel) FiemapNode.base
        (fiemapRoot oneFile.mountpoint) [] 0 (fiemapRoot oneFile.mountpoint) := by
      rw [← hroot]
      exact .root
    have hkid := hroot₀.kid (j := 0) (by rw [hdents]; decide) (by rfl)
    rw [hdents] at hkid
    exact hkid
  · have h2 := h 2 [] (by decide)
    rw [hprint] at h2
    exact absurd (Run.ok.inj h2).1 (by decide)

end Xallib
