import Xallib.Fiemap.Proof.Open
import Xallib.Fiemap.Tree
import Xallib.Lib.Below

/-!
# The entries that are counted, and the inodes of an index

`retrieve_total_entries` trusts `d_type`, the index `stat`: a link to a directory, or a directory of
a file system without `d_type`, is indexed with all that is below it, and counted as one entry.
`total_entries_indexed`: the number counted is at most that of the inodes below the root, and equal
to it exactly where every directory with entries has the `d_type` of one.
-/

namespace Xallib

open Lib Lib.Cm Lib.Run

/-- A node that `retrieve_total_entries` may be called with: its calls do not fail. -/
def Answered (K : Kernel) (c : FiemapNode) : Prop :=
  (∃ st, K.stat c.path = .ok st ∧ isDirMode st.stMode = c.dir) ∧
    (c.dir = true → ∃ names, K.opendir c.path = .ok names)

/-- The `d_type` of the node. -/
def FiemapOpenEnv.enters (E : FiemapOpenEnv) (c : FiemapNode) : Bool := E.isDtDir c.path

variable {E : FiemapOpenEnv} {s : FiemapOpening}

/-- Sorting does not matter for the number. -/
theorem listed_sortEntries (enter : FiemapNode → Bool) (g : FiemapNode → Nat) (path : CStr)
    (names : List CStr) :
    listed enter g ((sortEntries names).map (fiemapEntry E.kernel path)) =
      listed enter g ((names.filter isDirectoryMember).map (fiemapEntry E.kernel path)) :=
  listed_perm g ((List.perm_insertionSort _ _).map _)

theorem countEntries_apply {total : CStr → Fo Int} {path : CStr} {g : FiemapNode → Nat}
    (names : List CStr) (htotal : ∀ n ∈ names, isDirectoryMember n = true → ∀ t,
      g (fiemapEntry E.kernel path n) < 2 ^ 31 →
      total (joinPath path n) t = .ok (g (fiemapEntry E.kernel path n) : Int) t) :
    ∀ count : Nat, count + listed E.enters g ((names.filter isDirectoryMember).map
        (fiemapEntry E.kernel path)) < 2 ^ 31 →
      countEntries E total path names count (s.streams 1) = .ok
        ((count + listed E.enters g ((names.filter isDirectoryMember).map
          (fiemapEntry E.kernel path)) : Nat) : Int) s := by
  induction names with
  | nil =>
    intro count _
    unfold countEntries
    rw [bind_of_ok (release_stream s), ret_apply]
    rfl
  | cons n names ih =>
    intro count hlt
    rw [List.forall_mem_cons] at htotal
    have ih := ih htotal.2
    unfold countEntries
    cases hn : isDirectoryMember n with
    | false =>
      rw [if_pos rfl]
      rw [List.filter_cons, hn, if_neg Bool.false_ne_true] at hlt ⊢
      exact ih count hlt
    | true =>
      rw [if_neg (by decide)]
      rw [List.filter_cons, hn, if_pos rfl, List.map_cons, listed_cons] at hlt ⊢
      have henters : E.enters (fiemapEntry E.kernel path n) = E.isDtDir (joinPath path n) := rfl
      rw [henters] at hlt ⊢
      cases hdt : E.isDtDir (joinPath path n) with
      | false =>
        rw [hdt, if_neg Bool.false_ne_true] at hlt
        rw [if_neg Bool.false_ne_true, if_neg Bool.false_ne_true,
          bind_of_ok (assert_true (by omega) _)]
        have := ih (count + 1) (by omega)
        rw [Nat.cast_succ] at this
        rw [this]
        congr 2
        omega
      | true =>
        rw [hdt, if_pos rfl] at hlt
        rw [if_pos rfl, if_pos rfl, bind_of_ok (assert_true (by omega) _),
          bind_of_ok (htotal.1 hn _ (by omega)), if_neg (by omega),
          bind_of_ok (assert_true (by omega) _)]
        have := ih (count + 1 + g (fiemapEntry E.kernel path n)) (by omega)
        rw [Nat.cast_add, Nat.cast_succ] at this
        rw [this]
        congr 2
        omega

/-- Where no call fails, and nothing overflows, what is counted is what is listed below the node. -/
theorem retrieveTotalEntries_apply (n : Nat) : ∀ (c : FiemapNode) (s : FiemapOpening),
    HasDepth (fiemapKids E.kernel) n c →
    (∀ b, Linked (fiemapKids E.kernel) c b → Answered E.kernel b) →
    below (fiemapKids E.kernel) E.enters n c < 2 ^ 31 →
    retrieveTotalEntries E n c.path s = .ok (below (fiemapKids E.kernel) E.enters n c : Int) s := by
  induction n with
  | zero => exact fun _ _ h => h.elim
  | succ n ih =>
    intro c s hdepth hall hlt
    obtain ⟨⟨st, hst, hmode⟩, hopen⟩ := hall c .refl
    unfold retrieveTotalEntries
    rw [hst]
    rw [below] at hlt ⊢
    show (if isDirMode st.stMode = false then _ else _ : Fo Int) s = _
    cases hdir : c.dir with
    | false =>
      rw [hmode, hdir, if_pos rfl, fiemapKids, hdir, if_neg Bool.false_ne_true]
      rfl
    | true =>
      obtain ⟨names, hnames⟩ := hopen hdir
      have hkids : fiemapKids E.kernel c =
          (sortEntries names).map (fiemapEntry E.kernel c.path) := by
        rw [fiemapKids, if_pos hdir, entriesAt, hnames]
      have hkid (m : CStr) (hm : m ∈ names) (hmember : isDirectoryMember m = true) :
          fiemapEntry E.kernel c.path m ∈ fiemapKids E.kernel c := by
        rw [hkids]
        refine List.mem_map_of_mem ?_
        rw [sortEntries, List.mem_insertionSort, List.mem_filter]
        exact ⟨hm, hmember⟩
      rw [hmode, hdir, if_neg (by decide), hnames]
      show (acquire .dirStream >>= _) s = _
      rw [bind_of_ok (acquire_stream s)]
      rw [hkids, listed_sortEntries] at hlt ⊢
      have hloop := countEntries_apply (s := s) names (fun m hm hmember t hsmall =>
        ih (fiemapEntry E.kernel c.path m) t (hdepth _ (hkid m hm hmember))
          (fun b hb => hall b (.head (hkid m hm hmember) hb)) hsmall) 0 (by omega)
      rw [Nat.zero_add] at hloop
      exact hloop

/-- A node of an index is one its directory reports. -/
theorem IsNode.answered {K : Kernel} {sb : XalSb} {X : Nat → XalExtent} {v : XalInode}
    {c : FiemapNode} (h : IsNode K sb X v c) (hdir : c.dir = isDirAt K c.path) : Answered K c := by
  obtain ⟨st, hst, -⟩ := h.stat
  refine ⟨⟨st, hst, ?_⟩, fun h0 => ?_⟩
  · rw [hdir, isDirAt, hst]
  · rcases h.kind with ⟨-, -, hop⟩ | ⟨-, hno, -⟩
    · exact hop
    · exact absurd (h0.symm.trans hno) (by decide)

theorem FiemapTree.answered {F : FiemapEnv} {y : Xal FiemapBe} {k : Forest XalInode}
    (h : FiemapTree F y k) (hdir : isDirAt F.kernel F.mountpoint = true) {c : FiemapNode}
    (hc : Linked (fiemapKids F.kernel) (fiemapRoot F.mountpoint) c) : Answered F.kernel c := by
  obtain ⟨q, hq⟩ := (found_iff_linked FiemapNode.base).2 hc
  obtain ⟨i, hs⟩ := h.listed_iff.2 hq
  refine (h.labelAt hs).fact.answered ?_
  cases hq with
  | root => exact hdir.symm
  | @kid q b c _ hb =>
    rw [fiemapKids] at hb
    split at hb
    · obtain ⟨n, -, rfl⟩ := List.mem_map.1 hb
      rfl
    · exact absurd hb List.not_mem_nil

/-- After a successful index: `retrieve_total_entries` on the same file system returns a number that
is not larger than that of the inodes below the root. -/
theorem total_entries_indexed {shm : Bool} {F : FiemapEnv} {x y : Xal FiemapBe} {fuel : Nat}
    (hx : FiemapReach shm x) (hF : FiemapCall F x)
    (hr : xalIndex (xalBeFiemapIndex F fuel) x = .ok () y) (hK : E.kernel = F.kernel)
    (hdir : isDirAt F.kernel F.mountpoint = true) {n : Nat} (hn : y.store.inodes.free ≤ n)
    (s : FiemapOpening) : ∃ total : Nat,
      retrieveTotalEntries E n F.mountpoint s = .ok (total : Int) s ∧
      y.rootIdx + 1 + total ≤ y.store.inodes.free ∧
      (y.rootIdx + 1 + total = y.store.inodes.free ↔ ∀ q c, q ≠ [] →
        FiemapListed F.kernel F.mountpoint q c → fiemapKids F.kernel c ≠ [] →
          E.isDtDir c.path = true) := by
  obtain ⟨⟨hok, -, hroot, -, -⟩, k, hk⟩ := hx.done hF hr
  have htree := hk.tree hroot
  have hfree : y.store.inodes.free = y.rootIdx + 1 + k.size := by rw [hk.free, hroot]
  have hbound : y.store.inodes.free ≤ poolReserved :=
    hok.inodes.free_le.trans hok.inodes.allocated_le
  unfold poolReserved at hbound
  obtain ⟨m, rfl⟩ : ∃ m, n = m + 1 := ⟨n - 1, by omega⟩
  obtain ⟨r, rest, hcons, -, hkids, hrest⟩ := htree.labels
  obtain ⟨rfl, rfl⟩ := List.cons.inj hcons
  obtain ⟨hle, heq⟩ := hkids.listed_below E.enters (by omega : k.size ≤ m)
  have hdepth : HasDepth (fiemapKids F.kernel) (m + 1) (fiemapRoot F.mountpoint) :=
    hkids.hasDepth (by omega)
  rw [← hK] at hdepth hle heq
  have htotal := retrieveTotalEntries_apply (E := E) (m + 1) (fiemapRoot F.mountpoint) s hdepth
    (fun b hb => by rw [hK] at hb ⊢; exact htree.answered hdir hb) (by rw [below]; omega)
  refine ⟨_, htotal, by rw [below]; omega, ?_⟩
  rw [below]
  constructor
  · intro h q c hq hc hne
    obtain ⟨c₀, h₀, hl⟩ := (found_below_iff FiemapNode.base).1 ⟨q, hq, hc⟩
    rw [← hK] at h₀ hl hne
    exact heq.1 (by omega) c₀ h₀ c hl hne
  · intro h
    have := heq.2 fun c₀ h₀ c hl hne => ?_
    · omega
    · rw [hK] at h₀ hl hne
      obtain ⟨q, hq, hc⟩ := (found_below_iff FiemapNode.base).2 ⟨c₀, h₀, hl⟩
      exact h q c hq hc hne

/-- The file `/m/a/b`. -/
def untypedDir : FiemapEnv := tableEnv
  (tableKernel [([47, 109], [[97]]), ([47, 109, 47, 97], [[98]])] [([47, 109, 47, 97, 47, 98], [])])
  [47, 109] default .none 0

/-- Its file system, without `d_type`. -/
def untypedEntries : FiemapOpenEnv := { watchedOpenEnv with kernel := untypedDir.kernel }

/-- The file is not counted. -/
theorem total_entries_indexed_untyped : ∃ y total : _,
    xalIndex (xalBeFiemapIndex untypedDir 3) (fiemapOpened default false) = .ok () y ∧
    retrieveTotalEntries untypedEntries 3 [47, 109] beforeOpening =
      .ok ((total : Nat) : Int) beforeOpening ∧ total + 1 < y.store.inodes.free := by
  have hrun : (xalIndex (xalBeFiemapIndex untypedDir 3) (fiemapOpened default false)).okWith
      (fun y => decide (y.store.inodes.free ≤ 3)) = true := by decide +kernel
  obtain ⟨_, y, hr, hn⟩ := exists_of_okWith hrun
  obtain ⟨total, htotal, hle, heq⟩ := total_entries_indexed (E := untypedEntries)
    (fiemapOpened_reach default false) (tableEnv_call rfl) hr rfl (by decide +kernel)
    (of_decide_eq_true hn) beforeOpening
  refine ⟨y, total, hr, htotal, ?_⟩
  have hne : y.rootIdx + 1 + total ≠ y.store.inodes.free := by
    intro h0
    have hmem : fiemapEntry untypedDir.kernel [47, 109] [97] ∈
        fiemapKids untypedDir.kernel (fiemapRoot [47, 109]) := List.mem_singleton.2 rfl
    have hdir := heq.1 h0 _ _ (List.cons_ne_nil _ _) (Found.root.kid hmem)
      (List.cons_ne_nil (fiemapEntry untypedDir.kernel [47, 109, 47, 97] [98]) [])
    exact Bool.false_ne_true hdir
  omega

end Xallib
