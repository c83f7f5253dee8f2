import Xallib.Fiemap.Tree

/-!
# A file system without some of its entries

`K.without other` is the operating system `K` on the same file system from which the entries at the
paths `other` have been removed. Where there are none in the directories that are reached
(`CleanBelow`), indexing does the same on both (`processInoFiemap_without`).
-/

namespace Xallib

open Lib Lib.Forest Lib.Cm Lib.Run

/-- `readdir` leaves out the entries `other`; `stat` and the ioctl answer as before. -/
def Kernel.without (K : Kernel) (other : CStr → Bool) : Kernel :=
  { K with opendir := fun path =>
      (K.opendir path).map fun names => names.filter fun n => !other (joinPath path n) }

def FiemapEnv.without (E : FiemapEnv) (other : CStr → Bool) : FiemapEnv :=
  { E with kernel := E.kernel.without other }

/-- No entry of a directory is among those to be removed. -/
def CleanDir (K : Kernel) (other : CStr → Bool) (path : CStr) : Prop :=
  ∀ n ∈ entriesAt K path, other (joinPath path n) = false

/-- The same of all directories that are listed below the node, when these entries are left out. -/
def CleanBelow (K : Kernel) (other : CStr → Bool) (r : FiemapNode) : Prop :=
  ∀ q c, Found (fiemapKids (K.without other)) FiemapNode.base r q c → c.dir = true →
    CleanDir K other c.path

variable {K : Kernel} {other : CStr → Bool}

theorem opendir_without_ok {path : CStr} {names : List CStr} (h : K.opendir path = .ok names) :
    (K.without other).opendir path = .ok (names.filter fun n => !other (joinPath path n)) := by
  show (K.opendir path).map _ = _
  rw [h]
  rfl

theorem opendir_without_error {path : CStr} {e : Nat} (h : K.opendir path = .error e) :
    (K.without other).opendir path = .error e := by
  show (K.opendir path).map _ = _
  rw [h]
  rfl

theorem entriesAt_ok {path : CStr} {names : List CStr} (h : K.opendir path = .ok names) :
    entriesAt K path = sortEntries names := by rw [entriesAt, h]

theorem entriesAt_error {path : CStr} {e : Nat} (h : K.opendir path = .error e) :
    entriesAt K path = [] := by rw [entriesAt, h]

theorem mem_sortEntries {names : List CStr} {n : CStr} :
    n ∈ sortEntries names ↔ n ∈ names ∧ isDirectoryMember n = true := by
  rw [sortEntries, List.mem_insertionSort, List.mem_filter]

theorem mem_entriesAt_without {path n : CStr} : n ∈ entriesAt (K.without other) path ↔
    n ∈ entriesAt K path ∧ other (joinPath path n) = false := by
  cases hop : K.opendir path with
  | error e =>
    rw [entriesAt_error hop, entriesAt_error (opendir_without_error hop)]
    simp
  | ok names =>
    rw [entriesAt_ok hop, entriesAt_ok (opendir_without_ok hop), mem_sortEntries, mem_sortEntries,
      List.mem_filter]
    simp only [Bool.not_eq_true']
    tauto

/-- Leaving out what is not there. -/
theorem sortEntries_without {path : CStr} {names : List CStr} (hop : K.opendir path = .ok names)
    (hc : CleanDir K other path) :
    sortEntries (names.filter fun n => !other (joinPath path n)) = sortEntries names := by
  have hmem : ∀ n ∈ names.filter isDirectoryMember, (!other (joinPath path n)) = true := by
    intro n hn
    obtain ⟨h1, h2⟩ := List.mem_filter.1 hn
    rw [hc n (by rw [entriesAt_ok hop, mem_sortEntries]; exact ⟨h1, h2⟩)]
    rfl
  rw [sortEntries, sortEntries, List.filter_comm, List.filter_eq_self.2 hmem]

theorem mem_fiemapKids {c c' : FiemapNode} : c' ∈ fiemapKids K c ↔
    c.dir = true ∧ ∃ n ∈ entriesAt K c.path, c' = fiemapEntry K c.path n := by
  unfold fiemapKids
  by_cases hd : c.dir = true
  · rw [if_pos hd]
    simp [hd, List.mem_map, eq_comm]
  · rw [if_neg hd]
    simp [hd]

/-- What is listed without the entries is listed with them. -/
theorem listed_of_without {r c : FiemapNode} {q : List CStr}
    (h : Found (fiemapKids (K.without other)) FiemapNode.base r q c) :
    Found (fiemapKids K) FiemapNode.base r q c := by
  induction h with
  | root => exact .root
  | @kid q c c' _ hc ih =>
    obtain ⟨hd, n, hn, rfl⟩ := mem_fiemapKids.1 hc
    exact ih.kid (mem_fiemapKids.2 ⟨hd, n, (mem_entriesAt_without.1 hn).1, rfl⟩)

/-- Where there is nothing to be left out, the same is listed. -/
theorem listed_without {r c : FiemapNode} {q : List CStr} (hr : CleanBelow K other r)
    (h : Found (fiemapKids K) FiemapNode.base r q c) :
    Found (fiemapKids (K.without other)) FiemapNode.base r q c ∧
      (q = [] ∨ other c.path = false) := by
  induction h with
  | root => exact ⟨.root, .inl rfl⟩
  | @kid q c c' _ hc ih =>
    obtain ⟨hd, n, hn, rfl⟩ := mem_fiemapKids.1 hc
    have hclean := hr q c ih.1 hd n hn
    exact ⟨ih.1.kid (mem_fiemapKids.2 ⟨hd, n, mem_entriesAt_without.2 ⟨hn, hclean⟩, rfl⟩),
      .inr hclean⟩

theorem CleanBelow.dir {r : FiemapNode} (h : CleanBelow K other r) (hd : r.dir = true) :
    CleanDir K other r.path := h [] r .root hd

theorem CleanBelow.entry {r : FiemapNode} {n : CStr} (h : CleanBelow K other r)
    (hd : r.dir = true) (hn : n ∈ entriesAt K r.path) :
    CleanBelow K other (fiemapEntry K r.path n) := by
  intro q c hc
  refine h (n :: q) c (hc.under (r := r) ?_)
  exact mem_fiemapKids.2 ⟨hd, n, mem_entriesAt_without.2 ⟨hn, h.dir hd n hn⟩, rfl⟩

/-! ## The two runs -/

section
variable {E : FiemapEnv} {path : CStr} {s : Store FiemapBe} {self : Nat}
  {procIno procIno' : CStr → Nat → Fm Unit}
  (hproc : ∀ path {d : Nat} {s : Store FiemapBe}, Ready d s →
    IndexesAs E path d s (procIno path d s))
include hproc

/-- The loops over the entries do the same if their rounds do, on slots that have no type yet. -/
theorem processEntries_congr {inode base : Nat} (entries : List CStr) :
    ∀ {j : Nat} {s : Store FiemapBe}, AtEntry inode base j entries.length s →
      (∀ n ∈ entries, ∀ d t, Ready d t → (t.inodes.memory d).ftype = 0 →
        procIno (joinPath path n) d t = procIno' (joinPath path n) d t) →
      processEntries procIno path inode entries s =
        processEntries procIno' path inode entries s := by
  induction entries with
  | nil => intros; rfl
  | cons n entries ih =>
    intro j s h hsame
    by_cases hmax : (joinPath path n).length ≤ pathMaxlen
    · rw [h.processEntries hmax, h.processEntries hmax]
      refine bind_congr_ok (hsame n List.mem_cons_self _ _ (h.ready _)
        (by rw [entryState_dentry h.ne]; rfl)) fun _ s₁ hs₁ => ?_
      have hspec := hproc (joinPath path n) (h.ready (joinPath path n))
      rw [IndexesAs, entryState_parent h.ne] at hspec
      obtain ⟨k, hk⟩ := hspec.ok hs₁
      exact ih (h.next hmax hk) fun m hm => hsame m (List.mem_cons_of_mem _ hm)
    · rw [processEntries_long hmax, processEntries_long hmax]

theorem processInodeDir_without (hI : E.mpInodes.Bounded poolReserved inodeNbytes)
    (h : Ready self s) (hft : (s.inodes.memory self).ftype = ftDir)
    (hc : CleanDir E.kernel other path)
    (hsame : ∀ n ∈ entriesAt E.kernel path, ∀ d t, Ready d t → (t.inodes.memory d).ftype = 0 →
      procIno (joinPath path n) d t = procIno' (joinPath path n) d t) :
    xalBeFiemapProcessInodeDir E procIno path self s =
      xalBeFiemapProcessInodeDir (E.without other) procIno' path self s := by
  unfold xalBeFiemapProcessInodeDir
  rw [inodeAt_bind, inodeAt_bind]
  refine bind_congr_ok rfl fun _ s₀ hs₀ => ?_
  obtain ⟨-, rfl⟩ := failIf_ok.1 hs₀
  refine bind_congr_ok rfl fun _ s₁ hs₁ => ?_
  obtain rfl := (watchDir_spec hft).ok hs₁
  cases hop : E.kernel.opendir path with
  | error e =>
    have hop' : (E.without other).kernel.opendir path = .error e := opendir_without_error hop
    rw [hop']
  | ok names =>
    have hop' : (E.without other).kernel.opendir path = .ok _ := opendir_without_ok hop
    rw [hop']
    refine bind_congr_ok rfl fun _ s₂ hs₂ => ?_
    obtain ⟨-, rfl⟩ := failIf_ok.1 hs₂
    show _ = (onInodes (xalPoolClaimInodes E.mpInodes (sortEntries _).length) >>= _) _
    rw [sortEntries_without hop hc]
    refine bind_congr_ok rfl fun idx s₃ hs₃ => ?_
    have hok₁ : StoreOk { s₀ with be := { s₀.be with
        inodeMap := watchInode E path (s₀.inodes.memory self) self s₀.be.inodeMap } } :=
      ⟨h.ok.inodes, h.ok.extents⟩
    obtain ⟨hok, rfl, hfree, hmem, -, -⟩ := (onInodes_claim hI hok₁ _).ok hs₃
    have hlt := h.lt
    simp only at hfree hmem
    rw [setInode_bind, setInode_bind]
    refine bind_congr_ok (processEntries_congr hproc (sortEntries names)
      ⟨hok.putInode (by omega) _, hlt, by rw [putInode_same], by rw [putInode_free]; omega,
        fun i h1 h2 => ?_⟩ fun n hn => hsame n ?_) fun _ _ _ => rfl
    · rw [putInode_other _ _ _ (by omega), hmem]
      exact h.ok.inodes.clean i (by omega)
    · rw [entriesAt_ok hop]
      exact hn

end

/-- Files do not depend on the entries of directories. -/
theorem storeExtents_without (E : FiemapEnv) (extents : Nat → FiemapExtent) (extentIdx n : Nat) :
    ∀ i, storeExtents (E.without other) extents extentIdx n i =
      storeExtents E extents extentIdx n i := by
  induction n with
  | zero => exact fun _ => rfl
  | succ n ih => exact fun i => congrArg (_ >>= ·) (funext fun _ => ih (i + 1))

theorem processInodeFile_without (E : FiemapEnv) (path : CStr) (inode : Nat) :
    xalBeFiemapProcessInodeFile (E.without other) path inode =
      xalBeFiemapProcessInodeFile E path inode := by
  have hstore : storeReported (E.without other) = storeReported E := by
    funext inode mapped extents
    unfold storeReported
    simp only [storeExtents_without]
    rfl
  unfold xalBeFiemapProcessInodeFile
  rw [hstore]
  rfl

section
variable {E : FiemapEnv} (hI : E.mpInodes.Bounded poolReserved inodeNbytes)
  (hX : E.mpExtents.Bounded poolReserved extentNbytes)
include hI hX

/-- The part of it once the type is known. -/
theorem processTyped_without {fuel : Nat} {c : FiemapNode} {st : Stat} {self : Nat}
    {s : Store FiemapBe} (hc : CleanBelow E.kernel other c) (h : Ready self s)
    (hdir : (s.inodes.memory self).ftype = ftDir → c.dir = true)
    (ih : ∀ (c : FiemapNode) {self : Nat} {s : Store FiemapBe}, CleanBelow E.kernel other c →
      Ready self s → (s.inodes.memory self).ftype = ftDir ∧ c.dir = true ∨
        (s.inodes.memory self).ftype = 0 ∧ c.dir = isDirAt E.kernel c.path →
      processInoFiemap E fuel c.path self s =
        processInoFiemap (E.without other) fuel c.path self s) :
    processTyped E (processInoFiemap E fuel) st c.path self s =
      processTyped (E.without other) (processInoFiemap (E.without other) fuel) st c.path
        self s := by
  unfold processTyped
  rw [setInode_bind, setInode_bind, inodeAt_bind, inodeAt_bind, putInode_same]
  by_cases hd : (s.inodes.memory self).ftype = ftDir
  · rw [if_pos hd, if_pos hd]
    have hf : Ready self (s.putInode self { s.inodes.memory self with
        ino := st.stIno, size := st.stSize }) :=
      h.put h.blank
    refine processInodeDir_without (processInoFiemap_spec hI hX fuel) hI hf
      (by rw [putInode_same]; exact hd) (hc.dir (hdir hd)) fun n hn d t ht h0 => ?_
    exact ih (fiemapEntry E.kernel c.path n) (hc.entry (hdir hd) hn) ht (.inr ⟨h0, rfl⟩)
  · rw [if_neg hd, if_neg hd, processInodeFile_without]

/-- Indexing a node below which there is nothing to be left out. -/
theorem processInoFiemap_without (fuel : Nat) :
    ∀ (c : FiemapNode) {self : Nat} {s : Store FiemapBe}, CleanBelow E.kernel other c →
      Ready self s → (s.inodes.memory self).ftype = ftDir ∧ c.dir = true ∨
        (s.inodes.memory self).ftype = 0 ∧ c.dir = isDirAt E.kernel c.path →
      processInoFiemap E fuel c.path self s =
        processInoFiemap (E.without other) fuel c.path self s := by
  induction fuel with
  | zero => intros; rfl
  | succ fuel ih =>
    intro c self s hc h hdir
    cases hst : E.kernel.stat c.path with
    | error e =>
      have hst' : (E.without other).kernel.stat c.path = .error e := hst
      simp only [processInoFiemap, hst, hst']
    | ok st =>
      have hst' : (E.without other).kernel.stat c.path = .ok st := hst
      simp only [processInoFiemap, hst, hst']
      rcases hdir with ⟨hd, hcd⟩ | ⟨h0, hcd⟩
      · have hne : (s.inodes.memory self).ftype ≠ 0 := by rw [hd]; decide
        rw [bind_of_ok (deriveFtype_known hne), bind_of_ok (deriveFtype_known hne)]
        exact processTyped_without hI hX hc h (fun _ => hcd) ih
      · rw [isDirAt, hst] at hcd
        have hput : ∀ ft, (ft = ftDir → c.dir = true) →
            processTyped E (processInoFiemap E fuel) st c.path self
                (s.putInode self { s.inodes.memory self with ftype := ft }) =
              processTyped (E.without other) (processInoFiemap (E.without other) fuel)
                st c.path self
                (s.putInode self { s.inodes.memory self with ftype := ft }) := by
          intro ft hft
          refine processTyped_without hI hX hc (h.put h.blank) ?_ ih
          rw [putInode_same]
          exact hft
        by_cases hd : isDirMode st.stMode = true
        · rw [bind_of_ok (deriveFtype_dir h0 hd), bind_of_ok (deriveFtype_dir h0 hd)]
          exact hput ftDir fun _ => hcd.trans hd
        · by_cases hr : isRegMode st.stMode = true
          · rw [bind_of_ok (deriveFtype_reg h0 hd hr), bind_of_ok (deriveFtype_reg h0 hd hr)]
            exact hput ftRegFile fun h1 => absurd h1 (by decide)
          · rw [bind_of_fail (deriveFtype_fail h0 hd hr), bind_of_fail (deriveFtype_fail h0 hd hr)]

end

end Xallib
