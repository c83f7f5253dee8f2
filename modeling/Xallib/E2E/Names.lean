import Xallib.E2E.Lookup
import Xallib.Fiemap.Proof.Prune

/-!
# The names an index copies

`process_inode_dir` copies the path of each entry to the field `name` with `strcpy`, which does not
look at the length. `IndexCopies`: the strings that an index copies, up to one that is too long for
the field. They are paths that the operating system lists (`indexCopies_listed`), and an index that
returns 0 has copied all of these. `names_intact`: no name is written beyond its field, and all are
stored as they are, if no listed path is too long; for an index that nothing else stops, exactly
then.
-/

namespace Xallib

open Lib Lib.Forest Lib.Cm Lib.Run

/-! ## What is copied -/

section
variable (E : FiemapEnv)

/-- What the loop over the entries copies: the path of an entry, and what its processing copies. -/
def EntryCopies (procIno : CStr → Nat → Fm Unit)
    (copies : CStr → Nat → Store FiemapBe → CStr → Prop) (path : CStr) (inode : Nat) :
    List CStr → Store FiemapBe → CStr → Prop
  | [], _, _ => False
  | entryName :: entries, s, p =>
    let content := (s.inodes.memory inode).content
    let dentry := content.idx + content.count
    let dentryPath := joinPath path entryName
    p = dentryPath ∨ dentryPath.length ≤ pathMaxlen ∧ ∃ s₁,
      (do
        setInode dentry fun d => { d with
          name := dentryPath, namelen := dentryPath.length, parentIdx := inode }
        setInode inode fun v => { v with
          content := { v.content with count := (v.content.count + 1) % 2 ^ 32 } }) s = .ok () s₁ ∧
      (copies dentryPath dentry s₁ p ∨ ∃ s₂, procIno dentryPath dentry s₁ = .ok () s₂ ∧
        EntryCopies procIno copies path inode entries s₂ p)

/-- The part of `xal_be_fiemap_process_inode_dir` before the loop. -/
def openDir (path : CStr) (inode : Nat) : Fm (List CStr) := do
  let v ← inodeAt inode
  failIf (xalInodeIsDir v = false) ⟨.argument, -EINVAL⟩
  watchDir E path inode
  match E.kernel.opendir path with
  | .error errno => Cm.fail ⟨.opendir, -(errno : Int)⟩
  | .ok names => do
    failIf (E.kernel.dirMemory path = false) ⟨.memory, -ENOMEM⟩
    let entries := sortEntries names
    let idx ← onInodes (xalPoolClaimInodes E.mpInodes entries.length)
    setInode inode fun v => { v with content := ⟨idx, 0⟩ }
    pure entries

/-- What the processing of an inode copies. -/
def InodeCopies : Nat → CStr → Nat → Store FiemapBe → CStr → Prop
  | 0, _, _, _, _ => False
  | fuel + 1, path, self, s, p => ∃ st s₁ entries s₂, E.kernel.stat path = .ok st ∧
      deriveFtype st.stMode self s = .ok () s₁ ∧ (s₁.inodes.memory self).ftype = ftDir ∧
      openDir E path self (s₁.putInode self { s₁.inodes.memory self with
        ino := st.stIno, size := st.stSize }) = .ok entries s₂ ∧
      EntryCopies (processInoFiemap E fuel) (InodeCopies fuel) path self entries s₂ p

/-- The part of `xal_be_fiemap_index` before the root is processed. -/
def openIndex : Cm Err (Xal FiemapBe) Nat := do
  onStore (ignore (onInodes (xalPoolClear E.mpInodes)))
  onStore (ignore (onExtents (xalPoolClear E.mpExtents)))
  onStore (clearInodeMap E)
  let rootIdx ← onStore (onInodes (xalPoolClaimInodes E.mpInodes 1))
  modify fun xal => { xal with rootIdx }
  onStore (setInode rootIdx (initRoot E.sb))
  pure rootIdx

/-- What an index copies. -/
def IndexCopies (fuel : Nat) (x : Xal FiemapBe) (p : CStr) : Prop :=
  x.sharedView = false ∧ E.mountpoint ≠ [] ∧ ∃ rootIdx x₁,
    openIndex E (addSeqLock x) = .ok rootIdx x₁ ∧ InodeCopies E fuel E.mountpoint rootIdx x₁.store p

/-- These parts are what comes first. -/
theorem processInodeDir_openDir (procIno : CStr → Nat → Fm Unit) (path : CStr) (inode : Nat)
    (s : Store FiemapBe) : xalBeFiemapProcessInodeDir E procIno path inode s =
      (openDir E path inode >>= fun entries => do
        processEntries procIno path inode entries
        putPath E inode) s := by
  unfold xalBeFiemapProcessInodeDir openDir
  rw [bind_assoc_apply]
  refine bind_congr_apply s fun v s₁ => ?_
  rw [bind_assoc_apply]
  refine bind_congr_apply s₁ fun _ s₂ => ?_
  rw [bind_assoc_apply]
  refine bind_congr_apply s₂ fun _ s₃ => ?_
  cases E.kernel.opendir path with
  | error e => rfl
  | ok names =>
    rw [bind_assoc_apply]
    refine bind_congr_apply s₃ fun _ s₄ => ?_
    rw [bind_assoc_apply]
    exact bind_congr_apply s₄ fun _ s₅ => rfl

theorem fiemapIndexBody_openIndex (fuel : Nat) (x : Xal FiemapBe) : fiemapIndexBody E fuel x =
    (openIndex E >>= fun rootIdx => do
      onStore (processInoFiemap E fuel E.mountpoint rootIdx)
      modify fun xal => { xal with dirty := false }) x := by
  unfold fiemapIndexBody openIndex
  rw [bind_assoc_apply]
  refine bind_congr_apply x fun _ x₁ => ?_
  rw [bind_assoc_apply]
  refine bind_congr_apply x₁ fun _ x₂ => ?_
  rw [bind_assoc_apply]
  refine bind_congr_apply x₂ fun _ x₃ => ?_
  rw [bind_assoc_apply]
  exact bind_congr_apply x₃ fun _ x₄ => rfl

end

/-! ## A name that is too long -/

section
variable {E : FiemapEnv} {p : CStr} (hlong : pathMaxlen < p.length)
include hlong

theorem entryCopies_crash {procIno : CStr → Nat → Fm Unit}
    {copies : CStr → Nat → Store FiemapBe → CStr → Prop} {path : CStr} {inode : Nat}
    (hcopies : ∀ path d s, copies path d s p → procIno path d s = .crash) (entries : List CStr) :
    ∀ {s : Store FiemapBe}, EntryCopies procIno copies path inode entries s p →
      processEntries procIno path inode entries s = .crash := by
  induction entries with
  | nil => exact fun h => h.elim
  | cons n entries ih =>
    rintro s (rfl | ⟨hmax, s₁, hs₁, h⟩)
    · exact processEntries_long (by omega)
    rw [setInode_bind, setInode_apply] at hs₁
    obtain ⟨-, hs₁⟩ := Run.ok.inj hs₁
    rw [processEntries, inodeAt_bind, bind_of_ok (assert_true hmax s), setInode_bind,
      setInode_bind, hs₁]
    rcases h with h | ⟨s₂, hs₂, h⟩
    · exact bind_of_crash (hcopies _ _ _ h)
    · rw [bind_of_ok hs₂]
      exact ih h

theorem inodeCopies_crash (fuel : Nat) : ∀ (path : CStr) (self : Nat) (s : Store FiemapBe),
    InodeCopies E fuel path self s p → processInoFiemap E fuel path self s = .crash := by
  induction fuel with
  | zero => exact fun _ _ _ h => h.elim
  | succ fuel ih =>
    rintro path self s ⟨st, s₁, entries, s₂, hst, hftype, hd, hopen, h⟩
    simp only [processInoFiemap, hst]
    rw [bind_of_ok hftype, processTyped, setInode_bind, inodeAt_bind, putInode_same, if_pos hd,
      processInodeDir_openDir, bind_of_ok hopen]
    exact bind_of_crash (entryCopies_crash hlong ih _ h)

/-- An index that copies a name that is too long does not come back. -/
theorem indexCopies_crash {fuel : Nat} {x : Xal FiemapBe} (h : IndexCopies E fuel x p) :
    xalIndex (xalBeFiemapIndex E fuel) x = .crash := by
  obtain ⟨hview, hmount, rootIdx, x₁, hopen, hcopies⟩ := h
  have hbody : fiemapIndexBody E fuel (addSeqLock x) = .crash := by
    rw [fiemapIndexBody_openIndex, bind_of_ok hopen]
    exact bind_of_crash (zoom_of_crash (inodeCopies_crash hlong fuel _ _ _ hcopies))
  have hmount : E.mountpoint.length ≠ 0 := fun h0 => hmount (List.length_eq_zero_iff.1 h0)
  rw [xalIndex, read_bind, bind_of_ok (failIf_false (by rw [hview]; exact Bool.false_ne_true) _ _),
    xalBeFiemapIndex, bind_of_ok (failIf_false hmount _ _), modify_bind, onExit, hbody]

end

/-! ## Names that are copied are listed -/

section
variable {E : FiemapEnv} {path p : CStr} {s : Store FiemapBe} {self : Nat}
  {procIno : CStr → Nat → Fm Unit} {copies : CStr → Nat → Store FiemapBe → CStr → Prop}
  (hproc : ∀ path {d : Nat} {s : Store FiemapBe}, Ready d s →
    IndexesAs E path d s (procIno path d s))
include hproc

/-- The loop copies the paths of its entries, and what their processing copies on slots without a
type. -/
theorem entryCopies_cases {inode base : Nat} (entries : List CStr) :
    ∀ {j : Nat} {s : Store FiemapBe}, AtEntry inode base j entries.length s →
      EntryCopies procIno copies path inode entries s p → ∃ n ∈ entries, p = joinPath path n ∨
        ∃ d t, Ready d t ∧ (t.inodes.memory d).ftype = 0 ∧ copies (joinPath path n) d t p := by
  induction entries with
  | nil => exact fun _ h => h.elim
  | cons n entries ih =>
    intro j s h hcopies
    have hbound := h.ok.free_lt
    have hroom : base + j + (entries.length + 1) ≤ s.inodes.free := h.room
    have hblank := h.blank (base + j) (Nat.le_refl _) (by rw [List.length_cons]; omega)
    rcases hcopies with hp | ⟨hmax, s₁, hs₁, hcopies⟩
    · exact ⟨n, List.mem_cons_self, .inl hp⟩
    rw [h.content] at hs₁ hcopies
    have hstate : s₁ = entryState s inode (base + j) (joinPath path n) ⟨base, j + 1⟩ := by
      rw [setInode_bind, setInode_apply, putInode_other _ _ _ h.ne, hblank, h.content,
        Nat.mod_eq_of_lt (by omega : j + 1 < 2 ^ 32)] at hs₁
      exact (Run.ok.inj hs₁).2.symm
    subst hstate
    rcases hcopies with hcopies | ⟨s₂, hs₂, hcopies⟩
    · exact ⟨n, List.mem_cons_self, .inr ⟨_, _, h.ready _, by rw [entryState_dentry h.ne]; rfl,
        hcopies⟩⟩
    · have hspec := hproc (joinPath path n) (h.ready (joinPath path n))
      rw [IndexesAs, entryState_parent h.ne] at hspec
      obtain ⟨k, hk⟩ := hspec.ok hs₂
      obtain ⟨m, hm, hcase⟩ := ih (h.next hmax hk) hcopies
      exact ⟨m, List.mem_cons_of_mem _ hm, hcase⟩

omit hproc in
/-- A directory is opened: the loop begins with the entries that it lists. -/
theorem openDir_ok (hI : E.mpInodes.Bounded poolReserved inodeNbytes) (h : Ready self s)
    (hft : (s.inodes.memory self).ftype = ftDir) {entries : List CStr} {s₂ : Store FiemapBe}
    (hr : openDir E path self s = .ok entries s₂) :
    entries = entriesAt E.kernel path ∧ ∃ base, AtEntry self base 0 entries.length s₂ := by
  unfold openDir at hr
  rw [inodeAt_bind] at hr
  obtain ⟨-, hr⟩ := failIf_bind_ok.1 hr
  obtain ⟨_, s₁, hwatch, hr⟩ := bind_ok.1 hr
  obtain rfl := (watchDir_spec hft).ok hwatch
  cases hop : E.kernel.opendir path with
  | error e => rw [hop] at hr; cases hr
  | ok names =>
    rw [hop] at hr
    obtain ⟨-, hr⟩ := failIf_bind_ok.1 hr
    obtain ⟨idx, s₃, hclaim, hr⟩ := bind_ok.1 hr
    have hok₁ : StoreOk { s with be := { s.be with
        inodeMap := watchInode E path (s.inodes.memory self) self s.be.inodeMap } } :=
      ⟨h.ok.inodes, h.ok.extents⟩
    obtain ⟨hok, rfl, hfree, hmem, -, -⟩ := (onInodes_claim hI hok₁ _).ok hclaim
    have hlt := h.lt
    simp only at hfree hmem
    rw [setInode_bind] at hr
    obtain ⟨rfl, rfl⟩ := Run.ok.inj hr
    refine ⟨(entriesAt_ok hop).symm, s.inodes.free, hok.putInode (by omega) _, hlt, ?_, ?_,
      fun i h1 h2 => ?_⟩
    · rw [putInode_same]
    · rw [putInode_free]
      omega
    · rw [putInode_other _ _ _ (by omega), hmem]
      exact h.ok.inodes.clean i (by omega)

end

section
variable {E : FiemapEnv} {p : CStr} (hI : E.mpInodes.Bounded poolReserved inodeNbytes)
  (hX : E.mpExtents.Bounded poolReserved extentNbytes)
include hI hX

/-- What is copied for a node is the path of a node below it. -/
theorem inodeCopies_listed (fuel : Nat) : ∀ (c : FiemapNode) {self : Nat} {s : Store FiemapBe},
    Ready self s → (s.inodes.memory self).ftype = ftDir ∧ c.dir = true ∨
      (s.inodes.memory self).ftype = 0 ∧ c.dir = isDirAt E.kernel c.path →
    InodeCopies E fuel c.path self s p →
    ∃ q c', Found (fiemapKids E.kernel) FiemapNode.base c q c' ∧ c'.stored = p := by
  induction fuel with
  | zero => exact fun _ _ _ _ _ h => h.elim
  | succ fuel ih =>
    rintro c self s h hdir ⟨st, s₁, entries, s₂, hst, hftype, hd, hopen, hcopies⟩
    have h₁ := h.deriveFtype hftype
    have hcd : c.dir = true := by
      rcases hdir with ⟨-, hcd⟩ | ⟨h0, hcd⟩
      · exact hcd
      · rw [deriveFtype_ok hftype, putInode_same, if_neg (not_not.2 h0)] at hd
        rw [hcd, isDirAt, hst]
        by_contra hmode
        rw [if_neg hmode] at hd
        revert hd
        by_cases hreg : isRegMode st.stMode = true <;> simp [hreg, ftDir, ftRegFile]
    have hready : Ready self (s₁.putInode self { s₁.inodes.memory self with
        ino := st.stIno, size := st.stSize }) := h₁.put h₁.blank
    obtain ⟨rfl, base, hat⟩ := openDir_ok hI hready (by rw [putInode_same]; exact hd) hopen
    obtain ⟨n, hn, hp | ⟨d, t, ht, h0, hc⟩⟩ :=
      entryCopies_cases (processInoFiemap_spec hI hX fuel) _ hat hcopies
    · have hkid : fiemapEntry E.kernel c.path n ∈ fiemapKids E.kernel c :=
        mem_fiemapKids.2 ⟨hcd, n, hn, rfl⟩
      exact ⟨[n], _, Found.root.kid hkid, hp.symm⟩
    · have hkid : fiemapEntry E.kernel c.path n ∈ fiemapKids E.kernel c :=
        mem_fiemapKids.2 ⟨hcd, n, hn, rfl⟩
      obtain ⟨q, c', hl, hp⟩ := ih (fiemapEntry E.kernel c.path n) ht (.inr ⟨h0, rfl⟩) hc
      exact ⟨_, c', hl.under hkid, hp⟩

end

section
variable {E : FiemapEnv} {x x' : Xal FiemapBe} {p : CStr} {fuel : Nat}

/-- The root is ready to be processed. -/
theorem openIndex_ok (hE : FiemapCall E x) (hok : StoreOk x.store) {rootIdx : Nat}
    {x₁ : Xal FiemapBe}
    (hr : openIndex E x = .ok rootIdx x₁) :
    Ready rootIdx x₁.store ∧ (x₁.store.inodes.memory rootIdx).ftype = ftDir := by
  unfold openIndex at hr
  obtain ⟨_, y₁, h₁, hr⟩ := bind_ok.1 hr
  obtain ⟨s₁, hc₁, rfl⟩ := zoom_ok.1 h₁
  obtain ⟨hok₁, -, -⟩ := (clearInodes_spec hok).ok hc₁
  obtain ⟨_, y₂, h₂, hr⟩ := bind_ok.1 hr
  obtain ⟨s₂, hc₂, rfl⟩ := zoom_ok.1 h₂
  obtain ⟨hok₂, -, -⟩ := (clearExtents_spec hok₁).ok hc₂
  obtain ⟨_, y₃, h₃, hr⟩ := bind_ok.1 hr
  obtain ⟨s₃, hc₃, rfl⟩ := zoom_ok.1 h₃
  obtain ⟨hok₃, -, -⟩ := (clearInodeMap_spec hok₂).ok hc₃
  obtain ⟨idx, y₄, h₄, hr⟩ := bind_ok.1 hr
  obtain ⟨s₄, hc₄, rfl⟩ := zoom_ok.1 h₄
  obtain ⟨hok₄, rfl, hfree, hmem, -, -⟩ := (onInodes_claim hE.inodes hok₃ 1).ok hc₄
  rw [modify_bind] at hr
  obtain ⟨_, y₅, h₅, hr⟩ := bind_ok.1 hr
  obtain ⟨s₅, hc₅, rfl⟩ := zoom_ok.1 h₅
  obtain ⟨-, rfl⟩ := Run.ok.inj hc₅
  obtain ⟨rfl, rfl⟩ := Run.ok.inj hr
  have hfree : s₄.inodes.free = s₃.inodes.free + 1 := hfree
  have hzero : s₄.inodes.memory s₃.inodes.free = default := by
    rw [hmem]
    exact hok₃.inodes.clean _ (Nat.le_refl _)
  refine ⟨⟨hok₄.putInode (by omega) _, ?_, ?_⟩, ?_⟩
  · show s₃.inodes.free < s₄.inodes.free
    omega
  · rw [putInode_same]
    show Blank (initRoot E.sb (s₄.inodes.memory s₃.inodes.free))
    rw [hzero]
    rfl
  · rw [putInode_same]
    rfl

/-- An index copies the paths of nodes that are listed. -/
theorem indexCopies_listed (hE : FiemapCall E x) (hok : StoreOk x.store)
    (h : IndexCopies E fuel x p) :
    ∃ q c, FiemapListed E.kernel E.mountpoint q c ∧ c.stored = p := by
  obtain ⟨-, -, rootIdx, x₁, hopen, hcopies⟩ := h
  have hE' : FiemapCall E (addSeqLock x) := ⟨hE.sb, hE.inodes, hE.extents⟩
  obtain ⟨hready, hd⟩ := openIndex_ok hE' hok hopen
  exact inodeCopies_listed hE.inodes hE.extents fuel (fiemapRoot E.mountpoint) hready
    (.inl ⟨hd, rfl⟩) hcopies

/-- The path of a slot. -/
def pathAt (E : FiemapEnv) (x : Xal FiemapBe) (i : Nat) : CStr :=
  if i = x.rootIdx then E.mountpoint else (x.store.inodes.memory i).name

/-- The name of a slot is the path of its parent, `'/'` and the name of an entry, and fits the
field. -/
def NameIntact (E : FiemapEnv) (x : Xal FiemapBe) (v : XalInode) : Prop :=
  (∃ n ∈ entriesAt E.kernel (pathAt E x v.parentIdx), v.name =
    joinPath (pathAt E x v.parentIdx) n) ∧
    v.name.length ≤ pathMaxlen ∧ v.namelen = v.name.length

theorem FiemapTree.nameIntact {k : Forest XalInode} (ht : FiemapTree E x k) {i : Nat}
    (h1 : x.rootIdx < i) (h2 : i < x.rootIdx + 1 + k.size) :
    NameIntact E x (x.store.inodes.memory i) := by
  obtain ⟨q, c, hs, hat⟩ := ht.stands FiemapNode.base (Nat.le_of_lt h1) h2
  rcases hs.cases with ⟨-, hi, -⟩ | ⟨q₀, d, j, c₀, hd, hj, hc, hi, rfl⟩
  · omega
  obtain ⟨hpar, -, -⟩ := ht.child_of_stands hd hj
  rw [← hi] at hpar
  obtain ⟨-, n, hn, rfl⟩ := mem_fiemapKids.1 (List.mem_of_getElem? hc)
  have hpath : pathAt E x d = c₀.path := by
    rw [pathAt]
    by_cases hroot : d = x.rootIdx
    · obtain rfl := (slotAt_root_iff ht hd).1 hroot
      obtain ⟨-, rfl⟩ := ht.unique (hroot ▸ hd) .root
      rw [if_pos hroot]
      rfl
    · have hq : q₀ ≠ [] := fun h0 => hroot ((slotAt_root_iff ht hd).2 h0)
      rw [if_neg hroot, (ht.labelAt hd).fact.name, listed_stored (ht.listed_iff.1 ⟨d, hd⟩) hq]
  rw [NameIntact, hpar, hpath, hat.fact.name, hat.fact.namelen]
  exact ⟨⟨n, hn, rfl⟩, hat.fact.fits, rfl⟩

end

/-- No name is written beyond its field, and where an index returns 0 all names are intact. -/
structure NamesIntact (E : FiemapEnv) (fuel : Nat) (x : Xal FiemapBe) : Prop where
  fit : ∀ p, IndexCopies E fuel x p → p.length ≤ pathMaxlen
  intact : ∀ x', xalIndex (xalBeFiemapIndex E fuel) x = .ok () x' →
    ∀ i, x'.rootIdx < i → i < x'.store.inodes.free → NameIntact E x' (x'.store.inodes.memory i)

/-- What a successful index stores is intact, and no path that is listed is too long. -/
theorem index_intact {shm : Bool} {fuel : Nat} {E : FiemapEnv} {x x' : Xal FiemapBe}
    (hx : FiemapReach shm x) (hE : FiemapCall E x)
    (h : xalIndex (xalBeFiemapIndex E fuel) x = .ok () x') :
    (∀ i, x'.rootIdx < i → i < x'.store.inodes.free →
      NameIntact E x' (x'.store.inodes.memory i)) ∧
    ∀ q c, FiemapListed E.kernel E.mountpoint q c → c.stored.length ≤ pathMaxlen := by
  obtain ⟨⟨-, -, hroot, -, -⟩, k, hk⟩ := hx.done hE h
  have ht := hk.tree hroot
  have hfree : x'.store.inodes.free = x'.rootIdx + 1 + k.size := by rw [hk.free, hroot]
  refine ⟨fun i h1 h2 => ht.nameIntact h1 (by omega), fun q c hl => ?_⟩
  obtain ⟨i, hs⟩ := ht.listed_iff.2 hl
  exact (ht.labelAt hs).fact.fits

/-- The names of an index are intact if no path that is listed is longer than 255 bytes; for an
index that returns 0, or that writes a name beyond its field, exactly then. -/
theorem names_intact (shm : Bool) (fuel : Nat) (E : FiemapEnv) (x : Xal FiemapBe)
    (hx : FiemapReach shm x) (hE : FiemapCall E x) :
    ((∀ q c, FiemapListed E.kernel E.mountpoint q c → c.stored.length ≤ pathMaxlen) →
      NamesIntact E fuel x) ∧
    ((∃ x', xalIndex (xalBeFiemapIndex E fuel) x = .ok () x') ∨
        (∃ p, IndexCopies E fuel x p ∧ pathMaxlen < p.length) →
      (NamesIntact E fuel x ↔
        ∀ q c, FiemapListed E.kernel E.mountpoint q c → c.stored.length ≤ pathMaxlen)) := by
  have hok := hx.alive.storeOk
  have hsuffices : (∀ q c, FiemapListed E.kernel E.mountpoint q c → c.stored.length ≤ pathMaxlen) →
      NamesIntact E fuel x := by
    refine fun hC => ⟨fun p hp => ?_, fun x' h => (index_intact hx hE h).1⟩
    obtain ⟨q, c, hl, rfl⟩ := indexCopies_listed hE hok hp
    exact hC q c hl
  refine ⟨hsuffices, fun h => ⟨fun hN => ?_, hsuffices⟩⟩
  rcases h with ⟨x', h⟩ | ⟨p, hp, hlong⟩
  · exact (index_intact hx hE h).2
  · exact absurd (hN.fit p hp) (by omega)

/-! ## Short names and a long one -/

/-- The files and the directory below `/m` have short paths. -/
theorem names_intact_nested :
    NamesIntact (treeDir 0) 3 (fiemapOpened (treeDir 0).sb false) ∧
    ∃ x', xalIndex (xalBeFiemapIndex (treeDir 0) 3) (fiemapOpened (treeDir 0).sb false) =
        .ok () x' ∧ x'.store.inodes.free = 5 := by
  have hrun : (xalIndex (xalBeFiemapIndex (treeDir 0) 3)
      (fiemapOpened (treeDir 0).sb false)).okWith (fun x => x.store.inodes.free == 5) = true := by
    decide +kernel
  obtain ⟨_, x', hr, hfree⟩ := exists_of_okWith hrun
  have hcall : FiemapCall (treeDir 0) (fiemapOpened (treeDir 0).sb false) := tableEnv_call rfl
  exact ⟨(names_intact true 3 (treeDir 0) _ (fiemapOpened_reach _ _) hcall).1
    (index_intact (fiemapOpened_reach _ _) hcall hr).2, x', hr, eq_of_beq hfree⟩

/-- A file below `/m` whose name has 255 bytes, as many as a name may have. -/
def longName : FiemapEnv :=
  tableEnv (tableKernel [([47, 109], [List.replicate 255 97])]
    [([47, 109, 47] ++ List.replicate 255 97, [])]) [47, 109] default .none 0

set_option maxRecDepth 8192 in
/-- Its path is copied. -/
theorem longName_copied : FiemapReach true (fiemapOpened default false) ∧
    FiemapCall longName (fiemapOpened default false) ∧
    IndexCopies longName 2 (fiemapOpened default false) ([47, 109, 47] ++ List.replicate 255 97) ∧
    ¬NamesIntact longName 2 (fiemapOpened default false) := by
  have hcopies : IndexCopies longName 2 (fiemapOpened default false)
      ([47, 109, 47] ++ List.replicate 255 97) :=
    ⟨rfl, by decide, _, _, rfl, _, _, _, _, rfl, rfl, rfl, rfl, .inl rfl⟩
  refine ⟨fiemapOpened_reach _ _, tableEnv_call rfl, hcopies, fun h => ?_⟩
  exact absurd (h.fit _ hcopies) (by decide)

end Xallib
