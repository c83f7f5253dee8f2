import Xallib.E2E.Paths
import Xallib.Fiemap.Proof.Prune

/-!
# Entries of other types

Neither backend leaves out the entries that are neither directories nor regular files. The XFS
backend fails on them. The FIEMAP backend asks `stat`, which follows links: it fails, or stores a
second directory or file.

`unsupported_entries`: let a file system and the same without these entries be given (`XfsWithout`,
`FiemapEnv.without`), and the latter be indexed. Then the former is indexed, to the same result and
without an inode for any of these entries, exactly if there are none in the directories that are
reached.
-/

namespace Xallib

open Lib Lib.Forest Lib.Cm Lib.Run

/-- The two indexes have the same directories and regular files, with the same extents; a directory
may differ in its size. -/
structure SameIndex {δ : Type} (y z : Xal δ) : Prop where
  rootIdx : z.rootIdx = y.rootIdx
  free : z.store.inodes.free = y.store.inodes.free
  inode : ∀ i, y.rootIdx ≤ i → i < y.store.inodes.free →
    z.store.inodes.memory i = { y.store.inodes.memory i with
      size := (z.store.inodes.memory i).size, content := (z.store.inodes.memory i).content }
  dentries : ∀ i, y.rootIdx ≤ i → i < y.store.inodes.free →
    dents (z.store.inodes.memory i) = dents (y.store.inodes.memory i)
  extents : ∀ i, y.rootIdx ≤ i → i < y.store.inodes.free →
    (y.store.inodes.memory i).ftype = ftRegFile →
    (z.store.inodes.memory i).size = (y.store.inodes.memory i).size ∧
      extentsOf z.store.extents.memory (z.store.inodes.memory i) =
        extentsOf y.store.extents.memory (y.store.inodes.memory i)

theorem SameIndex.refl {δ : Type} (y : Xal δ) : SameIndex y y where
  rootIdx := rfl
  free := rfl
  inode _ _ _ := rfl
  dentries _ _ _ := rfl
  extents _ _ _ _ := ⟨rfl, rfl⟩

/-! ## XFS -/

/-- A directory or a regular file. -/
def Supported (E : XfsEnv) (e : XalInode) : Prop :=
  entryType E e = ftDir ∨ entryType E e = ftRegFile

/-- `E'` is the file system `E` from which the entries of other types have been removed; where there
are none, it is `E`. -/
structure XfsWithout (E E' : XfsEnv) : Prop where
  listed : ∀ q e, XfsListed E' q e ↔ XfsListed E q e ∧ Supported E e
  same : (∀ q e, XfsListed E q e → Supported E e) → E' = E

/-! ## FIEMAP -/

section
variable {E : FiemapEnv} {x : Xal FiemapBe} {other : CStr → Bool}

theorem fiemapIndexBody_without (hE : FiemapCall E x) (hok : StoreOk x.store)
    (hc : CleanBelow E.kernel other (fiemapRoot E.mountpoint)) (fuel : Nat) :
    fiemapIndexBody E fuel x = fiemapIndexBody (E.without other) fuel x := by
  unfold fiemapIndexBody
  refine bind_congr_ok rfl fun _ x₁ h₁ => ?_
  obtain ⟨s₁, hc₁, rfl⟩ := zoom_ok.1 h₁
  obtain ⟨hok₁, -, -⟩ := (clearInodes_spec hok).ok hc₁
  refine bind_congr_ok rfl fun _ x₂ h₂ => ?_
  obtain ⟨s₂, hc₂, rfl⟩ := zoom_ok.1 h₂
  obtain ⟨hok₂, -, -⟩ := (clearExtents_spec hok₁).ok hc₂
  refine bind_congr_ok rfl fun _ x₃ h₃ => ?_
  obtain ⟨s₃, hc₃, rfl⟩ := zoom_ok.1 h₃
  obtain ⟨hok₃, -, -⟩ := (clearInodeMap_spec hok₂).ok hc₃
  refine bind_congr_ok rfl fun idx x₄ h₄ => ?_
  obtain ⟨s₄, hc₄, rfl⟩ := zoom_ok.1 h₄
  obtain ⟨hok₄, rfl, hfree, hmem, -, -⟩ := (onInodes_claim hE.inodes hok₃ 1).ok hc₄
  rw [modify_bind, modify_bind]
  refine bind_congr_ok rfl fun _ x₅ h₅ => ?_
  obtain ⟨s₅, hc₅, rfl⟩ := zoom_ok.1 h₅
  obtain ⟨-, rfl⟩ := Run.ok.inj hc₅
  have hfree : s₄.inodes.free = s₃.inodes.free + 1 := hfree
  have hzero : s₄.inodes.memory s₃.inodes.free = default := by
    rw [hmem]
    exact hok₃.inodes.clean _ (Nat.le_refl _)
  refine bind_congr_left (zoom_congr ?_)
  refine processInoFiemap_without hE.inodes hE.extents fuel (fiemapRoot E.mountpoint) hc
    ⟨hok₄.putInode (by omega) _, ?_, ?_⟩ (.inl ⟨?_, rfl⟩)
  · show s₃.inodes.free < s₄.inodes.free
    omega
  · rw [putInode_same]
    show Blank (initRoot E.sb (s₄.inodes.memory s₃.inodes.free))
    rw [hzero]
    rfl
  · rw [putInode_same]
    rfl

theorem xalIndex_without (hE : FiemapCall E x) (hok : StoreOk x.store)
    (hc : CleanBelow E.kernel other (fiemapRoot E.mountpoint)) (fuel : Nat) :
    xalIndex (xalBeFiemapIndex E fuel) x =
      xalIndex (xalBeFiemapIndex (E.without other) fuel) x := by
  unfold xalIndex
  refine bind_congr_ok rfl fun _ x₁ h₁ => ?_
  obtain ⟨rfl, rfl⟩ := Run.ok.inj h₁
  refine bind_congr_ok rfl fun _ x₂ h₂ => ?_
  obtain ⟨-, rfl⟩ := failIf_ok.1 h₂
  unfold xalBeFiemapIndex
  refine bind_congr_ok rfl fun _ x₃ h₃ => ?_
  obtain ⟨-, rfl⟩ := failIf_ok.1 h₃
  rw [modify_bind, modify_bind, onExit, onExit]
  have hcall : FiemapCall E (addSeqLock x₃) := ⟨hE.sb, hE.inodes, hE.extents⟩
  rw [fiemapIndexBody_without hcall hok hc fuel]

end

/-- Entries of other types leave the index as it is exactly if the reached directories have none. -/
theorem unsupported_entries (shm : Bool) :
    (∀ E E' x y fuel, XfsReach shm x → XfsCall E x → XfsCall E' x → XfsWithout E E' →
      xalIndex (xalBeXfsIndex E' fuel) x = .ok () y →
      ((∃ fuel z, xalIndex (xalBeXfsIndex E fuel) x = .ok () z ∧ SameIndex y z ∧
          ∀ q i e, SlotAt z (entryKids E) XalInode.nameBytes (rootEntry E) q i e → Supported E e) ↔
        ∀ q e, XfsListed E q e → Supported E e)) ∧
    ∀ E other x y fuel, FiemapReach shm x → FiemapCall E x →
      xalIndex (xalBeFiemapIndex (E.without other) fuel) x = .ok () y →
      ((∃ fuel z, xalIndex (xalBeFiemapIndex E fuel) x = .ok () z ∧ SameIndex y z ∧
          ∀ q i c, SlotAt z (fiemapKids E.kernel) FiemapNode.base (fiemapRoot E.mountpoint) q i c →
            i = z.rootIdx ∨ other c.path = false) ↔
        CleanBelow E.kernel other (fiemapRoot E.mountpoint)) := by
  constructor
  · intro E E' x y fuel hx hE _ hW hy
    constructor
    · rintro ⟨fuel', z, hz, -, hslots⟩ q e hl
      obtain ⟨k, ht, -⟩ := xalIndex_xfs_tree hE hx.alive.storeOk hz
      obtain ⟨i, hs⟩ := ht.listed_iff.2 hl
      exact hslots q i e hs
    · intro hall
      obtain rfl := hW.same hall
      obtain ⟨k, ht, -⟩ := xalIndex_xfs_tree hE hx.alive.storeOk hy
      exact ⟨fuel, y, hy, .refl y, fun q i e hs => hall q e (ht.listed_iff.1 ⟨i, hs⟩)⟩
  · intro E other x y fuel hx hE hy
    constructor
    · rintro ⟨fuel', z, hz, -, hslots⟩ q c hl hd n hn
      obtain ⟨⟨-, -, hroot, -, -⟩, k, hk⟩ := hx.done hE hz
      have ht := hk.tree hroot
      have hkid := (listed_of_without hl).kid (mem_fiemapKids.2 ⟨hd, n, hn, rfl⟩)
      obtain ⟨i, hs⟩ := ht.listed_iff.2 hkid
      rcases hslots _ i _ hs with h0 | h0
      · have := (slotAt_root_iff ht hs).1 h0
        simp at this
      · exact h0
    · intro hclean
      have hz := xalIndex_without hE hx.alive.storeOk hclean fuel
      rw [hy] at hz
      obtain ⟨⟨-, -, hroot, -, -⟩, k, hk⟩ := hx.done hE hz
      have ht := hk.tree hroot
      refine ⟨fuel, y, hz, .refl y, fun q i c hs => ?_⟩
      rcases (listed_without hclean (ht.listed_iff.1 ⟨i, hs⟩)).2 with hq | hc
      · exact .inl ((slotAt_root_iff ht hs).2 hq)
      · exact .inr hc

/-! ## A link -/

/-- An XFS file system whose root directory, in short form, has the symbolic link `a`. -/
def linkXfs : XfsEnv :=
  xfsTableEnv smallSb (fun i => if i = 5 then 1 else if i = 176 then 1 else if i = 182 then 1
      else if i = 185 then 97 else if i = 186 then 7 else if i = 190 then 131
      else if i = 517 then 1 else 0)
    (fun ino => if ino = 0 then some 0 else if ino = 131 then some 512 else none)

/-- The same without it. -/
def noLinkXfs : XfsEnv :=
  xfsTableEnv smallSb (fun i => if i = 5 then 1 else 0)
    (fun ino => if ino = 0 then some 0 else none)

/-- The entry of the link. -/
def linkEntry : XalInode :=
  { (default : XalInode) with ino := 131, ftype := 7, namelen := 1, name := [97] }

theorem linkXfs_kids : entryKids linkXfs (rootEntry linkXfs) = [linkEntry] := by decide +kernel

theorem noLinkXfs_kids : entryKids noLinkXfs (rootEntry noLinkXfs) = [] := by decide +kernel

theorem linkXfs_listed {q : List CStr} {e : XalInode} : XfsListed linkXfs q e ↔
    q = [] ∧ e = rootEntry linkXfs ∨ q = [[97]] ∧ e = linkEntry := by
  have hflat : ∀ e ∈ entryKids linkXfs (rootEntry linkXfs), entryKids linkXfs e = [] := by
    rw [linkXfs_kids, List.forall_mem_singleton]
    decide +kernel
  rw [XfsListed, listed_flat hflat, linkXfs_kids, List.mem_singleton]
  constructor
  · rintro (h | ⟨rfl, rfl⟩)
    · exact .inl h
    · exact .inr ⟨rfl, rfl⟩
  · rintro (h | ⟨rfl, rfl⟩)
    · exact .inl h
    · exact .inr ⟨rfl, rfl⟩

theorem linkXfs_unsupported : ¬Supported linkXfs linkEntry := by
  unfold Supported
  decide

theorem linkXfs_without : XfsWithout linkXfs noLinkXfs where
  listed q e := by
    have hflat : ∀ e ∈ entryKids noLinkXfs (rootEntry noLinkXfs), entryKids noLinkXfs e = [] := by
      rw [noLinkXfs_kids]
      exact fun _ h => absurd h List.not_mem_nil
    rw [linkXfs_listed, XfsListed, listed_flat hflat, noLinkXfs_kids]
    constructor
    · rintro (⟨rfl, rfl⟩ | ⟨h, -⟩)
      · exact ⟨.inl ⟨rfl, rfl⟩, .inl rfl⟩
      · cases h
    · rintro ⟨⟨rfl, rfl⟩ | ⟨-, rfl⟩, hs⟩
      · exact .inl ⟨rfl, rfl⟩
      · exact absurd hs linkXfs_unsupported
  same h := absurd (h _ _ (linkXfs_listed.2 (.inr ⟨rfl, rfl⟩))) linkXfs_unsupported

/-- `/m` with the regular file `a` and the link `l`; what `stat` answers for `l` is that of
`files`. -/
def linkDir (files : List (CStr × List FiemapExtent)) : FiemapEnv :=
  tableEnv (tableKernel [([47, 109], [[97], [108]])] files) [47, 109] default .none 0

def isLink (path : CStr) : Bool := path == [47, 109, 47, 108]

/-- `l` points to nothing, or to a file. -/
def dangling : FiemapEnv := linkDir [([47, 109, 47, 97], [])]
def toFile : FiemapEnv := linkDir [([47, 109, 47, 97], []), ([47, 109, 47, 108], [])]

theorem unsupported_entries_link :
    (∃ y, xalIndex (xalBeXfsIndex noLinkXfs 1) (xfsOpened smallSb) = .ok () y ∧
      ¬∃ fuel z, xalIndex (xalBeXfsIndex linkXfs fuel) (xfsOpened smallSb) = .ok () z ∧
        SameIndex y z ∧ ∀ q i e, SlotAt z (entryKids linkXfs) XalInode.nameBytes (rootEntry linkXfs)
          q i e → Supported linkXfs e) ∧
    ∃ y, xalIndex (xalBeFiemapIndex (dangling.without isLink) 2) (fiemapOpened default false) =
        .ok () y ∧
      ¬∃ fuel z, xalIndex (xalBeFiemapIndex dangling fuel) (fiemapOpened default false) = .ok () z ∧
        SameIndex y z ∧ ∀ q i c, SlotAt z (fiemapKids dangling.kernel) FiemapNode.base
          (fiemapRoot dangling.mountpoint) q i c → i = z.rootIdx ∨ isLink c.path = false := by
  constructor
  · have hrun : (xalIndex (xalBeXfsIndex noLinkXfs 1) (xfsOpened smallSb)).okWith
        (fun _ => true) = true := by decide +kernel
    obtain ⟨_, y, hr, -⟩ := exists_of_okWith hrun
    refine ⟨y, hr, fun h => linkXfs_unsupported ?_⟩
    exact ((unsupported_entries true).1 linkXfs noLinkXfs _ y 1 (xfsOpened_reach _)
      (xfsTableEnv_call _ _ _) (xfsTableEnv_call _ _ _) linkXfs_without hr).1 h _ _
        (linkXfs_listed.2 (.inr ⟨rfl, rfl⟩))
  · have hrun : (xalIndex (xalBeFiemapIndex (dangling.without isLink) 2)
        (fiemapOpened default false)).okWith (fun _ => true) = true := by decide +kernel
    obtain ⟨_, y, hr, -⟩ := exists_of_okWith hrun
    refine ⟨y, hr, fun h => ?_⟩
    have hclean := ((unsupported_entries true).2 dangling isLink _ y 2 (fiemapOpened_reach _ _)
      (tableEnv_call rfl) hr).1 h
    exact absurd (hclean [] _ .root rfl [108] (by decide)) (by decide)

/-- A link makes indexing fail, or is stored as a second file. -/
theorem unsupported_entries_disturb :
    (XfsWithout linkXfs noLinkXfs ∧
      (∃ y, xalIndex (xalBeXfsIndex noLinkXfs 1) (xfsOpened smallSb) = .ok () y) ∧
      ∃ e z, xalIndex (xalBeXfsIndex linkXfs 2) (xfsOpened smallSb) = .fail e z) ∧
    ((∃ y, xalIndex (xalBeFiemapIndex (dangling.without isLink) 2) (fiemapOpened default false) =
        .ok () y) ∧
      ∃ e z, xalIndex (xalBeFiemapIndex dangling 2) (fiemapOpened default false) = .fail e z) ∧
    ∃ y z, xalIndex (xalBeFiemapIndex (toFile.without isLink) 2) (fiemapOpened default false) =
        .ok () y ∧
      xalIndex (xalBeFiemapIndex toFile 2) (fiemapOpened default false) = .ok () z ∧
      (z.store.inodes.memory 2).name = [47, 109, 47, 108] ∧
      (z.store.inodes.memory 2).ftype = ftRegFile ∧ ¬SameIndex y z := by
  have h1 : (xalIndex (xalBeXfsIndex noLinkXfs 1) (xfsOpened smallSb)).okWith
    (fun _ => true) = true := by decide +kernel
  have h2 : (xalIndex (xalBeXfsIndex linkXfs 2) (xfsOpened smallSb)).failWith
    (fun _ => true) = true := by decide +kernel
  have h3 : (xalIndex (xalBeFiemapIndex (dangling.without isLink) 2)
    (fiemapOpened default false)).okWith (fun _ => true) = true := by decide +kernel
  have h4 : (xalIndex (xalBeFiemapIndex dangling 2)
    (fiemapOpened default false)).failWith (fun _ => true) = true := by decide +kernel
  have h5 : (xalIndex (xalBeFiemapIndex (toFile.without isLink) 2)
    (fiemapOpened default false)).okWith (fun y => y.store.inodes.free == 2) = true := by
      decide +kernel
  have h6 : (xalIndex (xalBeFiemapIndex toFile 2) (fiemapOpened default false)).okWith
    (fun z => z.store.inodes.free == 3 && (z.store.inodes.memory 2).name == [47, 109, 47, 108] &&
      (z.store.inodes.memory 2).ftype == ftRegFile) = true := by decide +kernel
  obtain ⟨_, y₁, hr₁, -⟩ := exists_of_okWith h1
  obtain ⟨e₂, z₂, hr₂, -⟩ := exists_of_failWith h2
  obtain ⟨_, y₃, hr₃, -⟩ := exists_of_okWith h3
  obtain ⟨e₄, z₄, hr₄, -⟩ := exists_of_failWith h4
  obtain ⟨_, y₅, hr₅, hy⟩ := exists_of_okWith h5
  obtain ⟨_, z₆, hr₆, hz⟩ := exists_of_okWith h6
  simp only [Bool.and_eq_true, beq_iff_eq] at hy hz
  obtain ⟨⟨hfree, hname⟩, hft⟩ := hz
  refine ⟨⟨linkXfs_without, ⟨y₁, hr₁⟩, e₂, z₂, hr₂⟩, ⟨⟨y₃, hr₃⟩, e₄, z₄, hr₄⟩,
    y₅, z₆, hr₅, hr₆, hname, hft, fun h => ?_⟩
  have := h.free
  omega

end Xallib
