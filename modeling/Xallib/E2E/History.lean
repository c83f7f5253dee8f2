import Xallib.E2E.Machine
import Xallib.Fiemap.Proof.Twin
import Xallib.Xfs.Proof.Twin

/-!
# The same index again

A `struct xal` that has been indexed before, with any outcome, and one that was just opened are
indexed on the same contents. `history_independent`: where the first succeeds, the second does,
unless its pools fail, and they hold the same index, if the B+trees of extents fit in their blocks
and what the directories list is in the local arrays (`ContentsFit`). A leaf of extents that does
not fit is read on in what was in `be->buf` before, and what is not in the arrays on the stack.
-/

namespace Xallib

open Lib Lib.Forest Lib.Cm Lib.Run

/-- The inodes, the extents and the root are the same. -/
structure SameTree {δ : Type} (y z : Xal δ) : Prop where
  rootIdx : z.rootIdx = y.rootIdx
  inodes : z.store.inodes.memory = y.store.inodes.memory
  free : z.store.inodes.free = y.store.inodes.free
  extents : z.store.extents.memory = y.store.extents.memory
  extentsFree : z.store.extents.free = y.store.extents.free

theorem Twin.sameTree {δ : Type} {B : δ → δ → Prop} {y z : Xal δ} (h : Twin B y.store z.store)
    (hroot : z.rootIdx = y.rootIdx) : SameTree y z :=
  ⟨hroot, h.inodes, h.free, h.extents, h.extentsFree⟩

theorem JustOpened.empty {δ : Type} {type : XalBackend} {shm : Bool} {x : Xal δ}
    (h : JustOpened type shm x) :
    StoreOk x.store ∧ x.store.inodes.free = 0 ∧ x.store.extents.free = 0 := by
  obtain ⟨osI, osX, mpI, mpX, nallocated, be, hI, hX, hm⟩ := h.pools
  exact (xalMapPools_spec hI hX).ok hm

/-! ## XFS -/

section
variable {E : XfsEnv} {mpI mpX : Mprotect} {uninit : Nat → Int} {stray : Buf} {x x₀ : Xal Buf}
  {shm : Bool}

theorem xalBeXfsIndex_follows (hE : XfsCall E x)
    (hE₀ : XfsCall (E.again mpI mpX uninit stray) x₀) (hok : StoreOk x.store)
    (h₀ : JustOpened .xfs shm x₀) (hcI : E.mpInodes.clear = 0) (hcX : E.mpExtents.clear = 0)
    (hfits : ContentsFit E) (fuel : Nat) :
    Tracks SameTree (FailsAgain uninit) (xalBeXfsIndex E fuel x)
      (xalBeXfsIndex (E.again mpI mpX uninit stray) fuel x₀) := by
  obtain ⟨hok₀, hfree₀, hext₀⟩ := h₀.empty
  unfold xalBeXfsIndex
  refine tracks_failIf_bind fun _ => ?_
  -- nothing is claimed, in either
  obtain ⟨s, hs, hfree, hext, -, hclear⟩ := clearPools_bind _ _ hok (.inl hcI) (.inl hcX)
  obtain ⟨t, ht, hfree', hext', -, hclear'⟩ := clearPools_bind
    (E.again mpI mpX uninit stray).mpInodes (E.again mpI mpX uninit stray).mpExtents
    hok₀ (.inr hfree₀) (.inr hext₀)
  rw [hclear, hclear']
  have htwin : Twin (fun _ _ => True) s t := .empty hs ht hfree hfree' hext hext' trivial
  refine claimRoot_follows (fun e he => .inl he) hE.inodes hE₀.inodes htwin fun s₁ t₁ hs₁ ht₁ => ?_
  have hrun : Tracks (XfsTwin s.inodes.free) (FailsAgain uninit)
      (processIno E fuel E.sb.rootino s.inodes.free s₁)
      (processIno (E.again mpI mpX uninit stray) fuel E.sb.rootino s.inodes.free t₁) :=
    processIno_follows hE.inodes hE.extents hE₀.inodes hE₀.extents hfits fuel ⟨[], Found.root⟩
      hs₁.ready (by rw [hs₁.root]; rfl) ht₁
  refine Tracks.bind (R := SameTree) (tracks_zoom hrun ?_) ?_
  · exact fun _ s' t' _ h => h.toTwin.sameTree rfl
  · intro _ y z _ h u y' hr
    obtain ⟨-, rfl⟩ := Run.ok.inj hr
    exact .inl ⟨_, rfl, ⟨h.rootIdx, h.inodes, h.free, h.extents, h.extentsFree⟩⟩

end

/-! ## FIEMAP -/

section
variable {E : FiemapEnv} {mpI mpX : Mprotect} {x x₀ : Xal FiemapBe} {shm : Bool}

/-- The inodes, the extents, the root and the watch descriptors, if there are any, are the same. -/
structure SameWatch (E : FiemapEnv) (y z : Xal FiemapBe) : Prop extends SameTree y z where
  inodeMap : E.watchMode ≠ .none → z.store.be.inodeMap = y.store.be.inodeMap

theorem sameMaps_cleared {be be' : FiemapBe}
    (h : be'.pathInodeMap.isSome → be.pathInodeMap.isSome) :
    SameMaps E (beCleared E be) (beCleared E be') := by
  unfold beCleared
  by_cases hw : E.watchMode = .none
  · rw [if_pos hw, if_pos hw]
    exact ⟨fun hne => absurd hw hne, h⟩
  · rw [if_neg hw, if_neg hw]
    exact ⟨fun _ => rfl, h⟩

theorem fiemapIndexBody_follows (hE : FiemapCall E x) (hE₀ : FiemapCall (E.again mpI mpX) x₀)
    (hok : StoreOk x.store) (hok₀ : StoreOk x₀.store) (hfree₀ : x₀.store.inodes.free = 0)
    (hext₀ : x₀.store.extents.free = 0)
    (hmap : x₀.store.be.pathInodeMap.isSome → x.store.be.pathInodeMap.isSome)
    (hcI : E.mpInodes.clear = 0) (hcX : E.mpExtents.clear = 0) (fuel : Nat) :
    Tracks (SameWatch E) PoolFailure (fiemapIndexBody E fuel x)
      (fiemapIndexBody (E.again mpI mpX) fuel x₀) := by
  unfold fiemapIndexBody
  -- nothing is claimed, in either, and no directory is watched
  obtain ⟨s, hs, hfree, hext, hbe, hclear⟩ := clearPools_bind _ _ hok (.inl hcI) (.inl hcX)
  obtain ⟨t, ht, hfree', hext', hbe', hclear'⟩ := clearPools_bind (E.again mpI mpX).mpInodes
    (E.again mpI mpX).mpExtents hok₀ (.inr hfree₀) (.inr hext₀)
  rw [hclear, hclear']
  have hmaps : onStore (clearInodeMap E) { x with store := s } =
      .ok () { x with store := { s with be := beCleared E s.be } } := zoom_of_ok clearInodeMap_eq
  have hmaps' : onStore (clearInodeMap (E.again mpI mpX)) { x₀ with store := t } =
      .ok () { x₀ with store := { t with be := beCleared E t.be } } := zoom_of_ok clearInodeMap_eq
  rw [bind_of_ok hmaps, bind_of_ok hmaps']
  have htwin : Twin (SameMaps E) { s with be := beCleared E s.be }
    { t with be := beCleared E t.be } := by
    refine .empty ⟨hs.inodes, hs.extents⟩ ⟨ht.inodes, ht.extents⟩ hfree hfree' hext hext' ?_
    exact sameMaps_cleared (by rw [hbe, hbe']; exact hmap)
  refine claimRoot_follows (fun e he => he) hE.inodes hE₀.inodes htwin fun s₁ t₁ hs₁ ht₁ => ?_
  have hrun : Tracks (FiemapTwin E s.inodes.free) PoolFailure
      (processInoFiemap E fuel E.mountpoint s.inodes.free s₁)
      (processInoFiemap (E.again mpI mpX) fuel E.mountpoint s.inodes.free t₁) :=
    processInoFiemap_follows hE.inodes hE.extents hE₀.inodes hE₀.extents fuel E.mountpoint
      hs₁.ready ht₁
  refine Tracks.bind (R := SameWatch E) (tracks_zoom hrun ?_) ?_
  · exact fun _ s' t' _ h => ⟨h.toTwin.sameTree rfl, h.be.inodeMap⟩
  · intro _ y z _ h u y' hr
    obtain ⟨-, rfl⟩ := Run.ok.inj hr
    exact .inl ⟨_, rfl, ⟨h.rootIdx, h.inodes, h.free, h.extents, h.extentsFree⟩, h.inodeMap⟩

theorem xalBeFiemapIndex_follows (hE : FiemapCall E x) (hE₀ : FiemapCall (E.again mpI mpX) x₀)
    (hok : StoreOk x.store) (h₀ : JustOpened .fiemap shm x₀)
    (hmap : x₀.store.be.pathInodeMap.isSome → x.store.be.pathInodeMap.isSome)
    (hcI : E.mpInodes.clear = 0) (hcX : E.mpExtents.clear = 0) (fuel : Nat) :
    Tracks (SameWatch E) PoolFailure (xalBeFiemapIndex E fuel x)
      (xalBeFiemapIndex (E.again mpI mpX) fuel x₀) := by
  obtain ⟨hok₀, hfree₀, hext₀⟩ := h₀.empty
  refine tracks_failIf_bind fun _ => ?_
  rw [modify_bind, modify_bind]
  have hcall : FiemapCall E (addSeqLock x) := ⟨hE.sb, hE.inodes, hE.extents⟩
  have hcall₀ : FiemapCall (E.again mpI mpX) (addSeqLock x₀) := ⟨hE₀.sb, hE₀.inodes, hE₀.extents⟩
  refine tracks_onExit (fiemapIndexBody_follows hcall hcall₀ hok hok₀ hfree₀ hext₀ hmap
    hcI hcX fuel)
    fun y z h => ?_
  exact ⟨⟨h.rootIdx, h.inodes, h.free, h.extents, h.extentsFree⟩, h.inodeMap⟩

end

/-- `xal_index` on a primary. -/
theorem xalIndex_of_primary {δ : Type} {index : Cm Err (Xal δ) Unit} {x : Xal δ}
    (h : x.sharedView = false) : xalIndex index x = index x := by
  rw [xalIndex, read_bind, bind_of_ok (failIf_false (by rw [h]; decide) _ _)]

/-- The root directory has one block, which is no directory block. -/
def onesXfs : XfsEnv :=
  blocksXfs (fun i => if i = 5 then 2 else if i = 63 then 1 else if i = 79 then 1 else
    if i = 191 then 2 else 0) (fun ino => if ino = 0 then some 0 else none) fun _ => 1

/-- The root directory, in short form, has the regular file `a`, whose extents are in a leaf with
`numrecs` records, all of them zero. -/
def leafXfs (numrecs : UInt8) : XfsEnv :=
  blocksXfs (fun i => if i = 5 then 1 else if i = 176 then 1 else if i = 182 then 1
      else if i = 185 then 97 else if i = 186 then 1 else if i = 190 then 131
      else if i = 517 then 3 else if i = 594 then 42 else if i = 689 then 1
        else if i = 691 then 1 else 0)
    (fun ino => if ino = 0 then some 0 else if ino = 131 then some 512 else none)
    fun i => if i = 0 then 0x42 else if i = 1 then 0x4d else if i = 2 then 0x41
      else if i = 3 then 0x33
      else if i = 7 then numrecs else 0

/-- The entry of the file. -/
def leafEntry : XalInode :=
  { (default : XalInode) with ino := 131, ftype := 1, namelen := 1, name := [97] }

/-- The leaf is the only block of the tree, and holds its record. -/
theorem leafXfs_tree {r : FileRef} (h : Linked (fileKids (leafXfs 1)) ⟨true, 0⟩ r) :
    FileFits (leafXfs 1) r := by
  have hnone : fileKids (leafXfs 1) ⟨true, 0⟩ = [] := by decide +kernel
  have hblock : ((fileBlockAt (leafXfs 1) 0).all fun block =>
    decide (72 + 16 * blockNumrecs block ≤ 1024)) = true := by decide +kernel
  rcases Relation.ReflTransGen.cases_head h with rfl | ⟨c, hc, -⟩
  · refine ⟨by decide, fun _ block hb _ => ?_, fun h => absurd h (by decide)⟩
    rw [hb] at hblock
    exact of_decide_eq_true hblock
  · rw [hnone] at hc
    cases hc

theorem leafXfs_fits : ContentsFit (leafXfs 1) := by
  have hkids : entryKids (leafXfs 1) (rootEntry (leafXfs 1)) = [leafEntry] := by decide +kernel
  have hflat : ∀ e ∈ entryKids (leafXfs 1) (rootEntry (leafXfs 1)),
      entryKids (leafXfs 1) e = [] := by
    rw [hkids, List.forall_mem_singleton]
    decide +kernel
  intro q e he
  rw [XfsListed, listed_flat hflat, hkids, List.mem_singleton] at he
  rcases he with ⟨-, rfl⟩ | ⟨rfl, -⟩
  · refine ⟨fun hreg => absurd hreg (by decide +kernel), fun _ dinode hd => ?_⟩
    obtain rfl : 0 = dinode := Option.some.inj hd
    exact ⟨fun h => absurd h (by decide +kernel), fun h => absurd h (by decide +kernel)⟩
  · refine ⟨fun _ dinode hd hfmt r hr r' hlink => ?_, fun hdir => absurd hdir (by decide +kernel)⟩
    obtain rfl : 512 = dinode := Option.some.inj hd
    have hroots : fileRoots (leafXfs 1) 512 = [⟨true, 0⟩] := by decide +kernel
    rw [hroots, List.mem_singleton] at hr
    subst hr
    exact leafXfs_tree hlink

/-- `/m` with empty files of the given names, watched. -/
def watchedDir (names : List CStr) : FiemapEnv :=
  tableEnv (tableKernel [([47, 109], names)] (names.map fun n => (joinPath [47, 109] n, [])))
    [47, 109] default .dirtyDetection 0

/-- The file system with one record in the leaf, and other bytes on the stack. -/
def leafAgain : XfsEnv :=
  (leafXfs 1).again (leafXfs 1).mpInodes (leafXfs 1).mpExtents (leafXfs 1).uninit fun _ => 7

end Xallib
