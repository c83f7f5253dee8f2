import Xallib.E2E.Flatten
import Xallib.E2E.Paths

/-!
# The extents of the files on the device

`FileRecords E dinode l`: the device has the extent records `l` for the file of a dinode, in the
dinode itself or on the leaves of B+trees below it. `indexed_records`: an index that succeeds has
these records at the path of each regular file, whatever was indexed and decoded before it, and
behind it.
-/

namespace Xallib

open Lib Lib.Cm Lib.Run Lib.Buf

/-- The records of a regular file (module doc). -/
def FileRecords (E : XfsEnv) (dinode : Nat) (l : List XalExtent) : Prop :=
  diFormat E dinode = fmtExtents ∧ l = ((List.range (diNextents E dinode)).map fun i =>
    xfsExtentAt E.dinodes (dfork dinode + 16 * i)) ∨
  diFormat E dinode = fmtBtree ∧ 72 ≤ E.sb.blocksize ∧
    ∃ level, (fileBtreePos E dinode).level = level + 1 ∧
      Concat (BmapTree E level) (fileFsbnos E dinode) l

/-- What holds between a slot and its entry: where that is a regular file, the extents of the slot
are the records on the device. -/
def RecordedEntry (E : XfsEnv) (s : Store Buf) (v e : XalInode) : Prop := IsEntry E v e ∧
  (v.ftype = ftRegFile → v.content.idx + v.content.count ≤ s.extents.free ∧
    ∀ dinode l, E.dinodesMap e.ino = some dinode → FileRecords E dinode l →
      extentsOf s.extents.memory v = l)

section
variable {E : XfsEnv} {self dinode fuel : Nat} {s s' : Store Buf} {l : List XalExtent}
  {v e : XalInode}

theorem Filing.extentsOf (h : Filing self s s') :
    extentsOf s'.extents.memory (s'.inodes.memory self) = storedSince s s' := by
  rw [Xallib.extentsOf, h.file]
  rfl

section
variable (hX : E.mpExtents.Bounded poolReserved extentNbytes)
include hX

/-- The trees below the root of a file, on a blank inode. -/
theorem processDinodeFileBtreeRoot_appends (h72 : 72 ≤ E.sb.blocksize) {level : Nat}
    (hlevel : (fileBtreePos E dinode).level = level + 1)
    (htrees : Concat (BmapTree E level) (fileFsbnos E dinode) l) (h : Ready self s)
    (hr : processDinodeFileBtreeRoot E fuel dinode self s = .ok () s') : storedSince s s' = l := by
  have hblank : (s.inodes.memory self).content = default := h.blank
  have hroots : fileRoots E dinode = (fileFsbnos E dinode).map (FileRef.mk (level == 0)) := by
    rw [fileRoots, hlevel]
    cases level <;> rfl
  have hfiling : Filing self s (s.putInode self { s.inodes.memory self with
      content := { (s.inodes.memory self).content with idx := s.extents.free % 2 ^ 32 } }) := by
    refine ⟨⟨h.ok.putInode h.lt _, h.lt, Nat.le_refl _, fun i _ hne => putInode_other _ _ _ hne,
      Nat.le_refl _, fun _ _ => rfl⟩, ?_, rfl⟩
    rw [putInode_same, putInode_extents, Nat.mod_eq_of_lt h.ok.extents_free_lt, hblank,
      Nat.sub_self]
    rfl
  rw [processDinodeFileBtreeRoot_eq (fileRootInside_of_ok hr)] at hr
  unfold fileBtreeFiling at hr
  obtain ⟨-, hr⟩ := failIf_bind_ok.1 hr
  rw [inodeAt_bind] at hr
  obtain ⟨-, hr⟩ := failIf_bind_ok.1 hr
  rw [read_bind, setInode_bind, fileBtreeFiling_loop, hroots, ← forM_map] at hr
  obtain ⟨-, ha⟩ := forM_concat (I := Filing self s) (R := fun l s s' => Appended s s' l) .refl
    (fun _ _ _ _ _ => .trans) (fun p m t t' v => fileCall_appends hX h72 level fuel p m t t' v)
    htrees _ s' () hfiling hr
  exact ha.stored

/-- Whichever decoder is called for a regular file, it stores the records. -/
theorem processFormat_records {procIno : Nat → Nat → Xm Unit} (h : Ready self s)
    (hft : (s.inodes.memory self).ftype = ftRegFile)
    (hr : processFormat E procIno fuel dinode self s = .ok () s') :
    (Filing self s s' ∨ s' = s) ∧ (FileRecords E dinode l → Filing self s s' ∧
      storedSince s s' = l) := by
  have hne : fmtExtents ≠ fmtBtree := by decide
  rcases processFormat_cases E procIno fuel dinode self s with
    ⟨decoder, hd, h₁⟩ | ⟨e, h₁⟩ | ⟨h0, h₁⟩
  · rw [h₁] at hr
    generalize hfmt : diFormat E dinode = fmt at hd
    rw [hft] at hd
    cases hd with
    | fileExtents =>
      have hf := (processDinodeFileExtents_filing hX h hft dinode).ok hr
      refine ⟨.inl hf, fun hrec => ⟨hf, ?_⟩⟩
      rcases hrec with ⟨-, rfl⟩ | ⟨hb, -⟩
      · exact processDinodeFileExtents_stored hX h.ok hr
      · exact absurd (hfmt.symm.trans hb) hne
    | fileBtree =>
      have hf := (processDinodeFileBtreeRoot_filing hX h hft fuel dinode).ok hr
      refine ⟨.inl hf, fun hrec => ⟨hf, ?_⟩⟩
      rcases hrec with ⟨he, -⟩ | ⟨-, h72, level, hlevel, htrees⟩
      · exact absurd (he.symm.trans hfmt) hne
      · exact processDinodeFileBtreeRoot_appends hX h72 hlevel htrees h hr
  · rw [h₁] at hr
    cases hr
  · rw [h₁] at hr
    obtain ⟨-, rfl⟩ := Run.ok.inj hr
    refine ⟨.inr rfl, fun hrec => ?_⟩
    -- the `switch` knows the formats of a file with records
    rcases hrec with ⟨hfmt, -⟩ | ⟨hfmt, -⟩
    · rw [hfmt] at h0
      exact absurd h0 (by decide)
    · rw [hfmt] at h0
      exact absurd h0 (by decide)

end

theorem recordedEntry_steady : Steady (RecordedEntry E) := by
  intro s s' v e h hle hkeep
  refine ⟨h.1, fun hreg => ?_⟩
  obtain ⟨hfree, hrec⟩ := h.2 hreg
  refine ⟨by omega, fun dinode l hd hl => ?_⟩
  rw [extentsOf_congr (fun _ => hfree) hkeep]
  exact hrec dinode l hd hl

theorem recordedEntry_holds (hX : E.mpExtents.Bounded poolReserved extentNbytes) :
    Holds E (RecordedEntry E) := by
  intro e dinode d fuel s s' u h hdinode hft hr hentry
  refine ⟨hentry, fun hreg => ?_⟩
  have hft' : (s.inodes.memory d).ftype = ftRegFile :=
    hft.trans (hentry.ftype.symm.trans hreg)
  constructor
  · rcases (processFormat_records (l := []) hX h hft' hr).1 with hf | rfl
    · have hle := hf.extents_le
      rw [hf.file]
      simp only
      omega
    · have hblank : (s'.inodes.memory d).content = default := h.blank
      rw [hblank]
      exact Nat.zero_le _
  · intro dinode' l hd' hl
    obtain rfl := Option.some.inj (hdinode.symm.trans hd')
    obtain ⟨hf, hstored⟩ := (processFormat_records hX h hft' hr).2 hl
    rw [hf.extentsOf, hstored]

end

/-! ## The index -/

section
variable {E : XfsEnv} {y : Xal Buf} {k : Forest XalInode} {q : List CStr} {i dinode : Nat}
  {e : XalInode} {l : List XalExtent}

/-- The extents of the slot of a regular file. -/
theorem SlotAt.records (ht : XfsTreeBy E (RecordedEntry E) y k)
    (hs : SlotAt y (entryKids E) XalInode.nameBytes (rootEntry E) q i e)
    (hreg : entryType E e = ftRegFile) (hd : E.dinodesMap e.ino = some dinode)
    (hl : FileRecords E dinode l) :
    extentsOf y.store.extents.memory (y.store.inodes.memory i) = l := by
  obtain ⟨hentry, hrec⟩ := (ht.labelAt hs).fact
  exact (hrec (hentry.ftype.trans hreg)).2 dinode l hd hl

end

/-- An index that succeeds has one slot for each path, and the slot of a regular file has the
records of the file. -/
theorem indexed_records (shm : Bool) (E : XfsEnv) (x y : Xal Buf) (fuel : Nat) (hx : XfsReach shm x)
    (hE : XfsCall E x) (hr : xalIndex (xalBeXfsIndex E fuel) x = .ok () y) (q : List CStr)
    (e : XalInode) (hl : XfsListed E q e) :
    (∃ i, SlotAt y (entryKids E) XalInode.nameBytes (rootEntry E) q i e) ∧
    ∀ i, SlotAt y (entryKids E) XalInode.nameBytes (rootEntry E) q i e →
      entryType E e = ftRegFile → ∀ dinode l, E.dinodesMap e.ino = some dinode →
        FileRecords E dinode l →
          extentsOf y.store.extents.memory (y.store.inodes.memory i) = l := by
  obtain ⟨k, ht, -⟩ := xalIndex_xfs_treeBy recordedEntry_steady (recordedEntry_holds hE.extents) hE
    hx.alive.storeOk hr
  exact ⟨ht.listed_iff.2 hl, fun i hs hreg dinode l hd hrec => hs.records ht hreg hd hrec⟩

/-! ## One file -/

/-- The file `a` in the root directory, which is in short form; it has one block, at block 7. -/
def recordsXfs : XfsEnv :=
  xfsTableEnv { (default : XalSb) with
      nallocated := 2, blocksize := 4096, inodesize := 512, agblocks := 16, agblklog := 4 }
    (fun i => if i = 5 then 1 else if i = 176 then 1 else if i = 182 then 1 else if i = 185 then 97
      else if i = 186 then 1 else if i = 190 then 131 else if i = 517 then 2
      else if i = 591 then 1 else if i < 688 then 0
      else ofList 688 (writtenRec 0 Nat.two_pos).bytes i)
    (fun ino => if ino = 0 then some 0 else if ino = 131 then some 512 else none)

/-- The entry of the file. -/
def recordsEntry : XalInode :=
  { (default : XalInode) with ino := 131, ftype := 1, namelen := 1, name := [97] }

theorem recordsXfs_listed {q : List CStr} {e : XalInode} : XfsListed recordsXfs q e ↔
    q = [] ∧ e = rootEntry recordsXfs ∨ q = [[97]] ∧ e = recordsEntry := by
  have hkids : entryKids recordsXfs (rootEntry recordsXfs) = [recordsEntry] := by decide +kernel
  have hflat : ∀ e ∈ entryKids recordsXfs (rootEntry recordsXfs), entryKids recordsXfs e = [] := by
    rw [hkids, List.forall_mem_singleton]
    decide +kernel
  rw [XfsListed, listed_flat hflat, hkids, List.mem_singleton]
  constructor
  · rintro (h | ⟨rfl, rfl⟩)
    · exact .inl h
    · exact .inr ⟨rfl, rfl⟩
  · rintro (h | ⟨rfl, rfl⟩)
    · exact .inl h
    · exact .inr ⟨rfl, rfl⟩

theorem recordsXfs_records : FileRecords recordsXfs 512 [⟨0, 7, 1, 0⟩] :=
  .inl ⟨by decide +kernel, by decide +kernel⟩

theorem indexed_records_one : ∃ y i, xalIndex (xalBeXfsIndex recordsXfs 2)
    (xfsOpened recordsXfs.sb) = .ok () y ∧
      SlotAt y (entryKids recordsXfs) XalInode.nameBytes (rootEntry recordsXfs) [[97]] i
        recordsEntry ∧
      extentsOf y.store.extents.memory (y.store.inodes.memory i) = [⟨0, 7, 1, 0⟩] := by
  have hrun : (xalIndex (xalBeXfsIndex recordsXfs 2) (xfsOpened recordsXfs.sb)).okWith
      (fun _ => true) = true := by decide +kernel
  obtain ⟨_, y, hr, -⟩ := exists_of_okWith hrun
  have hl : XfsListed recordsXfs [[97]] recordsEntry := recordsXfs_listed.2 (.inr ⟨rfl, rfl⟩)
  obtain ⟨⟨i, hs⟩, hall⟩ := indexed_records true recordsXfs _ y 2 (xfsOpened_reach _)
    (xfsTableEnv_call _ _ _) hr _ _ hl
  exact ⟨y, i, hr, hs, hall i hs (by decide +kernel) 512 _ rfl recordsXfs_records⟩

end Xallib
