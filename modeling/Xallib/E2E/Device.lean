import Xallib.E2E.Records
import Xallib.Lib.Image
import Xallib.Xfs.Proof.Retrieve

/-!
# From the device to the index

`xal_dinodes_retrieve`, and then `xal_index` on what it has retrieved. An inode of the device is an
image, its bytes (`groupImages`); what it says, as a directory or as a regular file, is what the
file system with that one inode says (`imageEnv`). `ImagesListed`: the tree that the images list.

`dirListing_image` and `Has.records`: what the code reads at a dinode that has the bytes of an image
is what the image says, where it has room for the fork (`Inside`). `device_indexed`: an index that
succeeds has one slot for each path of the tree, with the number, the type, the size and the extents
of an inode that is allocated on the device.
-/

namespace Xallib

open Lib Lib.Cm Lib.Run Lib.Buf

/-! ## What images say -/

/-- The file system with one inode, of the bytes `img`. -/
def imageEnv (X : XfsEnv) (img : List UInt8) : XfsEnv :=
  { X with
    dinodes := ofList 0 img
    dinodesMap := fun ino => if ino = imageIno img then some 0 else none }

/-- The inode of a number. -/
def inodeImage (imgs : List (List UInt8)) (ino : Nat) : Option (List UInt8) :=
  imgs.find? fun img => imageIno img == ino

/-- The entries below an entry. -/
def imageKids (X : XfsEnv) (imgs : List (List UInt8)) (e : XalInode) : List XalInode :=
  match inodeImage imgs e.ino with
  | none => []
  | some img => entryKids (imageEnv X img) e

/-- What the images have at a path, as their directories list it. -/
abbrev ImagesListed (X : XfsEnv) (imgs : List (List UInt8)) : List CStr → XalInode → Prop :=
  Found (imageKids X imgs) XalInode.nameBytes (rootEntry X)

/-! ## The data fork -/

section
variable (E : XfsEnv)

/-- Where the `n` entries of a short-form directory from `cursor` on end. -/
def localEnd : Nat → Nat → Nat → Nat
  | 0, cursor, _ => cursor
  | n + 1, cursor, i8count =>
    localEnd n (cursor + 3 + (E.dinodes cursor).toNat + 1 + if i8count ≠ 0 then 8 else 4)
      (i8count - 1)

/-- Where the header of a root and the first `n` pointers behind it end. -/
def pointersEnd (dinode n : Nat) : Nat :=
  max (dfork dinode + 4) (dinode + (btreeDinodeMeta E.sb (diForkoff E dinode)).2 + 8 * n)

/-- Where the records of the data fork end. -/
def recordsEnd (dinode : Nat) : Nat := dfork dinode + 16 * diNextents E dinode

/-- Where that ends of a directory which is read in the dinode. -/
def dirEnd (dinode : Nat) : Nat :=
  if diFormat E dinode = fmtBtree then pointersEnd E dinode (dirBtreePos E dinode).numrecs
  else if diFormat E dinode = fmtExtents then recordsEnd E dinode
  else if diFormat E dinode = fmtLocal then
    let i8count := (E.dinodes (dfork dinode + 1)).toNat
    localEnd E (E.dinodes (dfork dinode)).toNat
      (dfork dinode + 2 + if i8count ≠ 0 then 8 else 4) i8count
  else 0

/-- The same of a regular file. -/
def fileEnd (dinode : Nat) : Nat :=
  if diFormat E dinode = fmtBtree then pointersEnd E dinode (fileBtreePos E dinode).numrecs
  else recordsEnd E dinode

end

/-- The image has room for the data fork of the entry. -/
structure Inside (X : XfsEnv) (img : List UInt8) (e : XalInode) : Prop where
  dir : entryType (imageEnv X img) e = ftDir → dirEnd (imageEnv X img) 0 ≤ img.length
  file : entryType (imageEnv X img) e = ftRegFile → fileEnd (imageEnv X img) 0 ≤ img.length

theorem le_localEnd (E : XfsEnv) :
    ∀ n cursor i8count : Nat, cursor ≤ localEnd E n cursor i8count := by
  intro n
  induction n with
  | zero => exact fun _ _ => Nat.le_refl _
  | succ n ih =>
    intro cursor i8count
    rw [localEnd]
    exact Nat.le_trans (by omega) (ih _ _)

/-! ## Blocks on the same device -/

section
variable (X : XfsEnv) (img : List UInt8) (self : Nat)

theorem dblockYield_image (dblock : Buf) (fuel : Nat) : ∀ ofz : Nat,
    dblockYield (imageEnv X img) self dblock fuel ofz = dblockYield X self dblock fuel ofz := by
  induction fuel with
  | zero => exact fun _ => rfl
  | succ fuel ih =>
    intro ofz
    rw [dblockYield, dblockYield]
    simp only [ih]
    rfl

theorem dblocksYield_image (start nblocks : Nat) (body : Nat → Yield Bool) (fuel : Nat) :
    ∀ k : Nat, dblocksYield (imageEnv X img) start nblocks body fuel k =
      dblocksYield X start nblocks body fuel k := by
  induction fuel with
  | zero => exact fun _ => rfl
  | succ fuel ih =>
    intro k
    rw [dblocksYield, dblocksYield]
    simp only [ih]
    rfl

theorem dirDblockYield_image (fsbno : Nat) :
    dirDblockYield (imageEnv X img) self fsbno = dirDblockYield X self fsbno := by
  unfold dirDblockYield
  simp only [dblockYield_image]
  rfl

theorem leafDblockYield_image : leafDblockYield (imageEnv X img) self = leafDblockYield X self := by
  funext fsbno
  unfold leafDblockYield
  simp only [dblockYield_image]
  rfl

theorem leafRecordsYield_image (block : Buf) (n : Nat) : ∀ i : Nat,
    leafRecordsYield (imageEnv X img) self block n i = leafRecordsYield X self block n i := by
  induction n with
  | zero => exact fun _ => rfl
  | succ n ih =>
    intro i
    rw [leafRecordsYield, leafRecordsYield]
    simp only [ih, dblocksYield_image, leafDblockYield_image]

theorem lblockYield_image (fsbno : Nat) :
    lblockYield (imageEnv X img) self fsbno = lblockYield X self fsbno := by
  unfold lblockYield leafYield
  simp only [leafRecordsYield_image]
  rfl

theorem bmapTree_image (level : Nat) : BmapTree (imageEnv X img) level = BmapTree X level := by
  induction level with
  | zero => rfl
  | succ level ih =>
    funext fsbno l
    rw [BmapTree, BmapTree, ih]
    rfl

end

/-- The dinode has the bytes of the image, with all its fields. -/
structure AtImage (X : XfsEnv) (ofz : Nat) (img : List UInt8) : Prop where
  has : Has X.dinodes ofz img
  fields : dinodeNbytes ≤ img.length

section
variable {X : XfsEnv} {ofz self : Nat} {img : List UInt8} (h : AtImage X ofz img)
include h

theorem AtImage.diMode_eq : diMode X ofz = diMode (imageEnv X img) 0 :=
  h.has.be16_at (j := 2) (Nat.le_trans (by decide) h.fields)

theorem AtImage.diFormat_eq : diFormat X ofz = diFormat (imageEnv X img) 0 :=
  congrArg UInt8.toNat (h.has.byte_at (j := 5) (Nat.lt_of_lt_of_le (by decide) h.fields))

theorem AtImage.diSize_eq : diSize X ofz = diSize (imageEnv X img) 0 :=
  h.has.be64_at (j := 56) (Nat.le_trans (by decide) h.fields)

theorem AtImage.diIno_eq : diIno X ofz = imageIno img :=
  h.has.be64_at (j := 152) (Nat.le_trans (by decide) h.fields)

theorem AtImage.diForkoff_eq : diForkoff X ofz = diForkoff (imageEnv X img) 0 :=
  congrArg UInt8.toNat (h.has.byte_at (j := 82) (Nat.lt_of_lt_of_le (by decide) h.fields))

theorem AtImage.diNextents_eq : diNextents X ofz = diNextents (imageEnv X img) 0 := by
  have h76 := h.has.be32_at (j := 76) (Nat.le_trans (by decide) h.fields)
  have h24 := h.has.be64_at (j := 24) (Nat.le_trans (by decide) h.fields)
  simp only [diNextents, h76, h24]
  rfl

theorem AtImage.localList_eq {n : Nat} : ∀ {cursor i8count : Nat},
    localEnd (imageEnv X img) n cursor i8count ≤ img.length →
      localList X n (ofz + cursor) i8count = localList (imageEnv X img) n cursor i8count := by
  induction n with
  | zero => exact fun _ => rfl
  | succ n ih =>
    intro cursor i8count hend
    rw [localEnd] at hend
    have hroom := Nat.le_trans (le_localEnd (imageEnv X img) n
      (cursor + 3 + ((imageEnv X img).dinodes cursor).toNat + 1 + if i8count ≠ 0 then 8 else 4)
      (i8count - 1)) hend
    have hpos : 4 ≤ if i8count ≠ 0 then 8 else 4 := by split <;> omega
    have hnamelen : (X.dinodes (ofz + cursor)).toNat = ((imageEnv X img).dinodes cursor).toNat :=
      congrArg UInt8.toNat (h.has.byte_at (by omega))
    have hrest := ih hend
    rw [localList, localList]
    simp only [hnamelen]
    generalize ((imageEnv X img).dinodes cursor).toNat = namelen at hroom hrest ⊢
    have hname := h.has.slice_at (j := cursor + 3) (n := namelen) (by omega)
    have hftype := h.has.byte_at (j := cursor + 3 + namelen) (by omega)
    have hino : (if i8count ≠ 0 then be64 X.dinodes (ofz + (cursor + 3 + namelen + 1))
        else be32 X.dinodes (ofz + (cursor + 3 + namelen + 1))) =
        if i8count ≠ 0 then be64 (ofList 0 img) (cursor + 3 + namelen + 1)
        else be32 (ofList 0 img) (cursor + 3 + namelen + 1) := by
      by_cases h8 : i8count ≠ 0
      · rw [if_pos h8] at hroom
        rw [if_pos h8, if_pos h8, h.has.be64_at (by omega)]
      · rw [if_neg h8, if_neg h8, h.has.be32_at (by omega)]
    simp only [Nat.add_assoc] at hname hftype hino hrest ⊢
    rw [hname, hftype, hino, hrest]
    rfl

theorem AtImage.xfsExtentAt_eq {j : Nat} (hj : dinodeNbytes + j + 16 ≤ img.length) :
    xfsExtentAt X.dinodes (dfork ofz + j) =
      xfsExtentAt (imageEnv X img).dinodes (dfork 0 + j) := by
  rw [xfsExtentAt, xfsExtentAt, dfork, Nat.add_assoc ofz, h.has.be64_at (by omega),
    Nat.add_assoc ofz, h.has.be64_at (by omega), dfork, Nat.zero_add]
  rfl

/-- The directory blocks are those of the device. -/
theorem AtImage.dirExtentsYield_eq {n : Nat} : ∀ {i : Nat} {nbytes : Int},
    dinodeNbytes + 16 * (i + n) ≤ img.length →
      dirExtentsYield X self ofz n i nbytes =
        dirExtentsYield (imageEnv X img) self 0 n i nbytes := by
  induction n with
  | zero => exact fun _ => rfl
  | succ n ih =>
    intro i nbytes hend
    rw [dirExtentsYield, dirExtentsYield, h.xfsExtentAt_eq (by omega)]
    by_cases hleft : nbytes > 0
    · rw [if_pos hleft, if_pos hleft]
      simp only [ih (i := i + 1) (by omega), dblocksYield_image, dirDblockYield_image]
      rfl
    · rw [if_neg hleft, if_neg hleft]

/-- The pointers of a root. -/
theorem AtImage.btreeFsbnos_eq {n : Nat} (hend : pointersEnd (imageEnv X img) 0 n ≤ img.length) :
    btreeFsbnos X ofz n = btreeFsbnos (imageEnv X img) 0 n := by
  have hle : 0 + (btreeDinodeMeta X.sb (diForkoff (imageEnv X img) 0)).2 + 8 * n ≤ img.length :=
    Nat.le_trans (Nat.le_max_right _ _) hend
  refine List.map_congr_left fun i hi => ?_
  have hlt := List.mem_range.1 hi
  rw [h.diForkoff_eq, Nat.add_assoc, Nat.zero_add]
  exact h.has.be64_at (by omega)

theorem AtImage.root_eq {n : Nat} (hend : pointersEnd (imageEnv X img) 0 n ≤ img.length) :
    be16 X.dinodes (dfork ofz) = be16 (imageEnv X img).dinodes (dfork 0) ∧
      be16 X.dinodes (dfork ofz + 2) = be16 (imageEnv X img).dinodes (dfork 0 + 2) := by
  have hle : dfork 0 + 4 ≤ img.length := Nat.le_trans (Nat.le_max_left _ _) hend
  rw [dfork, Nat.zero_add] at hle
  rw [dfork, dfork, Nat.zero_add, Nat.add_assoc ofz]
  exact ⟨h.has.be16_at (by omega), h.has.be16_at (by omega)⟩

/-- What a directory lists. -/
theorem AtImage.dirListing_eq (hend : dirEnd (imageEnv X img) 0 ≤ img.length) :
    dirListing X ofz = dirListing (imageEnv X img) 0 := by
  rw [dirEnd] at hend
  rw [dirListing, dirListing, h.diFormat_eq]
  by_cases hb : diFormat (imageEnv X img) 0 = fmtBtree
  · rw [if_pos hb] at hend
    rw [if_pos hb, if_pos hb]
    have hcount : (dirBtreePos X ofz).numrecs = (dirBtreePos (imageEnv X img) 0).numrecs :=
      (h.root_eq hend).1
    rw [dirFsbnos, hcount, h.btreeFsbnos_eq hend]
    simp only [lblockYield_image]
    rfl
  rw [if_neg hb] at hend
  rw [if_neg hb, if_neg hb]
  by_cases he : diFormat (imageEnv X img) 0 = fmtExtents
  · rw [if_pos he] at hend
    rw [if_pos he, if_pos he, h.diNextents_eq, h.diSize_eq, h.dirExtentsYield_eq]
    rw [Nat.zero_add]
    exact hend
  rw [if_neg he] at hend
  rw [if_neg he, if_neg he]
  by_cases hl : diFormat (imageEnv X img) 0 = fmtLocal
  · rw [if_pos hl] at hend
    rw [if_pos hl, if_pos hl]
    simp only at hend ⊢
    have hle := Nat.le_trans (le_localEnd _ _ _ _) hend
    have hfork : dfork 0 = 176 := rfl
    have hcount : X.dinodes (dfork ofz) = (imageEnv X img).dinodes (dfork 0) :=
      h.has.byte_at (j := 176) (by omega)
    have hi8 : X.dinodes (dfork ofz + 1) = (imageEnv X img).dinodes (dfork 0 + 1) :=
      h.has.byte_at (j := 177) (by omega)
    have hcursor : ∀ n, dfork ofz + 2 + n = ofz + (dfork 0 + 2 + n) := by
      intro n
      rw [dfork, dfork, dinodeNbytes]
      omega
    rw [hcount, hi8, hcursor, h.localList_eq hend]
  · rw [if_neg hl, if_neg hl]

/-- The extents of a regular file. -/
theorem AtImage.records (hend : fileEnd (imageEnv X img) 0 ≤ img.length) {l : List XalExtent}
    (hrec : FileRecords (imageEnv X img) 0 l) : FileRecords X ofz l := by
  rw [fileEnd] at hend
  rcases hrec with ⟨hfmt, rfl⟩ | ⟨hfmt, h72, level, hlevel, htrees⟩
  · rw [if_neg (by rw [hfmt]; decide)] at hend
    refine .inl ⟨h.diFormat_eq.trans hfmt, ?_⟩
    rw [h.diNextents_eq]
    refine List.map_congr_left fun i hi => (h.xfsExtentAt_eq ?_).symm
    have hlt := List.mem_range.1 hi
    rw [recordsEnd, dfork] at hend
    omega
  · rw [if_pos hfmt] at hend
    obtain ⟨hroot, hcount⟩ := h.root_eq hend
    refine .inr ⟨h.diFormat_eq.trans hfmt, h72, level, hroot.trans hlevel, ?_⟩
    have hnumrecs : (fileBtreePos X ofz).numrecs = (fileBtreePos (imageEnv X img) 0).numrecs :=
      hcount
    rw [fileFsbnos, hnumrecs, h.btreeFsbnos_eq hend, ← bmapTree_image X img]
    exact htrees

end

/-! ## What is retrieved -/

/-- `dinodes_get` finds the inodes of the images. -/
def Retrieves (X : XfsEnv) (imgs : List (List UInt8)) : Prop :=
  ∀ ino, X.dinodesMap ino = none ∧ inodeImage imgs ino = none ∨
    ∃ ofz img, X.dinodesMap ino = some ofz ∧ inodeImage imgs ino = some img ∧ AtImage X ofz img

theorem inodeImage_some {imgs : List (List UInt8)} {ino : Nat} {img : List UInt8}
    (h : inodeImage imgs ino = some img) : img ∈ imgs ∧ imageIno img = ino := by
  unfold inodeImage at h
  have hino := List.find?_some h
  exact ⟨List.mem_of_find?_eq_some h, beq_iff_eq.1 hino⟩

theorem inodeImage_of_mem {imgs : List (List UInt8)} (hdistinct : (imgs.map imageIno).Nodup)
    {img : List UInt8} (h : img ∈ imgs) : inodeImage imgs (imageIno img) = some img := by
  cases hfind : inodeImage imgs (imageIno img) with
  | none =>
    have hnot := List.find?_eq_none.1 hfind img h
    exact absurd (beq_self_eq_true _) hnot
  | some img' =>
    obtain ⟨hmem, hino⟩ := inodeImage_some hfind
    rw [List.inj_on_of_nodup_map hdistinct hmem h hino]

theorem retrieved_images {D : IabEnv} {recs : Nat → List XalOdfInobtRec} {s s' : Retrieval}
    {X : XfsEnv} (hsize : dinodeNbytes ≤ D.sb.inodesize)
    (hdistinct : ((groupImages D recs).map imageIno).Nodup)
    (h : Decodes D (groupRecords D recs) s.started s') (hdinodes : X.dinodes = s'.dinodes)
    (hmap : X.dinodesMap = s'.dinodesMap) : Retrieves X (groupImages D recs) := by
  have hall : Entered D.sb.inodesize (groupImages D recs) s.started s' := h.entered hsize
  have hslot : ∀ k img, (groupImages D recs)[k]? = some img →
      AtImage X (k * D.sb.inodesize) img := by
    intro k img hk
    have himages := hall.images
    rw [← himages] at hk
    obtain ⟨hlt, rfl⟩ := List.getElem?_eq_some_iff.1 hk
    rw [List.getElem_map, List.getElem_range]
    have hzero : s.started.index + k = k := Nat.zero_add k
    rw [hzero]
    refine ⟨?_, ?_⟩
    · rw [Has, length_slice, hdinodes]
    · rw [length_slice]
      exact hsize
  have hget : ∀ ino ofz, X.dinodesMap ino = some ofz ↔
      ∃ k, ((groupImages D recs).map imageIno)[k]? = some ino ∧ ofz = k * D.sb.inodesize := by
    intro ino ofz
    rw [hmap, hall.map, enterInos_eq_some hdistinct]
    show (∃ k, _ ∧ ofz = (0 + k) * _) ∨ _ ∧ none = some ofz ↔ _
    simp
  intro ino
  cases hfind : inodeImage (groupImages D recs) ino with
  | none =>
    cases hd : X.dinodesMap ino with
    | none => exact .inl ⟨rfl, rfl⟩
    | some ofz =>
      obtain ⟨k, hk, -⟩ := (hget ino ofz).1 hd
      obtain ⟨img, himg, rfl⟩ := List.mem_map.1 (List.mem_of_getElem? hk)
      rw [inodeImage_of_mem hdistinct himg] at hfind
      cases hfind
  | some img =>
    obtain ⟨hmem, rfl⟩ := inodeImage_some hfind
    obtain ⟨k, hk⟩ := List.mem_iff_getElem?.1 hmem
    refine .inr ⟨k * D.sb.inodesize, img, (hget _ _).2 ⟨k, ?_, rfl⟩, rfl, hslot k img hk⟩
    rw [List.getElem?_map, hk]
    rfl

/-! ## The tree of the images -/

section
variable {X : XfsEnv} {imgs : List (List UInt8)} {e : XalInode} {img : List UInt8} {ofz : Nat}

theorem AtImage.entryType_eq (h : AtImage X ofz img) (hofz : X.dinodesMap e.ino = some ofz)
    (hino : imageIno img = e.ino) : entryType X e = entryType (imageEnv X img) e := by
  have hself : (imageEnv X img).dinodesMap e.ino = some 0 := if_pos hino.symm
  rw [entryType, entryType, hofz, hself]
  simp only [h.diMode_eq]

theorem Retrieves.kids (h : Retrieves X imgs)
    (hinside : ∀ img, inodeImage imgs e.ino = some img → Inside X img e) :
    entryKids X e = imageKids X imgs e := by
  rcases h e.ino with ⟨hnone, himg⟩ | ⟨ofz, img, hofz, himg, hat⟩
  · rw [entryKids, imageKids, hnone, himg]
  · have hino := (inodeImage_some himg).2
    have hself : (imageEnv X img).dinodesMap e.ino = some 0 := if_pos hino.symm
    have htype := hat.entryType_eq hofz hino
    rw [entryKids, imageKids, hofz, himg]
    simp only
    rw [entryKids, hself]
    simp only
    rw [htype]
    by_cases hdir : entryType (imageEnv X img) e = ftDir
    · rw [if_pos hdir, if_pos hdir, hat.dirListing_eq ((hinside img himg).dir hdir)]
    · rw [if_neg hdir, if_neg hdir]

end

/-- The slot has what the bytes of the inode of its entry say. -/
structure OfImage (X : XfsEnv) (memory : Nat → XalExtent) (img : List UInt8) (v e : XalInode) :
    Prop where
  ino : v.ino = imageIno img
  size : v.size = diSize (imageEnv X img) 0
  ftype : v.ftype = entryType (imageEnv X img) e
  extents : v.ftype = ftRegFile → ∀ l, FileRecords (imageEnv X img) 0 l → extentsOf memory v = l

/-- The index is that of the tree of the images (module doc). -/
structure IndexOfImages (X : XfsEnv) (imgs : List (List UInt8)) (y : Xal Buf) : Prop where
  every : ∀ i, y.rootIdx ≤ i → i < y.store.inodes.free → ∃ q e,
    SlotAt y (imageKids X imgs) XalInode.nameBytes (rootEntry X) q i e
  listed : ∀ q e, ImagesListed X imgs q e ↔
    ∃ i, SlotAt y (imageKids X imgs) XalInode.nameBytes (rootEntry X) q i e
  slot : ∀ q i e, SlotAt y (imageKids X imgs) XalInode.nameBytes (rootEntry X) q i e →
    ∃ img, inodeImage imgs e.ino = some img ∧
      OfImage X y.store.extents.memory img (y.store.inodes.memory i) e

section
variable {X : XfsEnv} {imgs : List (List UInt8)} {y : Xal Buf} {k : Forest XalInode}
  {q : List CStr} {i : Nat} {e : XalInode}

theorem RecordedEntry.ofImage {v : XalInode} (h : RecordedEntry X y.store v e)
    (hget : Retrieves X imgs) (hinside : ∀ img, inodeImage imgs e.ino = some img → Inside X img e) :
    ∃ img, inodeImage imgs e.ino = some img ∧ OfImage X y.store.extents.memory img v e := by
  obtain ⟨hentry, hrec⟩ := h
  obtain ⟨dinode, hdinode, hino, hsize, -⟩ := hentry.dinode
  rcases hget e.ino with ⟨hnone, -⟩ | ⟨ofz, img, hofz, himg, hat⟩
  · rw [hnone] at hdinode
    cases hdinode
  obtain rfl := Option.some.inj (hofz.symm.trans hdinode)
  have htype := hentry.ftype.trans (hat.entryType_eq hofz (inodeImage_some himg).2)
  refine ⟨img, himg, hino.trans hat.diIno_eq, hsize.trans hat.diSize_eq, htype, fun hreg l hl => ?_⟩
  have hroom := (hinside img himg).file (htype.symm.trans hreg)
  exact (hrec hreg).2 ofz l hofz (hat.records hroom hl)

theorem XfsTreeBy.ofImages (ht : XfsTreeBy X (RecordedEntry X) y k)
    (hfree : y.store.inodes.free = y.rootIdx + 1 + k.size) (hget : Retrieves X imgs)
    (hinside : ∀ q e img, ImagesListed X imgs q e → inodeImage imgs e.ino = some img →
      Inside X img e) : IndexOfImages X imgs y := by
  have hkids : ∀ q e, ImagesListed X imgs q e → entryKids X e = imageKids X imgs e :=
    fun q e hl => hget.kids fun img himg => hinside q e img hl himg
  have hto : ∀ q i e, SlotAt y (entryKids X) XalInode.nameBytes (rootEntry X) q i e →
      SlotAt y (imageKids X imgs) XalInode.nameBytes (rootEntry X) q i e :=
    fun q i e hs => (stands_congr (fun q c hc => hkids q c ((found_congr hkids).1 hc)) hs).1
  have hof : ∀ q i e, SlotAt y (imageKids X imgs) XalInode.nameBytes (rootEntry X) q i e →
      SlotAt y (entryKids X) XalInode.nameBytes (rootEntry X) q i e ∧ ImagesListed X imgs q e :=
    fun q i e hs => stands_congr (fun q c hc => (hkids q c hc).symm) hs
  refine ⟨fun i h1 h2 => ?_, fun q e => ?_, fun q i e hs => ?_⟩
  · obtain ⟨q, e, hs, -⟩ := ht.stands XalInode.nameBytes h1 (by omega)
    exact ⟨q, e, hto q i e hs⟩
  · refine ((found_congr hkids).symm.trans ht.listed_iff.symm).trans ?_
    exact ⟨fun ⟨i, hs⟩ => ⟨i, hto q i e hs⟩, fun ⟨i, hs⟩ => ⟨i, (hof q i e hs).1⟩⟩
  · obtain ⟨hs', hl⟩ := hof q i e hs
    exact (ht.labelAt hs').fact.ofImage hget fun img himg => hinside q e img hl himg

end

/-- A retrieval from inode allocation B+trees with the records `recs`, and an index of what it has
retrieved. -/
theorem device_indexed (D : IabEnv) (recs : Nat → List XalOdfInobtRec)
    (hsize : dinodeNbytes ≤ D.sb.inodesize)
    (htrees : ∀ g < D.sb.agcount, IabTree D (D.ags g) (D.ags g).agiRoot (recs g))
    (hdistinct : ((groupImages D recs).map imageIno).Nodup) (n : Nat) (s s' : Retrieval)
    (hd : xalDinodesRetrieve D n s = .ok () s') (shm : Bool) (X : XfsEnv)
    (hdinodes : X.dinodes = s'.dinodes) (hmap : X.dinodesMap = s'.dinodesMap) (x y : Xal Buf)
    (fuel : Nat) (hx : XfsReach shm x) (hX : XfsCall X x)
    (hr : xalIndex (xalBeXfsIndex X fuel) x = .ok () y)
    (hinside : ∀ q e img, ImagesListed X (groupImages D recs) q e →
      inodeImage (groupImages D recs) e.ino = some img → Inside X img e) :
    IndexOfImages X (groupImages D recs) y := by
  have hget := retrieved_images hsize hdistinct (xalDinodesRetrieve_decodes htrees hd) hdinodes hmap
  obtain ⟨k, ht, hfree⟩ := xalIndex_xfs_treeBy recordedEntry_steady
    (recordedEntry_holds hX.extents) hX hx.alive.storeOk hr
  exact ht.ofImages hfree hget hinside

/-! ## A directory and a file -/

/-- The leaf of `nodeAndLeaf`; inode 64 is a directory in short form with the file `a`, inode 65
that file, with one extent. -/
def deviceBytes : Buf := fun i =>
  if i < 32768 then nodeAndLeaf i
  else if i < 32768 + 512 then
    ofList (32768 + 2) ([0x41, 0xed, 3, 1] ++ List.replicate 153 0 ++ [64] ++ List.replicate 16 0 ++
      [1, 0, 0, 0, 0, 64, 1, 0, 0, 97, 1, 0, 0, 0, 65]) i
  else
    ofList (32768 + 514) ([0x81, 0xa4, 3, 2] ++ List.replicate 73 0 ++ [1] ++
      List.replicate 79 0 ++ [65] ++ List.replicate 16 0 ++ (writtenRec 0 Nat.two_pos).bytes) i

def deviceSb : XalSb := { twoInodes.sb with rootino := 64, dirblocksize := 4096, agblocks := 16 }

def deviceIab : IabEnv :=
  { twoInodes with
    dev := ⟨bufNbytes, 512, fun slba _ => some fun i => deviceBytes (slba * 512 + i), fun _ => 0⟩
    sb := deviceSb
    ags := fun _ => { (default : XalAg) with agiRoot := 2 } }

def deviceXfs (s : Retrieval) : XfsEnv :=
  { xfsTableEnv deviceSb s.dinodes s.dinodesMap with dev := deviceIab.dev }

def deviceEntry : XalInode :=
  { (default : XalInode) with ino := 65, ftype := 1, namelen := 1, name := [97] }

/-- The two images. -/
def deviceImages : List (List UInt8) := groupImages deviceIab fun _ => [twoRecord]

theorem deviceImages_kids : imageKids (deviceXfs noneRetrieved) deviceImages
    (rootEntry (deviceXfs noneRetrieved)) = [deviceEntry] := by decide +kernel

theorem deviceXfs_kids (s : Retrieval) (imgs : List (List UInt8)) :
    imageKids (deviceXfs s) imgs = imageKids (deviceXfs noneRetrieved) imgs := by
  funext e
  unfold imageKids
  cases inodeImage imgs e.ino <;> rfl

theorem deviceImages_records {img : List UInt8}
    (himg : inodeImage deviceImages deviceEntry.ino = some img) :
    entryType (imageEnv (deviceXfs noneRetrieved) img) deviceEntry = ftRegFile ∧
      FileRecords (imageEnv (deviceXfs noneRetrieved) img) 0 [⟨0, 7, 1, 0⟩] := by
  have hall : (inodeImage deviceImages deviceEntry.ino).all fun img =>
      decide (diFormat (imageEnv (deviceXfs noneRetrieved) img) 0 = fmtExtents ∧
        (List.range (diNextents (imageEnv (deviceXfs noneRetrieved) img) 0)).map
          (fun i => xfsExtentAt (ofList 0 img) (dfork 0 + 16 * i)) = [⟨0, 7, 1, 0⟩]) := by
    decide +kernel
  rw [himg] at hall
  obtain ⟨hfmt, hl⟩ := of_decide_eq_true hall
  exact ⟨rfl, .inl ⟨hfmt, hl.symm⟩⟩

theorem deviceImages_inside : deviceImages.all fun img =>
    decide (dirEnd (imageEnv (deviceXfs noneRetrieved) img) 0 ≤ img.length ∧
      fileEnd (imageEnv (deviceXfs noneRetrieved) img) 0 ≤ img.length) := by decide +kernel

theorem deviceIab_tree : IabTree deviceIab (deviceIab.ags 0) 2 [twoRecord] := by
  have hleaf : (iabBlockAt deviceIab (deviceIab.ags 0) 2).any fun block => blockLevel block == 0 &&
      (blockNumrecs block == 1 && inobtRecords block == [twoRecord]) := by decide +kernel
  obtain ⟨leaf, hat, h⟩ := (Option.any_eq_true _ _).1 hleaf
  simp only [Bool.and_eq_true, beq_iff_eq] at h
  exact .inl ⟨leaf, hat, h.1, by rw [h.2.1]; decide, h.2.2.symm⟩

theorem device_indexed_two : ∃ s' y i, xalDinodesRetrieve deviceIab 2 noneRetrieved = .ok () s' ∧
    xalIndex (xalBeXfsIndex (deviceXfs s') 2) (xfsOpened deviceSb) = .ok () y ∧
      SlotAt y (imageKids (deviceXfs s') deviceImages) XalInode.nameBytes (rootEntry (deviceXfs s'))
        [[97]] i deviceEntry ∧
      extentsOf y.store.extents.memory (y.store.inodes.memory i) = [⟨0, 7, 1, 0⟩] := by
  have hrun : (xalDinodesRetrieve deviceIab 2 noneRetrieved).okWith (fun s' =>
      (xalIndex (xalBeXfsIndex (deviceXfs s') 2) (xfsOpened deviceSb)).okWith fun _ => true) =
        true := by decide +kernel
  obtain ⟨_, s', hd, hindex⟩ := exists_of_okWith hrun
  obtain ⟨_, y, hr, -⟩ := exists_of_okWith hindex
  have himages : IndexOfImages (deviceXfs s') deviceImages y := by
    apply device_indexed deviceIab _ (by decide) _ (by decide +kernel) 2 _ s' hd true (deviceXfs s')
      rfl rfl _ y 2 (xfsOpened_reach _)
      ⟨rfl, mprotectWithin_bounded _ _ _, mprotectWithin_bounded _ _ _⟩ hr
    · intro q e img hl himg
      have hall := List.all_eq_true.1 deviceImages_inside img (inodeImage_some himg).1
      have hroom := of_decide_eq_true hall
      exact ⟨fun _ => hroom.1, fun _ => hroom.2⟩
    · intro g hg
      obtain rfl : g = 0 := Nat.lt_one_iff.1 hg
      exact deviceIab_tree
  have hkid : deviceEntry ∈ imageKids (deviceXfs s') deviceImages (rootEntry (deviceXfs s')) := by
    rw [deviceXfs_kids]
    show deviceEntry ∈ imageKids _ _ (rootEntry (deviceXfs noneRetrieved))
    rw [deviceImages_kids]
    exact List.mem_singleton_self _
  obtain ⟨i, hs⟩ := (himages.listed _ _).1 (Found.root.kid hkid)
  obtain ⟨img, himg, hof⟩ := himages.slot _ _ _ hs
  obtain ⟨hreg, hrec⟩ := deviceImages_records himg
  exact ⟨s', y, i, hd, hr, hs, hof.extents (hof.ftype.trans hreg) _ hrec⟩

end Xallib
