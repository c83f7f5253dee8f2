import Xallib.Base.Proof.Walk
import Xallib.E2E.Paths
import Xallib.Xfs.Proof.DataRange

/-!
# What a successful index has decoded

`only_decoded`: an XFS index that succeeds has decoded every inode it has claimed (`OnlyDecoded`),
and can be walked, exactly if all that is listed is `Sound`. The rest, `process_ino` does not look
at: a format its `switch` does not know, a type that is not that of the mode, and a directory block
that is skipped, since the decoders return `err` where its magic number is wrong, which is 0 there.
-/

namespace Xallib

open Lib Lib.Forest Lib.Cm Lib.Run Lib.Buf

section
variable (E : XfsEnv)

/-- The content of an inode, and its extents, are as a decoder has left them: the one that
`process_ino` calls for its type and the format of its dinode. -/
def Filled (dinode : Nat) (s : Store Buf) (v : XalInode) : Prop :=
  ∃ fuel self decoder s₀ s₁,
    Decoder E (processIno E fuel) fuel dinode self v.ftype (diFormat E dinode) decoder ∧
    Ready self s₀ ∧ decoder s₀ = .ok () s₁ ∧ s₁.inodes.memory self = v ∧
    ∀ i, (exts v).1 ≤ i → i < (exts v).1 + (exts v).2 →
      i < s.extents.free ∧ s.extents.memory i = s₁.extents.memory i

/-- The slot `i` is a directory or a regular file that was decoded from `dinode`. -/
structure DecodedFrom (s : Store Buf) (i dinode : Nat) : Prop where
  ino : (s.inodes.memory i).ino = diIno E dinode
  size : (s.inodes.memory i).size = diSize E dinode
  mode : (s.inodes.memory i).ftype = ftDir ∧ isDirMode (diMode E dinode) = true ∨
    (s.inodes.memory i).ftype = ftRegFile ∧ isRegMode (diMode E dinode) = true
  filled : Filled E dinode s (s.inodes.memory i)
  listed : (s.inodes.memory i).ftype = ftDir → ∃ l, dirListing E dinode = some l ∧
    List.Forall₂ (IsEntry E) (childrenOf s i) l ∧
    ∀ b, InDataRange E dinode b → DecodedIn E l b.fsbno

/-- Every slot of the index, from the root on, is that of an entry, and was decoded from its
dinode. -/
def OnlyDecoded (y : Xal Buf) : Prop :=
  ∀ i, y.rootIdx ≤ i → i < y.store.inodes.free → ∃ q e dinode,
    SlotAt y (entryKids E) XalInode.nameBytes (rootEntry E) q i e ∧
    E.dinodesMap e.ino = some dinode ∧ DecodedFrom E y.store i dinode

/-- `xal_walk` from the root, without a callback, returns 0. -/
def WalkReturns (y : Xal Buf) : Prop := ∃ n, ∀ fuel, n ≤ fuel → ∀ t : Unit,
  xalWalk y y.rootIdx none fuel t = .ok () t

/-- What `process_ino` does not look at is in order: the format is one of the `switch`, the type is
that of the mode, and no magic number in the data range is wrong. -/
structure SoundDinode (e : XalInode) (dinode : Nat) : Prop where
  format : diFormat E dinode ≤ fmtUuid
  dir : entryType E e = ftDir → isDirMode (diMode E dinode) = true
  file : entryType E e = ftRegFile → isRegMode (diMode E dinode) = true
  magic : entryType E e = ftDir → ∀ b, InDataRange E dinode b → MagicOk E b.fsbno

def Sound (e : XalInode) : Prop :=
  ∀ dinode, E.dinodesMap e.ino = some dinode → SoundDinode E e dinode

/-- What holds between a slot and its entry: where the format is one of the `switch`, a decoder has
filled it. -/
def FilledEntry (s : Store Buf) (v e : XalInode) : Prop := IsEntry E v e ∧
  ∀ dinode, E.dinodesMap e.ino = some dinode → diFormat E dinode ≤ fmtUuid → Filled E dinode s v

end

section
variable {E : XfsEnv} {dinode fuel self ftype fmt : Nat} {decoder : Xm Unit} {s s' : Store Buf}
  {v e : XalInode}

theorem Decoder.typed {procIno : Nat → Nat → Xm Unit}
    (h : Decoder E procIno fuel dinode self ftype fmt decoder) :
    (ftype = ftDir ∨ ftype = ftRegFile) ∧ fmt ≤ fmtUuid := by
  cases h with
  | dirLocal => exact ⟨.inl rfl, by decide⟩
  | dirExtents => exact ⟨.inl rfl, by decide⟩
  | dirBtree => exact ⟨.inl rfl, by decide⟩
  | fileExtents => exact ⟨.inr rfl, by decide⟩
  | fileBtree => exact ⟨.inr rfl, by decide⟩

theorem Filled.typed (h : Filled E dinode s v) : Typed v ∧ diFormat E dinode ≤ fmtUuid := by
  obtain ⟨fuel, self, decoder, s₀, s₁, hd, -⟩ := h
  exact hd.typed

theorem Filled.mono (h : Filled E dinode s v) (hle : s.extents.free ≤ s'.extents.free)
    (hkeep : ∀ i < s.extents.free, s'.extents.memory i = s.extents.memory i) :
    Filled E dinode s' v := by
  obtain ⟨fuel, self, decoder, s₀, s₁, hd, h₀, hr, hv, hext⟩ := h
  refine ⟨fuel, self, decoder, s₀, s₁, hd, h₀, hr, hv, fun i h1 h2 => ?_⟩
  obtain ⟨hlt, hi⟩ := hext i h1 h2
  exact ⟨by omega, (hkeep i hlt).trans hi⟩

/-- The extents a decoder has stored have been claimed. -/
theorem Decoder.extents (hX : E.mpExtents.Bounded poolReserved extentNbytes)
    {procIno : Nat → Nat → Xm Unit} (hd : Decoder E procIno fuel dinode self ftype fmt decoder)
    (h : Ready self s) (hft : (s.inodes.memory self).ftype = ftype) (hr : decoder s = .ok () s')
    (hv : (s'.inodes.memory self).ftype = ftype) {i : Nat}
    (hi : i < (exts (s'.inodes.memory self)).1 + (exts (s'.inodes.memory self)).2) :
    i < s'.extents.free := by
  have hdir : ftype = ftDir → i < s'.extents.free := by
    intro hdir
    rw [exts_of_ne (by rw [hv, hdir]; decide)] at hi
    exact absurd hi (Nat.not_lt_zero _)
  have hfile : ftype = ftRegFile → Filing self s s' → i < s'.extents.free := by
    intro hreg hf
    have hle := hf.extents_le
    have hc := congrArg XalInode.content hf.file
    rw [exts_file (hv.trans hreg), hc] at hi
    dsimp only at hi
    omega
  cases hd with
  | dirLocal => exact hdir rfl
  | dirExtents => exact hdir rfl
  | dirBtree => exact hdir rfl
  | fileExtents => exact hfile rfl ((processDinodeFileExtents_filing hX h hft dinode).ok hr)
  | fileBtree => exact hfile rfl ((processDinodeFileBtreeRoot_filing hX h hft fuel dinode).ok hr)

theorem filledEntry_steady : Steady (FilledEntry E) := fun _ _ _ _ h hle hkeep =>
  ⟨h.1, fun dinode hd hfmt => (h.2 dinode hd hfmt).mono hle hkeep⟩

theorem filledEntry_holds (hX : E.mpExtents.Bounded poolReserved extentNbytes) :
    Holds E (FilledEntry E) := by
  intro e dinode d fuel s s' u h hdinode hft hr hentry
  refine ⟨hentry, fun dinode' hdinode' hfmt => ?_⟩
  obtain rfl := Option.some.inj (hdinode.symm.trans hdinode')
  have hv : (s'.inodes.memory d).ftype = (s.inodes.memory d).ftype := hentry.ftype.trans hft.symm
  rcases processFormat_cases E (processIno E fuel) fuel dinode d s with
    ⟨decoder, hd, h₁⟩ | ⟨e, h₁⟩ | ⟨h0, -⟩
  · rw [h₁] at hr
    refine ⟨fuel, d, decoder, s, s', by rw [hv]; exact hd, h, hr, rfl, fun i _ hi => ⟨?_, rfl⟩⟩
    exact hd.extents hX h rfl hr hv hi
  · rw [h₁] at hr
    cases hr
  · exact absurd hfmt (by omega)

end

/-! ## The index -/

section
variable {E : XfsEnv} {x y : Xal Buf} {k : Forest XalInode} {q : List CStr} {i fuel : Nat}
  {e : XalInode}

theorem IsEntry.fields {v : XalInode} (h : IsEntry E v e) {dinode : Nat}
    (hd : E.dinodesMap e.ino = some dinode) : v.ino = diIno E dinode ∧ v.size = diSize E dinode ∧
      (v.ftype = ftDir → ∃ l, dirListing E dinode = some l ∧ entryKids E e = l) := by
  obtain ⟨dinode', hd', hino, hsize, hlist⟩ := h.dinode
  obtain rfl := Option.some.inj (hd.symm.trans hd')
  refine ⟨hino, hsize, fun hdir => ?_⟩
  obtain ⟨l, hl⟩ := Option.isSome_iff_exists.1 (hlist hdir)
  refine ⟨l, hl, ?_⟩
  rw [entryKids, hd]
  show (if entryType E e = ftDir then (dirListing E dinode).getD [] else []) = l
  rw [if_pos (h.ftype.symm.trans hdir), hl]
  rfl

/-- The children of a directory stand for what it lists. -/
theorem SlotAt.children (ht : XfsTreeBy E (FilledEntry E) y k)
    (hs : SlotAt y (entryKids E) XalInode.nameBytes (rootEntry E) q i e)
    (hdir : (y.store.inodes.memory i).ftype = ftDir) :
    List.Forall₂ (IsEntry E) (childrenOf y.store i) (entryKids E e) := by
  have hcount := (ht.labelAt hs).count_eq
  rw [dents_dir hdir] at hcount
  rw [List.forall₂_iff_get]
  refine ⟨by simpa [childrenOf] using hcount, fun j h1 h2 => ?_⟩
  have hj : (entryKids E e)[j]? = some ((entryKids E e).get ⟨j, h2⟩) := List.getElem?_eq_getElem h2
  have hkid := hs.kid (by rw [dents_dir hdir]; exact hcount ▸ h2) hj
  have hentry := (ht.labelAt hkid).fact.1
  rw [dents_dir hdir] at hentry
  simpa [childrenOf] using hentry

/-- What is sound has been decoded. -/
theorem decodedFrom_of_sound (ht : XfsTreeBy E (FilledEntry E) y k)
    (hs : SlotAt y (entryKids E) XalInode.nameBytes (rootEntry E) q i e) (hsound : Sound E e) :
    ∃ dinode, E.dinodesMap e.ino = some dinode ∧ DecodedFrom E y.store i dinode := by
  obtain ⟨hentry, hfilled⟩ := (ht.labelAt hs).fact
  obtain ⟨dinode, hd, -⟩ := hentry.dinode
  obtain ⟨hfmt, hdirmode, hregmode, hmagic⟩ := hsound dinode hd
  obtain ⟨hino, hsize, hlist⟩ := hentry.fields hd
  have hfill := hfilled dinode hd hfmt
  refine ⟨dinode, hd, hino, hsize, ?_, hfill, fun hdir => ?_⟩
  · rcases hfill.typed.1 with hdir | hreg
    · exact .inl ⟨hdir, hdirmode (hentry.ftype.symm.trans hdir)⟩
    · exact .inr ⟨hreg, hregmode (hentry.ftype.symm.trans hreg)⟩
  · obtain ⟨l, hl, hkids⟩ := hlist hdir
    refine ⟨l, hl, ?_, (decodedIn_iff hl).2 (hmagic (hentry.ftype.symm.trans hdir))⟩
    rw [← hkids]
    exact hs.children ht hdir

/-- And the other way round. -/
theorem DecodedFrom.sound {dinode : Nat} (h : DecodedFrom E y.store i dinode)
    (hentry : IsEntry E (y.store.inodes.memory i) e) (hd : E.dinodesMap e.ino = some dinode) :
    Sound E e := by
  intro dinode' hd'
  obtain rfl := Option.some.inj (hd.symm.trans hd')
  have hne : ftDir ≠ ftRegFile := by decide
  refine ⟨h.filled.typed.2, fun hdir => ?_, fun hreg => ?_, fun hdir => ?_⟩
  · rcases h.mode with ⟨-, hmode⟩ | ⟨hreg, -⟩
    · exact hmode
    · exact absurd (hdir.symm.trans (hentry.ftype.symm.trans hreg)) hne
  · rcases h.mode with ⟨hdir, -⟩ | ⟨-, hmode⟩
    · exact absurd (hdir.symm.trans (hentry.ftype.trans hreg)) hne
    · exact hmode
  · obtain ⟨l, hl, -, hdec⟩ := h.listed (hentry.ftype.trans hdir)
    exact (decodedIn_iff hl).1 hdec

/-- Where every inode is decoded, what is listed is sound. -/
theorem OnlyDecoded.sound (h : OnlyDecoded E y) (ht : XfsTreeBy E (FilledEntry E) y k)
    (hfree : y.store.inodes.free = y.rootIdx + 1 + k.size) (hl : XfsListed E q e) : Sound E e := by
  obtain ⟨i, hs⟩ := ht.listed_iff.2 hl
  obtain ⟨h1, h2⟩ := ht.slot_of_stands hs
  obtain ⟨q', e', dinode, hs', hd, hdec⟩ := h i h1 (by omega)
  obtain ⟨-, rfl⟩ := ht.unique hs hs'
  exact hdec.sound (ht.labelAt hs).fact.1 hd

theorem runCalls_none (calls : List (Nat × Nat)) (t : Unit) :
    runCalls (none : Option (WalkCb Unit)) calls t = .ok () t := by
  induction calls with
  | nil => rfl
  | cons c calls ih => exact ih

theorem OnlyDecoded.walkReturns (h : OnlyDecoded E y) (ht : XfsTreeBy E (FilledEntry E) y k)
    (hfree : y.store.inodes.free = y.rootIdx + 1 + k.size) (hdirty : y.dirty = false) :
    WalkReturns y := by
  refine ⟨k.size + 1, fun fuel hfuel t => ?_⟩
  rw [xalWalk, walk_visits hdirty ht.placed (fun u hu => ?_) hfuel]
  · exact runCalls_none _ t
  · rw [← ht.placed.map_visits 0, List.mem_map] at hu
    obtain ⟨c, hc, rfl⟩ := hu
    have hocc := (mem_visits (by simp)).1 ⟨c.2, hc⟩
    obtain ⟨h1, h2⟩ := LabelTree.occ.1 hocc
    obtain ⟨q, e, dinode, -, -, hdec⟩ := h c.1 h1 (by omega)
    exact hdec.filled.typed.1

/-- An index that succeeds has only decoded inodes, and can be walked, exactly if all that is listed
is sound. -/
theorem only_decoded (shm : Bool) (E : XfsEnv) (x y : Xal Buf) (fuel : Nat) (hx : XfsReach shm x)
    (hE : XfsCall E x) (hr : xalIndex (xalBeXfsIndex E fuel) x = .ok () y) :
    (OnlyDecoded E y ∧ WalkReturns y) ↔ ∀ q e, XfsListed E q e → Sound E e := by
  obtain ⟨k, ht, hfree⟩ := xalIndex_xfs_treeBy filledEntry_steady (filledEntry_holds hE.extents) hE
    hx.alive.storeOk hr
  constructor
  · exact fun h q e hl => h.1.sound ht hfree hl
  · intro hsound
    have hdec : OnlyDecoded E y := by
      intro i h1 h2
      obtain ⟨q, e, hs, -⟩ := ht.stands XalInode.nameBytes h1 (by omega)
      obtain ⟨dinode, hd, h⟩ := decodedFrom_of_sound ht hs (hsound q e (ht.listed_iff.1 ⟨i, hs⟩))
      exact ⟨q, e, dinode, hs, hd, h⟩
    exact ⟨hdec, hdec.walkReturns ht hfree (hx.rooted hE hr).dirty⟩

end

/-! ## A directory block -/

/-- The root directory has one block, with the file `a` and the empty directory `d`; if `dir`, the
mode of the file is that of a directory. -/
def modesXfs (dir : Bool) : XfsEnv :=
  blocksXfs
    (ofList 0 (dinodeBytes 0o040755 2 1 2048 0 (beBytes 8 0 ++ beBytes 8 (4 * 2 ^ 21 + 2)) ++
      dinodeBytes (if dir then 0o040644 else 0o100644) 2 0 0 131 [] ++ dirDinode 132 0 []))
    (fun ino => if ino = 0 then some 0 else if ino = 131 then some 512 else
      if ino = 132 then some 1024 else none)
    (ofList 0 (beBytes 4 dir3DataMagic ++ List.replicate 60 0 ++
      beBytes 8 131 ++ [1, 97, 1, 0, 0, 0, 0, 0] ++ beBytes 8 132 ++ [1, 100, 2, 0, 0, 0, 0, 0]))

/-- The entry of the file. -/
def modesFile : XalInode :=
  { (default : XalInode) with ino := 131, ftype := 1, namelen := 1, name := [97] }

/-- The entry of the directory. -/
def modesDir : XalInode :=
  { (default : XalInode) with ino := 132, ftype := 2, namelen := 1, name := [100] }

theorem modesXfs_kids (dir : Bool) :
    entryKids (modesXfs dir) (rootEntry (modesXfs dir)) = [modesFile, modesDir] := by
  cases dir <;> decide +kernel

theorem modesXfs_listed {dir : Bool} {q : List CStr} {e : XalInode} :
    XfsListed (modesXfs dir) q e ↔ q = [] ∧ e = rootEntry (modesXfs dir) ∨
      e ∈ [modesFile, modesDir] ∧ q = [e.nameBytes] := by
  have hflat : ∀ e ∈ entryKids (modesXfs dir) (rootEntry (modesXfs dir)),
      entryKids (modesXfs dir) e = [] := by
    rw [modesXfs_kids]
    cases dir <;> decide +kernel
  rw [XfsListed, listed_flat hflat, modesXfs_kids]

theorem modesXfs_sound : ∀ q e, XfsListed (modesXfs false) q e → Sound (modesXfs false) e := by
  intro q e hl dinode hd
  rcases modesXfs_listed.1 hl with ⟨-, rfl⟩ | ⟨he, -⟩
  · obtain rfl := Option.some.inj hd
    have hblocks : dataBlocks (modesXfs false) 0 (forkBlocks (modesXfs false) 0
        (diNextents (modesXfs false) 0) 0 (signed64 (diSize (modesXfs false) 0))) = [⟨0, 4⟩] := by
      decide +kernel
    have hmagic : (dblockAt (modesXfs false) 4).map dblockMagicOk = some true := by decide +kernel
    refine ⟨by decide +kernel, fun _ => by decide +kernel, fun h => absurd h (by decide +kernel),
      fun _ b hb => ?_⟩
    cases hb with
    | leaf h => exact absurd h (by decide +kernel)
    | fork _ h =>
      obtain rfl := List.mem_singleton.1 (hblocks ▸ h)
      intro dblock hdblock
      rw [hdblock] at hmagic
      exact Option.some.inj hmagic
  · simp only [List.mem_cons, List.not_mem_nil, or_false] at he
    rcases he with rfl | rfl
    · obtain rfl := Option.some.inj hd
      exact ⟨by decide +kernel, fun h => absurd h (by decide +kernel), fun _ => by decide +kernel,
        fun h => absurd h (by decide +kernel)⟩
    · obtain rfl := Option.some.inj hd
      refine ⟨by decide +kernel, fun _ => by decide +kernel, fun h => absurd h (by decide +kernel),
        fun _ b hb => ?_⟩
      cases hb with
      | leaf h => exact absurd h (by decide +kernel)
      | fork h => exact absurd h (by decide +kernel)

theorem only_decoded_block : ∃ y,
    xalIndex (xalBeXfsIndex (modesXfs false) 2) (xfsOpened smallSb) = .ok () y ∧
      y.store.inodes.free = 3 ∧ OnlyDecoded (modesXfs false) y ∧ WalkReturns y := by
  have hrun : (xalIndex (xalBeXfsIndex (modesXfs false) 2) (xfsOpened smallSb)).okWith
    (fun y => y.store.inodes.free == 3) = true := by decide +kernel
  obtain ⟨_, y, hr, hfree⟩ := exists_of_okWith hrun
  exact ⟨y, hr, eq_of_beq hfree, (only_decoded true _ _ y 2 (xfsOpened_reach _)
    (blocksXfs_call _ _ _ rfl) hr).2 modesXfs_sound⟩

/-! ## What is not looked at -/

/-- A root directory in extents format with the block 0, which is of zeros. -/
def zeroBlockXfs : XfsEnv :=
  blocksXfs (fun i => if i = 2 then 0x40 else if i = 5 then 2 else if i = 62 then 8 else
      if i = 79 then 1 else if i = 191 then 2 else 0)
    (fun ino => if ino = 0 then some 0 else none) fun _ => 0

/-- A root directory in a format that there is not. -/
def formatXfs : XfsEnv :=
  xfsTableEnv smallSb (fun i => if i = 2 then 0x40 else if i = 5 then 9 else 0)
    (fun ino => if ino = 0 then some 0 else none)

theorem exists_not_onlyDecoded {E : XfsEnv} {sb : XalSb} {fuel : Nat} {q : List CStr} {e : XalInode}
    (hE : XfsCall E (xfsOpened sb)) (hl : XfsListed E q e) (hbad : ¬Sound E e)
    (hrun : (xalIndex (xalBeXfsIndex E fuel) (xfsOpened sb)).okWith (fun _ => true) = true) :
    ∃ y, xalIndex (xalBeXfsIndex E fuel) (xfsOpened sb) = .ok () y ∧ ¬OnlyDecoded E y := by
  obtain ⟨_, y, hr, -⟩ := exists_of_okWith hrun
  obtain ⟨k, ht, hfree⟩ := xalIndex_xfs_treeBy filledEntry_steady (filledEntry_holds hE.extents) hE
    (xfsOpened_reach sb).alive.storeOk hr
  exact ⟨y, hr, fun h => hbad (h.sound ht hfree hl)⟩

theorem zeroBlockXfs_not_sound : ¬Sound zeroBlockXfs (rootEntry zeroBlockXfs) := by
  intro h
  have hmagic := (h 0 rfl).magic rfl ⟨0, 0⟩ (.fork rfl (by decide +kernel))
  have hbad : (dblockAt zeroBlockXfs 0).map dblockMagicOk = some false := by decide +kernel
  obtain ⟨dblock, hd, hbad⟩ := Option.map_eq_some_iff.1 hbad
  rw [hmagic dblock hd] at hbad
  cases hbad

/-- A directory block of zeros is skipped, a format that there is not is passed over, and a
directory is taken for the regular file that its entry tells. -/
theorem only_decoded_fails :
    (∃ y, xalIndex (xalBeXfsIndex zeroBlockXfs 1) (xfsOpened smallSb) = .ok () y ∧
      ¬OnlyDecoded zeroBlockXfs y) ∧
    (∃ y, xalIndex (xalBeXfsIndex formatXfs 1) (xfsOpened smallSb) = .ok () y ∧
      ¬OnlyDecoded formatXfs y) ∧
    ∃ y, xalIndex (xalBeXfsIndex (modesXfs true) 2) (xfsOpened smallSb) = .ok () y ∧
      ¬OnlyDecoded (modesXfs true) y := by
  refine ⟨?_, ?_, ?_⟩
  · exact exists_not_onlyDecoded (blocksXfs_call _ _ _ rfl) .root zeroBlockXfs_not_sound
      (by decide +kernel)
  · exact exists_not_onlyDecoded (xfsTableEnv_call _ _ _) .root
      (fun h => absurd (h 0 rfl).format (by decide)) (by decide +kernel)
  · exact exists_not_onlyDecoded (blocksXfs_call _ _ _ rfl)
      (modesXfs_listed.2 (.inr ⟨List.mem_cons_self, rfl⟩))
      (fun h => absurd ((h 512 rfl).file rfl) (by decide +kernel)) (by decide +kernel)

end Xallib
