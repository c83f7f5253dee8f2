import Xallib.Base.Proof.Root
import Xallib.Fiemap.Proof.Index
import Xallib.Lib.Machine
import Xallib.Xfs.Proof.Index

/-!
# A `struct xal` over its life

`XfsReach`, `FiemapReach`: the states of a `struct xal` after its backend has opened it and it has
been indexed any number of times, each time with another device, other answers of the operating
system and another outcome; and, for FIEMAP, after the watcher has read files again. The pools are
in order in all of them (`XfsReach.storeOk`, `FiemapReach.storeOk`).

`xalIndex_xfs`, `xalIndex_fiemap`: what one call of `xal_index` does in such a state.
-/

namespace Xallib

open Lib Lib.Forest Lib.Cm Lib.Run Lib.Buf

/-- What the environment of a call promises: the superblock is that of the `struct xal`, and
`mprotect` fails beyond the reservations. -/
structure XfsCall (E : XfsEnv) (x : Xal Buf) : Prop where
  sb : E.sb = x.sb
  inodes : E.mpInodes.Bounded poolReserved inodeNbytes
  extents : E.mpExtents.Bounded poolReserved extentNbytes

structure FiemapCall (E : FiemapEnv) (x : Xal FiemapBe) : Prop where
  sb : E.sb = x.sb
  inodes : E.mpInodes.Bounded poolReserved inodeNbytes
  extents : E.mpExtents.Bounded poolReserved extentNbytes

/-- A call of `xal_index`. -/
def XfsStep (x x' : Xal Buf) : Prop :=
  ∃ E fuel, XfsCall E x ∧ (xalIndex (xalBeXfsIndex E fuel) x).Ends x'

/-- A call of `xal_index`, or the watcher has read a file again. -/
def FiemapStep (x x' : Xal FiemapBe) : Prop :=
  ∃ E, FiemapCall E x ∧
    ((∃ fuel, (xalIndex (xalBeFiemapIndex E fuel) x).Ends x') ∨
      ∃ path inode, inode < x.store.inodes.free ∧
        (onStore (xalBeFiemapProcessInodeFile E path inode) x).Ends x')

abbrev XfsReach (shm : Bool) : Xal Buf → Prop := Reach (JustOpened .xfs shm) XfsStep

abbrev FiemapReach (shm : Bool) : Xal FiemapBe → Prop := Reach (JustOpened .fiemap shm) FiemapStep

/-- What holds of a `struct xal` over its life. -/
structure Alive {δ : Type} (type : XalBackend) (x : Xal δ) : Prop where
  storeOk : StoreOk x.store
  type_eq : x.type = type
  sharedView : x.sharedView = false

theorem JustOpened.alive {δ : Type} {type : XalBackend} {shm : Bool} {x : Xal δ}
    (h : JustOpened type shm x) : Alive type x := by
  obtain ⟨osI, osX, mpI, mpX, nallocated, be, hI, hX, hm⟩ := h.pools
  exact ⟨((xalMapPools_spec hI hX).ok hm).1, h.type_eq, h.sharedView⟩

theorem Alive.of_kept {δ : Type} {type : XalBackend} {x x' : Xal δ} (h : Alive type x)
    (hok : StoreOk x'.store) (hk : Kept x x') : Alive type x' :=
  ⟨hok, by rw [hk]; exact h.type_eq, by rw [hk]; exact h.sharedView⟩

/-! ## XFS -/

section
variable {E : XfsEnv} {x x' : Xal Buf}

theorem xalBeXfsIndex_spec (hE : XfsCall E x) (hok : StoreOk x.store) (fuel : Nat) :
    (xalBeXfsIndex E fuel x).Sat (fun _ => Rooted (freeAfterClear E.mpInodes x.store) x)
      (fun _ x' => E.retrieved = false ∧ x' = x ∨
        Halted (freeAfterClear E.mpInodes x.store) x x') := by
  unfold xalBeXfsIndex
  refine sat_failIf_bind (fun h => .inl ⟨h, rfl⟩) fun _ => ?_
  refine (sat_zoom ((clearInodes_spec hok).mono (fun _ s h => ?_) fun _ _ h => h.elim) :
    (onStore _ x).Sat (fun _ x₁ => ∃ s, x₁ = { x with store := s } ∧ StoreOk s ∧
      s.inodes.free = freeAfterClear E.mpInodes x.store) _).bind ?_
  · exact ⟨s, rfl, h.1, h.2.1⟩
  rintro _ _ ⟨s, rfl, hs, hfree⟩
  refine (sat_zoom ((clearExtents_spec hs).mono (fun _ t h => ?_) fun _ _ h => h.elim) :
    (onStore _ _).Sat (fun _ x₁ => ∃ t, x₁ = { x with store := t } ∧ StoreOk t ∧
      t.inodes.free = freeAfterClear E.mpInodes x.store) _).bind ?_
  · exact ⟨t, rfl, h.1, by rw [h.2.1, hfree]⟩
  rintro _ _ ⟨t, rfl, ht, hfree⟩
  rw [← hfree]
  refine claimRoot_bind hE.inodes ht (fun u hu => ?_) fun e u hu hf => ?_
  · have hproc := processIno_spec hE.inodes hE.extents fuel E.sb.rootino hu.ready
    refine (sat_zoom (hproc.mono (fun _ s' h => ?_) fun _ s' h => ?_) :
      (onStore _ _).Sat (fun _ x₁ => Rooted t.inodes.free x { x₁ with dirty := false }) _).bind ?_
    · exact hu.rooted h
    · exact .inr (hu.halted h)
    · exact fun _ x₁ h => h
  · exact .inr ⟨hu, rfl, rfl, .inl hf⟩

theorem xalIndex_xfs (hE : XfsCall E x) (hok : StoreOk x.store) (fuel : Nat) :
    (xalIndex (xalBeXfsIndex E fuel) x).Sat (fun _ => Rooted (freeAfterClear E.mpInodes x.store) x)
      (fun _ x' => (x.sharedView = true ∨ E.retrieved = false) ∧ x' = x ∨
        Halted (freeAfterClear E.mpInodes x.store) x x') := by
  unfold xalIndex
  rw [read_bind]
  refine sat_failIf_bind (fun h => .inl ⟨.inl h, rfl⟩) fun _ => ?_
  exact (xalBeXfsIndex_spec hE hok fuel).mono (fun _ _ h => h)
    fun _ _ h => h.imp_left fun h => ⟨.inr h.1, h.2⟩

theorem XfsStep.alive {type : XalBackend} (h : XfsStep x x') (hx : Alive type x) :
    Alive type x' := by
  obtain ⟨E, fuel, hE, hend⟩ := h
  refine ((xalIndex_xfs hE hx.storeOk fuel).mono (fun _ _ h => hx.of_kept h.ok h.kept)
    fun _ x₁ h => ?_).ends hend
  rcases h with ⟨-, rfl⟩ | h
  · exact hx
  · exact hx.of_kept h.ok h.kept

theorem XfsReach.index {shm : Bool} {fuel : Nat} {u : Unit} (h : XfsReach shm x) (hE : XfsCall E x)
    (hr : xalIndex (xalBeXfsIndex E fuel) x = .ok u x') : XfsReach shm x' :=
  Reach.step h ⟨E, fuel, hE, .inl ⟨u, hr⟩⟩

theorem XfsReach.alive {shm : Bool} (h : XfsReach shm x) : Alive .xfs x :=
  h.invariant (fun _ h => h.alive) fun _ _ hx h => h.alive hx

theorem XfsReach.rooted {shm : Bool} {fuel : Nat} {u : Unit} (h : XfsReach shm x) (hE : XfsCall E x)
    (hr : xalIndex (xalBeXfsIndex E fuel) x = .ok u x') :
    Rooted (freeAfterClear E.mpInodes x.store) x x' :=
  (xalIndex_xfs hE h.alive.storeOk fuel).ok hr

end

/-! ## FIEMAP -/

/-- A complete index of what the operating system reports. -/
structure FiemapRooted (E : FiemapEnv) (be : FiemapBe) (slot : Nat) (x : Xal FiemapBe)
    (k : Forest XalInode) : Prop where
  placed : Placed Node x.store.inodes.memory
    (.cons (x.store.inodes.memory slot) k .nil) poolIdxNone slot (slot + 1)
  free : x.store.inodes.free = slot + 1 + k.size
  staged : ∃ e, Staged exts (.cons (x.store.inodes.memory slot) k .nil) e x.store.extents.free
  name : (x.store.inodes.memory slot).name = []
  namelen : (x.store.inodes.memory slot).namelen = 0
  ftype : (x.store.inodes.memory slot).ftype = ftDir
  isInode : IsInode E.kernel E.sb x.store.extents.memory E.mountpoint
    (x.store.inodes.memory slot) k (Mirrors E.kernel E.sb x.store.extents.memory k)
  watched : x.store.be.inodeMap = watchAll E k (slot + 1) (slot + 1 + k.width)
    (watchInode E E.mountpoint (x.store.inodes.memory slot) slot be.inodeMap)
  isSome : x.store.be.pathInodeMap.isSome = be.pathInodeMap.isSome
  paths : be.pathInodeMap = some khInit → ∃ t, x.store.be.pathInodeMap = some t ∧
    Maps (inodeNames x.store) x.store.inodes.free t
      (putPaths (pathEntries E k (slot + 1) (slot + 1 + k.width) ++ [([], slot)]) fun _ => none)
  refills : ∀ t, be.pathInodeMap = some t → KhShaped t →
    t.size + (pathEntries E k (slot + 1) (slot + 1 + k.width) ++ [([], slot)]).length < 2 ^ 30 →
      ∃ names t', x.store.be.pathInodeMap = some t' ∧
        Refills (pathEntries E k (slot + 1) (slot + 1 + k.width) ++ [([], slot)]) names
          (inodeNames x.store) t t'

/-- The maps as indexing begins. -/
def beCleared (E : FiemapEnv) (be : FiemapBe) : FiemapBe :=
  if E.watchMode = .none then be else { be with inodeMap := fun _ => none }

section
variable {E : FiemapEnv} {x x' : Xal FiemapBe} {s : Store FiemapBe}

theorem clearInodeMap_eq : clearInodeMap E s = .ok () { s with be := beCleared E s.be } := by
  unfold clearInodeMap beCleared
  by_cases h : E.watchMode = .none
  · rw [if_pos h, if_pos h]
    rfl
  · rw [if_neg h, if_neg h]
    rfl

theorem clearInodeMap_spec (hs : StoreOk s) :
    (clearInodeMap E s).Sat (fun _ s' => StoreOk s' ∧ s'.inodes = s.inodes ∧
      s'.be = beCleared E s.be) (fun _ _ => False) := by
  rw [clearInodeMap_eq]
  exact ⟨⟨hs.inodes, hs.extents⟩, rfl, rfl⟩

theorem ftDir_ne_zero : ftDir ≠ 0 := by decide

theorem Begun.fiemapRooted {slot : Nat} {k : Forest XalInode} {s₀ s' : Store FiemapBe}
    (h : Begun E.sb slot s₀ s) (hm : Mirrored E E.mountpoint (s.inodes.memory slot).parentIdx slot
      s s' k) (hx : x.store = s') : FiemapRooted E s₀.be slot x k := by
  subst hx
  have hplaced := hm.placed
  have hfree := hm.free_eq
  have hwatched := hm.watched
  have hname : (x.store.inodes.memory slot).name = [] := by rw [hm.name, h.root]; rfl
  have hft : (x.store.inodes.memory slot).ftype = ftDir := by
    rw [hm.ftype (by rw [h.root]; exact ftDir_ne_zero), h.root]; rfl
  rw [h.root, h.free] at hplaced
  rw [deep_cons, deep_nil, h.free] at hfree
  rw [h.free, h.be] at hwatched
  have hpaths := hm.paths
  rw [h.free, leaveEntry, if_pos (.inl hft), hname] at hpaths
  refine ⟨hplaced, hfree, ⟨_, hm.staged⟩, hname, ?_, hft, hm.isInode, hwatched, ?_, fun hmap => ?_,
    fun t ht hs hroom => ?_⟩
  · rw [hm.namelen, h.root]; rfl
  · rw [hpaths.isSome, h.be]
  · exact hpaths.maps khInit _ (by rw [h.be]; exact hmap) maps_khInit rfl
  · obtain ⟨t', ht', hr⟩ := hpaths.refills t (by rw [h.be]; exact ht) hs hroom
    exact ⟨_, t', ht', hr⟩

/-- What a successful call leaves: the index at `slot`, as the operating system reports it. -/
structure FiemapDone (E : FiemapEnv) (be : FiemapBe) (slot : Nat) (x x' : Xal FiemapBe) : Prop
    extends Rooted slot x x' where
  mirror : ∃ k, FiemapRooted E be slot x' k

theorem fiemapIndexBody_spec (hE : FiemapCall E x) (hok : StoreOk x.store) (fuel : Nat) :
    (fiemapIndexBody E fuel x).Sat
      (fun _ => FiemapDone E (beCleared E x.store.be) (freeAfterClear E.mpInodes x.store) x)
      (fun _ => Halted (freeAfterClear E.mpInodes x.store) x) := by
  unfold fiemapIndexBody
  refine (sat_zoom ((clearInodes_spec hok).mono (fun _ s h => ?_) fun _ _ h => h.elim) :
    (onStore _ x).Sat (fun _ x₁ => ∃ s, x₁ = { x with store := s } ∧ StoreOk s ∧
      s.inodes.free = freeAfterClear E.mpInodes x.store ∧ s.be = x.store.be) _).bind ?_
  · exact ⟨s, rfl, h⟩
  rintro _ _ ⟨s, rfl, hs, hfree, hbe⟩
  refine (sat_zoom ((clearExtents_spec hs).mono (fun _ t h => ?_) fun _ _ h => h.elim) :
    (onStore _ _).Sat (fun _ x₁ => ∃ t, x₁ = { x with store := t } ∧ StoreOk t ∧
      t.inodes.free = freeAfterClear E.mpInodes x.store ∧ t.be = x.store.be) _).bind ?_
  · exact ⟨t, rfl, h.1, by rw [h.2.1, hfree], by rw [h.2.2, hbe]⟩
  rintro _ _ ⟨s, rfl, hs, hfree, hbe⟩
  refine (sat_zoom ((clearInodeMap_spec hs).mono (fun _ t h => ?_) fun _ _ h => h.elim) :
    (onStore _ _).Sat (fun _ x₁ => ∃ t, x₁ = { x with store := t } ∧ StoreOk t ∧
      t.inodes.free = freeAfterClear E.mpInodes x.store ∧ t.be = beCleared E x.store.be) _).bind ?_
  · exact ⟨t, rfl, h.1, by rw [h.2.1]; exact hfree, by rw [h.2.2, ← hbe]⟩
  rintro _ _ ⟨t, rfl, ht, hfree, hbe⟩
  rw [← hfree, ← hbe]
  refine claimRoot_bind hE.inodes ht (fun u hu => ?_) fun e u hu hf => ?_
  · have hproc := processInoFiemap_spec hE.inodes hE.extents fuel E.mountpoint hu.ready
    refine (sat_zoom (hproc.mono (fun _ s' h => ?_) fun _ s' h => ?_) :
      (onStore _ _).Sat (fun _ x₁ => FiemapDone E t.be t.inodes.free x { x₁ with dirty := false })
        _).bind ?_
    · obtain ⟨k, hk⟩ := h
      exact ⟨hu.rooted hk.processed, k, hu.fiemapRooted hk rfl⟩
    · exact hu.halted h
    · exact fun _ x₁ h => h
  · exact ⟨hu, rfl, rfl, .inl hf⟩

/-- The lock plays no part. -/
theorem Kept.addSeqLock (h : Kept (Xallib.addSeqLock x) x') : Kept x (Xallib.addSeqLock x') := by
  rw [h]
  rfl

theorem xalBeFiemapIndex_spec (hE : FiemapCall E x) (hok : StoreOk x.store) (fuel : Nat) :
    (xalBeFiemapIndex E fuel x).Sat
      (fun _ => FiemapDone E (beCleared E x.store.be) (freeAfterClear E.mpInodes x.store) x)
      (fun _ x' => E.mountpoint.length = 0 ∧ x' = x ∨
        Halted (freeAfterClear E.mpInodes x.store) x x') := by
  unfold xalBeFiemapIndex
  refine sat_failIf_bind (fun h => .inl ⟨h, rfl⟩) fun _ => ?_
  rw [modify_bind]
  have hE' : FiemapCall E (addSeqLock x) := ⟨hE.sb, hE.inodes, hE.extents⟩
  refine sat_onExit ((fiemapIndexBody_spec hE' hok fuel).mono ?_ ?_)
  · rintro _ x₁ ⟨hr, k, hk⟩
    exact ⟨⟨hr.ok, hr.kept.addSeqLock, hr.rootIdx, hr.dirty, hr.tree⟩, k,
      ⟨hk.placed, hk.free, hk.staged, hk.name, hk.namelen, hk.ftype, hk.isInode, hk.watched,
        hk.isSome, hk.paths, hk.refills⟩⟩
  · rintro e x₁ h
    exact .inr ⟨h.ok, h.kept.addSeqLock, h.dirty, h.tree⟩

theorem xalIndex_fiemap (hE : FiemapCall E x) (hok : StoreOk x.store) (fuel : Nat) :
    (xalIndex (xalBeFiemapIndex E fuel) x).Sat
      (fun _ => FiemapDone E (beCleared E x.store.be) (freeAfterClear E.mpInodes x.store) x)
      (fun _ x' => (x.sharedView = true ∨ E.mountpoint.length = 0) ∧ x' = x ∨
        Halted (freeAfterClear E.mpInodes x.store) x x') := by
  unfold xalIndex
  rw [read_bind]
  refine sat_failIf_bind (fun h => .inl ⟨.inl h, rfl⟩) fun _ => ?_
  exact (xalBeFiemapIndex_spec hE hok fuel).mono (fun _ _ h => h)
    fun _ _ h => h.imp_left fun h => ⟨.inr h.1, h.2⟩

theorem FiemapStep.alive {type : XalBackend} (h : FiemapStep x x') (hx : Alive type x) :
    Alive type x' := by
  obtain ⟨E, hE, ⟨fuel, hend⟩ | ⟨path, inode, hlt, hend⟩⟩ := h
  · refine ((xalIndex_fiemap hE hx.storeOk fuel).mono (fun _ _ h => hx.of_kept h.ok h.kept)
      fun _ x₁ h => ?_).ends hend
    rcases h with ⟨-, rfl⟩ | h
    · exact hx
    · exact hx.of_kept h.ok h.kept
  · have hfile : (xalBeFiemapProcessInodeFile E path inode x.store).Sat _ _ :=
      processInodeFile_spec hE.extents hx.storeOk hlt
    refine (sat_zoom (hfile.mono (fun _ s h => ?_) fun _ s h => ?_) :
      (onStore _ x).Sat (fun _ => Alive type) fun _ => Alive type).ends hend
    · exact ⟨⟨h.ok.inodes, h.ok.extents⟩, hx.type_eq, hx.sharedView⟩
    · exact ⟨h.ok, hx.type_eq, hx.sharedView⟩

theorem FiemapReach.index {shm : Bool} {fuel : Nat} {u : Unit} (h : FiemapReach shm x)
    (hE : FiemapCall E x) (hr : xalIndex (xalBeFiemapIndex E fuel) x = .ok u x') :
    FiemapReach shm x' :=
  Reach.step h ⟨E, hE, .inl ⟨fuel, .inl ⟨u, hr⟩⟩⟩

theorem FiemapReach.alive {shm : Bool} (h : FiemapReach shm x) : Alive .fiemap x :=
  h.invariant (fun _ h => h.alive) fun _ _ hx h => h.alive hx

theorem FiemapReach.done {shm : Bool} {fuel : Nat} {u : Unit} (h : FiemapReach shm x)
    (hE : FiemapCall E x) (hr : xalIndex (xalBeFiemapIndex E fuel) x = .ok u x') :
    FiemapDone E (beCleared E x.store.be) (freeAfterClear E.mpInodes x.store) x x' :=
  (xalIndex_fiemap hE h.alive.storeOk fuel).ok hr

end

/-! ## First states -/

/-- A `struct xal` just opened on an XFS device. -/
def xfsOpened (sb : XalSb) : Xal Buf := openedXal .xfs sb fun _ => 0

theorem xfsOpened_reach (sb : XalSb) : XfsReach true (xfsOpened sb) :=
  .init (openedXal_justOpened _ _ _)

/-- The environment of a call on an XFS device with the given dinodes. -/
def xfsTableEnv (sb : XalSb) (dinodes : Buf) (dinodesMap : Nat → Option Nat) : XfsEnv where
  dev := ⟨bufNbytes, 512, fun _ _ => none, fun _ => 0⟩
  sb
  dinodes
  dinodesMap
  retrieved := true
  mpInodes := mprotectWithin poolReserved inodeNbytes 0
  mpExtents := mprotectWithin poolReserved extentNbytes 0
  uninit _ := 0

theorem xfsTableEnv_call (sb : XalSb) (dinodes : Buf) (dinodesMap : Nat → Option Nat) :
    XfsCall (xfsTableEnv sb dinodes dinodesMap) (xfsOpened sb) :=
  ⟨rfl, mprotectWithin_bounded _ _ _, mprotectWithin_bounded _ _ _⟩

/-- Blocks of 1024 bytes, directory blocks of two of them. -/
def smallSb : XalSb :=
  { (default : XalSb) with
    nallocated := 8, blocksize := 1024, inodesize := 512, dirblocksize := 2048 }

/-- An XFS file system whose blocks all have the bytes `block`. -/
def blocksXfs (dinodes : Buf) (dinodesMap : Nat → Option Nat) (block : Buf) : XfsEnv :=
  { xfsTableEnv smallSb dinodes dinodesMap with
    dev := ⟨bufNbytes, 512, fun _ _ => some block, fun _ => 0⟩ }

theorem blocksXfs_call (dinodes : Buf) (dinodesMap : Nat → Option Nat) (block : Buf) {x : Xal Buf}
    (h : x.sb = smallSb) : XfsCall (blocksXfs dinodes dinodesMap block) x :=
  ⟨h.symm, mprotectWithin_bounded _ _ _, mprotectWithin_bounded _ _ _⟩

/-- A `struct xal` just opened on a mountpoint, with a map of paths if `lookup`. -/
def fiemapOpened (sb : XalSb) (lookup : Bool) : Xal FiemapBe :=
  openedXal .fiemap sb ⟨if lookup then some khInit else none, fun _ => none⟩

theorem fiemapOpened_reach (sb : XalSb) (lookup : Bool) :
    FiemapReach true (fiemapOpened sb lookup) :=
  .init (openedXal_justOpened _ _ _)

theorem tableEnv_call {K : Kernel} {mountpoint : CStr} {sb : XalSb} {watchMode : XalWatchmode}
    {clear : Nat} {x : Xal FiemapBe} (h : x.sb = sb) :
    FiemapCall (tableEnv K mountpoint sb watchMode clear) x :=
  ⟨h.symm, mprotectWithin_bounded _ _ _, mprotectWithin_bounded _ _ _⟩

theorem tableKernel_opendir {dirs : List (CStr × List CStr)}
    {files : List (CStr × List FiemapExtent)} {path : CStr} {names : List CStr}
    (h : (tableKernel dirs files).opendir path = .ok names) : (path, names) ∈ dirs := by
  simp only [tableKernel] at h
  cases hl : dirs.lookup path with
  | none =>
    rw [hl] at h
    cases h
  | some names' =>
    rw [hl] at h
    obtain rfl := Except.ok.inj h
    obtain ⟨l₁, l₂, rfl, -⟩ := List.lookup_eq_some_iff.1 hl
    exact List.mem_append_right _ List.mem_cons_self

/-! ## A directory with a subdirectory and files -/

/-- An inode of 512 bytes: the fields that are read of it, and its data fork. -/
def dinodeBytes (mode : Nat) (format : UInt8) (nextents size ino : Nat) (fork : List UInt8) :
    List UInt8 :=
  [0x49, 0x4e] ++ beBytes 2 mode ++ [3, format] ++ List.replicate 50 0 ++ beBytes 8 size ++
    List.replicate 12 0 ++ beBytes 4 nextents ++ List.replicate 72 0 ++ beBytes 8 ino ++
    List.replicate 16 0 ++ fork ++ List.replicate (336 - fork.length) 0

/-- A directory in the short form, with its entries. -/
def dirDinode (ino parent : Nat) (entries : List (List UInt8 × UInt8 × Nat)) : List UInt8 :=
  dinodeBytes 0o040755 1 0 0 ino ([UInt8.ofNat entries.length, 0] ++ beBytes 4 parent ++
    entries.flatMap fun e => [UInt8.ofNat e.1.length, 0, 0] ++ e.1 ++ [e.2.1] ++ beBytes 4 e.2.2)

/-- A regular file, with the offsets, the first blocks and the lengths of its extents. -/
def fileDinode (ino size : Nat) (extents : List (Nat × Nat × Nat)) : List UInt8 :=
  dinodeBytes 0o100644 2 extents.length size ino (extents.flatMap fun e =>
    beBytes 8 (e.1 * 2 ^ 9) ++ beBytes 8 (e.2.1 * 2 ^ 21 + e.2.2))

/-- The root has a file `a` and a directory `d`, and that has the files `b` and `c`; `c` has no
extents. -/
def treeDiskOf (a b : List (Nat × Nat × Nat)) : XfsEnv := xfsTableEnv
  { (default : XalSb) with
    rootino := 128, nallocated := 8, agblocks := 16, agblklog := 4
    blocksize := 4096, lbaBlksze := 512, inodesize := 512, dirblocksize := 4096 }
  (ofList 0 (dirDinode 128 128 [([97], 1, 129), ([100], 2, 130)] ++
    fileDinode 129 16384 a ++ dirDinode 130 128 [([98], 1, 131), ([99], 1, 132)] ++
    fileDinode 131 4096 b ++ fileDinode 132 0 []))
  fun ino => if 128 ≤ ino ∧ ino < 133 then some (512 * (ino - 128)) else none

/-- With two extents for `a` and one for `b`. -/
def treeDisk : XfsEnv := treeDiskOf [(0, 8, 3), (3, 13, 1)] [(0, 7, 1)]

/-- The same below the mountpoint `/m`; `clear` is the answer of `mprotect` to a clearing. -/
def treeDir (clear : Nat) : FiemapEnv := tableEnv
  (tableKernel [([47, 109], [[100], [97]]), ([47, 109, 47, 100], [[99], [98]])]
    [([47, 109, 47, 97], [⟨0, 32768, 12288, 0⟩, ⟨12288, 53248, 4096, 1⟩]),
      ([47, 109, 47, 100, 47, 98], [⟨0, 28672, 4096, 1⟩]), ([47, 109, 47, 100, 47, 99], [])])
  [47, 109] { (default : XalSb) with blocksize := 4096, lbaBlksze := 512 } .none clear

end Xallib
