import Xallib.Base.Proof.Twin
import Xallib.Fiemap.Proof.Index

/-!
# Indexing the same mountpoint again

`E.again mpI mpX`: the operating system answers as in `E`, except for `mprotect`. From stores that
hold the same, with the same watch descriptors if there are any (`SameMaps`), `process_ino_fiemap`
follows itself on `E` (`processInoFiemap_follows`): it stores the same, unless a pool fails.
-/

namespace Xallib

open Lib Lib.Cm Lib.Run

/-- The same answers (module doc). -/
def FiemapEnv.again (E : FiemapEnv) (mpI mpX : Mprotect) : FiemapEnv :=
  { E with mpInodes := mpI, mpExtents := mpX }

/-- The same watch descriptors, where there are any; and the second has a map of paths only if the
first has one. -/
structure SameMaps (E : FiemapEnv) (be be' : FiemapBe) : Prop where
  inodeMap : E.watchMode ≠ .none → be'.inodeMap = be.inodeMap
  pathInodeMap : be'.pathInodeMap.isSome → be.pathInodeMap.isSome

variable {E : FiemapEnv} {mpI mpX : Mprotect} {self inode : Nat} {path : CStr} {α : Type}
variable {s s' t : Store FiemapBe}

/-- Two stores that hold the same. -/
abbrev FiemapTwin (E : FiemapEnv) (d : Nat) (s t : Store FiemapBe) : Prop :=
  TwinAt (SameMaps E) d s t

/-- The second function follows the first, on the inode `self`. -/
abbrev FollowsAt (E : FiemapEnv) (self : Nat) (x x' : Fm α) : Prop :=
  Follows (FiemapTwin E self) PoolFailure x x'

/-- Both write to their maps. -/
theorem follows_onBe {f f' : FiemapBe → FiemapBe}
    (hf : ∀ b b', SameMaps E b b' → SameMaps E (f b) (f' b')) :
    FollowsAt E self (onBe (modify f)) (onBe (modify f')) := by
  intro s t h u s' hr
  obtain ⟨-, rfl⟩ := Run.ok.inj hr
  exact .inl ⟨_, rfl, ⟨⟨h.ok.inodes, h.ok.extents⟩, ⟨h.ok'.inodes, h.ok'.extents⟩, h.inodes, h.free,
    h.extents, h.extentsFree, hf _ _ h.be⟩, h.lt⟩

theorem watchDir_follows :
    FollowsAt E self (watchDir E path inode) (watchDir (E.again mpI mpX) path inode) := by
  refine follows_ite (fun _ => follows_ret ()) fun _ => ?_
  unfold xalBeFiemapInotifyAddWatcher
  refine follows_inodeAt fun v => follows_bind (follows_failIf _) fun _ => ?_
  refine follows_ite (fun _ => follows_ret ()) fun hw => ?_
  have hwatch : (E.again mpI mpX).kernel.addWatch path = E.kernel.addWatch path := rfl
  rw [hwatch]
  cases E.kernel.addWatch path with
  | error errno => exact follows_of_not fun _ _ _ hr => by cases hr
  | ok wd =>
    refine follows_bind (follows_failIf _) fun _ => follows_onBe fun b b' h =>
      ⟨fun _ => ?_, h.pathInodeMap⟩
    show (fun w => if w = wd then some inode else b'.inodeMap w) = _
    rw [h.inodeMap hw]

theorem putPath_follows :
    FollowsAt E self (putPath E inode) (putPath (E.again mpI mpX) inode) := by
  apply follows_read
  intro s t h
  have hsome := h.be.pathInodeMap
  have hnames : inodeNames t = inodeNames s := by
    funext i
    rw [inodeNames, inodeNames, h.inodes]
  rw [hnames]
  cases ht : t.be.pathInodeMap with
  | none =>
    -- the second has no map of paths
    cases hs : s.be.pathInodeMap with
    | none => exact tracks_ret h ()
    | some map =>
      intro u s' hr
      obtain ⟨-, hr⟩ := failIf_bind_ok.1 hr
      obtain ⟨-, rfl⟩ := Run.ok.inj hr
      exact .inl ⟨t, rfl, ⟨⟨h.ok.inodes, h.ok.extents⟩, h.ok', h.inodes, h.free, h.extents,
        h.extentsFree, h.be.inodeMap, fun _ => rfl⟩, h.lt⟩
  | some map =>
    rw [ht] at hsome
    obtain ⟨map', hs⟩ := Option.isSome_iff_exists.1 (hsome rfl)
    rw [hs]
    refine follows_bind (follows_failIf _) (fun _ => follows_onBe fun b b' hb => ?_) h
    exact ⟨hb.inodeMap, fun _ => rfl⟩

/-! ## Directories -/

/-- What `process_ino_fiemap` does on a blank inode, the two of them followed. -/
def FollowsInode (E : FiemapEnv) (procIno procIno' : CStr → Nat → Fm Unit) : Prop :=
  ∀ (path : CStr) ⦃d : Nat⦄ ⦃s t : Store FiemapBe⦄, Ready d s → FiemapTwin E d s t →
    Tracks (FiemapTwin E d) PoolFailure (procIno path d s) (procIno' path d t)

theorem TwinAt.entry (path : CStr) {dentry : Nat} (content : XalContent)
    (h : FiemapTwin E inode s t)
    (hd : dentry < s.inodes.free) :
    FiemapTwin E dentry (entryState s inode dentry path content)
      (entryState t inode dentry path content) := by
  unfold entryState
  rw [h.inodes]
  exact ⟨((h.put hd _).put h.lt _).toTwin, hd⟩

/-- The same slots have been claimed. -/
theorem AtEntry.twin {base j n : Nat} (h : AtEntry inode base j n s) (ht : FiemapTwin E inode s t) :
    AtEntry inode base j n t where
  ok := ht.ok'
  lt := h.lt
  content := by rw [ht.inodes]; exact h.content
  room := by rw [ht.free]; exact h.room
  blank i h1 h2 := by rw [ht.inodes]; exact h.blank i h1 h2

section
variable {procIno procIno' : CStr → Nat → Fm Unit}
  (hproc : ∀ path {d : Nat} {s : Store FiemapBe}, Ready d s →
    IndexesAs E path d s (procIno path d s))
  (hf : FollowsInode E procIno procIno')
include hproc hf

theorem processEntries_follows {base : Nat} (entries : List CStr) :
    ∀ {j : Nat} {s t : Store FiemapBe}, AtEntry inode base j entries.length s →
      FiemapTwin E inode s t →
      Tracks (FiemapTwin E inode) PoolFailure (processEntries procIno path inode entries s)
        (processEntries procIno' path inode entries t) := by
  induction entries with
  | nil => exact fun _ ht => tracks_ret ht ()
  | cons n entries ih =>
    intro j s t h ht
    by_cases hmax : (joinPath path n).length ≤ pathMaxlen
    · rw [h.processEntries hmax, (h.twin ht).processEntries hmax]
      have hlt := h.lt
      have hroom := h.room
      simp only [List.length_cons] at hroom
      have hkid := ht.entry (joinPath path n) ⟨base, j + 1⟩ (by omega : base + j < s.inodes.free)
      refine (hf (joinPath path n) (h.ready _) hkid).bind fun _ s₁ t₁ hs₁ h₁ => ?_
      have hspec := hproc (joinPath path n) (h.ready (joinPath path n))
      rw [IndexesAs, entryState_parent h.ne] at hspec
      obtain ⟨k, hk⟩ := hspec.ok hs₁
      exact ih (h.next hmax hk) (h₁.up (by omega))
    · rw [processEntries_long hmax]
      exact tracks_of_not fun _ _ hr => by cases hr

theorem processInodeDir_follows (hI : E.mpInodes.Bounded poolReserved inodeNbytes)
    (hI' : mpI.Bounded poolReserved inodeNbytes) (h : Ready self s)
    (hft : (s.inodes.memory self).ftype = ftDir) (ht : FiemapTwin E self s t) :
    Tracks (FiemapTwin E self) PoolFailure (xalBeFiemapProcessInodeDir E procIno path self s)
      (xalBeFiemapProcessInodeDir (E.again mpI mpX) procIno' path self t) := by
  have hlt := h.lt
  unfold xalBeFiemapProcessInodeDir
  rw [inodeAt_bind, inodeAt_bind, ht.inodes]
  refine tracks_failIf_bind fun _ => (watchDir_follows ht).bind fun _ s₁ t₁ hs₁ h₁ => ?_
  obtain rfl := (watchDir_spec hft).ok hs₁
  have hop : (E.again mpI mpX).kernel.opendir path = E.kernel.opendir path := rfl
  rw [hop]
  cases E.kernel.opendir path with
  | error errno => exact tracks_of_not fun _ _ hr => by cases hr
  | ok names =>
    refine tracks_failIf_bind fun _ => ?_
    refine (h₁.claimInodes (fun _ he => he) hI hI' _).bind fun idx s₂ t₂ hc h₂ => ?_
    obtain ⟨hok, rfl, hfree, hmem, -⟩ := (onInodes_claim hI h₁.ok _).ok hc
    have h₃ : FiemapTwin E self s₂ t₂ := ⟨h₂.1, by have := h₁.lt; omega⟩
    rw [setInode_bind, setInode_bind, h₃.inodes]
    have hat : AtEntry self s.inodes.free 0 (sortEntries names).length (s₂.putInode self
        { s₂.inodes.memory self with content := ⟨s.inodes.free, 0⟩ }) := by
      refine ⟨hok.putInode h₃.lt _, hlt, by rw [putInode_same], ?_, fun i h1 h2 => ?_⟩
      · rw [putInode_free, hfree]
        exact Nat.le_refl _
      · rw [putInode_other _ _ _ (by omega), hmem]
        exact h.ok.inodes.clean i (by omega)
    exact (processEntries_follows hproc hf (sortEntries names) hat (h₃.put h₃.lt _)).bind
      fun _ s₃ t₃ _ h₄ => putPath_follows h₄

end

/-! ## Files -/

theorem readFiemap_follows :
    FollowsAt E self (readFiemap E path) (readFiemap (E.again mpI mpX) path) := by
  unfold readFiemap
  have hcount : (E.again mpI mpX).kernel.fiemapCount path = E.kernel.fiemapCount path := rfl
  rw [hcount]
  cases E.kernel.fiemapCount path with
  | error errno => exact follows_of_not fun _ _ _ hr => by cases hr
  | ok mapped =>
    refine follows_bind follows_assert fun _ => follows_bind (follows_failIf _) fun _ => ?_
    have hread : (E.again mpI mpX).kernel.fiemapRead path mapped =
        E.kernel.fiemapRead path mapped := rfl
    rw [hread]
    cases E.kernel.fiemapRead path mapped with
    | error errno =>
      exact follows_bind follows_assert fun _ => follows_of_not fun _ _ _ hr => by cases hr
    | ok r => exact follows_bind follows_assert fun _ => follows_ret r

theorem storeExtents_follows (extents : Nat → FiemapExtent) (extentIdx n : Nat) :
    ∀ {i : Nat} {s t : Store FiemapBe}, extentIdx + i + n ≤ s.extents.free → FiemapTwin E self s t →
      Tracks (FiemapTwin E self) PoolFailure (storeExtents E extents extentIdx n i s)
        (storeExtents (E.again mpI mpX) extents extentIdx n i t) := by
  induction n with
  | zero => exact fun _ ht => tracks_ret ht ()
  | succ n ih =>
    intro i s t hroom ht
    unfold storeExtents
    rw [setExtent_bind, setExtent_bind]
    exact ih (by rw [putExtent_free]; omega) ⟨ht.toTwin.putExtent (by omega) _, ht.lt⟩

section
variable (hX : E.mpExtents.Bounded poolReserved extentNbytes)
  (hX' : mpX.Bounded poolReserved extentNbytes)
include hX hX'

theorem storeReported_follows (mapped : Nat) (extents : Nat → FiemapExtent) :
    FollowsAt E self (storeReported E self mapped extents)
      (storeReported (E.again mpI mpX) self mapped extents) := by
  refine follows_ite (fun _ => fun s t ht => ?_) fun _ => follows_ret ()
  refine (ht.claimExtents (fun _ he => he) hX hX' _).bind fun idx s₁ t₁ hc h₁ => ?_
  obtain ⟨-, rfl, hfree, -⟩ := (onExtents_claim hX ht.ok _).ok hc
  have h₂ : FiemapTwin E self s₁ t₁ := ⟨h₁.1, by rw [h₁.2.2]; exact ht.lt⟩
  rw [setInode_bind, setInode_bind, h₂.inodes]
  refine tracks_assert_bind fun _ => ?_
  exact storeExtents_follows extents _ _ (by rw [putInode_extents, hfree, Nat.add_zero])
    (h₂.put h₂.lt _)

theorem processInodeFile_follows :
    FollowsAt E self (xalBeFiemapProcessInodeFile E path self)
      (xalBeFiemapProcessInodeFile (E.again mpI mpX) path self) := by
  unfold xalBeFiemapProcessInodeFile
  refine follows_inodeAt fun v => follows_bind (follows_failIf _) fun _ => ?_
  have hopen : (E.again mpI mpX).kernel.openFile path = E.kernel.openFile path := rfl
  rw [hopen]
  cases E.kernel.openFile path with
  | error errno => exact follows_of_not fun _ _ _ hr => by cases hr
  | ok u =>
    refine follows_ite (fun _ => follows_ret ()) fun _ =>
      follows_bind readFiemap_follows fun r => ?_
    exact follows_bind (storeReported_follows hX hX' r.1 r.2) fun _ => putPath_follows

end

/-! ## `process_ino_fiemap` -/

section
variable (hI : E.mpInodes.Bounded poolReserved inodeNbytes)
  (hX : E.mpExtents.Bounded poolReserved extentNbytes) (hI' : mpI.Bounded poolReserved inodeNbytes)
  (hX' : mpX.Bounded poolReserved extentNbytes)
include hI hX hI' hX'

/-- On a blank inode `process_ino_fiemap` does the same again (module doc). -/
theorem processInoFiemap_follows (fuel : Nat) :
    FollowsInode E (processInoFiemap E fuel) (processInoFiemap (E.again mpI mpX) fuel) := by
  induction fuel with
  | zero => exact fun _ _ _ _ _ _ => tracks_of_not fun _ _ hr => by cases hr
  | succ fuel ih =>
    intro path d s t h ht
    unfold processInoFiemap
    have hstat : (E.again mpI mpX).kernel.stat path = E.kernel.stat path := rfl
    rw [hstat]
    cases E.kernel.stat path with
    | error errno => exact tracks_of_not fun _ _ hr => by cases hr
    | ok st =>
      refine (follows_deriveFtype st.stMode ht).bind fun _ s₁ t₁ hs₁ h₁ => ?_
      have hready := h.deriveFtype hs₁
      unfold processTyped
      rw [setInode_bind, setInode_bind, inodeAt_bind, inodeAt_bind, h₁.inodes, putInode_same,
        putInode_same]
      have h₂ := h₁.put h₁.lt { s₁.inodes.memory d with ino := st.stIno, size := st.stSize }
      refine tracks_ite (fun hd => ?_) fun _ => tracks_ite (fun _ => ?_) fun _ => ?_
      · exact processInodeDir_follows (processInoFiemap_spec hI hX fuel) ih hI hI'
          (hready.put hready.blank) (by rw [putInode_same]; exact hd) h₂
      · exact processInodeFile_follows hX hX' h₂
      · exact tracks_of_not fun _ _ hr => by cases hr

end

end Xallib
