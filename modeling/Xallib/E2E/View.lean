import Xallib.E2E.IndexTree

/-!
# The view of a secondary process

`xal_from_pools` rebuilds a `struct xal` from the superblock, the two pools and the dirty flag. The
backend is not handed over: the view of an XFS producer has no backend, and converts every block
number to `-EINVAL`, read as an address. `view_agrees` says when a view and its producer agree.
-/

namespace Xallib

open Lib Lib.Forest Lib.Cm Lib.Run

variable {δ δ' : Type}

/-- The walk and the conversion of extents give the same on `view` as on `x`. -/
structure Agrees (x : Xal δ) (view : Xal δ') : Prop where
  walk : ∀ (σ : Type) (cb : Option (WalkCb σ)) (fuel : Nat) (t : σ),
    xalWalk view (xalGetRoot view) cb fuel t = xalWalk x (xalGetRoot x) cb fuel t
  bytes : ∀ i < x.store.inodes.free, (x.store.inodes.memory i).ftype = ftRegFile →
    ∀ extent ∈ extentsOf view.store.extents.memory (view.store.inodes.memory i),
      xalExtentInBytes view (some extent) = xalExtentInBytes x (some extent)
  lba : ∀ i < x.store.inodes.free, (x.store.inodes.memory i).ftype = ftRegFile →
    ∀ extent ∈ extentsOf view.store.extents.memory (view.store.inodes.memory i),
      xalExtentInLba view (some extent) = xalExtentInLba x (some extent)

/-- What the backend of a view stands for: the mountpoint makes it FIEMAP. -/
def viewType (mountpoint : Option CStr) : XalBackend :=
  if mountpoint.isSome then .fiemap else .unset

/-- The view that was built from what `x` hands over. -/
structure ViewOf (mountpoint : Option CStr) (x : Xal δ) (view : Xal (Option CStr)) : Prop where
  type : view.type = viewType mountpoint
  sb : view.sb = x.sb
  rootIdx : view.rootIdx = 0
  inodes : view.store.inodes.memory = x.store.inodes.memory
  extents : view.store.extents.memory = x.store.extents.memory
  dirty : view.dirty = x.dirty

theorem xalFromPools_spec {calloc strdup : Bool} {mountpoint : Option CStr} {x : Xal δ}
    {view : Xal (Option CStr)}
    (h : xalFromPools calloc strdup (xalGetSb x) mountpoint x.store.inodes.memory
      x.store.extents.memory (some x.dirty) = .ok view) : ViewOf mountpoint x view := by
  unfold xalFromPools at h
  cases calloc with
  | false => cases h
  | true =>
    simp only [Bool.not_true, Bool.false_eq_true, if_false] at h
    split at h
    · cases h
    · obtain rfl := Except.ok.inj h
      exact ⟨rfl, rfl, rfl, rfl, rfl, rfl⟩

/-- The walk reads the flag and the inodes only. -/
theorem walk_congr {x : Xal δ} {y : Xal δ'} (hd : y.dirty = x.dirty)
    (hm : y.store.inodes.memory = x.store.inodes.memory) {σ : Type} (cb : Option (WalkCb σ))
    (fuel : Nat) : walk y cb fuel = walk x cb fuel := by
  induction fuel with
  | zero => rfl
  | succ fuel ih =>
    funext inode depth
    simp only [walk, hm, ih]
    rw [hd]

/-- The walk begins with the root. -/
theorem walk_fail {x : Xal δ} (hd : x.dirty = false) (root : Nat) :
    xalWalk x root (some fun inode _ => Cm.fail ⟨.walk, (inode : Int)⟩) 1 () =
      .fail ⟨.walk, (root : Int)⟩ () := by
  show (failIf (x.dirty = true) _ >>= _) () = _
  rw [bind_of_ok (failIf_false (by rw [hd]; exact Bool.false_ne_true) _ _)]
  rfl

section
variable {mountpoint : Option CStr} {x : Xal δ} {view : Xal (Option CStr)}

/-- The address the view computes for a block is the producer's. -/
def SameAddress (mountpoint : Option CStr) (x : Xal δ) (extent : XalExtent) : Prop :=
  xalFsbnoOffset (viewType mountpoint) x.sb extent.startBlock =
    xalFsbnoOffset x.type x.sb extent.startBlock

theorem ViewOf.agrees_iff (h : ViewOf mountpoint x view) (hd : x.dirty = false) :
    Agrees x view ↔ x.rootIdx = 0 ∧ ∀ i < x.store.inodes.free,
      (x.store.inodes.memory i).ftype = ftRegFile →
        ∀ extent ∈ extentsOf x.store.extents.memory (x.store.inodes.memory i),
          SameAddress mountpoint x extent := by
  constructor
  · intro ha
    constructor
    · have hw := ha.walk Unit (some fun inode _ => Cm.fail ⟨.walk, (inode : Int)⟩) 1 ()
      rw [walk_fail hd, walk_fail (h.dirty.trans hd)] at hw
      have hroot : (view.rootIdx : Int) = x.rootIdx := by simpa [xalGetRoot] using hw
      exact (Int.ofNat_inj.1 hroot).symm.trans h.rootIdx
    · intro i hi hf extent he
      rw [← h.extents, ← h.inodes] at he
      have hb := congrArg (·.toOption.map (·.startBlock)) (ha.bytes i hi hf extent he)
      simpa [xalExtentInBytes, h.type, h.sb, Except.toOption, SameAddress] using hb
  · rintro ⟨hroot, hsame⟩
    have hext : ∀ i < x.store.inodes.free, (x.store.inodes.memory i).ftype = ftRegFile →
        ∀ extent ∈ extentsOf view.store.extents.memory (view.store.inodes.memory i),
          xalFsbnoOffset view.type x.sb extent.startBlock =
            xalFsbnoOffset x.type x.sb extent.startBlock := by
      intro i hi hf extent he
      rw [h.extents, h.inodes] at he
      rw [h.type]
      exact hsame i hi hf extent he
    refine ⟨fun σ cb fuel t => ?_, fun i hi hf extent he => ?_, fun i hi hf extent he => ?_⟩
    · unfold xalWalk xalGetRoot
      rw [walk_congr h.dirty h.inodes, h.rootIdx, hroot]
    · simp only [xalExtentInBytes, h.sb, hext i hi hf extent he]
    · simp only [xalExtentInLba, h.sb, hext i hi hf extent he]

end

/-! ## Both producers -/

/-- No file has an extent. -/
def Extentless (x : Xal δ) : Prop :=
  ∀ i < x.store.inodes.free, (x.store.inodes.memory i).ftype = ftRegFile →
    (x.store.inodes.memory i).content.count = 0

/-- `-EINVAL`, read as an address, is not the address of a block. -/
theorem xalFsbnoOffset_ne {sb : XalSb} (h : 4 ∣ sb.blocksize) (fsbno : Nat) :
    xalFsbnoOffset .xfs sb fsbno ≠ 2 ^ 64 - 22 := by
  intro he
  have h4 : 4 ∣ xalFsbnoOffset .xfs sb fsbno :=
    (Nat.dvd_mod_iff (by decide)).2 (Nat.dvd_mul_left_of_dvd h _)
  rw [he] at h4
  exact absurd h4 (by decide)

theorem extentless_iff {x : Xal δ} (h : 4 ∣ x.sb.blocksize) :
    (∀ i < x.store.inodes.free, (x.store.inodes.memory i).ftype = ftRegFile →
      ∀ extent ∈ extentsOf x.store.extents.memory (x.store.inodes.memory i),
        xalFsbnoOffset .xfs x.sb extent.startBlock = 2 ^ 64 - 22) ↔ Extentless x := by
  constructor
  · intro hx i hi hf
    by_contra h0
    refine xalFsbnoOffset_ne h _ (hx i hi hf _ (List.mem_map.2 ⟨0, ?_, rfl⟩))
    exact List.mem_range.2 (Nat.pos_of_ne_zero h0)
  · intro hx i hi hf extent he
    rw [extentsOf, hx i hi hf] at he
    cases he

/-- When a view agrees with its producer. An XFS producer must have its extents at the one address
that reads `-EINVAL`; with blocks of a multiple of 4 bytes, it must have none. -/
theorem view_agrees (fuel : Nat) (calloc strdup : Bool) (view : Xal (Option CStr)) :
    (∀ (E : FiemapEnv) (x₀ x : Xal FiemapBe), FiemapReach true x₀ → FiemapCall E x₀ →
      xalIndex (xalBeFiemapIndex E fuel) x₀ = .ok () x →
      xalFromPools calloc strdup (xalGetSb x) (some E.mountpoint) x.store.inodes.memory
        x.store.extents.memory (some x.dirty) = .ok view →
      (Agrees x view ↔ x.rootIdx = 0)) ∧
    ∀ (E : XfsEnv) (x₀ x : Xal Buf), XfsReach true x₀ → XfsCall E x₀ →
      xalIndex (xalBeXfsIndex E fuel) x₀ = .ok () x →
      xalFromPools calloc strdup (xalGetSb x) none x.store.inodes.memory
        x.store.extents.memory (some x.dirty) = .ok view →
      (Agrees x view ↔ x.rootIdx = 0 ∧ ∀ i < x.store.inodes.free,
        (x.store.inodes.memory i).ftype = ftRegFile →
          ∀ extent ∈ extentsOf x.store.extents.memory (x.store.inodes.memory i),
            xalFsbnoOffset .xfs x.sb extent.startBlock = 2 ^ 64 - 22) ∧
      (4 ∣ x.sb.blocksize → (Agrees x view ↔ x.rootIdx = 0 ∧ Extentless x)) := by
  constructor
  · intro E x₀ x hx₀ hE hr hv
    have hx := (hx₀.index hE hr).alive
    have hd := (hx₀.done hE hr).dirty
    rw [(xalFromPools_spec hv).agrees_iff hd]
    refine and_iff_left fun i _ _ extent _ => ?_
    rw [SameAddress, hx.type_eq]
    rfl
  · intro E x₀ x hx₀ hE hr hv
    have hx := (hx₀.index hE hr).alive
    have hd := (hx₀.rooted hE hr).dirty
    have hiff : Agrees x view ↔ x.rootIdx = 0 ∧ ∀ i < x.store.inodes.free,
        (x.store.inodes.memory i).ftype = ftRegFile →
          ∀ extent ∈ extentsOf x.store.extents.memory (x.store.inodes.memory i),
            xalFsbnoOffset .xfs x.sb extent.startBlock = 2 ^ 64 - 22 := by
      rw [(xalFromPools_spec hv).agrees_iff hd]
      simp only [SameAddress, hx.type_eq, viewType]
      refine and_congr_right fun _ => forall_congr' fun i => forall_congr' fun _ =>
        forall_congr' fun _ => forall_congr' fun extent => forall_congr' fun _ => ?_
      exact eq_comm
    exact ⟨hiff, fun h4 => by rw [hiff, extentless_iff h4]⟩

/-! ## Trees with and without extents -/

/-- The view of a tree agrees with its producer with FIEMAP; with XFS, if the files have no extents,
and not if they have some. -/
theorem view_agrees_nested :
    (∃ x view, xalIndex (xalBeFiemapIndex (treeDir 0) 3) (fiemapOpened (treeDir 0).sb false) =
        .ok () x ∧
      (xalFromPools true true (xalGetSb x) (some (treeDir 0).mountpoint) x.store.inodes.memory
        x.store.extents.memory (some x.dirty) = .ok view ∧ Agrees x view) ∧
      (extentsOf x.store.extents.memory (x.store.inodes.memory 1)).length = 2) ∧
    (∃ x view, xalIndex (xalBeXfsIndex (treeDiskOf [] []) 3) (xfsOpened treeDisk.sb) = .ok () x ∧
      xalFromPools true true (xalGetSb x) none x.store.inodes.memory
        x.store.extents.memory (some x.dirty) = .ok view ∧ Agrees x view) ∧
    ∃ x view, xalIndex (xalBeXfsIndex treeDisk 3) (xfsOpened treeDisk.sb) = .ok () x ∧
      xalFromPools true true (xalGetSb x) none x.store.inodes.memory
        x.store.extents.memory (some x.dirty) = .ok view ∧ ¬Agrees x view := by
  refine ⟨?_, ?_, ?_⟩
  · have hrun : ((xalIndex (xalBeFiemapIndex (treeDir 0) 3)
        (fiemapOpened (treeDir 0).sb false)).okWith fun x => x.rootIdx == 0 &&
          (extentsOf x.store.extents.memory (x.store.inodes.memory 1)).length == 2) = true := by
      decide +kernel
    obtain ⟨_, x, h, hx⟩ := exists_of_okWith hrun
    simp only [Bool.and_eq_true, beq_iff_eq] at hx
    exact ⟨x, _, h, ⟨rfl, ((view_agrees 3 true true _).1 (treeDir 0) _ x (fiemapOpened_reach _ _)
      (tableEnv_call rfl) h rfl).2 hx.1⟩, hx.2⟩
  · have hrun : ((xalIndex (xalBeXfsIndex (treeDiskOf [] []) 3) (xfsOpened treeDisk.sb)).okWith
        fun x => x.rootIdx == 0 && ((List.range x.store.inodes.free).all fun i =>
          (x.store.inodes.memory i).ftype == 2 || (x.store.inodes.memory i).content.count == 0)) =
        true := by decide +kernel
    obtain ⟨_, x, h, hx⟩ := exists_of_okWith hrun
    simp only [Bool.and_eq_true, beq_iff_eq, List.all_eq_true, List.mem_range, Bool.or_eq_true]
      at hx
    refine ⟨x, _, h, rfl, ((view_agrees 3 true true _).2 (treeDiskOf [] []) _ x (xfsOpened_reach _)
      (xfsTableEnv_call _ _ _) h rfl).1.2 ⟨hx.1, fun i hi hf extent hmem => ?_⟩⟩
    rcases hx.2 i hi with hdir | hcount
    · exact absurd (hdir.symm.trans hf) (by decide)
    · rw [extentsOf, hcount] at hmem
      cases hmem
  · have hrun : ((xalIndex (xalBeXfsIndex treeDisk 3) (xfsOpened treeDisk.sb)).okWith
        fun x => 1 < x.store.inodes.free && (x.store.inodes.memory 1).ftype == 1 &&
          (x.store.inodes.memory 1).content.count == 2 && x.sb.blocksize == 4096) = true := by
      decide +kernel
    obtain ⟨_, x, h, hx⟩ := exists_of_okWith hrun
    simp only [Bool.and_eq_true, beq_iff_eq, decide_eq_true_eq] at hx
    obtain ⟨⟨⟨hfree, hfile⟩, hcount⟩, hsize⟩ := hx
    refine ⟨x, _, h, rfl, fun ha => ?_⟩
    have hnone := (((view_agrees 3 true true _).2 treeDisk _ x (xfsOpened_reach _)
      (xfsTableEnv_call _ _ _) h rfl).2 (by rw [hsize]; decide)).1 ha
    exact absurd (hcount.symm.trans (hnone.2 1 hfree hfile)) (by decide)

/-! ## A file with an extent -/

/-- An XFS file system with one file `a`, which has one extent. -/
def oneFileDisk : XfsEnv :=
  xfsTableEnv
    { (default : XalSb) with
      rootino := 128, nallocated := 2, blocksize := 4096, lbaBlksze := 512, inodesize := 512 }
    (fun i => if i = 5 ∨ i = 176 ∨ i = 182 ∨ i = 186 ∨ i = 591 then 1
      else if i = 185 then 97 else if i = 190 then 129 else if i = 517 then 2 else 0)
    fun ino => if ino = 128 then some 0 else if ino = 129 then some 512 else none

/-- The view of a disk with one file converts its extent to another address. -/
theorem view_agrees_counterexample :
    ∃ x view, XfsReach true (xfsOpened oneFileDisk.sb) ∧
      XfsCall oneFileDisk (xfsOpened oneFileDisk.sb) ∧
      xalIndex (xalBeXfsIndex oneFileDisk 2) (xfsOpened oneFileDisk.sb) = .ok () x ∧
      xalFromPools true true (xalGetSb x) none x.store.inodes.memory
        x.store.extents.memory (some x.dirty) = .ok view ∧ ¬Agrees x view := by
  have hrun : ((xalIndex (xalBeXfsIndex oneFileDisk 2) (xfsOpened oneFileDisk.sb)).okWith
      fun x => x.store.inodes.free == 2 && (x.store.inodes.memory 1).ftype == 1 &&
        extentsOf x.store.extents.memory (x.store.inodes.memory 1) == [⟨0, 0, 0, 0⟩]) = true := by
    decide +kernel
  obtain ⟨_, x, h, hx⟩ := exists_of_okWith hrun
  simp only [Bool.and_eq_true, beq_iff_eq] at hx
  obtain ⟨⟨hfree, hfile⟩, hext⟩ := hx
  have hreach := xfsOpened_reach oneFileDisk.sb
  have hcall : XfsCall oneFileDisk (xfsOpened oneFileDisk.sb) := xfsTableEnv_call _ _ _
  obtain ⟨view, hv⟩ : ∃ view, xalFromPools true true (xalGetSb x) none x.store.inodes.memory
      x.store.extents.memory (some x.dirty) = .ok view := ⟨_, rfl⟩
  refine ⟨x, view, hreach, hcall, h, hv, fun ha => ?_⟩
  have hd := (hreach.rooted hcall h).dirty
  have hsame := (((xalFromPools_spec hv).agrees_iff hd).1 ha).2 1 (by omega) hfile ⟨0, 0, 0, 0⟩
    (by rw [hext]; exact List.mem_singleton.2 rfl)
  rw [SameAddress, (hreach.index hcall h).alive.type_eq] at hsame
  simp [xalFsbnoOffset, viewType, EINVAL] at hsame

end Xallib
