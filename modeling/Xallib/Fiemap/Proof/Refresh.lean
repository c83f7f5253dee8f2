import Xallib.Fiemap.Inotify
import Xallib.Fiemap.Proof.Index

/-!
# Where the refresh of a file fails

`RefreshFails E path inode s p`: reading the file `path` into the slot `inode` and asking for its
size first fails at the call `p`.

* `RefreshFails.process`: at most calls `xal_be_fiemap_process_inode_file` fails and has done
nothing.
* `process_without_memory`: a `malloc` that fails is the end of the function with status 0.
* `HasRoom.process`: a second `ioctl` that fails after `realloc` has moved the block is followed by
  a second `free` of the old one.
* `HasStored.process`: behind the calls of FIEMAP the extents are stored, whatever comes then.
* `AsksNothing.process`, `asksNothing_of_process`: the file is left as it is exactly if FIEMAP is
  not asked, or reports nothing.
-/

namespace Xallib

open Lib Lib.Cm Lib.Run

/-- The first `ioctl` reports `mapped` extents, whose size `memset` takes. -/
structure Counted (K : Kernel) (path : CStr) (mapped : Nat) : Prop where
  openFile : K.openFile path = .ok ()
  memory : K.fiemapMemory path = true
  count : K.fiemapCount path = .ok mapped
  size : extentsSize mapped < 2 ^ 32 - 32

/-- There is room for them. -/
structure HasRoom (K : Kernel) (path : CStr) (mapped : Nat) : Prop extends
    Counted K path mapped where
  small : extentsSize mapped < 2 ^ 31
  room : K.extentsMemory path = true

/-- The second `ioctl` reports `n` extents, within the room. -/
structure HasRead (K : Kernel) (path : CStr) (mapped n : Nat) (extents : Nat → FiemapExtent) : Prop
    extends HasRoom K path mapped where
  read : K.fiemapRead path mapped = .ok (n, extents)
  fits : 56 * min mapped n ≤ extentsSize mapped

/-- They can be stored. -/
structure HasStored (E : FiemapEnv) (path : CStr) (s : Store FiemapBe) (mapped n : Nat)
    (extents : Nat → FiemapExtent) : Prop extends HasRead E.kernel path mapped n extents where
  claim : 0 < n → ¬ClaimFails E.mpExtents n s.extents
  blocksize : 0 < n → E.sb.blocksize ≠ 0

/-- The calls of a refresh that can fail. -/
inductive RefreshPoint
  | openFile | fiemapMemory | fiemapCount | extentsMemory | fiemapRead | claim | khPut | stat
  deriving DecidableEq, Repr

/-- The first call that fails (module doc). -/
inductive RefreshFails (E : FiemapEnv) (path : CStr) (inode : Nat) (s : Store FiemapBe) :
    RefreshPoint → Prop
  | openFile {errno : Nat} (h : E.kernel.openFile path = .error errno) :
    RefreshFails E path inode s .openFile
  | fiemapMemory (ho : E.kernel.openFile path = .ok ()) (h : E.kernel.fiemapMemory path = false) :
    RefreshFails E path inode s .fiemapMemory
  | fiemapCount {errno : Nat} (ho : E.kernel.openFile path = .ok ())
    (hm : E.kernel.fiemapMemory path = true) (h : E.kernel.fiemapCount path = .error errno) :
    RefreshFails E path inode s .fiemapCount
  | extentsMemory {mapped : Nat} (hc : Counted E.kernel path mapped)
    (h : 2 ^ 31 ≤ extentsSize mapped ∨ E.kernel.extentsMemory path = false) :
    RefreshFails E path inode s .extentsMemory
  | fiemapRead {mapped errno : Nat} (hr : HasRoom E.kernel path mapped)
    (h : E.kernel.fiemapRead path mapped = .error errno) : RefreshFails E path inode s .fiemapRead
  | claim {mapped n : Nat} {extents : Nat → FiemapExtent}
    (hr : HasRead E.kernel path mapped n extents) (hn : 0 < n)
    (h : ClaimFails E.mpExtents n s.extents) : RefreshFails E path inode s .claim
  | khPut {mapped n : Nat} {extents : Nat → FiemapExtent} (hs : HasStored E path s mapped n extents)
    (hmap : s.be.pathInodeMap.isSome)
    (h : E.kernel.khPutPath (s.inodes.memory inode).name = false) :
    RefreshFails E path inode s .khPut
  | stat {mapped n errno : Nat} {extents : Nat → FiemapExtent}
    (hs : HasStored E path s mapped n extents)
    (hput : s.be.pathInodeMap.isSome → E.kernel.khPutPath (s.inodes.memory inode).name = true)
    (h : E.kernel.stat path = .error errno) : RefreshFails E path inode s .stat

/-- The file is read, and there is nothing to store: FIEMAP cannot be asked for want of memory, or
reports no extents. -/
inductive AsksNothing (E : FiemapEnv) (path : CStr) (inode : Nat) (s : Store FiemapBe) : Prop
  | unread (ho : E.kernel.openFile path = .ok ()) (h : E.kernel.fiemapMemory path = false)
  | none {mapped : Nat} {extents : Nat → FiemapExtent} (hr : HasRead E.kernel path mapped 0 extents)
    (hput : s.be.pathInodeMap.isSome → E.kernel.khPutPath (s.inodes.memory inode).name = true)

/-- Error numbers are positive. -/
structure Errnos (K : Kernel) : Prop where
  openFile : ∀ path errno, K.openFile path = .error errno → 0 < errno
  fiemapCount : ∀ path errno, K.fiemapCount path = .error errno → 0 < errno
  fiemapRead : ∀ path n errno, K.fiemapRead path n = .error errno → 0 < errno
  stat : ∀ path errno, K.stat path = .error errno → 0 < errno

variable {E : FiemapEnv} {path : CStr} {self mapped n : Nat} {extents : Nat → FiemapExtent}
  {s : Store FiemapBe}

/-! ## The calls one by one -/

theorem process_of_error (hfile : (s.inodes.memory self).ftype = ftRegFile) {errno : Nat}
    (ho : E.kernel.openFile path = .error errno) :
    xalBeFiemapProcessInodeFile E path self s = .fail ⟨.openFile, -(errno : Int)⟩ s := by
  have his : ¬xalInodeIsFile (s.inodes.memory self) = false := by simp [xalInodeIsFile, hfile]
  unfold xalBeFiemapProcessInodeFile
  rw [inodeAt_bind, bind_of_ok (failIf_false his _ _), ho]
  rfl

theorem process_of_open (hfile : (s.inodes.memory self).ftype = ftRegFile) {u : Unit}
    (ho : E.kernel.openFile path = .ok u) :
    xalBeFiemapProcessInodeFile E path self s =
      (if E.kernel.fiemapMemory path = false then pure () else (do
        let (mapped, extents) ← readFiemap E path
        storeReported E self mapped extents
        putPath E self : Fm Unit)) s := by
  have his : ¬xalInodeIsFile (s.inodes.memory self) = false := by simp [xalInodeIsFile, hfile]
  unfold xalBeFiemapProcessInodeFile
  rw [inodeAt_bind, bind_of_ok (failIf_false his _ _), ho]

theorem Counted.process_bind (hc : Counted E.kernel path mapped)
    (hfile : (s.inodes.memory self).ftype = ftRegFile) :
    xalBeFiemapProcessInodeFile E path self s = (readFiemap E path >>= fun r => do
      storeReported E self r.1 r.2
      putPath E self) s := by
  rw [process_of_open hfile hc.openFile, if_neg (by simp [hc.memory])]

/-- Where there is room, the second `ioctl` is asked. -/
theorem HasRoom.readFiemap (hr : HasRoom E.kernel path mapped) :
    readFiemap E path s = (match E.kernel.fiemapRead path mapped with
      | .error errno => do
        assert (E.kernel.extentsInPlace path = true)
        Cm.fail ⟨.fiemap, -(errno : Int)⟩
      | .ok (n, extents) => do
        assert (56 * min mapped n ≤ extentsSize mapped)
        pure (n, extents) : Fm (Nat × (Nat → FiemapExtent))) s := by
  have hroom : ¬(2 ^ 31 ≤ extentsSize mapped ∨ E.kernel.extentsMemory path = false) := by
    rw [hr.room]
    have := hr.small
    simp only [Bool.true_eq_false, or_false]
    omega
  unfold Xallib.readFiemap
  simp only [hr.count]
  cases E.kernel.fiemapRead path mapped with
  | error _ =>
    exact (bind_of_ok (assert_true hr.size _)).trans (bind_of_ok (failIf_false hroom _ _))
  | ok _ => exact (bind_of_ok (assert_true hr.size _)).trans (bind_of_ok (failIf_false hroom _ _))

theorem HasRead.readFiemap (hr : HasRead E.kernel path mapped n extents) :
    readFiemap E path s = .ok (n, extents) s := by
  rw [hr.toHasRoom.readFiemap, hr.read]
  exact bind_of_ok (assert_true hr.fits _)

theorem HasRead.reported (hr : HasRead E.kernel path mapped n extents) :
    reported E.kernel E.sb path = (List.range n).map fun i => storedExtent E.sb (extents i) := by
  simp only [Xallib.reported, hr.memory, hr.count, hr.read, if_true]

theorem storeExtents_ok (idx n : Nat) : ∀ (i : Nat) (s : Store FiemapBe),
    ∃ s', storeExtents E extents idx n i s = .ok () s' := by
  induction n with
  | zero => exact fun _ s => ⟨s, rfl⟩
  | succ n ih =>
    intro i s
    unfold storeExtents
    rw [setExtent_bind]
    exact ih _ _

theorem HasStored.storeReported (hs : HasStored E path s mapped n extents) :
    ∃ s', storeReported E self n extents s = .ok () s' := by
  unfold Xallib.storeReported
  by_cases hn : 0 < n
  · obtain ⟨_, hclaim⟩ := claimExtents_of_not_fails (hs.claim hn)
    have hclaim' : onExtents (xalPoolClaimExtents E.mpExtents n) s =
        .ok _ { s with extents := _ } :=
      zoom_of_ok hclaim
    rw [if_pos hn, bind_of_ok hclaim', setInode_bind, bind_of_ok (assert_true (hs.blocksize hn) _)]
    exact storeExtents_ok _ _ _ _
  · rw [if_neg hn]
    exact ⟨s, rfl⟩

/-- The extents have been stored, and what is left is the map of paths. -/
theorem HasStored.process (hX : E.mpExtents.Bounded poolReserved extentNbytes) (hok : StoreOk s)
    (hlt : self < s.inodes.free) (hfile : (s.inodes.memory self).ftype = ftRegFile)
    (hs : HasStored E path s mapped n extents) :
    ∃ t, FileStored (reported E.kernel E.sb path) self s t ∧
      xalBeFiemapProcessInodeFile E path self s = putPath E self t := by
  have hreported : ∃ t, Xallib.storeReported E self n extents s = .ok () t := hs.storeReported
  obtain ⟨t, ht⟩ := hreported
  refine ⟨t, ?_, ?_⟩
  · rw [hs.reported]
    exact (storeReported_spec hX hok hlt n extents).ok ht
  · rw [hs.process_bind hfile, bind_of_ok hs.readFiemap, bind_of_ok ht]

theorem putPath_without_map (h : s.be.pathInodeMap = none) : putPath E self s = .ok () s := by
  unfold putPath
  rw [read_bind, h]
  rfl

theorem putPath_fails (hmap : s.be.pathInodeMap.isSome)
    (h : E.kernel.khPutPath (s.inodes.memory self).name = false) :
    putPath E self s = .fail ⟨.khPut, - EIO⟩ s := by
  obtain ⟨map, hm⟩ := Option.isSome_iff_exists.1 hmap
  unfold putPath
  rw [read_bind, hm]
  exact bind_of_fail (failIf_true h _ _)

theorem putPath_ok
    (h : s.be.pathInodeMap.isSome → E.kernel.khPutPath (s.inodes.memory self).name = true) :
    putPath E self s = .ok () { s with be := addPath (inodeNames s) self s.be } := by
  have hret : ∃ s', putPath E self s = .ok () s' := by
    cases hm : s.be.pathInodeMap with
    | none => exact ⟨s, putPath_without_map hm⟩
    | some map =>
      rw [hm] at h
      unfold putPath
      rw [read_bind, hm]
      exact ⟨_, bind_of_ok (failIf_false (by simp [inodeNames, h rfl]) _ _)⟩
  obtain ⟨s', hs'⟩ := hret
  have hput := putPath_spec.ok hs'
  rw [hs', hput]

/-- What `read_fiemap` has returned is what the two calls of `ioctl` report. -/
theorem hasRead_of_readFiemap {s' : Store FiemapBe} (ho : E.kernel.openFile path = .ok ())
    (hm : E.kernel.fiemapMemory path = true)
    (hr : readFiemap E path s = .ok (n, extents) s') :
    ∃ mapped, HasRead E.kernel path mapped n extents ∧ s' = s := by
  unfold readFiemap at hr
  cases hcount : E.kernel.fiemapCount path with
  | error errno =>
    rw [hcount] at hr
    cases hr
  | ok mapped =>
    simp only [hcount] at hr
    obtain ⟨hsize, hr⟩ := assert_bind_ok.1 hr
    obtain ⟨hroom, hr⟩ := failIf_bind_ok.1 hr
    simp only [not_or, Nat.not_le, Bool.not_eq_false] at hroom
    have hroom' : HasRoom E.kernel path mapped := ⟨⟨ho, hm, hcount, hsize⟩, hroom.1, hroom.2⟩
    cases hread : E.kernel.fiemapRead path mapped with
    | error errno =>
      rw [hread] at hr
      obtain ⟨-, hr⟩ := assert_bind_ok.1 hr
      cases hr
    | ok r =>
      obtain ⟨n', extents'⟩ := r
      rw [hread] at hr
      obtain ⟨hfits, hr⟩ := assert_bind_ok.1 hr
      obtain ⟨hpair, rfl⟩ := Run.ok.inj hr
      obtain ⟨rfl, rfl⟩ := Prod.mk.inj hpair
      exact ⟨mapped, ⟨hroom', hread, hfits⟩, rfl⟩

/-- The calls behind which the function returns their status, and has done nothing. -/
def RefreshPoint.clean : RefreshPoint → Bool
  | .openFile | .fiemapCount | .extentsMemory | .claim => true
  | _ => false

section
variable (hfile : (s.inodes.memory self).ftype = ftRegFile)
include hfile

theorem process_without_memory {u : Unit} (ho : E.kernel.openFile path = .ok u)
    (h : E.kernel.fiemapMemory path = false) :
    xalBeFiemapProcessInodeFile E path self s = .ok () s := by
  rw [process_of_open hfile ho, if_pos h]
  rfl

theorem HasRoom.process (hr : HasRoom E.kernel path mapped) {errno : Nat}
    (h : E.kernel.fiemapRead path mapped = .error errno) :
    xalBeFiemapProcessInodeFile E path self s =
      if E.kernel.extentsInPlace path then .fail ⟨.fiemap, -(errno : Int)⟩ s else .crash := by
  have hread : Xallib.readFiemap E path s =
      if E.kernel.extentsInPlace path then .fail ⟨.fiemap, -(errno : Int)⟩ s else .crash := by
    rw [hr.readFiemap, h]
    by_cases hp : E.kernel.extentsInPlace path = true
    · rw [if_pos hp]
      exact bind_of_ok (assert_true hp _)
    · rw [if_neg hp]
      exact bind_of_crash (assert_false hp _)
  rw [hr.process_bind hfile]
  by_cases hp : E.kernel.extentsInPlace path = true
  · rw [if_pos hp] at hread ⊢
    exact bind_of_fail hread
  · rw [if_neg hp] at hread ⊢
    exact bind_of_crash hread

/-- Reading the file stores nothing. -/
theorem AsksNothing.process (h : AsksNothing E path self s) :
    xalBeFiemapProcessInodeFile E path self s = .ok () { s with
      be := if E.kernel.fiemapMemory path then addPath (inodeNames s) self s.be
        else s.be } := by
  cases h with
  | unread ho hm =>
    rw [process_without_memory hfile ho hm, hm]
    rfl
  | none hr hput =>
    rw [hr.process_bind hfile, bind_of_ok hr.readFiemap, hr.memory]
    exact putPath_ok hput

/-- A call that has succeeded, and stored nothing. -/
theorem asksNothing_of_process {s' : Store FiemapBe}
    (hr : xalBeFiemapProcessInodeFile E path self s = .ok () s')
    (hnone : reported E.kernel E.sb path = []) : AsksNothing E path self s := by
  cases ho : E.kernel.openFile path with
  | error errno =>
    rw [process_of_error hfile ho] at hr
    cases hr
  | ok u =>
    by_cases hm : E.kernel.fiemapMemory path = false
    · exact .unread ho hm
    · have hm : E.kernel.fiemapMemory path = true := by simpa using hm
      rw [process_of_open hfile ho, if_neg (by simp [hm])] at hr
      obtain ⟨⟨n, extents⟩, s₁, hread, hr⟩ := bind_ok.1 hr
      obtain ⟨mapped, hhas, rfl⟩ := hasRead_of_readFiemap ho hm hread
      obtain rfl : n = 0 := by simpa [hhas.reported] using hnone
      obtain ⟨_, s₂, hstore, hput⟩ := bind_ok.1 hr
      obtain ⟨-, rfl⟩ := Run.ok.inj (show Run.ok () s₁ = .ok () s₂ from hstore)
      refine .none hhas fun hmap => ?_
      by_contra hk
      rw [putPath_fails hmap (Bool.eq_false_iff.2 hk)] at hput
      cases hput

/-- The function returns the status of the call that fails, and has done nothing. -/
theorem RefreshFails.process {p : RefreshPoint} (h : RefreshFails E path self s p)
    (herr : Errnos E.kernel)
    (hp : p.clean = true) :
    ∃ e : Err, e.code < 0 ∧ xalBeFiemapProcessInodeFile E path self s = .fail e s := by
  cases h with
  | openFile h =>
    have hneg := Int.neg_neg_of_pos (Int.natCast_pos.2 (herr.openFile _ _ h))
    exact ⟨⟨.openFile, _⟩, hneg, process_of_error hfile h⟩
  | fiemapCount ho hm h =>
    refine ⟨⟨.fiemap, _⟩, Int.neg_neg_of_pos (Int.natCast_pos.2 (herr.fiemapCount _ _ h)), ?_⟩
    rw [process_of_open hfile ho, if_neg (by simp [hm])]
    apply bind_of_fail
    unfold readFiemap
    rw [h]
    rfl
  | extentsMemory hc h =>
    refine ⟨⟨.memory, -ENOMEM⟩, by decide, ?_⟩
    rw [hc.process_bind hfile]
    apply bind_of_fail
    unfold readFiemap
    simp only [hc.count]
    rw [bind_of_ok (assert_true hc.size _), bind_of_fail (failIf_true h _ _)]
  | claim hr hn h =>
    obtain ⟨e, he, hneg⟩ := claimExtents_of_fails h
    refine ⟨e, hneg, ?_⟩
    rw [hr.process_bind hfile, bind_of_ok hr.readFiemap]
    apply bind_of_fail
    unfold storeReported
    rw [if_pos hn]
    exact bind_of_fail (zoom_of_fail he)
  | fiemapMemory | fiemapRead | khPut | stat => exact absurd hp Bool.false_ne_true

end

end Xallib
