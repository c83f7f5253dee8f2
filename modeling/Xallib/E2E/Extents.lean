import Xallib.E2E.Machine

/-!
# Extents in bytes

The FIEMAP backend divides what the kernel reports by `sb.blocksize`, the preferred size of `stat`,
and `xal_extent_in_bytes` multiplies by it. `extents_exact`: this gives back the bytes reported
exactly where the size divides them. The block size of the file system plays no part.
-/

namespace Xallib

open Lib Lib.Cm Lib.Run

section
variable {E : FiemapEnv} {path : CStr} {self : Nat} {s s' : Store FiemapBe}

/-! ## When reading a file comes back -/

theorem storeExtents_returns (extents : Nat → FiemapExtent) (idx n : Nat) :
    ∀ (i : Nat) (s : Store FiemapBe), (storeExtents E extents idx n i s).Returns := by
  induction n with
  | zero => exact fun _ s => returns_ok () s
  | succ n ih =>
    intro i s
    unfold storeExtents
    rw [setExtent_bind]
    exact ih (i + 1) _

theorem putPath_returns (s : Store FiemapBe) : (putPath E self s).Returns := by
  unfold putPath
  rw [read_bind]
  cases s.be.pathInodeMap with
  | none => exact returns_ok _ _
  | some map => exact (returns_failIf _ _).bind fun _ _ _ => returns_ok _ _

theorem storeReported_returns (hb : E.sb.blocksize ≠ 0) (mapped : Nat)
    (extents : Nat → FiemapExtent) (s : Store FiemapBe) :
    (storeReported E self mapped extents s).Returns := by
  unfold storeReported
  by_cases h0 : 0 < mapped
  · rw [if_pos h0]
    refine (returns_zoom (claimExtents_returns mapped _)).bind fun idx s₁ _ => ?_
    rw [setInode_bind, bind_of_ok (assert_true hb _)]
    exact storeExtents_returns extents idx mapped 0 _
  · rw [if_neg h0]
    exact returns_ok () s

/-- With a block size of 0 there is no way to store an extent. -/
theorem blocksize_of_storeReported {mapped : Nat} {extents : Nat → FiemapExtent} {u : Unit}
    (h0 : 0 < mapped) (h : storeReported E self mapped extents s = .ok u s') :
    E.sb.blocksize ≠ 0 := by
  unfold storeReported at h
  rw [if_pos h0] at h
  obtain ⟨idx, s₁, -, h⟩ := bind_ok.1 h
  rw [setInode_bind] at h
  obtain ⟨_, _, ha, -⟩ := bind_ok.1 h
  exact (assert_ok.1 ha).1

/-- The calls for the file `path` succeed, and report the `n` extents `extents`. -/
structure FileReports (E : FiemapEnv) (path : CStr) (n : Nat) (extents : Nat → FiemapExtent) :
    Prop where
  openFile : E.kernel.openFile path = .ok ()
  memory : E.kernel.fiemapMemory path = true
  read : ∀ s, readFiemap E path s = .ok (n, extents) s

variable {n : Nat} {extents : Nat → FiemapExtent}

theorem FileReports.processInodeFile (h : FileReports E path n extents)
    (hfile : (s.inodes.memory self).ftype = ftRegFile) :
    xalBeFiemapProcessInodeFile E path self s =
      (storeReported E self n extents >>= fun _ => putPath E self) s := by
  unfold xalBeFiemapProcessInodeFile
  rw [inodeAt_bind, bind_of_ok (failIf_false (by simp [xalInodeIsFile, hfile]) _ _), h.openFile]
  simp only [h.memory, Bool.true_eq_false, ↓reduceIte]
  rw [bind_of_ok (h.read s)]

theorem FileReports.reported (h : FileReports E path n extents) :
    reported E.kernel E.sb path = (List.range n).map fun i => storedExtent E.sb (extents i) := by
  obtain ⟨-, mapped, hcount, hread⟩ := readFiemap_spec.ok
    (h.read ⟨default, default, ⟨none, fun _ => none⟩⟩)
  simp [Xallib.reported, h.memory, hcount, hread]

/-- Where no call fails, the file is read exactly if the block size is not 0. -/
theorem FileReports.ok_iff (h : FileReports E path n extents) (hn : 0 < n)
    (hfile : (s.inodes.memory self).ftype = ftRegFile)
    (hcalls : ∀ e s', xalBeFiemapProcessInodeFile E path self s ≠ .fail e s') :
    (∃ s', xalBeFiemapProcessInodeFile E path self s = .ok () s') ↔ E.sb.blocksize ≠ 0 := by
  rw [h.processInodeFile hfile] at hcalls ⊢
  constructor
  · rintro ⟨s', hr⟩
    obtain ⟨_, s₁, hst, -⟩ := bind_ok.1 hr
    exact blocksize_of_storeReported hn hst
  · intro hb
    have hret : ((storeReported E self n extents >>= fun _ => putPath E self) s).Returns :=
      (storeReported_returns hb n extents s).bind fun _ s₁ _ => putPath_returns s₁
    rcases hret.cases with ⟨_, s', hr⟩ | ⟨e, s', hr⟩
    · exact ⟨s', hr⟩
    · exact absurd hr (hcalls e s')

/-- The extents of the inode are those reported. -/
theorem FileReports.extentsOf (h : FileReports E path n extents) (hn : 0 < n)
    (hread : FileRead E path self s s') :
    extentsOf s'.extents.memory (s'.inodes.memory self) =
      (List.range n).map fun i => storedExtent E.sb (extents i) := by
  have hfile := hread.file
  have hstored := hread.stored
  rw [h.reported] at hfile hstored
  have hne : ((List.range n).map fun i => storedExtent E.sb (extents i)) ≠ [] := by
    simp only [ne_eq, List.map_eq_nil_iff, List.range_eq_nil]
    omega
  rw [contentAfter, if_neg hne] at hfile
  have hfile : (s'.inodes.memory self).content = _ := congrArg XalInode.content hfile
  rw [Xallib.extentsOf, hfile]
  exact hstored

end

/-! ## Dividing and multiplying -/

theorem div_mul_mod_eq_iff {a b : Nat} (h : a < 2 ^ 64) : a / b * b % 2 ^ 64 = a ↔ b ∣ a := by
  rw [Nat.mod_eq_of_lt (Nat.lt_of_le_of_lt (Nat.div_mul_le_self a b) h), Nat.dvd_iff_div_mul_eq]

/-- The fields are those of `__u64`. -/
structure FiemapExtent.Fits (fe : FiemapExtent) : Prop where
  logical : fe.feLogical < 2 ^ 64
  physical : fe.fePhysical < 2 ^ 64
  length : fe.feLength < 2 ^ 64

/-- The size `b` divides where the extent is and how long it is. -/
def FiemapExtent.MultipleOf (b : Nat) (fe : FiemapExtent) : Prop :=
  b ∣ fe.feLogical ∧ b ∣ fe.fePhysical ∧ b ∣ fe.feLength

/-- The extent, converted. -/
def FiemapExtent.inBytes (fe : FiemapExtent) : XalExtentConverted :=
  ⟨fe.feLogical, fe.fePhysical, fe.feLength, .bytes⟩

theorem storedExtent_inBytes {x : Xal FiemapBe} {fe : FiemapExtent} (ht : x.type = .fiemap)
    (hfe : fe.Fits) : xalExtentInBytes x (some (storedExtent x.sb fe)) = .ok fe.inBytes ↔
      fe.MultipleOf x.sb.blocksize := by
  simp only [xalExtentInBytes, ht, xalFsbnoOffset, storedExtent, FiemapExtent.inBytes,
    Except.ok.injEq, XalExtentConverted.mk.injEq, and_true, div_mul_mod_eq_iff hfe.logical,
    div_mul_mod_eq_iff hfe.physical, div_mul_mod_eq_iff hfe.length, FiemapExtent.MultipleOf]

/-- What the kernel reports of the record `rec` of a file on the XFS file system of `sb`: its
bytes. -/
structure ReportsRecord (sb : XalSb) (rec : XalExtent) (fe : FiemapExtent) : Prop where
  logical : fe.feLogical = rec.startOffset * sb.blocksize
  physical : fe.fePhysical = (rec.startBlock / 2 ^ sb.agblklog * sb.agblocks +
    rec.startBlock % 2 ^ sb.agblklog) * sb.blocksize
  length : fe.feLength = rec.nblocks * sb.blocksize

/-- The XFS backend converts a record to the bytes the kernel reports. -/
theorem ReportsRecord.inBytes {y : Xal Buf} {rec : XalExtent} {fe : FiemapExtent}
    (h : ReportsRecord y.sb rec fe) (hfe : fe.Fits) (ht : y.type = .xfs)
    (hlog : y.sb.agblklog < 32) : xalExtentInBytes y (some rec) = .ok fe.inBytes := by
  have hphys : xalFsbnoOffset .xfs y.sb rec.startBlock = fe.fePhysical := by
    rw [xalFsbnoOffset, agblkMask, Nat.mod_eq_of_lt hlog, Nat.and_two_pow_sub_one_eq_mod,
      Nat.shiftRight_eq_div_pow, ← h.physical, Nat.mod_eq_of_lt hfe.physical]
  simp only [xalExtentInBytes, ht, hphys, ← h.logical, ← h.length, Nat.mod_eq_of_lt hfe.logical,
    Nat.mod_eq_of_lt hfe.length, FiemapExtent.inBytes]

/-! ## Storing and converting -/

/-- Extent `i` of an inode, in bytes. -/
def extentInBytesAt (x : Xal FiemapBe) (inode i : Nat) : Option (Except Int XalExtentConverted) :=
  (extentsOf x.store.extents.memory (x.store.inodes.memory inode))[i]?.map fun extent =>
    xalExtentInBytes x (some extent)

/-- After the file has been read, its extent `i` is `converted`. -/
def StoredAs (E : FiemapEnv) (path : CStr) (inode i : Nat) (x : Xal FiemapBe)
    (converted : Except Int XalExtentConverted) : Prop :=
  ∃ x', onStore (xalBeFiemapProcessInodeFile E path inode) x = .ok () x' ∧
    extentInBytesAt x' inode i = some converted

section
variable {E : FiemapEnv} {x : Xal FiemapBe} {path : CStr} {inode n i : Nat}
  {extents : Nat → FiemapExtent}

theorem storedAs_inBytes (hx : Alive .fiemap x) (hE : FiemapCall E x)
    (hlt : inode < x.store.inodes.free)
    (hfile : (x.store.inodes.memory inode).ftype = ftRegFile)
    (hreports : FileReports E path n extents) (hi : i < n) (hfe : (extents i).Fits)
    (hcalls : ∀ e s, xalBeFiemapProcessInodeFile E path inode x.store ≠ .fail e s) :
    StoredAs E path inode i x (.ok (extents i).inBytes) ↔
      x.sb.blocksize ≠ 0 ∧ (extents i).MultipleOf x.sb.blocksize := by
  have hsb := hE.sb
  have hok := hreports.ok_iff (by omega) hfile hcalls
  have hconv : ∀ s', xalBeFiemapProcessInodeFile E path inode x.store = .ok () s' →
      extentInBytesAt { x with store := s' } inode i =
        some (xalExtentInBytes x (some (storedExtent x.sb (extents i)))) := by
    intro s' hr
    have hread := (processInodeFile_spec hE.extents hx.storeOk hlt).ok hr
    have hget : (Xallib.extentsOf s'.extents.memory (s'.inodes.memory inode))[i]? =
        some (storedExtent E.sb (extents i)) := by
      rw [hreports.extentsOf (by omega) hread]
      simp [hi]
    show Option.map _ (Xallib.extentsOf s'.extents.memory (s'.inodes.memory inode))[i]? = _
    rw [hget, hsb]
    rfl
  rw [← storedExtent_inBytes hx.type_eq hfe, ← hsb, ← hok]
  constructor
  · rintro ⟨x', hstore, hc⟩
    obtain ⟨s', hr, rfl⟩ := zoom_ok.1 hstore
    rw [hconv s' hr] at hc
    exact ⟨⟨s', hr⟩, by rw [hsb]; exact Option.some.inj hc⟩
  · rintro ⟨⟨s', hr⟩, hc⟩
    refine ⟨{ x with store := s' }, zoom_of_ok hr, ?_⟩
    rw [hconv s' hr, ← hsb, hc]

end

/-- An extent is stored and converted to the bytes reported, and to those of the XFS backend,
exactly where the size of `stat` divides them. -/
theorem extents_exact (shm : Bool) (E : FiemapEnv) (x : Xal FiemapBe) (path : CStr)
    (inode stBlksize n i : Nat) (extents : Nat → FiemapExtent) (hx : FiemapReach shm x)
    (hE : FiemapCall E x) (hlt : inode < x.store.inodes.free)
    (hfile : (x.store.inodes.memory inode).ftype = ftRegFile)
    (hblksize : x.sb.blocksize = stBlksize % 2 ^ 32) (hreports : FileReports E path n extents)
    (hi : i < n) (hfe : (extents i).Fits)
    (hcalls : ∀ e s, xalBeFiemapProcessInodeFile E path inode x.store ≠ .fail e s) :
    (StoredAs E path inode i x (.ok (extents i).inBytes) ↔
      stBlksize % 2 ^ 32 ≠ 0 ∧ (extents i).MultipleOf (stBlksize % 2 ^ 32)) ∧
    ∀ (y : Xal Buf) (rec : XalExtent), y.type = .xfs → y.sb.agblklog < 32 →
      ReportsRecord y.sb rec (extents i) →
        (StoredAs E path inode i x (xalExtentInBytes y (some rec)) ↔
          stBlksize % 2 ^ 32 ≠ 0 ∧ (extents i).MultipleOf (stBlksize % 2 ^ 32)) := by
  have h := storedAs_inBytes hx.alive hE hlt hfile hreports hi hfe hcalls
  rw [hblksize] at h
  refine ⟨h, fun y rec hy hlog hrec => ?_⟩
  rw [hrec.inBytes hfe hy hlog]
  exact h

/-! ## A block of 1 KiB -/

/-- The file `/m/a` with one extent. -/
def oneExtent (fe : FiemapExtent) : FiemapEnv :=
  tableEnv (tableKernel [([47, 109], [[97]])] [([47, 109, 47, 97], [fe])]) [47, 109]
    { (default : XalSb) with blocksize := 4096 } .none 0

theorem oneExtent_reports (fe : FiemapExtent) :
    FileReports (oneExtent fe) [47, 109, 47, 97] 1 fun i => [fe].getD i ⟨0, 0, 0, 0⟩ :=
  ⟨rfl, rfl, fun _ => rfl⟩

/-- An XFS file system with blocks of 1 KiB. -/
def kibDisk : Xal Buf :=
  xfsOpened { (default : XalSb) with blocksize := 1024, agblocks := 16, agblklog := 4 }

/-- The file is read again, once it is indexed. -/
theorem oneExtent_read (fe : FiemapExtent) (p : Xal FiemapBe → Bool)
    (h : (xalIndex (xalBeFiemapIndex (oneExtent fe) 2)
      (fiemapOpened (oneExtent fe).sb false)).okWith (fun x => 1 < x.store.inodes.free &&
        (x.store.inodes.memory 1).ftype == ftRegFile &&
        (onStore (xalBeFiemapProcessInodeFile (oneExtent fe) [47, 109, 47, 97] 1) x).okWith p)
      = true) :
    ∃ x x', FiemapReach true x ∧ FiemapCall (oneExtent fe) x ∧ x.sb = (oneExtent fe).sb ∧
      1 < x.store.inodes.free ∧ (x.store.inodes.memory 1).ftype = ftRegFile ∧
      (∀ e s, xalBeFiemapProcessInodeFile (oneExtent fe) [47, 109, 47, 97] 1 x.store ≠ .fail e s) ∧
      onStore (xalBeFiemapProcessInodeFile (oneExtent fe) [47, 109, 47, 97] 1) x = .ok () x' ∧
      p x' = true := by
  obtain ⟨_, x, hindex, hx⟩ := exists_of_okWith h
  rw [Bool.and_eq_true, Bool.and_eq_true, decide_eq_true_eq, beq_iff_eq] at hx
  obtain ⟨⟨hfree, hfile⟩, hrun⟩ := hx
  obtain ⟨_, x', hrun, hp⟩ := exists_of_okWith hrun
  have hreach := fiemapOpened_reach (oneExtent fe).sb false
  have hcall : FiemapCall (oneExtent fe) (fiemapOpened (oneExtent fe).sb false) := tableEnv_call rfl
  have hkept := (hreach.done hcall hindex).kept
  have hsb : x.sb = (oneExtent fe).sb := by rw [hkept]; rfl
  refine ⟨x, x', hreach.index hcall hindex, tableEnv_call hsb, hsb, hfree, hfile, ?_, hrun, hp⟩
  intro e s hfail
  obtain ⟨s', hok, -⟩ := zoom_ok.1 hrun
  rw [hfail] at hok
  cases hok

theorem extents_exact_aligned :
    ∃ x, StoredAs (oneExtent ⟨0, 8192, 4096, 0⟩) [47, 109, 47, 97] 1 0 x
      (.ok ⟨0, 8192, 4096, .bytes⟩) ∧
      StoredAs (oneExtent ⟨0, 8192, 4096, 0⟩) [47, 109, 47, 97] 1 0 x
        (xalExtentInBytes kibDisk (some ⟨0, 8, 4, 0⟩)) := by
  obtain ⟨x, x', hx, hE, hsb, hlt, hfile, hcalls, -, -⟩ :=
    oneExtent_read ⟨0, 8192, 4096, 0⟩ (fun _ => true) (by decide +kernel)
  have h := extents_exact true _ x [47, 109, 47, 97] 1 4096 1 0 _ hx hE hlt hfile
    (by rw [hsb]; rfl) (oneExtent_reports _) (by decide) ⟨by decide, by decide, by decide⟩ hcalls
  have hmul : FiemapExtent.MultipleOf (4096 % 2 ^ 32) ⟨0, 8192, 4096, 0⟩ :=
    ⟨by decide, by decide, by decide⟩
  exact ⟨x, h.1.2 ⟨by decide, hmul⟩,
    (h.2 kibDisk ⟨0, 8, 4, 0⟩ rfl (by decide) ⟨rfl, rfl, rfl⟩).2 ⟨by decide, hmul⟩⟩

/-- One block of 1 KiB, at 1 KiB: it is stored as no block at 0. -/
theorem extents_exact_counterexample :
    ∃ x x', FiemapReach true x ∧ FiemapCall (oneExtent ⟨1024, 1024, 1024, 0⟩) x ∧
      x.sb.blocksize = 4096 ∧ (x.store.inodes.memory 1).ftype = ftRegFile ∧
      FileReports (oneExtent ⟨1024, 1024, 1024, 0⟩) [47, 109, 47, 97] 1
        (fun i => [⟨1024, 1024, 1024, 0⟩].getD i ⟨0, 0, 0, 0⟩) ∧
      ReportsRecord kibDisk.sb ⟨1, 1, 1, 0⟩ ⟨1024, 1024, 1024, 0⟩ ∧
      xalExtentInBytes kibDisk (some ⟨1, 1, 1, 0⟩) = .ok ⟨1024, 1024, 1024, .bytes⟩ ∧
      onStore (xalBeFiemapProcessInodeFile (oneExtent ⟨1024, 1024, 1024, 0⟩) [47, 109, 47, 97] 1) x
        = .ok () x' ∧
      extentInBytesAt x' 1 0 = some (.ok ⟨0, 0, 0, .bytes⟩) := by
  obtain ⟨x, x', hx, hE, hsb, hlt, hfile, hcalls, hrun, hp⟩ :=
    oneExtent_read ⟨1024, 1024, 1024, 0⟩
      (fun x' => extentInBytesAt x' 1 0 == some (.ok ⟨0, 0, 0, .bytes⟩)) (by decide +kernel)
  exact ⟨x, x', hx, hE, by rw [hsb]; rfl, hfile, oneExtent_reports _, ⟨rfl, rfl, rfl⟩, rfl, hrun,
    by simpa using hp⟩

end Xallib
