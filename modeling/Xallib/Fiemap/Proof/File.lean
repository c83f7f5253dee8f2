import Xallib.Fiemap.Proof.PathTable

/-!
# Indexing a regular file

`processInodeFile_spec`: on whatever inode it is called, `xal_be_fiemap_process_inode_file` appends
the extents FIEMAP reports to the pool and points the inode at them, unless there are none: then the
content of the inode stays (`FileRead`). Where it fails, it has done all of this or nothing
(`processInodeFile_stored`).
-/

namespace Xallib

open Lib Lib.Forest Lib.Cm Lib.Run

variable {E : FiemapEnv} {path : CStr} {self : Nat} {s : Store FiemapBe}

/-- The content of an inode after it has been read. -/
def contentAfter (old : XalContent) (free : Nat) (l : List XalExtent) : XalContent :=
  if l = [] then old else ⟨free, l.length⟩

/-- What is left where reading the file has failed. -/
structure FileStopped (d : Nat) (s s' : Store FiemapBe) : Prop extends Opened d s s' where
  ftype : (s'.inodes.memory d).ftype = (s.inodes.memory d).ftype

theorem FileStopped.refl (hs : StoreOk s) (h : self < s.inodes.free) : FileStopped self s s :=
  ⟨.refl hs h, rfl⟩

theorem readFiemap_spec :
    (readFiemap E path s).Sat
      (fun r s' => s' = s ∧ ∃ mapped, E.kernel.fiemapCount path = .ok mapped ∧
        E.kernel.fiemapRead path mapped = .ok r) (fun _ s' => s' = s) := by
  unfold readFiemap
  cases hc : E.kernel.fiemapCount path with
  | error errno => rfl
  | ok mapped =>
    refine sat_assert_bind fun _ => ?_
    refine sat_failIf_bind (fun _ => rfl) fun _ => ?_
    cases hr : E.kernel.fiemapRead path mapped with
    | error errno => exact sat_assert_bind fun _ => rfl
    | ok r => exact sat_assert_bind fun _ => ⟨rfl, mapped, rfl, hr⟩

/-- The extents are stored one after the other. -/
theorem storeExtents_spec (extents : Nat → FiemapExtent) (idx n : Nat) :
    ∀ {i : Nat} {s : Store FiemapBe}, StoreOk s → idx + i + n ≤ s.extents.free →
      (storeExtents E extents idx n i s).Sat
        (fun _ s' => StoreOk s' ∧ s'.inodes = s.inodes ∧ s'.be = s.be ∧
          s'.extents.free = s.extents.free ∧
          (∀ j, i ≤ j → j < i + n → s'.extents.memory (idx + j) = storedExtent E.sb (extents j)) ∧
          ∀ j < idx + i, s'.extents.memory j = s.extents.memory j) (fun _ _ => False) := by
  induction n with
  | zero =>
    intro i s hok _
    exact ⟨hok, rfl, rfl, rfl, fun j h1 h2 => by omega, fun _ _ => rfl⟩
  | succ n ih =>
    intro i s hok hroom
    unfold storeExtents
    rw [setExtent_bind]
    refine (ih (hok.putExtent (by omega) _) (by rw [putExtent_free]; omega)).mono ?_ fun _ _ h => h
    rintro _ s' ⟨hok', hin, hbe, hfree, hnew, hold⟩
    refine ⟨hok', hin, hbe, hfree, fun j h1 h2 => ?_, fun j hj => ?_⟩
    · by_cases hj : j = i
      · rw [hj, hold _ (by omega), putExtent_same]
      · exact hnew j (by omega) (by omega)
    · rw [hold j (by omega), putExtent_other _ _ _ (by omega)]

theorem putPath_spec :
    (putPath E self s).Sat
      (fun _ s' => s' = { s with be := addPath (inodeNames s) self s.be })
      (fun _ s' => s' = s) := by
  unfold putPath
  rw [read_bind]
  cases hm : s.be.pathInodeMap with
  | none =>
    have hbe : addPath (inodeNames s) self s.be = s.be := by
      rw [addPath, hm, Option.map_none, ← hm]
    show s = { s with be := addPath (inodeNames s) self s.be }
    rw [hbe]
  | some map =>
    refine sat_failIf_bind (fun _ => rfl) fun _ => ?_
    show { s with be := _ } = { s with be := addPath (inodeNames s) self s.be }
    rw [addPath, hm, Option.map_some]

/-- The extents `l` have been appended to the pool, and `d` points at them, unless there are
none. -/
structure FileStored (l : List XalExtent) (d : Nat) (s s' : Store FiemapBe) : Prop where
  ok : StoreOk s'
  free : s'.inodes.free = s.inodes.free
  keep : ∀ i, i ≠ d → s'.inodes.memory i = s.inodes.memory i
  file : s'.inodes.memory d = { s.inodes.memory d with
    content := contentAfter (s.inodes.memory d).content s.extents.free l }
  extents_free : s'.extents.free = s.extents.free + l.length
  extents_keep : ∀ i < s.extents.free, s'.extents.memory i = s.extents.memory i
  stored : (List.range l.length).map (fun i => s'.extents.memory (s.extents.free + i)) = l
  be : s'.be = s.be

theorem FileStored.none (hok : StoreOk s) : FileStored [] self s s where
  ok := hok
  free := rfl
  keep _ _ := rfl
  file := rfl
  extents_free := rfl
  extents_keep _ _ := rfl
  stored := rfl
  be := rfl

/-- The names stay. -/
theorem FileStored.names {l : List XalExtent} {s' : Store FiemapBe} (h : FileStored l self s s') :
    inodeNames s' = inodeNames s := by
  funext i
  unfold inodeNames
  by_cases hi : i = self
  · rw [hi, h.file]
  · rw [h.keep i hi]

theorem FileStored.stopped {l : List XalExtent} {s' : Store FiemapBe}
    (h : FileStored l self s s') (hlt : self < s.inodes.free) : FileStopped self s s' where
  ok := h.ok
  lt := hlt
  le := Nat.le_of_eq h.free.symm
  keep i _ hne := h.keep i hne
  extents_le := by have := h.extents_free; omega
  extents_keep := h.extents_keep
  ftype := by rw [h.file]

theorem storeReported_spec (hX : E.mpExtents.Bounded poolReserved extentNbytes) (hok : StoreOk s)
    (hlt : self < s.inodes.free) (mapped : Nat) (extents : Nat → FiemapExtent) :
    (storeReported E self mapped extents s).Sat
      (fun _ => FileStored ((List.range mapped).map fun i => storedExtent E.sb (extents i)) self s)
      (fun _ s' => s' = s) := by
  unfold storeReported
  by_cases h0 : 0 < mapped
  · rw [if_pos h0]
    refine (onExtents_claim hX hok mapped).bind ?_
    rintro idx s₁ ⟨hok₁, rfl, hfree, hmem, hin, hbe⟩
    have hbound := hok₁.extents_free_lt
    rw [setInode_bind]
    refine sat_assert_bind fun _ => ?_
    refine (storeExtents_spec extents s.extents.free mapped (i := 0)
      (hok₁.putInode (by rw [hin]; exact hlt) _)
      (by rw [putInode_extents]; omega)).mono ?_ fun _ _ h => h.elim
    rintro _ s' ⟨hok', hin', hbe', hfree', hnew, hold⟩
    have hmem' := congrArg XalPool.memory hin'
    refine ⟨hok', ?_, fun i hne => ?_, ?_, ?_, fun i hi => ?_, ?_, ?_⟩
    · rw [hin', putInode_free, hin]
    · rw [hmem', putInode_other _ _ _ hne, hin]
    · have hne : ((List.range mapped).map fun i => storedExtent E.sb (extents i)) ≠ [] := by
        intro h
        have := congrArg List.length h
        simp only [List.length_map, List.length_range, List.length_nil] at this
        omega
      rw [hmem', putInode_same, hin, contentAfter, if_neg hne, List.length_map, List.length_range,
        Nat.mod_eq_of_lt (by omega)]
    · rw [hfree', putInode_extents, hfree, List.length_map, List.length_range]
    · rw [hold i (by omega), putInode_extents, hmem]
    · rw [List.length_map, List.length_range]
      refine List.map_congr_left fun i hi => ?_
      rw [hnew i (by omega) (by rw [List.mem_range] at hi; omega)]
    · rw [hbe', putInode_be, hbe]
  · have h0 : mapped = 0 := by omega
    rw [if_neg (by omega), h0]
    exact .none hok

/-- `self` has been read as the file `path` (module doc). -/
structure FileRead (E : FiemapEnv) (path : CStr) (d : Nat) (s s' : Store FiemapBe) : Prop
    extends FileStored (reported E.kernel E.sb path) d s { s' with be := s.be } where
  be_eq : s'.be = if E.kernel.fiemapMemory path then addPath (inodeNames s) d s.be else s.be

theorem FileRead.inodeMap {s' : Store FiemapBe} (h : FileRead E path self s s') :
    s'.be.inodeMap = s.be.inodeMap := by
  rw [h.be_eq]
  cases E.kernel.fiemapMemory path <;> rfl

/-- A file is put into the map of paths if it has been read. -/
theorem FileRead.paths {s' : Store FiemapBe} (h : FileRead E path self s s') (hok : StoreOk s)
    (hlt : self < s.inodes.free) (hft : (s'.inodes.memory self).ftype ≠ ftDir) :
    PathsPut (leaveEntry E path (s'.inodes.memory self) self) s s' := by
  have hnames : inodeNames s' = inodeNames s := h.toFileStored.names
  have hbe := h.be_eq
  by_cases hm : E.kernel.fiemapMemory path = true
  · rw [if_pos hm] at hbe
    rw [leaveEntry, if_pos (.inr hm)]
    have hput : PathsPut [(inodeNames s self, self)] s s' :=
      .one hok hlt (by rw [hbe]; rfl) h.free fun i => by rw [hnames]
    rwa [← hnames] at hput
  · rw [if_neg hm] at hbe
    rw [leaveEntry, if_neg (not_or.2 ⟨hft, hm⟩)]
    exact .frame (by rw [hbe]) (Nat.le_of_eq h.free.symm) fun i _ => by rw [hnames]

theorem processInodeFile_stored (hX : E.mpExtents.Bounded poolReserved extentNbytes)
    (hok : StoreOk s) (hlt : self < s.inodes.free) :
    (xalBeFiemapProcessInodeFile E path self s).Sat (fun _ => FileRead E path self s)
      (fun _ s' => s' = s ∨ FileStored (reported E.kernel E.sb path) self s s') := by
  unfold xalBeFiemapProcessInodeFile
  rw [inodeAt_bind]
  refine sat_failIf_bind (fun _ => .inl rfl) fun _ => ?_
  cases ho : E.kernel.openFile path with
  | error errno => exact .inl rfl
  | ok u =>
    by_cases hm : E.kernel.fiemapMemory path = false
    · -- without memory nothing is stored
      have hr : reported E.kernel E.sb path = [] := by simp [reported, hm]
      simp only [if_pos hm]
      refine { toFileStored := ?_, be_eq := by simp [hm] }
      rw [hr]
      exact .none hok
    · simp only [if_neg hm]
      have hm : E.kernel.fiemapMemory path = true := by simpa using hm
      refine (readFiemap_spec.mono (fun _ _ h => h) fun _ _ h => .inl h).bind ?_
      rintro ⟨mapped, extents⟩ s₁ ⟨rfl, n, hcount, hread⟩
      have hr : reported E.kernel E.sb path =
          (List.range mapped).map fun i => storedExtent E.sb (extents i) := by
        simp [reported, hm, hcount, hread]
      refine ((storeReported_spec hX hok hlt mapped extents).mono (fun _ _ h => h)
        fun _ _ h => .inl h).bind fun _ s₂ h₂ => ?_
      rw [← hr] at h₂
      refine putPath_spec.mono ?_ fun _ s' (h : s' = s₂) => by rw [h]; exact .inr h₂
      rintro _ s' rfl
      refine { toFileStored := ?_, be_eq := ?_ }
      · exact { h₂ with ok := ⟨h₂.ok.inodes, h₂.ok.extents⟩, be := rfl }
      · rw [if_pos hm, h₂.be, h₂.names]

theorem processInodeFile_spec (hX : E.mpExtents.Bounded poolReserved extentNbytes)
    (hok : StoreOk s) (hlt : self < s.inodes.free) :
    (xalBeFiemapProcessInodeFile E path self s).Sat (fun _ => FileRead E path self s)
      (fun _ => FileStopped self s) := by
  refine (processInodeFile_stored hX hok hlt).mono (fun _ _ h => h) fun _ s' h => ?_
  cases h with
  | inl h => rw [h]; exact .refl hok hlt
  | inr h => exact h.stopped hlt

end Xallib
