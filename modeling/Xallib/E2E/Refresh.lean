import Xallib.E2E.Watched

/-!
# A refresh that fails

`FileEvent`: a modification of a regular file of an index under the watcher. `failed_refresh_iff`: a
refresh that fails makes `check_events` return a negative status and changes no inode exactly if it
fails before the extents are stored, or they come out the same (`Harmless`). A `malloc` that fails
goes unnoticed unless `stat` fails as well, and a second `ioctl` that fails stops the process unless
`realloc` has left the block where it was.
-/

namespace Xallib

open Lib Lib.Forest Lib.Cm Lib.Run

/-- The event says that the regular file in slot `i` has changed. -/
structure FileEvent (E : FiemapEnv) (x : Xal FiemapBe) (event : InotifyEvent) (d i : Nat) :
    Prop where
  mode : E.watchMode = .extentUpdate
  mounted : event.has IN_UNMOUNT = false
  changed : event.has (IN_MODIFY ||| IN_CLOSE_WRITE) = true
  dir : khGetWd x.store.be event.wd = some d
  fits : (x.store.inodes.memory d).namelen + 1 + event.name.length + 1 ≤ pathMaxlen
  child : findChild x (x.store.inodes.memory d) (eventPath (x.store.inodes.memory d) event.name) =
    some i
  file : (x.store.inodes.memory i).ftype = ftRegFile

/-- The inodes other than `i`, and their extents, are as they were. -/
structure OthersKept (i : Nat) (x x' : Xal FiemapBe) : Prop where
  inodes : ∀ j, j ≠ i → x'.store.inodes.memory j = x.store.inodes.memory j
  files : ∀ j, j ≠ i → x.rootIdx ≤ j → j < x.store.inodes.free →
    (x.store.inodes.memory j).ftype = ftRegFile →
    extentsOf x'.store.extents.memory (x'.store.inodes.memory j) =
      extentsOf x.store.extents.memory (x.store.inodes.memory j)

/-- So are the size and the extents of `i`. -/
structure NothingChanged (i : Nat) (x x' : Xal FiemapBe) : Prop extends OthersKept i x x' where
  size : (x'.store.inodes.memory i).size = (x.store.inodes.memory i).size
  extents : extentsOf x'.store.extents.memory (x'.store.inodes.memory i) =
    extentsOf x.store.extents.memory (x.store.inodes.memory i)

/-- Nothing is left of a refresh that fails at the call. -/
def Harmless (E : FiemapEnv) (path : CStr) (inode : Nat) (s : Store FiemapBe) : RefreshPoint → Prop
  | .fiemapMemory => ∃ errno, E.kernel.stat path = .error errno
  | .fiemapRead => E.kernel.extentsInPlace path = true
  | .khPut | .stat => reported E.kernel E.sb path = [] ∨
      reported E.kernel E.sb path = extentsOf s.extents.memory (s.inodes.memory inode)
  | _ => True

section
variable {E : FiemapEnv} {x x' x₁ : Xal FiemapBe} {event : InotifyEvent} {d i : Nat}

theorem NothingChanged.of_store (h : x'.store = x.store) : NothingChanged i x x' := by
  refine ⟨⟨fun j _ => ?_, fun j _ _ _ _ => ?_⟩, ?_, ?_⟩ <;> rw [h]

/-- The files of the index keep their extents where more are appended. -/
theorem Tended.extentsOf_kept (ht : Tended x₁ x) {X : Nat → XalExtent}
    (hX : ∀ j < x.store.extents.free, X j = x.store.extents.memory j) {j : Nat}
    (h1 : x.rootIdx ≤ j) (h2 : j < x.store.inodes.free)
    (hfile : (x.store.inodes.memory j).ftype = ftRegFile) :
    extentsOf X (x.store.inodes.memory j) =
      extentsOf x.store.extents.memory (x.store.inodes.memory j) :=
  extentsOf_congr (ht.extents_le j h1 h2 hfile) hX

section
variable {l : List XalExtent} {t : Store FiemapBe}

theorem FileStored.othersKept (ht : Tended x₁ x) (hs : FileStored l i x.store t)
    (hI : ∀ j, j ≠ i → x'.store.inodes.memory j = t.inodes.memory j)
    (hX : x'.store.extents = t.extents) : OthersKept i x x' := by
  refine ⟨fun j hj => (hI j hj).trans (hs.keep j hj), fun j hj h1 h2 hfile => ?_⟩
  rw [hI j hj, hX, hs.keep j hj]
  exact ht.extentsOf_kept hs.extents_keep h1 h2 hfile

/-- The extents of the file: those that have been stored, or without any the old ones. -/
theorem FileStored.extentsOf (ht : Tended x₁ x) (hs : FileStored l i x.store t)
    (h1 : x.rootIdx ≤ i) (h2 : i < x.store.inodes.free)
    (hfile : (x.store.inodes.memory i).ftype = ftRegFile) :
    Xallib.extentsOf t.extents.memory (t.inodes.memory i) =
      if l = [] then Xallib.extentsOf x.store.extents.memory (x.store.inodes.memory i) else l := by
  by_cases hl : l = []
  · have hsame : t.inodes.memory i = x.store.inodes.memory i := by
      rw [hs.file, contentAfter, if_pos hl]
    rw [if_pos hl, hsame]
    exact ht.extentsOf_kept hs.extents_keep h1 h2 hfile
  · rw [if_neg hl, Xallib.extentsOf, hs.file, contentAfter, if_neg hl]
    exact hs.stored

/-- Where extents have been stored, nothing has changed if these are the same. -/
theorem FileStored.nothingChanged_iff (ht : Tended x₁ x) (hs : FileStored l i x.store t)
    (h1 : x.rootIdx ≤ i) (h2 : i < x.store.inodes.free)
    (hfile : (x.store.inodes.memory i).ftype = ftRegFile) (hI : x'.store.inodes = t.inodes)
    (hX : x'.store.extents = t.extents) : NothingChanged i x x' ↔
      l = [] ∨ l = Xallib.extentsOf x.store.extents.memory (x.store.inodes.memory i) := by
  have hextents := hs.extentsOf ht h1 h2 hfile
  rw [← hI, ← hX] at hextents
  constructor
  · intro h
    by_cases hl : l = []
    · exact .inl hl
    · rw [if_neg hl] at hextents
      exact .inr (hextents.symm.trans h.extents)
  · intro h
    refine ⟨hs.othersKept ht (fun j _ => by rw [hI]) hX, by rw [hI, hs.file], ?_⟩
    rw [hextents]
    by_cases hl : l = []
    · rw [if_pos hl]
    · rw [if_neg hl]
      exact h.resolve_left hl

end

/-- The event comes to the file. -/
theorem FileEvent.checkEvent (hev : FileEvent E x event d i)
    (hd : (x.store.inodes.memory d).ftype = ftDir) :
    checkEvent E event x = (onExit addSeqLock
      (refreshFile E (eventPath (x.store.inodes.memory d) event.name) i) >>=
        fun _ => pure false) (addSeqLock x) := by
  have hdir : ¬xalInodeIsDir (x.store.inodes.memory d) = false := by simp [xalInodeIsDir, hd]
  have hfits := hev.fits
  have hchild : refreshChild E (x.store.inodes.memory d)
      (eventPath (x.store.inodes.memory d) event.name) (addSeqLock x) =
        refreshFile E (eventPath (x.store.inodes.memory d) event.name) i (addSeqLock x) := by
    unfold refreshChild
    rw [read_bind, show findChild (addSeqLock x) _ _ = some i from hev.child]
  unfold Xallib.checkEvent
  rw [if_neg (by rw [hev.mode]; decide), if_neg (by rw [hev.mounted]; decide), if_pos hev.changed,
    read_bind, hev.dir]
  simp only
  rw [bind_of_ok (failIf_false hdir _ _), bind_of_ok (failIf_false (by omega) _ _), modify_bind]
  exact bind_congr_left (onExit_congr hchild)

/-- The refresh has come back with a negative status, and has left the index as it was. -/
def Undone (i : Nat) (x : Xal FiemapBe) {α : Type} (r : Run Err (Xal FiemapBe) α) : Prop :=
  ∃ e x', r = .fail e x' ∧ e.code < 0 ∧ NothingChanged i x x'

theorem not_undone_ok {α : Type} {a : α} : ¬Undone i x (.ok a x') := by
  rintro ⟨e, y, h, -⟩
  cases h

theorem undone_fail {α : Type} {e : Err} :
    Undone i x (.fail e x' : Run Err (Xal FiemapBe) α) ↔ e.code < 0 ∧ NothingChanged i x x' := by
  constructor
  · rintro ⟨_, y, h, hy⟩
    cases h
    exact hy
  · exact fun h => ⟨e, x', rfl, h⟩

/-- Where the refresh of a file fails, it is undone exactly if that is harmless. -/
theorem refreshFile_undone_iff {path : CStr} {p : RefreshPoint} (ht : Tended x₁ x)
    (hE : FiemapCall E x) (herr : Errnos E.kernel) (h1 : x.rootIdx ≤ i)
    (h2 : i < x.store.inodes.free) (hfile : (x.store.inodes.memory i).ftype = ftRegFile)
    (hp : RefreshFails E path i x.store p) :
    Undone i x (refreshFile E path i x) ↔ Harmless E path i x.store p := by
  have hsame : ∀ {e : Err}, e.code < 0 →
      xalBeFiemapProcessInodeFile E path i x.store = .fail e x.store →
        Undone i x (refreshFile E path i x) := by
    intro e he hr
    have hrun : refreshFile E path i x = .fail e x := bind_of_fail (zoom_of_fail hr)
    rw [hrun, undone_fail]
    exact ⟨he, .of_store rfl⟩
  by_cases hclean : p.clean = true
  · obtain ⟨e, he, hr⟩ := hp.process hfile herr hclean
    refine iff_of_true (hsame he hr) ?_
    cases p <;> trivial
  · cases hp with
    | openFile | fiemapCount | extentsMemory | claim => exact absurd rfl hclean
    | fiemapMemory ho h =>
      have hr := process_without_memory hfile ho h
      have hrun : refreshFile E path i x = _ := bind_of_ok (zoom_of_ok hr)
      rw [hrun, Harmless]
      cases hst : E.kernel.stat path with
      | error errno =>
        refine iff_of_true ?_ ⟨errno, rfl⟩
        exact ⟨_, _, rfl, Int.neg_neg_of_pos (Int.natCast_pos.2 (herr.stat _ _ hst)), .of_store rfl⟩
      | ok st => exact iff_of_false not_undone_ok fun ⟨_, h⟩ => nomatch h
    | fiemapRead hr h =>
      have hprocess := hr.process (s := x.store) hfile h
      by_cases hplace : E.kernel.extentsInPlace path = true
      · rw [if_pos hplace] at hprocess
        have he := Int.neg_neg_of_pos (Int.natCast_pos.2 (herr.fiemapRead _ _ _ h))
        exact iff_of_true (hsame he hprocess) hplace
      · rw [if_neg hplace] at hprocess
        have hrun : refreshFile E path i x = .crash := bind_of_crash (zoom_of_crash hprocess)
        rw [hrun]
        refine iff_of_false ?_ hplace
        rintro ⟨e, y, h, -⟩
        cases h
    | khPut hs hmap h =>
      obtain ⟨t, hstored, hprocess⟩ := hs.process hE.extents ht.ok h2 hfile
      have hput : putPath E i t = .fail ⟨.khPut, - EIO⟩ t :=
        putPath_fails (by rw [hstored.be]; exact hmap) (by rw [hstored.file]; exact h)
      have hrun : refreshFile E path i x = .fail ⟨.khPut, - EIO⟩ { x with store := t } :=
        bind_of_fail (zoom_of_fail (hprocess.trans hput))
      rw [hrun, undone_fail, Harmless]
      refine (and_iff_right (by decide)).trans ?_
      exact hstored.nothingChanged_iff ht h1 h2 hfile rfl rfl
    | stat hs hput h =>
      obtain ⟨t, hstored, hprocess⟩ := hs.process hE.extents ht.ok h2 hfile
      have hput' := putPath_ok (E := E) (s := t)
        (by rw [hstored.be, hstored.file]; exact hput)
      have hrun : refreshFile E path i x = _ := bind_of_ok (zoom_of_ok (hprocess.trans hput'))
      have he := Int.neg_neg_of_pos (Int.natCast_pos.2 (herr.stat _ _ h))
      rw [hrun, h, Harmless]
      refine undone_fail.trans ((and_iff_right he).trans ?_)
      exact hstored.nothingChanged_iff ht h1 h2 hfile rfl rfl

end

/-- The lock plays no part. -/
theorem nothingChanged_addSeqLock {i : Nat} {x x' : Xal FiemapBe} :
    NothingChanged i (addSeqLock x) x' ↔ NothingChanged i x (addSeqLock x') :=
  ⟨fun h => ⟨⟨h.inodes, h.files⟩, h.size, h.extents⟩,
    fun h => ⟨⟨h.inodes, h.files⟩, h.size, h.extents⟩⟩

/-- The call ends with the refresh that is undone, whatever follows. -/
theorem FileEvent.undone_iff {E : FiemapEnv} {x : Xal FiemapBe} {event : InotifyEvent} {d i : Nat}
    (hev : FileEvent E x event d i) (hd : (x.store.inodes.memory d).ftype = ftDir) :
    (∀ rest, Undone i x (checkEvents ((E, event) :: rest) x)) ↔
      Undone i (addSeqLock x)
        (refreshFile E (eventPath (x.store.inodes.memory d) event.name) i (addSeqLock x)) := by
  have hevent := hev.checkEvent hd
  constructor
  · intro h
    obtain ⟨e, y, hr, he, hy⟩ := h []
    rcases bind_fail.1 hr with hr | ⟨ended, z, -, hr⟩
    · rcases bind_fail.1 (hevent.symm.trans hr) with hr | ⟨_, z, -, hr⟩
      · obtain ⟨z, hrun, rfl⟩ := onExit_fail.1 hr
        exact ⟨e, z, hrun, he, nothingChanged_addSeqLock.2 hy⟩
      · cases hr
    · cases ended <;> cases hr
  · rintro ⟨e, y, hr, he, hy⟩ rest
    have hfail := hevent.trans (bind_of_fail (onExit_fail.2 ⟨y, hr, rfl⟩))
    exact ⟨e, addSeqLock y, bind_of_fail hfail, he, nothingChanged_addSeqLock.1 hy⟩

/-- A refresh that fails changes nothing and ends `check_events` with a status exactly where that is
harmless. -/
theorem failed_refresh_iff (shm : Bool) (E₀ E : FiemapEnv) (x₀ x₁ x y : Xal FiemapBe)
    (events : List (FiemapEnv × InotifyEvent)) (event : InotifyEvent) (d i : Nat)
    (p : RefreshPoint) (hx₀ : WatchReach shm x₀) (hx : Watched E₀ x₀ x₁ x)
    (hcalls : ∀ c ∈ (E, event) :: events, FiemapCall c.1 x)
    (hevents : checkEvents events x = .ok false y) (herr : Errnos E.kernel)
    (hev : FileEvent E y event d i)
    (hp : RefreshFails E (eventPath (y.store.inodes.memory d) event.name) i y.store p) :
    (∀ rest, Undone i y (checkEvents (events ++ (E, event) :: rest) x)) ↔
      Harmless E (eventPath (y.store.inodes.memory d) event.name) i y.store p := by
  obtain ⟨hE, hcalls⟩ := List.forall_mem_cons.1 hcalls
  obtain ⟨hy, hsb⟩ := hx.checkEvents hx₀.alive hcalls hevents
  obtain ⟨-, k, hk⟩ := hx.rooted hx₀.alive
  have ht := hy.tended hx₀.alive
  obtain ⟨-, -, hd, -⟩ := ht.watched hk hx.mode hev.dir
  obtain ⟨h1, h2⟩ := ht.child hk hx.mode hev.dir hev.child
  simp only [checkEvents_append hevents]
  rw [hev.undone_iff hd]
  exact refreshFile_undone_iff ht.addSeqLock ⟨hE.sb.trans hsb.symm, hE.inodes,
    hE.extents⟩ herr h1 h2
    hev.file hp

/-! ## A file in a directory -/

/-- The file `/m/d/a` with its extents, in a file system with watch descriptors. -/
def nestedFile (extents : List FiemapExtent) : FiemapEnv :=
  tableEnv (tableKernel [([47, 109], [[100]]), ([47, 109, 47, 100], [[97]])]
    [([47, 109, 47, 100, 47, 97], extents)]) [47, 109] smallSb .extentUpdate 0

/-- `a` has been written, in the directory with the watch descriptor 1. -/
def nestedEvent : InotifyEvent := ⟨1, IN_CLOSE_WRITE, [97]⟩

/-- The index of the file without extents is one in which the event finds it. -/
def NestedIndex (x : Xal FiemapBe) : Bool :=
  khGetWd x.store.be 1 == some 1 && (x.store.inodes.memory 1).namelen == 4 &&
    (x.store.inodes.memory 1).name == [47, 109, 47, 100] &&
    findChild x (x.store.inodes.memory 1) [47, 109, 47, 100, 47, 97] == some 2 &&
    (x.store.inodes.memory 2).ftype == ftRegFile

theorem NestedIndex.event {x : Xal FiemapBe} (h : NestedIndex x = true) {E : FiemapEnv}
    (hmode : E.watchMode = .extentUpdate) : FileEvent E x nestedEvent 1 2 ∧
      eventPath (x.store.inodes.memory 1) [97] = [47, 109, 47, 100, 47, 97] := by
  simp only [NestedIndex, Bool.and_eq_true, beq_iff_eq] at h
  obtain ⟨⟨⟨⟨hwd, hlen⟩, hname⟩, hchild⟩, hfile⟩ := h
  have hpath : eventPath (x.store.inodes.memory 1) [97] = [47, 109, 47, 100, 47, 97] := by
    rw [eventPath, hname, hlen]
    rfl
  refine ⟨⟨hmode, by decide, by decide, hwd, ?_, ?_, hfile⟩, hpath⟩
  · rw [hlen]
    decide
  · show findChild x (x.store.inodes.memory 1) (eventPath (x.store.inodes.memory 1) [97]) = some 2
    rw [hpath]
    exact hchild

theorem tableKernel_errnos (dirs : List (CStr × List CStr))
    (files : List (CStr × List FiemapExtent)) :
    Errnos (tableKernel dirs files) := by
  have hpos : 0 < ENOENT := by decide
  refine ⟨fun path errno h => ?_, fun path errno h => ?_, fun path n errno h => ?_,
    fun path errno h => ?_⟩
  · simp only [tableKernel] at h
    split at h <;> cases h
    exact hpos
  · simp only [tableKernel] at h
    split at h <;> cases h
    exact hpos
  · simp only [tableKernel] at h
    split at h <;> cases h
    exact hpos
  · simp only [tableKernel] at h
    split at h
    · cases h
    · split at h <;> cases h
      exact hpos

/-- The file has got an extent, and is then asked for with other answers. -/
def nestedWith (f : Kernel → Kernel) : FiemapEnv :=
  { nestedFile [⟨0, 1024, 1024, 0⟩] with kernel := f (nestedFile [⟨0, 1024, 1024, 0⟩]).kernel }

/-- The file cannot be opened any more. -/
def openFails : FiemapEnv := nestedWith fun K => { K with openFile := fun _ => .error ENOENT }

/-- It is gone when it is asked for its size. -/
def statFails : FiemapEnv := nestedWith fun K => { K with stat := fun _ => .error ENOENT }

def memoryFails : FiemapEnv := nestedWith fun K => { K with fiemapMemory := fun _ => false }

theorem failed_refresh_iff_open :
    ∃ x, xalIndex (xalBeFiemapIndex (nestedFile []) 3) (fiemapOpened smallSb false) = .ok () x ∧
      ∀ rest, Undone 2 x (checkEvents ((openFails, nestedEvent) :: rest) x) := by
  have hrun : (xalIndex (xalBeFiemapIndex (nestedFile []) 3) (fiemapOpened smallSb false)).okWith
      (fun x => NestedIndex x && x.sb == smallSb) = true := by decide +kernel
  obtain ⟨_, x, hr, hp⟩ := exists_of_okWith hrun
  simp only [Bool.and_eq_true, beq_iff_eq] at hp
  obtain ⟨hindex, hsb⟩ := hp
  obtain ⟨hev, -⟩ := NestedIndex.event hindex (E := openFails) rfl
  have herr := tableKernel_errnos [([47, 109], [[100]]), ([47, 109, 47, 100], [[97]])]
    [([47, 109, 47, 100, 47, 97], [⟨0, 1024, 1024, 0⟩])]
  refine ⟨x, hr, ?_⟩
  exact (failed_refresh_iff true (nestedFile []) openFails (fiemapOpened smallSb false) x x x []
    nestedEvent 1 2 .openFile (.init (openedXal_justOpened _ _ _))
    ⟨tableEnv_call rfl, by decide, ⟨3, hr⟩, .init rfl⟩
    (List.forall_mem_cons.2 ⟨⟨hsb.symm, mprotectWithin_bounded _ _ _, mprotectWithin_bounded _ _ _⟩,
      fun _ h => absurd h List.not_mem_nil⟩) rfl
    ⟨fun _ _ h => by cases h; decide, herr.fiemapCount, herr.fiemapRead, herr.stat⟩ hev
    (.openFile rfl)).2 trivial

/-- Where `stat` fails behind the new extents, these stay; and without memory `check_events` goes
on. -/
theorem failed_refresh_changes :
    ∃ x, xalIndex (xalBeFiemapIndex (nestedFile []) 3) (fiemapOpened smallSb false) = .ok () x ∧
      (FileEvent statFails x nestedEvent 1 2 ∧
        RefreshFails statFails (eventPath (x.store.inodes.memory 1) [97]) 2 x.store .stat ∧
        ¬Undone 2 x (checkEvents [(statFails, nestedEvent)] x)) ∧
      FileEvent memoryFails x nestedEvent 1 2 ∧
        RefreshFails memoryFails (eventPath (x.store.inodes.memory 1) [97]) 2 x.store
          .fiemapMemory ∧
        ¬Undone 2 x (checkEvents [(memoryFails, nestedEvent)] x) := by
  have hrun : (xalIndex (xalBeFiemapIndex (nestedFile []) 3) (fiemapOpened smallSb false)).okWith
      (fun x => NestedIndex x && decide (¬ClaimFails statFails.mpExtents 1 x.store.extents) &&
        x.store.be.pathInodeMap.isNone &&
        extentsOf x.store.extents.memory (x.store.inodes.memory 2) == [] &&
        (checkEvents [(statFails, nestedEvent)] x).failWith (fun x' =>
          extentsOf x'.store.extents.memory (x'.store.inodes.memory 2) != []) &&
        (checkEvents [(memoryFails, nestedEvent)] x).okWith fun _ => true) =
          true := by decide +kernel
  obtain ⟨_, x, hr, hp⟩ := exists_of_okWith hrun
  simp only [Bool.and_eq_true, beq_iff_eq, decide_eq_true_eq, Option.isNone_iff_eq_none] at hp
  obtain ⟨⟨⟨⟨⟨hindex, hclaim⟩, hmap⟩, hold⟩, hstat⟩, hmemory⟩ := hp
  obtain ⟨hev, hpath⟩ := NestedIndex.event hindex (E := statFails) rfl
  obtain ⟨hev', -⟩ := NestedIndex.event hindex (E := memoryFails) rfl
  refine ⟨x, hr, ⟨hev, ?_, ?_⟩, hev', ?_, ?_⟩
  · rw [hpath]
    have hs : HasStored statFails [47, 109, 47, 100, 47, 97] x.store 1 1
        (fun i => [(⟨0, 1024, 1024, 0⟩ : FiemapExtent)].getD i ⟨0, 0, 0, 0⟩) :=
      ⟨⟨⟨⟨rfl, rfl, rfl, by decide⟩, by decide, rfl⟩, rfl, by decide⟩, fun _ => hclaim,
        fun _ => by decide⟩
    refine .stat hs (fun h => ?_) rfl
    rw [hmap] at h
    cases h
  · obtain ⟨e, x', hfail, hnew⟩ := exists_of_failWith hstat
    rintro ⟨_, y, hy, -, hsame⟩
    obtain ⟨-, rfl⟩ := Run.fail.inj (hfail.symm.trans hy)
    have hext := hsame.extents
    rw [hold] at hext
    rw [hext] at hnew
    exact absurd hnew (by decide)
  · rw [hpath]
    exact .fiemapMemory rfl rfl
  · obtain ⟨ended, x', hok, -⟩ := exists_of_okWith hmemory
    rw [hok]
    exact not_undone_ok

end Xallib
