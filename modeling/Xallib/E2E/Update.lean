import Xallib.E2E.Refresh

/-!
# A refresh against indexing again

`ChildEvent`: a regular file in a watched directory has changed. `FreshFile` is what an index stores
for a file (`fresh_of_index`). `refresh_agrees_iff`: where all calls succeed, `check_events` brings
the file to this, and leaves the others alone, exactly if the watch descriptor still leads to the
directory, this is not the mountpoint, the path fits the buffer of `check_events`, and the file
still has extents, or had none; or there was nothing to do (`Astray`).

* The descriptor leads elsewhere where the directory has been indexed again under a second path,
  behind a symbolic link or a bind mount: the kernel gives both the same one, and `kh_put` keeps the
  last.
* The children of the mountpoint are not found because the stored name of the root is empty.
* A file without extents keeps its old ones because `xal_be_fiemap_process_inode_file` then leaves
  the inode as it is.
-/

namespace Xallib

open Lib Lib.Forest Lib.Cm Lib.Run

/-- The path the directory in slot `d` was indexed and watched under. -/
def watchedPath (E₀ : FiemapEnv) (x : Xal FiemapBe) (d : Nat) : CStr :=
  if d = x.rootIdx then E₀.mountpoint else (x.store.inodes.memory d).name

/-- The event says that the regular file in slot `i` has changed, an entry of the directory in slot
`d`, whose watch descriptor it carries. -/
structure ChildEvent (E₀ E : FiemapEnv) (x : Xal FiemapBe) (event : InotifyEvent) (d i : Nat) :
    Prop where
  mode : E.watchMode = .extentUpdate
  mounted : event.has IN_UNMOUNT = false
  changed : event.has (IN_MODIFY ||| IN_CLOSE_WRITE) = true
  slot : x.rootIdx ≤ d ∧ d < x.store.inodes.free
  dir : (x.store.inodes.memory d).ftype = ftDir
  watch : ∃ wd : Nat, E₀.kernel.addWatch (watchedPath E₀ x d) = .ok wd ∧ event.wd = wd
  first : (x.store.inodes.memory d).content.idx ≤ i
  last : i < (x.store.inodes.memory d).content.idx + (x.store.inodes.memory d).content.count
  file : (x.store.inodes.memory i).ftype = ftRegFile
  name : event.name = basename (x.store.inodes.memory i).name

/-- What an index stores for the file `path`. -/
structure FreshFile (E : FiemapEnv) (path : CStr) (X : Nat → XalExtent) (v : XalInode) : Prop where
  extents : extentsOf X v = reported E.kernel E.sb path
  size : ∃ st, E.kernel.stat path = .ok st ∧ v.size = st.stSize

/-- Reading the file `path` again into slot `i` writes nothing. -/
structure Unmoved (E : FiemapEnv) (path : CStr) (i : Nat) (s : Store FiemapBe) : Prop where
  asks : AsksNothing E path i s
  size : ∃ st, E.kernel.stat path = .ok st ∧ st.stSize = (s.inodes.memory i).size

/-- The event is taken for one of another directory than `d`, where it changes nothing. -/
def Astray (E : FiemapEnv) (x : Xal FiemapBe) (event : InotifyEvent) (d : Nat) : Prop :=
  ∃ d' i, d' ≠ d ∧ FileEvent E x event d' i ∧
    Unmoved E (eventPath (x.store.inodes.memory d') event.name) i x.store

/-! ## The names of the entries -/

section
variable {E : FiemapEnv} {x : Xal FiemapBe} {k : Forest XalInode} {q : List CStr} {i i' d : Nat}
  {c : FiemapNode} (ht : FiemapTree E x k)
include ht

/-- A directory is stored under its path, but the root under no name. -/
theorem dir_name (hs : FiemapAt E x q d c) :
    (x.store.inodes.memory d).name.take (x.store.inodes.memory d).namelen =
      (if d = x.rootIdx then [] else c.path) ∧ (d = x.rootIdx → c.path = E.mountpoint) := by
  have hfact := (ht.labelAt hs).fact
  have htake : (x.store.inodes.memory d).name.take (x.store.inodes.memory d).namelen =
      c.stored := by
    rw [hfact.name, hfact.namelen, List.take_length]
  rw [htake]
  by_cases hd : d = x.rootIdx
  · obtain rfl : q = [] := (slotAt_root_iff ht hs).1 hd
    rcases hs.cases with ⟨-, -, rfl⟩ | ⟨_, _, _, _, _, _, _, _, hq⟩
    · exact ⟨(if_pos hd).symm, fun _ => rfl⟩
    · simp at hq
  · refine ⟨?_, fun h => absurd h hd⟩
    rw [if_neg hd]
    exact listed_stored (ht.listed_iff.1 ⟨d, hs⟩) fun hq => hd ((slotAt_root_iff ht hs).2 hq)

variable (hN : DirNames E.kernel) (hs : FiemapAt E x q d c)
  (hd : (x.store.inodes.memory d).ftype = ftDir)
  (hi : (x.store.inodes.memory d).content.idx ≤ i ∧
    i < (x.store.inodes.memory d).content.idx + (x.store.inodes.memory d).content.count)
include hN hs hd hi

/-- An entry is stored under its path. -/
theorem entry_name : slash ∉ basename (x.store.inodes.memory i).name ∧
    (x.store.inodes.memory i).name = joinPath c.path (basename (x.store.inodes.memory i).name) := by
  obtain ⟨-, hcount⟩ := dir_dents ht hs hd
  obtain ⟨j, rfl⟩ := Nat.exists_eq_add_of_le hi.1
  have hj : j < (entriesAt E.kernel c.path).length := by omega
  have hn := List.getElem?_eq_getElem hj
  obtain ⟨hkid, hbase⟩ := dentry_stands hN ht hs hd hn
  rw [hbase]
  exact ⟨(hN.entry (List.mem_of_getElem? hn)).2, (ht.labelAt hkid).fact.name⟩

/-- No other entry of the directory has its name. -/
theorem entry_unique (hi' : (x.store.inodes.memory d).content.idx ≤ i' ∧
    i' < (x.store.inodes.memory d).content.idx + (x.store.inodes.memory d).content.count)
    (hname : (x.store.inodes.memory i').name = (x.store.inodes.memory i).name) : i' = i := by
  have hasc := children_ascending hN ht hs hd
  obtain ⟨j, rfl⟩ := Nat.exists_eq_add_of_le hi.1
  obtain ⟨j', rfl⟩ := Nat.exists_eq_add_of_le hi'.1
  rcases Nat.lt_trichotomy j j' with hlt | rfl | hlt
  · have h := hasc j j' hlt (by omega)
    simp [hname] at h
  · rfl
  · have h := hasc j' j hlt (by omega)
    simp [hname] at h

end

/-- The children of the mountpoint do not have the path an event gives them. -/
theorem joinPath_nil_ne {mountpoint n n' : CStr} (hm : mountpoint ≠ []) (hn : slash ∉ n) :
    joinPath [] n ≠ joinPath mountpoint n' := by
  intro h
  cases mountpoint with
  | nil => exact hm rfl
  | cons b m =>
    obtain ⟨-, htail⟩ := List.cons.inj h
    exact hn (by rw [htail]; simp)

/-! ## The event -/

section
variable {E : FiemapEnv} {x x₁ : Xal FiemapBe} {event : InotifyEvent} {d i mapped n : Nat}
  {extents : Nat → FiemapExtent} {path : CStr}

/-- A refresh whose calls all succeed. -/
theorem refreshFile_run (ht : Tended x₁ x) (hE : FiemapCall E x) (h2 : i < x.store.inodes.free)
    (hfile : (x.store.inodes.memory i).ftype = ftRegFile)
    (hs : HasStored E path x.store mapped n extents)
    (hput : x.store.be.pathInodeMap.isSome →
      E.kernel.khPutPath (x.store.inodes.memory i).name = true)
    {st : Stat} (hst : E.kernel.stat path = .ok st) :
    ∃ t x', FileStored (reported E.kernel E.sb path) i x.store t ∧
      refreshFile E path i x = .ok () x' ∧ x'.store.extents = t.extents ∧
      x'.store.inodes.memory i = { t.inodes.memory i with size := st.stSize } ∧
      ∀ j, j ≠ i → x'.store.inodes.memory j = t.inodes.memory j := by
  obtain ⟨t, hstored, hprocess⟩ := hs.process hE.extents ht.ok h2 hfile
  have hput' := putPath_ok (E := E) (s := t) (by rw [hstored.be, hstored.file]; exact hput)
  have hrun : refreshFile E path i x = _ := bind_of_ok (zoom_of_ok (hprocess.trans hput'))
  rw [hst] at hrun
  exact ⟨t, _, hstored, hrun, rfl, putInode_same _ _ _, fun _ hj => putInode_other _ _ _ hj⟩

/-- After it the file is fresh, unless it kept old extents. -/
theorem freshFile_iff (ht : Tended x₁ x) (h1 : x.rootIdx ≤ i) (h2 : i < x.store.inodes.free)
    (hfile : (x.store.inodes.memory i).ftype = ftRegFile) {t : Store FiemapBe}
    (hstored : FileStored (reported E.kernel E.sb path) i x.store t) {st : Stat}
    (hst : E.kernel.stat path = .ok st) :
    FreshFile E path t.extents.memory { t.inodes.memory i with size := st.stSize } ↔
      reported E.kernel E.sb path ≠ [] ∨ (x.store.inodes.memory i).content.count = 0 := by
  have hextents := hstored.extentsOf ht h1 h2 hfile
  have hlength : (extentsOf x.store.extents.memory (x.store.inodes.memory i)).length =
      (x.store.inodes.memory i).content.count := by simp [extentsOf]
  by_cases hl : reported E.kernel E.sb path = []
  · rw [if_pos hl] at hextents
    constructor
    · intro h
      have hnone := hextents.symm.trans h.extents
      rw [hnone, hl] at hlength
      exact .inr hlength.symm
    · intro h
      have hcount := h.resolve_left (not_not.2 hl)
      refine ⟨?_, st, hst, rfl⟩
      rw [hl]
      rw [hcount] at hlength
      exact hextents.trans (List.eq_nil_of_length_eq_zero hlength)
  · rw [if_neg hl] at hextents
    exact iff_of_true ⟨hextents, st, hst, rfl⟩ (.inl hl)

/-- Handling the event brings the file to what an index stores, and leaves the others alone. -/
def Refreshes (E : FiemapEnv) (x : Xal FiemapBe) (event : InotifyEvent) (i : Nat) : Prop :=
  ∃ x', checkEvents [(E, event)] x = .ok false x' ∧
    FreshFile E (x.store.inodes.memory i).name x'.store.extents.memory
      (x'.store.inodes.memory i) ∧ OthersKept i x x'

/-- A refresh that succeeds lets `check_events` go on. -/
theorem FileEvent.checkEvents_ok (hev : FileEvent E x event d i)
    (hd : (x.store.inodes.memory d).ftype = ftDir) {y : Xal FiemapBe}
    (hrun : refreshFile E (eventPath (x.store.inodes.memory d) event.name) i (addSeqLock x) =
      .ok () y) : checkEvents [(E, event)] x = .ok false (addSeqLock y) :=
  bind_of_ok ((hev.checkEvent hd).trans (bind_of_ok (onExit_of_ok hrun)))

/-- The event that comes to the file. -/
theorem FileEvent.refreshes_iff (hev : FileEvent E x event d i) (ht : Tended x₁ x)
    (hd : (x.store.inodes.memory d).ftype = ftDir) (h1 : x.rootIdx ≤ i)
    (h2 : i < x.store.inodes.free) (hE : FiemapCall E x)
    (hpath : eventPath (x.store.inodes.memory d) event.name = (x.store.inodes.memory i).name)
    (hs : HasStored E (x.store.inodes.memory i).name x.store mapped n extents)
    (hput : x.store.be.pathInodeMap.isSome →
      E.kernel.khPutPath (x.store.inodes.memory i).name = true)
    {st : Stat} (hst : E.kernel.stat (x.store.inodes.memory i).name = .ok st) :
    Refreshes E x event i ↔ reported E.kernel E.sb (x.store.inodes.memory i).name ≠ [] ∨
      (x.store.inodes.memory i).content.count = 0 := by
  have hE' : FiemapCall E (addSeqLock x) := ⟨hE.sb, hE.inodes, hE.extents⟩
  obtain ⟨t, y, hstored, hrun, hX, hsame, hothers⟩ :=
    refreshFile_run ht.addSeqLock hE' h2 hev.file hs hput hst
  rw [← hpath] at hrun
  have hcheck := hev.checkEvents_ok hd hrun
  refine Iff.trans ?_ (freshFile_iff ht h1 h2 hev.file hstored hst)
  rw [← hX, ← hsame]
  constructor
  · rintro ⟨x', hr, h, -⟩
    obtain ⟨-, rfl⟩ := Run.ok.inj (hcheck.symm.trans hr)
    exact h
  · exact fun h => ⟨_, hcheck, h, hstored.othersKept ht hothers hX⟩

/-- A call of `check_events` that goes on behind a change has refreshed a file. -/
theorem fileEvent_of_ok (hmode : E.watchMode = .extentUpdate)
    (hmounted : event.has IN_UNMOUNT = false)
    (hchanged : event.has (IN_MODIFY ||| IN_CLOSE_WRITE) = true) {x' : Xal FiemapBe}
    (hr : checkEvents [(E, event)] x = .ok false x') :
    ∃ d i y, FileEvent E x event d i ∧
      refreshFile E (eventPath (x.store.inodes.memory d) event.name) i (addSeqLock x) = .ok () y ∧
      x' = addSeqLock y := by
  obtain ⟨ended, z, hcheck, hr⟩ := bind_ok.1 hr
  unfold checkEvent at hcheck
  rw [if_neg (by rw [hmode]; decide), if_neg (by rw [hmounted]; decide), if_pos hchanged,
    read_bind] at hcheck
  cases hwd : khGetWd x.store.be event.wd with
  | none =>
    rw [hwd] at hcheck
    cases hcheck
  | some d =>
    rw [hwd] at hcheck
    obtain ⟨-, hcheck⟩ := failIf_bind_ok.1 hcheck
    obtain ⟨hfits, hcheck⟩ := failIf_bind_ok.1 hcheck
    rw [modify_bind] at hcheck
    obtain ⟨_, z', hexit, hend⟩ := bind_ok.1 hcheck
    obtain ⟨rfl, rfl⟩ := Run.ok.inj hend
    obtain ⟨-, rfl⟩ := Run.ok.inj hr
    obtain ⟨y, hrun, rfl⟩ := onExit_ok.1 hexit
    unfold refreshChild at hrun
    rw [read_bind] at hrun
    cases hchild : findChild (addSeqLock x) (x.store.inodes.memory d)
        (eventPath (x.store.inodes.memory d) event.name) with
    | none =>
      rw [hchild] at hrun
      cases hrun
    | some i =>
      rw [hchild] at hrun
      refine ⟨d, i, y, ⟨hmode, hmounted, hchanged, hwd, by omega, hchild, ?_⟩, hrun, rfl⟩
      obtain ⟨_, _, hprocess, -⟩ := bind_ok.1 hrun
      obtain ⟨s', hprocess, -⟩ := zoom_ok.1 hprocess
      unfold xalBeFiemapProcessInodeFile at hprocess
      rw [inodeAt_bind] at hprocess
      obtain ⟨hfile, -⟩ := failIf_bind_ok.1 hprocess
      simpa [xalInodeIsFile, addSeqLock] using hfile

/-! ## A refresh that writes nothing -/

theorem Unmoved.run {path : CStr} (h : Unmoved E path i x.store)
    (hfile : (x.store.inodes.memory i).ftype = ftRegFile) :
    ∃ x', refreshFile E path i x = .ok () x' ∧ x'.store.extents = x.store.extents ∧
      ∀ j, x'.store.inodes.memory j = x.store.inodes.memory j := by
  obtain ⟨st, hst, hsize⟩ := h.size
  have hrun : refreshFile E path i x = _ := bind_of_ok (zoom_of_ok (h.asks.process hfile))
  rw [hst] at hrun
  refine ⟨_, hrun, rfl, fun j => ?_⟩
  by_cases hj : j = i
  · subst hj
    refine (putInode_same _ _ _).trans ?_
    rw [hsize]
  · exact putInode_other _ _ _ hj

/-- A refresh that has left the inode as it was. -/
theorem unmoved_of_run {path : CStr} (ht : Tended x₁ x) (hE : FiemapCall E x)
    (h1 : x.rootIdx ≤ i) (h2 : i < x.store.inodes.free)
    (hfile : (x.store.inodes.memory i).ftype = ftRegFile) {x' : Xal FiemapBe}
    (hrun : refreshFile E path i x = .ok () x')
    (hsame : x'.store.inodes.memory i = x.store.inodes.memory i) : Unmoved E path i x.store := by
  obtain ⟨_, y, hprocess, hrun⟩ := bind_ok.1 hrun
  obtain ⟨s', hstore, rfl⟩ := zoom_ok.1 hprocess
  have hstored := ((processInodeFile_stored hE.extents ht.ok h2).ok hstore).toFileStored
  cases hst : E.kernel.stat path with
  | error errno =>
    rw [hst] at hrun
    cases hrun
  | ok st =>
    rw [hst] at hrun
    obtain ⟨-, rfl⟩ := Run.ok.inj hrun
    have hnew := (putInode_same s' i { s'.inodes.memory i with size := st.stSize }).symm.trans hsame
    rw [show s'.inodes.memory i = _ from hstored.file] at hnew
    refine ⟨asksNothing_of_process hfile hstore ?_, st, hst, congrArg XalInode.size hnew⟩
    -- extents would be new ones, which the inode has not had
    by_contra hl
    have hcontent := congrArg XalInode.content hnew
    simp only [contentAfter, if_neg hl] at hcontent
    have hle := ht.extents_le i h1 h2 hfile
    rw [← hcontent] at hle
    have hlength := List.length_pos_iff.2 hl
    have hbound := hle (by simpa using hl)
    simp only at hbound
    omega

section
variable {E₀ : FiemapEnv} {be : FiemapBe} {k : Forest XalInode} (hN : DirNames E₀.kernel)
  (hk : FiemapRooted E₀ (beCleared E₀ be) x₁.rootIdx x₁ k) (hmount : E₀.mountpoint ≠ [])
  (ht : Tended x₁ x) (hev : ChildEvent E₀ E x event d i)
include hN hk hmount ht hev

omit path in
/-- The path of the event is that of the file, but for the children of the mountpoint. -/
theorem ChildEvent.found :
    ((x.store.inodes.memory d).ftype = ftDir ∧
      (x.store.inodes.memory d).namelen = (x.store.inodes.memory d).name.length) ∧
    (x.rootIdx ≤ i ∧ i < x.store.inodes.free) ∧
    (d ≠ x.rootIdx → eventPath (x.store.inodes.memory d) event.name =
      (x.store.inodes.memory i).name) ∧
    findChild x (x.store.inodes.memory d) (eventPath (x.store.inodes.memory d) event.name) =
      if d = x.rootIdx then none else some i := by
  obtain ⟨⟨hd1, hd2⟩, hd⟩ := And.intro hev.slot hev.dir
  have hdsame := ht.others d (by rw [← ht.ftype, hd]; exact ftDir_ne_ftRegFile)
  obtain ⟨-, hi⟩ := ht.entry hk hev.slot hd hev.first hev.last
  have htree := hk.tree rfl
  rw [ht.rootIdx] at hd1
  rw [ht.free, hk.free] at hd2
  obtain ⟨q, c, hs, hat⟩ := htree.stands FiemapNode.base hd1 hd2
  refine ⟨⟨hd, by rw [hdsame, hat.fact.name]; exact hat.fact.namelen⟩, hi, ?_⟩
  rw [ht.rootIdx]
  obtain ⟨hpath, hroot⟩ := dir_name htree hs
  have hfirst := hev.first
  have hlast := hev.last
  have hname := hev.name
  rw [hdsame] at hd hfirst hlast ⊢
  rw [ht.name] at hname
  obtain ⟨hslash, hentry⟩ := entry_name htree hN hs hd ⟨hfirst, hlast⟩
  by_cases h0 : d = x₁.rootIdx
  · refine ⟨fun h => absurd h0 h, ?_⟩
    rw [if_pos h0] at hpath ⊢
    rw [eventPath, hpath, hname]
    cases hfind : findChild x (x₁.store.inodes.memory d)
        (joinPath [] (basename (x₁.store.inodes.memory i).name)) with
    | none => rfl
    | some i' =>
      obtain ⟨hlo, hhi, hname'⟩ := findChild_some hfind
      obtain ⟨-, hentry'⟩ := entry_name htree hN hs hd ⟨hlo, hhi⟩
      rw [ht.name, hentry', hroot h0] at hname'
      exact absurd hname'.symm (joinPath_nil_ne hmount hslash)
  · rw [if_neg h0] at hpath ⊢
    have hevent : eventPath (x₁.store.inodes.memory d) event.name =
        (x.store.inodes.memory i).name := by
      rw [eventPath, hpath, hname, ht.name]
      exact hentry.symm
    refine ⟨fun _ => hevent, ?_⟩
    rw [hevent]
    obtain ⟨i', hfind⟩ := Option.isSome_iff_exists.1 (findChild_isSome (x := x) hfirst hlast)
    obtain ⟨hlo, hhi, hname'⟩ := findChild_some hfind
    rw [ht.name, ht.name] at hname'
    rw [hfind, entry_unique htree hN hs hd ⟨hfirst, hlast⟩ ⟨hlo, hhi⟩ hname']

end

end

theorem Watched.mountpoint {E₀ : FiemapEnv} {x₀ x₁ x : Xal FiemapBe} (h : Watched E₀ x₀ x₁ x) :
    E₀.mountpoint ≠ [] := by
  obtain ⟨fuel, hr⟩ := h.index
  unfold xalIndex xalBeFiemapIndex at hr
  rw [read_bind] at hr
  obtain ⟨-, hr⟩ := failIf_bind_ok.1 hr
  obtain ⟨hm, -⟩ := failIf_bind_ok.1 hr
  exact fun h => hm (by rw [h]; rfl)

/-- An index stores for a file what the operating system reports. -/
theorem fresh_of_index {E : FiemapEnv} {y y' : Xal FiemapBe} {fuel j : Nat} (hy : Alive .fiemap y)
    (hE : FiemapCall E y) (hr : xalIndex (xalBeFiemapIndex E fuel) y = .ok () y')
    (h1 : y'.rootIdx ≤ j) (h2 : j < y'.store.inodes.free)
    (hfile : (y'.store.inodes.memory j).ftype = ftRegFile) :
    FreshFile E (y'.store.inodes.memory j).name y'.store.extents.memory
      (y'.store.inodes.memory j) := by
  obtain ⟨hrooted, k, hk⟩ := (xalIndex_fiemap hE hy.storeOk fuel).ok hr
  have ht := hk.tree hrooted.rootIdx
  obtain ⟨q, c, hs, hat⟩ := ht.stands FiemapNode.base h1 (by
    rw [hk.free, ← hrooted.rootIdx] at h2
    exact h2)
  have hq : q ≠ [] := fun hq => by
    have hft := hk.ftype
    rw [← hrooted.rootIdx, ← (slotAt_root_iff ht hs).2 hq, hfile] at hft
    exact absurd hft (by decide)
  have hstored := listed_stored (ht.listed_iff.1 ⟨j, hs⟩) hq
  obtain ⟨st, hst, -, hsize⟩ := hat.fact.stat
  rw [hat.fact.name, hstored]
  rcases hat.fact.kind with ⟨hd, -⟩ | ⟨-, -, hextents⟩
  · rw [hfile] at hd
    exact absurd hd (by decide)
  · exact ⟨hextents, st, hst, hsize⟩

/-- Where all calls succeed, a refresh agrees with a fresh index exactly if the watch descriptor
leads to the directory, this is not the mountpoint, the path fits the buffer, and the file has
extents or had none; or if the file is fresh, and the event goes astray. -/
theorem refresh_agrees_iff (shm : Bool) (E₀ E : FiemapEnv) (x₀ x₁ x : Xal FiemapBe)
    (event : InotifyEvent) (d i mapped n : Nat) (extents : Nat → FiemapExtent) (st : Stat)
    (hx₀ : WatchReach shm x₀) (hx : Watched E₀ x₀ x₁ x) (hN : DirNames E₀.kernel)
    (hE : FiemapCall E x) (hev : ChildEvent E₀ E x event d i)
    (hs : HasStored E (x.store.inodes.memory i).name x.store mapped n extents)
    (hput : x.store.be.pathInodeMap.isSome →
      E.kernel.khPutPath (x.store.inodes.memory i).name = true)
    (hst : E.kernel.stat (x.store.inodes.memory i).name = .ok st) :
    (∀ fuel y y' j, WatchReach shm y → FiemapCall E y →
      xalIndex (xalBeFiemapIndex E fuel) y = .ok () y' → y'.rootIdx ≤ j →
      j < y'.store.inodes.free → (y'.store.inodes.memory j).ftype = ftRegFile →
      (y'.store.inodes.memory j).name = (x.store.inodes.memory i).name →
      FreshFile E (x.store.inodes.memory i).name y'.store.extents.memory
        (y'.store.inodes.memory j)) ∧
    (Refreshes E x event i ↔
      (khGetWd x.store.be event.wd = some d ∧ d ≠ x.rootIdx ∧
        (x.store.inodes.memory i).name.length < pathMaxlen ∧
        (reported E.kernel E.sb (x.store.inodes.memory i).name ≠ [] ∨
          (x.store.inodes.memory i).content.count = 0)) ∨
      FreshFile E (x.store.inodes.memory i).name x.store.extents.memory
        (x.store.inodes.memory i) ∧ Astray E x event d) := by
  constructor
  · intro fuel y y' j hy hEy hr h1 h2 hfile hname
    rw [← hname]
    exact fresh_of_index hy.alive hEy hr h1 h2 hfile
  · obtain ⟨-, k, hk⟩ := hx.rooted hx₀.alive
    have ht := hx.tended hx₀.alive
    obtain ⟨⟨hd, hlen⟩, ⟨h1, h2⟩, hpath, hfind⟩ := hev.found hN hk hx.mountpoint ht
    have hlength : d ≠ x.rootIdx → (x.store.inodes.memory i).name.length =
        (x.store.inodes.memory d).namelen + 1 + event.name.length := by
      intro h0
      rw [← hpath h0, eventPath, joinPath, List.length_append, List.length_take, ← hlen,
        Nat.min_self, List.length_cons]
      omega
    constructor
    · intro h
      obtain ⟨x', hr, hfresh, hkept⟩ := h
      obtain ⟨d', i', y, hev', hrun, rfl⟩ := fileEvent_of_ok hev.mode hev.mounted hev.changed hr
      by_cases hdd : d' = d
      · subst hdd
        have hchild := hev'.child
        rw [hfind] at hchild
        by_cases h0 : d' = x.rootIdx
        · rw [if_pos h0] at hchild
          cases hchild
        · rw [if_neg h0] at hchild
          obtain rfl := Option.some.inj hchild
          have hfits := hev'.fits
          refine .inl ⟨hev'.dir, h0, by rw [hlength h0]; omega, ?_⟩
          exact (hev'.refreshes_iff ht hd h1 h2 hE (hpath h0) hs hput hst).1 ⟨_, hr, hfresh, hkept⟩
      · obtain ⟨hlo, hhi, -⟩ := findChild_some hev'.child
        obtain ⟨hd1, hd2, hd', -⟩ := ht.watched hk hx.mode hev'.dir
        obtain ⟨hparent', h1', h2'⟩ := ht.entry hk ⟨hd1, hd2⟩ hd' hlo hhi
        obtain ⟨hparent, -⟩ := ht.entry hk hev.slot hd hev.first hev.last
        have hii : i' ≠ i := fun hii => hdd (by rw [← hparent', hii, hparent])
        have hE' : FiemapCall E (addSeqLock x) := ⟨hE.sb, hE.inodes, hE.extents⟩
        have hunmoved : Unmoved E _ i' (addSeqLock x).store :=
          unmoved_of_run ht.addSeqLock hE' h1' h2' hev'.file hrun (hkept.inodes i' hii)
        obtain ⟨y', hrun', hX, hI⟩ := Unmoved.run (x := addSeqLock x) hunmoved hev'.file
        obtain ⟨-, rfl⟩ := Run.ok.inj (hrun.symm.trans hrun')
        change FreshFile E _ y.store.extents.memory (y.store.inodes.memory i) at hfresh
        rw [hX, hI i] at hfresh
        exact .inr ⟨hfresh, d', i', hdd, hev', hunmoved⟩
    · rintro (⟨hwd, h0, hfits, h⟩ | ⟨hfresh, d', i', -, hev', hunmoved⟩)
      · have hfile : FileEvent E x event d i := ⟨hev.mode, hev.mounted, hev.changed, hwd,
          by rw [hlength h0] at hfits; omega, by rw [hfind, if_neg h0], hev.file⟩
        exact (hfile.refreshes_iff ht hd h1 h2 hE (hpath h0) hs hput hst).2 h
      · obtain ⟨-, -, hd', -⟩ := ht.watched hk hx.mode hev'.dir
        obtain ⟨y, hrun, hX, hI⟩ := Unmoved.run (x := addSeqLock x) hunmoved hev'.file
        refine ⟨_, hev'.checkEvents_ok hd' hrun, ?_, fun j _ => hI j, fun j _ _ _ _ => ?_⟩
        · show FreshFile E _ y.store.extents.memory (y.store.inodes.memory i)
          rw [hX, hI i]
          exact hfresh
        · show extentsOf y.store.extents.memory (y.store.inodes.memory j) = _
          rw [hX, hI j]
          rfl

/-! ## A file that is written, and three that are not refreshed -/

/-- The directory `/m/d` has been indexed and watched. -/
def NestedDir (x : Xal FiemapBe) : Bool :=
  NestedIndex x && x.rootIdx == 0 && decide (1 < x.store.inodes.free) &&
    (x.store.inodes.memory 1).ftype == ftDir

theorem NestedDir.child {x : Xal FiemapBe} (h : NestedDir x = true)
    (indexed : List FiemapExtent) {E : FiemapEnv} (hmode : E.watchMode = .extentUpdate) :
    ChildEvent (nestedFile indexed) E x nestedEvent 1 2 ∧ khGetWd x.store.be 1 = some 1 ∧
      1 ≠ x.rootIdx ∧ (x.store.inodes.memory 2).name = [47, 109, 47, 100, 47, 97] := by
  simp only [NestedDir, Bool.and_eq_true, beq_iff_eq, decide_eq_true_eq] at h
  obtain ⟨⟨⟨hindex, hroot⟩, hfree⟩, hdir⟩ := h
  obtain ⟨hev, hpath⟩ := NestedIndex.event hindex hmode
  obtain ⟨hlo, hhi, hname⟩ := findChild_some hev.child
  rw [show nestedEvent.name = [97] from rfl, hpath] at hname
  have hd : (x.store.inodes.memory 1).name = [47, 109, 47, 100] := by
    simp only [NestedIndex, Bool.and_eq_true, beq_iff_eq] at hindex
    exact hindex.1.1.2
  have hne : 1 ≠ x.rootIdx := by rw [hroot]; decide
  refine ⟨⟨hmode, hev.mounted, hev.changed, ⟨by omega, hfree⟩, hdir, ⟨1, ?_, rfl⟩, hlo, hhi,
    hev.file, by rw [hname]; decide⟩, hev.dir, hne, hname⟩
  rw [watchedPath, if_neg hne, hd]
  rfl

theorem nestedFile_dirNames (extents : List FiemapExtent) : DirNames (nestedFile extents).kernel :=
  tableKernel_dirNames (by decide)

theorem refresh_agrees_iff_written :
    ∃ x, xalIndex (xalBeFiemapIndex (nestedFile []) 3) (fiemapOpened smallSb false) = .ok () x ∧
      Refreshes (nestedFile [⟨0, 1024, 1024, 0⟩]) x nestedEvent 2 := by
  have hrun : (xalIndex (xalBeFiemapIndex (nestedFile []) 3) (fiemapOpened smallSb false)).okWith
      (fun x => NestedDir x && x.sb == smallSb && x.store.be.pathInodeMap.isNone &&
        decide (¬ClaimFails (nestedFile []).mpExtents 1 x.store.extents)) = true := by
    decide +kernel
  obtain ⟨_, x, hr, hp⟩ := exists_of_okWith hrun
  simp only [Bool.and_eq_true, beq_iff_eq, decide_eq_true_eq, Option.isNone_iff_eq_none] at hp
  obtain ⟨⟨⟨hindex, hsb⟩, hmap⟩, hclaim⟩ := hp
  obtain ⟨hev, hwd, hroot, hname⟩ :=
    NestedDir.child hindex [] (E := nestedFile [⟨0, 1024, 1024, 0⟩]) rfl
  have hs : HasStored (nestedFile [⟨0, 1024, 1024, 0⟩]) (x.store.inodes.memory 2).name x.store 1 1
      (fun i => [(⟨0, 1024, 1024, 0⟩ : FiemapExtent)].getD i ⟨0, 0, 0, 0⟩) := by
    rw [hname]
    exact ⟨⟨⟨⟨rfl, rfl, rfl, by decide⟩, by decide, rfl⟩, rfl, by decide⟩, fun _ => hclaim,
      fun _ => by decide⟩
  refine ⟨x, hr, ?_⟩
  refine ((refresh_agrees_iff true (nestedFile []) (nestedFile [⟨0, 1024, 1024, 0⟩])
    (fiemapOpened smallSb false) x x nestedEvent 1 2 1 1 _ ⟨0o100644, 2, 0⟩
    (.init (openedXal_justOpened _ _ _)) ⟨tableEnv_call rfl, by decide, ⟨3, hr⟩, .init rfl⟩
    (nestedFile_dirNames []) ⟨hsb.symm, mprotectWithin_bounded _ _ _, mprotectWithin_bounded _ _ _⟩
    hev hs ?_ ?_).2).2 (.inl ⟨hwd, hroot, ?_, ?_⟩)
  · rw [hmap]
    exact fun h => nomatch h
  · rw [hname]
    rfl
  · rw [hname]
    decide
  · rw [hname]
    exact .inl (by decide)

/-- The file `/m/a` without extents. -/
def rootFile : FiemapEnv :=
  tableEnv (tableKernel [([47, 109], [[97]])] [([47, 109, 47, 97], [])]) [47, 109] smallSb
    .extentUpdate 0

/-- The directory `/m/d` with the file `a`, and a symbolic link `/m/l` to it, which is indexed as a
second directory: both have the watch descriptor 1. -/
def linkedDir (extents : List FiemapExtent) : FiemapEnv :=
  let E := tableEnv (tableKernel [([47, 109], [[100], [108]]), ([47, 109, 47, 100], [[97]]),
      ([47, 109, 47, 108], [[97]])]
    [([47, 109, 47, 100, 47, 97], extents), ([47, 109, 47, 108, 47, 97], extents)]) [47, 109]
      smallSb .extentUpdate 0
  { E with kernel := { E.kernel with
    addWatch := fun path => .ok (if path = [47, 109] then 0 else 1) } }

/-- A file without extents is asked for. -/
theorem hasStored_none {E : FiemapEnv} {path : CStr} {s : Store FiemapBe}
    (ho : E.kernel.openFile path = .ok ()) (hm : E.kernel.fiemapMemory path = true)
    (hc : E.kernel.fiemapCount path = .ok 0) (he : E.kernel.extentsMemory path = true)
    {extents : Nat → FiemapExtent} (hr : E.kernel.fiemapRead path 0 = .ok (0, extents)) :
    HasStored E path s 0 0 extents :=
  ⟨⟨⟨⟨ho, hm, hc, by decide⟩, by decide, he⟩, hr, by decide⟩,
    fun h => absurd h (Nat.lt_irrefl 0), fun h => absurd h (Nat.lt_irrefl 0)⟩

/-- `E₀` has been indexed; when the event is handled the calls succeed, with the extents `fresh` for
the file in slot `i`, and yet it is not refreshed. -/
def NotRefreshed (E₀ E : FiemapEnv) (event : InotifyEvent) (d i : Nat)
    (fresh : List FiemapExtent) : Prop :=
  ∃ x, xalIndex (xalBeFiemapIndex E₀ 3) (fiemapOpened smallSb false) = .ok () x ∧
    ChildEvent E₀ E x event d i ∧
    HasStored E (x.store.inodes.memory i).name x.store fresh.length fresh.length
      (fun j => fresh.getD j ⟨0, 0, 0, 0⟩) ∧
    ¬Refreshes E x event i

/-- A file that has been emptied keeps its extent. -/
theorem emptied_kept :
    NotRefreshed (nestedFile [⟨0, 1024, 1024, 0⟩]) (nestedFile []) nestedEvent 1 2 [] := by
  have hrun : (xalIndex (xalBeFiemapIndex (nestedFile [⟨0, 1024, 1024, 0⟩]) 3)
      (fiemapOpened smallSb false)).okWith (fun x => NestedDir x &&
        (checkEvents [(nestedFile [], nestedEvent)] x).okWith (fun x' =>
          extentsOf x'.store.extents.memory (x'.store.inodes.memory 2) != [])) = true := by
    decide +kernel
  obtain ⟨_, x, hr, hp⟩ := exists_of_okWith hrun
  simp only [Bool.and_eq_true] at hp
  obtain ⟨hindex, hold⟩ := hp
  obtain ⟨hev, -, -, hname⟩ := NestedDir.child hindex _ (E := nestedFile []) rfl
  refine ⟨x, hr, hev, ?_, ?_⟩
  · rw [hname]
    exact hasStored_none rfl rfl rfl rfl rfl
  · obtain ⟨_, x', hok, hext⟩ := exists_of_okWith hold
    rintro ⟨y, hy, hfresh, -⟩
    obtain ⟨-, rfl⟩ := Run.ok.inj (hok.symm.trans hy)
    have hnone := hfresh.extents
    rw [hname] at hnone
    rw [show reported (nestedFile []).kernel (nestedFile []).sb _ = [] from rfl] at hnone
    rw [hnone] at hext
    exact absurd hext (by decide)

/-- A file in the mountpoint is not found. -/
theorem rootFile_lost : NotRefreshed rootFile rootFile ⟨0, IN_CLOSE_WRITE, [97]⟩ 0 1 [] := by
  have hrun : (xalIndex (xalBeFiemapIndex rootFile 3) (fiemapOpened smallSb false)).okWith
      (fun x => x.rootIdx == 0 && decide (0 < x.store.inodes.free) &&
        (x.store.inodes.memory 0).ftype == ftDir && (x.store.inodes.memory 0).content == ⟨1, 1⟩ &&
        (x.store.inodes.memory 1).ftype == ftRegFile &&
        (x.store.inodes.memory 1).name == [47, 109, 47, 97] &&
        (checkEvents [(rootFile, ⟨0, IN_CLOSE_WRITE, [97]⟩)] x).failWith fun _ => true) =
          true := by
    decide +kernel
  obtain ⟨_, x, hr, hp⟩ := exists_of_okWith hrun
  simp only [Bool.and_eq_true, beq_iff_eq, decide_eq_true_eq] at hp
  obtain ⟨⟨⟨⟨⟨⟨hroot, hfree⟩, hdir⟩, hcontent⟩, hfile⟩, hname⟩, hfail⟩ := hp
  refine ⟨x, hr, ⟨rfl, by decide, by decide, ⟨by omega, hfree⟩, hdir, ⟨0, ?_, rfl⟩, ?_, ?_, hfile,
    ?_⟩, ?_, ?_⟩
  · rw [watchedPath, if_pos hroot.symm]
    rfl
  · rw [hcontent]
  · rw [hcontent]
    decide
  · rw [hname]
    decide
  · rw [hname]
    exact hasStored_none rfl rfl rfl rfl rfl
  · obtain ⟨e, x', hrun, -⟩ := exists_of_failWith hfail
    rintro ⟨y, hy, -⟩
    rw [hrun] at hy
    cases hy

/-- A file that has been written is refreshed under the link only. -/
theorem linkedDir_stale : NotRefreshed (linkedDir []) (linkedDir [⟨0, 1024, 1024, 0⟩])
    nestedEvent 1 3 [⟨0, 1024, 1024, 0⟩] := by
  have hrun : (xalIndex (xalBeFiemapIndex (linkedDir []) 3) (fiemapOpened smallSb false)).okWith
      (fun x => x.rootIdx == 0 && decide (1 < x.store.inodes.free) &&
        (x.store.inodes.memory 1).ftype == ftDir && (x.store.inodes.memory 1).content == ⟨3, 1⟩ &&
        (x.store.inodes.memory 1).name == [47, 109, 47, 100] &&
        (x.store.inodes.memory 3).ftype == ftRegFile &&
        (x.store.inodes.memory 3).name == [47, 109, 47, 100, 47, 97] &&
        decide (¬ClaimFails (linkedDir []).mpExtents 1 x.store.extents) &&
        (checkEvents [(linkedDir [⟨0, 1024, 1024, 0⟩], nestedEvent)] x).okWith (fun x' =>
          extentsOf x'.store.extents.memory (x'.store.inodes.memory 3) == [])) = true := by
    decide +kernel
  obtain ⟨_, x, hr, hp⟩ := exists_of_okWith hrun
  simp only [Bool.and_eq_true, beq_iff_eq, decide_eq_true_eq] at hp
  obtain ⟨⟨⟨⟨⟨⟨⟨⟨hroot, hfree⟩, hdir⟩, hcontent⟩, hd⟩, hfile⟩, hname⟩, hclaim⟩, hold⟩ := hp
  refine ⟨x, hr, ⟨rfl, by decide, by decide, ⟨by omega, hfree⟩, hdir, ⟨1, ?_, rfl⟩, ?_, ?_, hfile,
    ?_⟩, ?_, ?_⟩
  · rw [watchedPath, if_neg (by omega), hd]
    rfl
  · rw [hcontent]
  · rw [hcontent]
    decide
  · rw [hname]
    decide
  · rw [hname]
    exact ⟨⟨⟨⟨rfl, rfl, rfl, by decide⟩, by decide, rfl⟩, rfl, by decide⟩, fun _ => hclaim,
      fun _ => by decide⟩
  · obtain ⟨_, x', hok, hext⟩ := exists_of_okWith hold
    rintro ⟨y, hy, hfresh, -⟩
    obtain ⟨-, rfl⟩ := Run.ok.inj (hok.symm.trans hy)
    have hnew := hfresh.extents
    rw [hname, beq_iff_eq.1 hext] at hnew
    exact absurd hnew (by decide)

/-- A file that has been emptied keeps its extent, one in the mountpoint is not found, and one
below a directory that has been indexed twice is refreshed under the second path only. -/
theorem refresh_disagrees :
    NotRefreshed (nestedFile [⟨0, 1024, 1024, 0⟩]) (nestedFile []) nestedEvent 1 2 [] ∧
    NotRefreshed rootFile rootFile ⟨0, IN_CLOSE_WRITE, [97]⟩ 0 1 [] ∧
    NotRefreshed (linkedDir []) (linkedDir [⟨0, 1024, 1024, 0⟩]) nestedEvent 1 3
      [⟨0, 1024, 1024, 0⟩] :=
  ⟨emptied_kept, rootFile_lost, linkedDir_stale⟩

end Xallib
