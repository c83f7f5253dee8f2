import Xallib.E2E.Inspect
import Xallib.E2E.Update
import Xallib.Lib.Reread

/-!
# What an index under the watcher shows

`FileAnswer`: what the operating system has last said about a file. `answersAfter` is a table of it
by path: an index fills it, and an event replaces the entry of its file, which `check_events` reads
again. `Shows x₁ x answers`: the index `x₁`, with `x` made of it by events, has this table in its
inodes. One event keeps the two together (`Shows.checkEvent`), and so does a run of events
(`Shows.checkEvents`); no other file changes, as a path has one slot (`indexed_name_unique`).

`watched_prints`: what `xal --find` and `xal --bmap` then put out.
-/

namespace Xallib

open Lib Lib.Forest Lib.Cm Lib.Run

/-! ## The table -/

structure FileAnswer where
  extents : List XalExtent
  size : Nat

/-- What the operating system now says about the file; where it reports no extents, or there is no
memory to ask for them, the old ones stay. -/
def FileAnswer.next (E : FiemapEnv) (path : CStr) (answer : FileAnswer) : FileAnswer where
  extents := if reported E.kernel E.sb path = [] then answer.extents
    else reported E.kernel E.sb path
  size := match E.kernel.stat path with
    | .ok st => st.stSize
    | .error _ => answer.size

/-- The path of the file that `check_events` reads again. -/
def eventFile (x : Xal FiemapBe) (E : FiemapEnv) (event : InotifyEvent) : Option CStr :=
  match eventCase E.watchMode event (eventDir x event) with
  | .file dirInode => some (eventPath dirInode event.name)
  | _ => none

/-- The table after an event. -/
def answersStep (x : Xal FiemapBe) (answers : CStr → FileAnswer) (c : FiemapEnv × InotifyEvent) :
    CStr → FileAnswer :=
  match eventFile x c.1 c.2 with
  | none => answers
  | some path => Function.update answers path ((answers path).next c.1 path)

/-- The table after an index in `E₀` and the events behind it (module doc). -/
def answersAfter (E₀ : FiemapEnv) (x : Xal FiemapBe) (events : List (FiemapEnv × InotifyEvent)) :
    CStr → FileAnswer :=
  events.foldl (answersStep x) fun path => (⟨[], 0⟩ : FileAnswer).next E₀ path

/-- The inode of a file. -/
def fileAnswer (x : Xal FiemapBe) (i : Nat) : FileAnswer where
  extents := extentsOf x.store.extents.memory (x.store.inodes.memory i)
  size := (x.store.inodes.memory i).size

/-- The inodes of the files hold the table (module doc). -/
structure Shows (x₁ x : Xal FiemapBe) (answers : CStr → FileAnswer) : Prop extends
    Tended x₁ x where
  dirty : x.dirty = x₁.dirty
  answer : ∀ i, x.rootIdx ≤ i → i < x.store.inodes.free →
    (x.store.inodes.memory i).ftype = ftRegFile →
    fileAnswer x i = answers (x.store.inodes.memory i).name

/-! ## A path has one slot -/

theorem joinNames_inj {q q' : List CStr} (hq : ∀ n ∈ q, slash ∉ n) (hq' : ∀ n ∈ q', slash ∉ n)
    (h : joinNames q = joinNames q') : q = q' := by
  cases q with
  | nil =>
    cases q' with
    | nil => rfl
    | cons n q' => cases h
  | cons n q =>
    cases q' with
    | nil => cases h
    | cons n' q' =>
      have hsplit := splitOn_joinNames (List.cons_ne_nil n q) hq
      rw [h] at hsplit
      exact hsplit.symm.trans (splitOn_joinNames (List.cons_ne_nil n' q') hq')

/-- Files of an index with the same stored name are the same. -/
theorem indexed_name_unique {E : FiemapEnv} {x : Xal FiemapBe} {k : Forest XalInode}
    (hN : DirNames E.kernel) (ht : FiemapTree E x k) {q q' : List CStr} {i i' : Nat}
    {c c' : FiemapNode} (hs : FiemapAt E x q i c) (hs' : FiemapAt E x q' i' c')
    (hi : i ≠ x.rootIdx) (hi' : i' ≠ x.rootIdx)
    (h : (x.store.inodes.memory i).name = (x.store.inodes.memory i').name) : i = i' := by
  have hq := mt (slotAt_root_iff ht hs).2 hi
  have hq' := mt (slotAt_root_iff ht hs').2 hi'
  have hl := ht.listed_iff.1 ⟨i, hs⟩
  have hl' := ht.listed_iff.1 ⟨i', hs'⟩
  obtain ⟨hpath, hno⟩ := listed_path hN hl
  obtain ⟨hpath', hno'⟩ := listed_path hN hl'
  rw [(ht.labelAt hs).fact.name, (ht.labelAt hs').fact.name, listed_stored hl hq,
    listed_stored hl' hq', hpath, hpath'] at h
  obtain rfl := joinNames_inj (fun n hn => (hno n hn).2) (fun n hn => (hno' n hn).2)
    (List.append_cancel_left h)
  exact Option.some.inj ((searchComponents_stands hN ht hs).symm.trans
    (searchComponents_stands hN ht hs'))

section
variable {E E₀ : FiemapEnv} {x x₁ x' y : Xal FiemapBe} {be : FiemapBe} {k : Forest XalInode}
  {i : Nat} {path : CStr} {event : InotifyEvent} {answers : CStr → FileAnswer}

/-! ## One file -/

/-- A refresh leaves the next answer in the inode of the file, and the other files alone. -/
theorem refreshFile_answer (ht : Tended x₁ x) (hE : FiemapCall E x) (h1 : x.rootIdx ≤ i)
    (h2 : i < x.store.inodes.free) (hr : refreshFile E path i x = .ok () x') :
    (x.store.inodes.memory i).ftype = ftRegFile ∧ Tended x₁ x' ∧ x'.dirty = x.dirty ∧
      OthersKept i x x' ∧ fileAnswer x' i = (fileAnswer x i).next E path := by
  have htended := (ht.refresh hE h2).ok hr
  obtain ⟨_, z, hprocess, hstat⟩ := bind_ok.1 hr
  obtain ⟨hz, hfile⟩ := (ht.process hE h2).ok hprocess
  rw [hz.ftype, ← ht.ftype] at hfile
  obtain ⟨s', hs', rfl⟩ := zoom_ok.1 hprocess
  have hread : FileRead E path i x.store s' := (processInodeFile_stored hE.extents ht.ok h2).ok hs'
  cases hst : E.kernel.stat path with
  | error errno =>
    rw [hst] at hstat
    cases hstat
  | ok st =>
    rw [hst] at hstat
    obtain ⟨t, ht', rfl⟩ := zoom_ok.1 hstat
    obtain ⟨-, rfl⟩ := Run.ok.inj ht'
    have hsize : s'.inodes.memory i = _ := hread.file
    refine ⟨hfile, htended, rfl, ?_, ?_⟩
    · exact hread.toFileStored.othersKept ht (fun j hj => putInode_other _ _ _ hj) rfl
    · have hextents := hread.toFileStored.extentsOf ht h1 h2 hfile
      simp only [fileAnswer, FileAnswer.next, hst, putInode_same]
      exact congrArg (FileAnswer.mk · st.stSize) hextents

theorem OthersKept.fileAnswer (h : OthersKept i x x') {j : Nat} (hj : j ≠ i) (h1 : x.rootIdx ≤ j)
    (h2 : j < x.store.inodes.free) (hfile : (x.store.inodes.memory j).ftype = ftRegFile) :
    Xallib.fileAnswer x' j = Xallib.fileAnswer x j := by
  unfold Xallib.fileAnswer
  rw [h.files j hj h1 h2 hfile, h.inodes j hj]

/-! ## One event -/

theorem eventCase_file {watchMode : XalWatchmode} {dir : Option XalInode} {dirInode : XalInode}
    (h : eventCase watchMode event dir = .file dirInode) : dir = some dirInode := by
  unfold eventCase at h
  by_cases hmode : watchMode = .dirtyDetection
  · rw [if_pos hmode] at h
    cases h
  rw [if_neg hmode] at h
  by_cases hunmount : event.has IN_UNMOUNT = true
  · rw [if_pos hunmount] at h
    cases h
  rw [if_neg hunmount] at h
  by_cases hmodify : event.has (IN_MODIFY ||| IN_CLOSE_WRITE) = true
  · rw [if_pos hmodify] at h
    cases dir with
    | none => cases h
    | some v =>
      simp only at h
      split at h
      · cases h
      · split at h
        · cases h
        · exact congrArg some (EventCase.file.inj h)
  · rw [if_neg hmodify] at h
    split at h <;> cases h

section
variable (hN : DirNames E₀.kernel) (hmode : E₀.watchMode ≠ .none)
  (hk : FiemapRooted E₀ (beCleared E₀ be) x₁.rootIdx x₁ k)
include hk

/-- The files of an index under the watcher have different names. -/
theorem Tended.name_unique (hN : DirNames E₀.kernel) (ht : Tended x₁ x) {j : Nat}
    (hi1 : x.rootIdx ≤ i) (hi2 : i < x.store.inodes.free)
    (hi : (x.store.inodes.memory i).ftype = ftRegFile) (hj1 : x.rootIdx ≤ j)
    (hj2 : j < x.store.inodes.free) (hj : (x.store.inodes.memory j).ftype = ftRegFile)
    (h : (x.store.inodes.memory i).name = (x.store.inodes.memory j).name) : i = j := by
  have htree := hk.tree rfl
  have hroot (l : Nat) (hl : (x.store.inodes.memory l).ftype = ftRegFile) : l ≠ x₁.rootIdx := by
    rintro rfl
    rw [ht.ftype, hk.ftype] at hl
    exact ftDir_ne_ftRegFile hl
  rw [ht.rootIdx] at hi1 hj1
  rw [ht.free, hk.free] at hi2 hj2
  rw [ht.name, ht.name] at h
  obtain ⟨q, c, hs, -⟩ := htree.stands FiemapNode.base hi1 hi2
  obtain ⟨q', c', hs', -⟩ := htree.stands FiemapNode.base hj1 hj2
  exact indexed_name_unique hN htree hs hs' (hroot i hi) (hroot j hj) h

include hmode

/-- An event is about the same directory as at first. -/
theorem Tended.eventDir (ht : Tended x₁ x) :
    Xallib.eventDir x event = Xallib.eventDir x₁ event := by
  have hwd : khGetWd x.store.be event.wd = khGetWd x₁.store.be event.wd := by
    rw [khGetWd, khGetWd, ht.inodeMap]
  unfold Xallib.eventDir
  rw [← hwd]
  cases hd : khGetWd x.store.be event.wd with
  | none => rfl
  | some d =>
    obtain ⟨-, -, -, hsame⟩ := ht.watched hk hmode hd
    exact congrArg some hsame

include hN

/-- The event that goes on has replaced the entry of its file. -/
theorem Shows.checkEvent (h : Shows x₁ x answers) (hE : FiemapCall E x)
    (hr : checkEvent E event x = .ok false x') :
    Shows x₁ x' (answersStep x₁ answers (E, event)) := by
  rw [checkEvent_case, h.eventDir hmode hk] at hr
  unfold answersStep eventFile
  cases hcase : eventCase E.watchMode event (Xallib.eventDir x₁ event) with
  | breaking =>
    rw [hcase] at hr
    cases hr
  | failed =>
    rw [hcase] at hr
    cases hr
  | skipped =>
    rw [hcase] at hr
    obtain ⟨-, rfl⟩ := Run.ok.inj hr
    exact h
  | file dirInode =>
    rw [hcase] at hr
    obtain ⟨_, y, hexit, hret⟩ := bind_ok.1 hr
    obtain ⟨-, rfl⟩ := Run.ok.inj hret
    obtain ⟨z, hchild, rfl⟩ := onExit_ok.1 hexit
    have hdir := eventCase_file hcase
    rw [← h.eventDir hmode hk] at hdir
    obtain ⟨d, hwd, rfl⟩ := Option.map_eq_some_iff.1 hdir
    unfold refreshChild at hchild
    rw [read_bind] at hchild
    cases hfind : findChild (addSeqLock x) (x.store.inodes.memory d)
        (eventPath (x.store.inodes.memory d) event.name) with
    | none =>
      rw [hfind] at hchild
      cases hchild
    | some i =>
      rw [hfind] at hchild
      obtain ⟨h1, h2⟩ := h.child hk hmode hwd hfind
      obtain ⟨-, -, hname⟩ := findChild_some hfind
      change (x.store.inodes.memory i).name = _ at hname
      have hcall : FiemapCall E (addSeqLock x) := ⟨hE.sb, hE.inodes, hE.extents⟩
      obtain ⟨hfile, ht, hdirty, hkept, hanswer⟩ :=
        refreshFile_answer h.addSeqLock hcall h1 h2 hchild
      refine { toTended := ht.addSeqLock, dirty := hdirty.trans h.dirty, answer := ?_ }
      intro j hj1 hj2 hjfile
      change z.rootIdx ≤ j at hj1
      change j < z.store.inodes.free at hj2
      change (z.store.inodes.memory j).ftype = ftRegFile at hjfile
      show fileAnswer z j = Function.update answers _ _ (z.store.inodes.memory j).name
      rw [show z.rootIdx = x.rootIdx from ht.rootIdx.trans h.rootIdx.symm] at hj1
      rw [ht.free, ← h.free] at hj2
      rw [ht.ftype, ← h.ftype] at hjfile
      rw [ht.name, ← h.name]
      by_cases hji : j = i
      · subst hji
        rw [hname, Function.update_self, ← hname, ← h.answer j h1 h2 hfile]
        exact hname ▸ hanswer
      · have hne : (x.store.inodes.memory j).name ≠
            eventPath (x.store.inodes.memory d) event.name := fun heq =>
          hji (h.name_unique hk hN hj1 hj2 hjfile h1 h2 hfile (heq.trans hname.symm))
        rw [Function.update_of_ne hne, ← h.answer j hj1 hj2 hjfile]
        exact hkept.fileAnswer hji hj1 hj2 hjfile

/-- So have all events of a call that goes on. -/
theorem Shows.checkEvents {events : List (FiemapEnv × InotifyEvent)} (h : Shows x₁ x answers)
    (hcalls : ∀ c ∈ events, FiemapCall c.1 x₁) (hr : checkEvents events x = .ok false y) :
    Shows x₁ y (events.foldl (answersStep x₁) answers) := by
  induction events generalizing x answers with
  | nil =>
    obtain ⟨-, rfl⟩ := Run.ok.inj hr
    exact h
  | cons c events ih =>
    obtain ⟨E, event⟩ := c
    obtain ⟨hE, hcalls⟩ := List.forall_mem_cons.1 hcalls
    obtain ⟨ended, z, hevent, hr⟩ := bind_ok.1 hr
    cases ended with
    | true =>
      obtain ⟨hend, -⟩ := Run.ok.inj hr
      cases hend
    | false =>
      have hE : FiemapCall E x := ⟨hE.sb.trans h.sb.symm, hE.inodes, hE.extents⟩
      exact ih (h.checkEvent hN hmode hk hE hevent) hcalls hr

end

/-- An index fills the table. -/
theorem shows_of_index {fuel : Nat} (hx : Alive .fiemap x) (hE : FiemapCall E x)
    (hr : xalIndex (xalBeFiemapIndex E fuel) x = .ok () x₁) (ht : Tended x₁ x₁) :
    Shows x₁ x₁ (answersAfter E x₁ []) := by
  refine { toTended := ht, dirty := rfl, answer := fun i h1 h2 hfile => ?_ }
  obtain ⟨hextents, st, hst, hsize⟩ := fresh_of_index hx hE hr h1 h2 hfile
  simp only [answersAfter, List.foldl_nil, fileAnswer, FileAnswer.next, hst, hextents, hsize,
    FileAnswer.mk.injEq, and_true]
  by_cases hnone : reported E.kernel E.sb (x₁.store.inodes.memory i).name = []
  · rw [if_pos hnone, hnone]
  · rw [if_neg hnone]

/-! ## The tree -/

/-- The slot has the name and the type of the node. -/
structure IsNamed (v : XalInode) (c : FiemapNode) : Prop where
  name : v.name = c.stored
  namelen : v.namelen = c.stored.length
  ftype : v.ftype = c.ftype

theorem Tended.dents_eq (ht : Tended x₁ x) (i : Nat) :
    dents (x.store.inodes.memory i) = dents (x₁.store.inodes.memory i) := by
  by_cases hfile : (x₁.store.inodes.memory i).ftype = ftRegFile
  · have hne : (x₁.store.inodes.memory i).ftype ≠ ftDir := by
      rw [hfile]
      exact ftDir_ne_ftRegFile.symm
    rw [dents_of_ne hne, dents_of_ne (by rwa [ht.ftype])]
  · rw [ht.others i hfile]

/-- Events keep the tree, with its names and types. -/
theorem Tended.tree (ht : Tended x₁ x) (htree : FiemapTree E₀ x₁ k) :
    ∃ k', IndexOf x (fiemapKids E₀.kernel) IsNamed (fiemapRoot E₀.mountpoint) k' ∧
      k'.size = k.size := by
  unfold IndexOf
  rw [ht.rootIdx]
  refine htree.reread (fun i => ?_) (fun i => by rw [ht.dents_eq]) (fun i => by rw [ht.dents_eq])
    fun i c hF => ?_
  · obtain ⟨size, content, hi⟩ := ht.same i
    rw [hi]
  · obtain ⟨size, content, hi⟩ := ht.same i
    rw [hi]
    exact ⟨hF.name, hF.namelen, hF.ftype_eq⟩

/-- A file is stored under its path. -/
theorem stored_of_file {K : Kernel} {mountpoint : CStr} {q : List CStr} {c : FiemapNode}
    (h : FiemapListed K mountpoint q c) (hc : c.ftype = ftRegFile) : c.stored = c.path := by
  cases h with
  | root => exact absurd hc ftDir_ne_ftRegFile
  | kid _ hmem => exact fiemapKids_stored hmem

section
variable {q : List CStr} {c : FiemapNode} (htree : FiemapTree E₀ x₁ k)
  (hfree : x₁.store.inodes.free = x₁.rootIdx + 1 + k.size)
include htree hfree

/-- What the walks need of an index after some events. -/
theorem Shows.shownAs (h : Shows x₁ y answers) (hdirty : x₁.dirty = false) (hC : CStrings E₀) :
    ∃ k', ShownAs y (fiemapKids E₀.kernel) IsNamed FiemapNode.stored FiemapNode.ftype
      (fiemapRoot E₀.mountpoint) k' := by
  obtain ⟨k', hk', hsize⟩ := h.tree htree
  refine ⟨k', hk', ?_, h.ok.free_lt, h.dirty.trans hdirty, fun _ _ h => h.ftype, ?_⟩
  · rw [h.free, h.rootIdx, hsize, hfree]
  · intro q i c hs _
    obtain ⟨hname, hlen, -⟩ := (hk'.labelAt hs).fact
    obtain ⟨q', hl⟩ := (hk'.listed_iff.1 ⟨i, hs⟩).rename FiemapNode.base
    rw [printedName, hname, hlen, List.take_length]
    exact untilNul_eq_iff.2 (hC.stored hl).2

omit htree hfree in
/-- The inode of a file has the entry of its path. -/
theorem Shows.answer_at (h : Shows x₁ y answers) {k' : Forest XalInode}
    (hx : ShownAs y (fiemapKids E₀.kernel) IsNamed FiemapNode.stored FiemapNode.ftype
      (fiemapRoot E₀.mountpoint) k')
    (hs : SlotAt y (fiemapKids E₀.kernel) FiemapNode.stored (fiemapRoot E₀.mountpoint) q i c)
    (hc : c.ftype = ftRegFile) : fileAnswer y i = answers c.path := by
  obtain ⟨h1, h2⟩ := hx.tree.slot_of_stands hs
  obtain ⟨hname, -, hftype⟩ := (hx.tree.labelAt hs).fact
  obtain ⟨q', hl⟩ := (hx.tree.listed_iff.1 ⟨i, hs⟩).rename FiemapNode.base
  rw [h.answer i h1 (by rw [hx.free]; exact h2) (hftype.trans hc), hname, stored_of_file hl hc]

end

end

/-- After an index and any events behind it that `check_events` has gone on from, `xal --find` puts
out what it put out after the index, and `xal --bmap`, like the size of an inode, gives for each
file what the operating system said when the file was read last. -/
theorem watched_prints (shm : Bool) (E₀ : FiemapEnv) (x₀ x₁ y : Xal FiemapBe) (fuel : Nat)
    (events : List (FiemapEnv × InotifyEvent)) (hx₀ : WatchReach shm x₀) (hE₀ : FiemapCall E₀ x₀)
    (hmode : E₀.watchMode ≠ .none) (hN : DirNames E₀.kernel) (hC : CStrings E₀)
    (hr : xalIndex (xalBeFiemapIndex E₀ fuel) x₀ = .ok () x₁)
    (hcalls : ∀ c ∈ events, FiemapCall c.1 x₁) (hevents : checkEvents events x₁ = .ok false y)
    (devUri : CStr) (n : Nat) (hn : y.store.inodes.free ≤ n) :
    cliWalk y (nodeInspectorFind y devUri) n ⟨0, 0, []⟩ =
      .ok () (inspectedAll FiemapNode.ftype (findLines devUri) (fiemapEntries E₀ n)) ∧
    cliWalk y (nodeInspectorBmap y devUri) n ⟨0, 0, []⟩ =
      .ok () (inspectedAll FiemapNode.ftype (bmapLines FiemapNode.ftype
        (fun c => (answersAfter E₀ x₁ events c.path).extents) (extentLine x₁) devUri)
        (fiemapEntries E₀ n)) ∧
    ∀ q i c, SlotAt y (fiemapKids E₀.kernel) FiemapNode.stored (fiemapRoot E₀.mountpoint) q i c →
      c.ftype = ftRegFile →
      (y.store.inodes.memory i).size = (answersAfter E₀ x₁ events c.path).size := by
  have hw : Watched E₀ x₀ x₁ x₁ := ⟨hE₀, hmode, ⟨fuel, hr⟩, .init rfl⟩
  obtain ⟨hrooted, k, hk⟩ := (xalIndex_fiemap hE₀ hx₀.alive.storeOk fuel).ok hr
  rw [← hrooted.rootIdx] at hk
  have hstart := shows_of_index hx₀.alive hE₀ hr (hw.tended hx₀.alive)
  have hshows : Shows x₁ y (answersAfter E₀ x₁ events) :=
    hstart.checkEvents hN hmode hk hcalls hevents
  obtain ⟨k', hx⟩ := hshows.shownAs (hk.tree rfl) hk.free hrooted.dirty hC
  have hlt (q i c) (hs : SlotAt y (fiemapKids E₀.kernel) FiemapNode.stored
      (fiemapRoot E₀.mountpoint) q i c) : i < n := by
    have hslot := hx.tree.slot_of_stands hs
    have hfree := hx.free
    omega
  have hline : extentLine y = extentLine x₁ := by
    funext rec
    rw [extentLine, extentLine, hshows.sb, hshows.type_eq]
  refine ⟨?_, ?_, fun q i c hs hc => ?_⟩
  · exact cliWalk_ok hx (fun _ c _ => c.knownType)
      (fun q i c d args hs => nodeInspectorFind_ok hx hs (hlt q i c hs)) hn
  · rw [← hline]
    refine cliWalk_ok hx (fun _ c _ => c.knownType) (fun q i c d args hs => ?_) hn
    refine nodeInspectorBmap_ok hx hs (hlt q i c hs) fun hc => ?_
    exact congrArg FileAnswer.extents (hshows.answer_at hx hs hc)
  · exact congrArg FileAnswer.size (hshows.answer_at hx hs hc)

theorem nestedFile_cStrings (extents : List FiemapExtent) : CStrings (nestedFile extents) :=
  tableEnv_cStrings (by decide) (by decide)

/-- The file has been written, and then it has been emptied: the sectors 2 and 3 stay. -/
theorem watched_prints_written :
    ∃ x y, xalIndex (xalBeFiemapIndex (nestedFile []) 3) (fiemapOpened smallSb false) = .ok () x ∧
      checkEvents [(nestedFile [⟨0, 1024, 1024, 0⟩], nestedEvent), (nestedFile [], nestedEvent)] x =
        .ok false y ∧
      cliWalk y (nodeInspectorBmap y []) 3 ⟨0, 0, []⟩ = .ok () ⟨2, 1,
        [.file [47, 47, 109, 47, 100, 47, 47, 109, 47, 100, 47, 97], .extent 0 1 2 3]⟩ := by
  have hrun : (xalIndex (xalBeFiemapIndex (nestedFile []) 3) (fiemapOpened smallSb false)).okWith
      (fun x => x.sb == smallSb && x.type == .fiemap &&
        eventFile x (nestedFile [⟨0, 1024, 1024, 0⟩]) nestedEvent ==
          some [47, 109, 47, 100, 47, 97] &&
        eventFile x (nestedFile []) nestedEvent == some [47, 109, 47, 100, 47, 97] &&
        (checkEvents [(nestedFile [⟨0, 1024, 1024, 0⟩], nestedEvent),
          (nestedFile [], nestedEvent)] x).okPair fun ended y => !ended &&
            decide (y.store.inodes.free ≤ 3)) = true := by decide +kernel
  obtain ⟨_, x, hr, hp⟩ := exists_of_okWith hrun
  simp only [Bool.and_eq_true, beq_iff_eq] at hp
  obtain ⟨⟨⟨⟨hsb, htype⟩, hwritten⟩, hemptied⟩, hevents⟩ := hp
  obtain ⟨ended, y, hevents, hend⟩ := exists_of_okPair hevents
  simp only [Bool.and_eq_true, Bool.not_eq_true', decide_eq_true_eq] at hend
  obtain ⟨rfl, hn⟩ := hend
  have hcall (extents : List FiemapExtent) : FiemapCall (nestedFile extents) x :=
    ⟨hsb.symm, mprotectWithin_bounded _ _ _, mprotectWithin_bounded _ _ _⟩
  obtain ⟨-, hbmap, -⟩ := watched_prints true (nestedFile []) (fiemapOpened smallSb false) x y 3
    [(nestedFile [⟨0, 1024, 1024, 0⟩], nestedEvent), (nestedFile [], nestedEvent)]
    (.init (openedXal_justOpened _ _ _)) (tableEnv_call rfl) (by decide) (nestedFile_dirNames [])
    (nestedFile_cStrings []) hr (by simp [hcall]) hevents [] 3 hn
  have hentries : fiemapEntries (nestedFile []) 3 = [([], fiemapRoot [47, 109]),
      ([[47, 109, 47, 100]], fiemapEntry (nestedFile []).kernel [47, 109] [100]),
      ([[47, 109, 47, 100], [47, 109, 47, 100, 47, 97]],
        fiemapEntry (nestedFile []).kernel [47, 109, 47, 100] [97])] := rfl
  have hroot : (fiemapRoot [47, 109]).ftype = ftDir := rfl
  have hdir : (fiemapEntry (nestedFile []).kernel [47, 109] [100]).ftype = ftDir := by
    decide +kernel
  have hreg : (fiemapEntry (nestedFile []).kernel [47, 109, 47, 100] [97]).ftype = ftRegFile := by
    decide +kernel
  have hpath : (fiemapEntry (nestedFile []).kernel [47, 109, 47, 100] [97]).path =
      [47, 109, 47, 100, 47, 97] := rfl
  have hextents : (answersAfter (nestedFile []) x [(nestedFile [⟨0, 1024, 1024, 0⟩], nestedEvent),
      (nestedFile [], nestedEvent)] [47, 109, 47, 100, 47, 97]).extents = [⟨0, 1, 1, 0⟩] := by
    simp only [answersAfter, List.foldl_cons, List.foldl_nil, answersStep, hwritten, hemptied,
      Function.update_self]
    decide +kernel
  have hline : extentLine x ⟨0, 1, 1, 0⟩ = .extent 0 1 2 3 := by
    rw [extentLine, hsb, htype]
    rfl
  refine ⟨x, y, hr, hevents, ?_⟩
  rw [hbmap, hentries]
  simp [inspectedAll, bmapLines, hroot, hdir, hreg, hpath, hextents, hline, ftDir, ftRegFile,
    pathText, joinNames, slash]

end Xallib
