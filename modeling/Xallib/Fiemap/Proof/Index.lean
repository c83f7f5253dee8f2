import Xallib.Fiemap.Proof.File

/-!
# What `process_ino_fiemap` builds

`processInoFiemap_spec`: on a blank inode it builds, in the pools and in the two maps, what the
operating system reports for the path (`Mirrored`), or stops in a state that still lists only what
was claimed (`Stopped`). `processEntries_spec` is the step from the entries to the directory.
-/

namespace Xallib

open Lib Lib.Forest Lib.Cm Lib.Run

variable {E : FiemapEnv} {path : CStr} {p slot self : Nat} {s s₁ s' : Store FiemapBe}

/-! ## Siblings and inodes that mirror the file system -/

theorem Mirrors.congr {K : Kernel} {sb : XalSb} {X X' : Nat → XalExtent} {f : Forest XalInode}
    {names : List CStr} (h : Mirrors K sb X f path names)
    (hX : ∀ v ∈ f.nodes, v.ftype = ftRegFile → extentsOf X' v = extentsOf X v) :
    Mirrors K sb X' f path names := by
  induction f generalizing path names with
  | nil => exact h
  | cons v k r ihk ihr =>
    obtain ⟨n, rest, hn, hname, hlen, hmax, hmode, ⟨hst, hkind⟩, hr⟩ := h
    refine ⟨n, rest, hn, hname, hlen, hmax, hmode, ⟨hst, ?_⟩, ihr hr fun u hu => hX u ?_⟩
    · rcases hkind with ⟨hd, names', hop, hk⟩ | ⟨hf, hk, he⟩
      · exact .inl ⟨hd, names', hop, ihk hk fun u hu => hX u (by simp [nodes, hu])⟩
      · exact .inr ⟨hf, hk, by rw [hX v (by simp [nodes]) hf, he]⟩
    · simp [nodes, hu]

/-- Extents below `b` stay readable where the memory below `b` stays. -/
theorem extentsOf_congr {X X' : Nat → XalExtent} {v : XalInode} {b : Nat}
    (hb : v.content.count ≠ 0 → v.content.idx + v.content.count ≤ b)
    (hX : ∀ i < b, X' i = X i) : extentsOf X' v = extentsOf X v := by
  refine List.map_congr_left fun i hi => ?_
  rw [List.mem_range] at hi
  exact hX _ (by have := hb (by omega); omega)

theorem extentsOf_staged {f : Forest XalInode} {a b : Nat} (h : Staged exts f a b)
    {X X' : Nat → XalExtent} (hX : ∀ i < b, X' i = X i) :
    ∀ v ∈ f.nodes, v.ftype = ftRegFile → extentsOf X' v = extentsOf X v := by
  intro v hv hf
  refine extentsOf_congr (fun h0 => ?_) hX
  have := (h.bound v hv (by rw [exts_file hf]; exact h0)).2
  rw [exts_file hf] at this
  exact this

/-- The siblings `g` were indexed as the entries `names` of `path`. -/
structure MirroredKids (E : FiemapEnv) (path : CStr) (p slot : Nat) (s s' : Store FiemapBe)
    (g : Forest XalInode) (names : List CStr) : Prop extends Indexed p slot s s' g where
  mirrors : Mirrors E.kernel E.sb s'.extents.memory g path names
  watched : s'.be.inodeMap = watchAll E g slot s.inodes.free s.be.inodeMap
  paths : PathsPut (pathEntries E g slot s.inodes.free) s s'

/-- `self` was indexed as `path`, with the children `k`. -/
structure Mirrored (E : FiemapEnv) (path : CStr) (p d : Nat) (s s' : Store FiemapBe)
    (k : Forest XalInode) : Prop
    extends Indexed p d s s' (.cons (s'.inodes.memory d) k .nil) where
  others : ∀ i < s.inodes.free, i ≠ d → s'.inodes.memory i = s.inodes.memory i
  name : (s'.inodes.memory d).name = (s.inodes.memory d).name
  namelen : (s'.inodes.memory d).namelen = (s.inodes.memory d).namelen
  mode : (s.inodes.memory d).ftype = 0 → HasMode E.kernel path (s'.inodes.memory d)
  ftype : (s.inodes.memory d).ftype ≠ 0 →
    (s'.inodes.memory d).ftype = (s.inodes.memory d).ftype
  isInode : IsInode E.kernel E.sb s'.extents.memory path (s'.inodes.memory d) k
    (Mirrors E.kernel E.sb s'.extents.memory k)
  watched : s'.be.inodeMap = watchAll E k s.inodes.free (s.inodes.free + k.width)
    (watchInode E path (s'.inodes.memory d) d s.be.inodeMap)
  paths : PathsPut (pathEntries E k s.inodes.free (s.inodes.free + k.width) ++
    leaveEntry E path (s'.inodes.memory d) d) s s'

theorem Mirrored.processed {k : Forest XalInode} (h : Mirrored E path p self s s' k) :
    Processed p self s s' := ⟨h.others, k, h.toIndexed⟩

theorem MirroredKids.nil (hs : StoreOk s) : MirroredKids E path p slot s s .nil [] where
  toIndexed := .nil hs
  mirrors := rfl
  watched := rfl
  paths := .frame rfl (Nat.le_refl _) fun _ _ => rfl

/-- No entry of a directory is put under the empty name. -/
theorem Mirrors.entries_ne_nil {K : Kernel} {sb : XalSb} {X : Nat → XalExtent}
    {f : Forest XalInode} {names : List CStr} (h : Mirrors K sb X f path names) :
    ∀ {slot lo : Nat}, ∀ e ∈ pathEntries E f slot lo, e.1 ≠ [] := by
  induction f generalizing path names with
  | nil => exact fun e he => absurd he List.not_mem_nil
  | cons v k r ihk ihr =>
    obtain ⟨n, rest, -, hname, -, -, -, ⟨-, hkind⟩, hr⟩ := h
    intro slot lo e he
    rw [pathEntries, List.mem_append, List.mem_append] at he
    rcases he with (he | he) | he
    · rcases hkind with ⟨-, _, -, hk⟩ | ⟨-, rfl, -⟩
      · exact ihk hk e he
      · exact absurd he List.not_mem_nil
    · have hv : e = (v.name, slot) := by
        unfold leaveEntry at he
        split at he
        · exact List.mem_singleton.1 he
        · exact absurd he List.not_mem_nil
      rw [hv, hname]
      simp [joinPath]
    · exact ihr hr e he

/-- One sibling, then the ones after it. -/
theorem MirroredKids.cons {n : CStr} {names : List CStr} {v : XalInode} {k g : Forest XalInode}
    (hv : MirroredKids E path p slot s s₁ (.cons v k .nil) [n])
    (hg : MirroredKids E path p (slot + 1) s₁ s' g names) (hp : p < slot)
    (hroom : slot + 1 + g.width ≤ s.inodes.free) :
    MirroredKids E path p slot s s' (.cons v k g) (n :: names) := by
  have hfree := hv.free_eq
  simp only [deep_cons, deep_nil, Nat.add_zero] at hfree
  refine { toIndexed := hv.toIndexed.cons hg.toIndexed hp hroom
           mirrors := ?_
           watched := ?_
           paths := ?_ }
  · have := hv.mirrors.congr (extentsOf_staged hv.staged hg.extents_keep)
    obtain ⟨n', rest, hn, hname, hlen, hmax, hmode, hin, hr⟩ := this
    obtain ⟨rfl, rfl⟩ : n = n' ∧ [] = rest := by simpa using hn
    exact ⟨n, names, rfl, hname, hlen, hmax, hmode, hin, hg.mirrors⟩
  · rw [hg.watched, hv.watched, hfree]
    rfl
  · have hpaths := hv.paths.trans hg.paths hv.mirrors.entries_ne_nil
    rw [hfree] at hpaths
    simpa only [pathEntries, List.append_nil] using hpaths

/-! ## Directories -/

/-- What a function does that indexes `d` as `path`. -/
def IndexesAs (E : FiemapEnv) (path : CStr) (d : Nat) (s : Store FiemapBe)
    (r : Run Err (Store FiemapBe) Unit) : Prop :=
  r.Sat (fun _ s' => ∃ k, Mirrored E path (s.inodes.memory d).parentIdx d s s' k)
    (fun _ => Stopped (s.inodes.memory d).parentIdx d s)

/-- The state in which an entry of the directory `inode` is processed: its slot has its name and
its parent, and the directory counts it. -/
def entryState (s : Store FiemapBe) (inode dentry : Nat) (dentryPath : CStr)
    (content : XalContent) :
    Store FiemapBe :=
  (s.putInode dentry { (default : XalInode) with
    name := dentryPath, namelen := dentryPath.length, parentIdx := inode }).putInode inode
      { s.inodes.memory inode with content }

section
variable {inode dentry : Nat} {dentryPath : CStr} {content : XalContent}

theorem entryState_dentry (hne : inode ≠ dentry) :
    (entryState s inode dentry dentryPath content).inodes.memory dentry =
      { (default : XalInode) with
        name := dentryPath, namelen := dentryPath.length, parentIdx := inode } := by
  unfold entryState
  rw [putInode_other _ _ _ hne.symm, putInode_same]

theorem entryState_parent (hne : inode ≠ dentry) :
    ((entryState s inode dentry dentryPath content).inodes.memory dentry).parentIdx = inode := by
  rw [entryState_dentry hne]

theorem entryState_dir :
    (entryState s inode dentry dentryPath content).inodes.memory inode =
      { s.inodes.memory inode with content } := putInode_same _ _ _

theorem entryState_other {i : Nat} (h1 : i ≠ inode) (h2 : i ≠ dentry) :
    (entryState s inode dentry dentryPath content).inodes.memory i = s.inodes.memory i := by
  unfold entryState
  rw [putInode_other _ _ _ h1, putInode_other _ _ _ h2]

/-- An entry that has no name yet gets its name. -/
theorem entryState_paths (hblank : s.inodes.memory dentry = default) :
    PathsPut [] s (entryState s inode dentry dentryPath content) := by
  refine .frame rfl (Nat.le_refl _) fun i hname => ?_
  have hi : i ≠ dentry := by
    rintro rfl
    exact hname (by rw [inodeNames, hblank]; rfl)
  unfold inodeNames
  by_cases hi' : i = inode
  · rw [hi', entryState_dir]
  · rw [entryState_other hi' hi]

theorem entryState_fresh (hok : StoreOk s) (hne : inode ≠ dentry) (h1 : inode < s.inodes.free)
    (h2 : dentry < s.inodes.free) : Ready dentry (entryState s inode dentry dentryPath content) :=
  ⟨(hok.putInode h2 _).putInode h1 _, h2, by rw [entryState_dentry hne]; rfl⟩

/-- What is written to the directory and to the entry first makes no difference. -/
theorem Block.of_entry {K : XalInode → Nat → Nat → Nat → Prop} {f : Forest XalInode}
    (hw : 0 < f.width) (h : Block K inode dentry
      (entryState s inode dentry dentryPath content) s' f) :
    Block K inode dentry s s' f :=
  { h with keep := fun i hi hip hn =>
      (h.keep i hi hip hn).trans (entryState_other hip (by omega)) }

theorem Mirrored.kid {n : CStr} {k : Forest XalInode} (hne : inode ≠ dentry)
    (hblank : s.inodes.memory dentry = default) (hmax : (joinPath path n).length ≤ pathMaxlen)
    (h : Mirrored E (joinPath path n) inode dentry
      (entryState s inode dentry (joinPath path n) content) s' k) :
    MirroredKids E path inode dentry s s' (.cons (s'.inodes.memory dentry) k .nil) [n] := by
  have hname : (s'.inodes.memory dentry).name = joinPath path n := by
    rw [h.name, entryState_dentry hne]
  have hmode := h.mode (by rw [entryState_dentry hne]; rfl)
  have hwatched := h.watched
  have hpaths := (entryState_paths hblank).trans h.paths fun _ he => absurd he List.not_mem_nil
  have hin := h.isInode
  rw [← hname] at hwatched hpaths hmode hin hmax
  refine { h.toBlock.of_entry (by simp) with
    free_eq := h.free_eq
    staged := h.staged
    mirrors := ⟨n, [], rfl, hname, ?_, hmax, hmode, hin, rfl⟩
    watched := hwatched
    paths := by
      rw [pathEntries, pathEntries, List.append_nil]
      exact hpaths }
  rw [h.namelen, hname, entryState_dentry hne]

end

/-- The directory `inode` counts `j` of its entries, whose slots begin at `base`, and those of the
`n` that follow have been claimed. -/
structure AtEntry (inode base j n : Nat) (s : Store FiemapBe) : Prop where
  ok : StoreOk s
  lt : inode < base
  content : (s.inodes.memory inode).content = ⟨base, j⟩
  room : base + j + n ≤ s.inodes.free
  blank : ∀ i, base + j ≤ i → i < base + j + n → s.inodes.memory i = default

section
variable {procIno : CStr → Nat → Fm Unit} {inode base j n : Nat} {name : CStr} {names : List CStr}

theorem AtEntry.ne (h : AtEntry inode base j n s) : inode ≠ base + j := by
  have := h.lt
  omega

/-- The slot of the entry, as it is processed. -/
theorem AtEntry.ready (h : AtEntry inode base j (n + 1) s) (path : CStr) :
    Ready (base + j) (entryState s inode (base + j) path ⟨base, j + 1⟩) := by
  have hlt := h.lt
  have hroom := h.room
  exact entryState_fresh h.ok h.ne (by omega) (by omega)

/-- One round of the loop over the entries. -/
theorem AtEntry.processEntries (h : AtEntry inode base j (n + 1) s)
    (hmax : (joinPath path name).length ≤ pathMaxlen) :
    processEntries procIno path inode (name :: names) s =
      (procIno (joinPath path name) (base + j) >>= fun _ =>
        Xallib.processEntries procIno path inode names)
        (entryState s inode (base + j) (joinPath path name) ⟨base, j + 1⟩) := by
  have hbound := h.ok.free_lt
  have hroom := h.room
  rw [Xallib.processEntries, inodeAt_bind, h.content, bind_of_ok (assert_true hmax s),
    setInode_bind,
    setInode_bind, putInode_other _ _ _ h.ne, h.blank _ (Nat.le_refl _) (by omega), h.content,
    entryState, Nat.mod_eq_of_lt (by omega : j + 1 < 2 ^ 32)]

/-- A path that is too long for the field. -/
theorem processEntries_long (hmax : ¬(joinPath path name).length ≤ pathMaxlen) :
    Xallib.processEntries procIno path inode (name :: names) s = .crash := by
  rw [Xallib.processEntries, inodeAt_bind]
  exact bind_of_crash (assert_false hmax s)

/-- The next round begins. -/
theorem AtEntry.next (h : AtEntry inode base j (n + 1) s) {k : Forest XalInode}
    (hmax : (joinPath path name).length ≤ pathMaxlen)
    (hk : Mirrored E (joinPath path name) inode (base + j)
      (entryState s inode (base + j) (joinPath path name) ⟨base, j + 1⟩) s₁ k) :
    AtEntry inode base (j + 1) n s₁ := by
  have hlt := h.lt
  have hroom := h.room
  have hinode : s₁.inodes.memory inode =
      { s.inodes.memory inode with content := ⟨base, j + 1⟩ } := by
    rw [hk.others inode (by show inode < s.inodes.free; omega) h.ne, entryState_dir]
  have hkid := hk.kid h.ne (h.blank _ (Nat.le_refl _) (by omega)) hmax
  have hfree := hkid.free_eq
  refine ⟨hkid.ok, hlt, by rw [hinode], by omega, fun i h1 h2 => ?_⟩
  rw [hkid.keep i (by omega) (by omega) (by simp only [width_cons, width_nil]; omega)]
  exact h.blank i (by omega) (by omega)

end

section
variable {procIno : CStr → Nat → Fm Unit}
  (hproc : ∀ path {d : Nat} {s : Store FiemapBe}, Ready d s →
    IndexesAs E path d s (procIno path d s))
include hproc

/-- The loop over the entries, from the `j`-th on. -/
theorem processEntries_spec {inode base : Nat} (entries : List CStr) :
    ∀ {j : Nat} {s : Store FiemapBe}, AtEntry inode base j entries.length s →
      (processEntries procIno path inode entries s).Sat
        (fun _ s' => s'.inodes.memory inode = { s.inodes.memory inode with
            content := ⟨base, j + entries.length⟩ } ∧
          ∃ g, g.width = entries.length ∧ MirroredKids E path inode (base + j) s s' g entries)
        (fun _ s' => ∃ m ≤ j + entries.length,
          s'.inodes.memory inode = { s.inodes.memory inode with content := ⟨base, m⟩ } ∧
          ∃ g, g.width = entries.length ∧ Block Partial inode (base + j) s s' g) := by
  induction entries with
  | nil =>
    intro j s h
    refine ⟨?_, .nil, rfl, .nil h.ok⟩
    simp only [List.length_nil, Nat.add_zero, ← h.content]
  | cons n entries ih =>
    intro j s h
    by_cases hmax : (joinPath path n).length ≤ pathMaxlen
    case neg => rw [processEntries_long hmax]; trivial
    rw [h.processEntries hmax]
    have hlt := h.lt
    have hroom := h.room
    simp only [List.length_cons] at hroom ⊢
    have hspec := hproc (joinPath path n) (h.ready (joinPath path n))
    rw [IndexesAs, entryState_parent h.ne] at hspec
    refine (hspec.mono (fun _ _ h => h) ?_).bind ?_
    · rintro _ s₁ ⟨hkeep, k, hk⟩
      refine ⟨j + 1, by omega, ?_, _, ?_, (hk.of_entry (by simp)).stop (n := entries.length)
        (by omega) (by omega) fun i h1 h2 => ?_⟩
      · rw [hkeep inode (by show inode < s.inodes.free; omega) h.ne, entryState_dir]
      · simp only [width_cons, width_leaves]
      · rw [h.blank i (by omega) (by simp only [List.length_cons]; omega)]; rfl
    · rintro _ s₁ ⟨k, hk⟩
      have hinode : s₁.inodes.memory inode =
          { s.inodes.memory inode with content := ⟨base, j + 1⟩ } := by
        rw [hk.others inode (by show inode < s.inodes.free; omega) h.ne, entryState_dir]
      have hnext := h.next hmax hk
      have hk := hk.kid h.ne (h.blank _ (Nat.le_refl _) (by simp only [List.length_cons]; omega))
        hmax
      have hfree := hk.free_eq
      refine (ih hnext).mono ?_ ?_
      · rintro _ s₂ ⟨h₂, g, hw, hg⟩
        refine ⟨?_, _, ?_, hk.cons hg (by omega) (by omega)⟩
        · rw [h₂, hinode, show j + 1 + entries.length = j + (entries.length + 1) by omega]
        · simp only [width_cons, hw]
      · rintro _ s₂ ⟨m, hm, h₂, g, hw, hg⟩
        simp only [deep_cons, deep_nil, Nat.add_zero] at hfree
        refine ⟨m, by omega, ?_, _, ?_, hk.toPartial.cons hfree hg (by omega) (by omega)⟩
        · rw [h₂, hinode]
        · simp only [width_cons, hw]

omit hproc in
/-- The pools stay, and the state the backend keeps beside them changes. -/
theorem Opened.be {d : Nat} (h : Opened d s s') (b : FiemapBe) : Opened d s { s' with be := b } :=
  { h with ok := ⟨h.ok.inodes, h.ok.extents⟩ }

omit hproc in
theorem watchDir_spec (hft : (s.inodes.memory self).ftype = ftDir) :
    (watchDir E path self s).Sat
      (fun _ s' => s' = { s with be := { s.be with
        inodeMap := watchInode E path (s.inodes.memory self) self s.be.inodeMap } })
      (fun _ s' => s' = s) := by
  unfold watchDir
  by_cases hw : E.watchMode = .none
  · rw [if_pos hw]
    have hmap : watchInode E path (s.inodes.memory self) self s.be.inodeMap = s.be.inodeMap := by
      simp [watchInode, hw]
    rw [hmap]
    rfl
  · rw [if_neg hw]
    unfold xalBeFiemapInotifyAddWatcher
    rw [inodeAt_bind]
    refine sat_failIf_bind (fun _ => rfl) fun _ => ?_
    rw [if_neg hw, watchInode, if_pos ⟨hft, hw⟩]
    cases E.kernel.addWatch path with
    | error errno => rfl
    | ok wd => exact sat_failIf_bind (fun _ => rfl) fun _ => rfl

theorem processInodeDir_spec (hI : E.mpInodes.Bounded poolReserved inodeNbytes)
    (h : Ready self s) (hft : (s.inodes.memory self).ftype = ftDir) :
    (xalBeFiemapProcessInodeDir E procIno path self s).Sat
      (fun _ s' => ∃ k names, E.kernel.opendir path = .ok names ∧
        Indexed (s.inodes.memory self).parentIdx self s s' (.cons (s'.inodes.memory self) k .nil) ∧
        (∀ i < s.inodes.free, i ≠ self → s'.inodes.memory i = s.inodes.memory i) ∧
        s'.inodes.memory self = { s.inodes.memory self with
          content := (s'.inodes.memory self).content } ∧
        Mirrors E.kernel E.sb s'.extents.memory k path (sortEntries names) ∧
        s'.be.inodeMap = watchAll E k s.inodes.free (s.inodes.free + k.width)
          (watchInode E path (s'.inodes.memory self) self s.be.inodeMap) ∧
        PathsPut (pathEntries E k s.inodes.free (s.inodes.free + k.width) ++
          leaveEntry E path (s'.inodes.memory self) self) s s')
      (fun _ => Stopped (s.inodes.memory self).parentIdx self s) := by
  have hlt := h.lt
  have hopen : Opened self s s := .refl h.ok h.lt
  have hstop : ∀ b, Stopped (s.inodes.memory self).parentIdx self s { s with be := b } := fun b =>
    Stopped.leaf (hopen.be b) (h.blank.toPartial _ _ _)
  unfold xalBeFiemapProcessInodeDir
  rw [inodeAt_bind]
  refine sat_failIf_bind (fun _ => hstop s.be) fun _ => ?_
  refine ((watchDir_spec hft).mono (fun _ _ h => h)
    (fun _ s' (hs : s' = s) => by rw [hs]; exact hstop s.be)).bind ?_
  rintro _ s₁ rfl
  cases hop : E.kernel.opendir path with
  | error errno => exact hstop _
  | ok names =>
    refine sat_failIf_bind (fun _ => hstop _) fun _ => ?_
    have hok₁ := (hopen.be { s.be with
      inodeMap := watchInode E path (s.inodes.memory self) self s.be.inodeMap }).ok
    refine ((onInodes_claim hI hok₁ _).mono (fun _ _ h => h) ?_).bind ?_
    · rintro _ s₂ ⟨hok, hfree, hmem, hext, -⟩
      refine Stopped.leaf ⟨hok, hlt, Nat.le_of_eq hfree.symm, fun i _ _ => by rw [hmem],
        by rw [hext], by rw [hext]; exact fun _ _ => rfl⟩ ?_
      rw [hmem]
      exact h.blank.toPartial _ _ _
    · rintro idx s₂ ⟨hok, rfl, hfree, hmem, hext, hbe⟩
      simp only at hfree hmem hext hbe
      have hself : s₂.inodes.memory self = s.inodes.memory self := by rw [hmem]
      rw [setInode_bind, hself]
      -- the slots of the entries are claimed, and the directory counts none of them yet
      have hopen₂ : Opened self s (s₂.putInode self
          { s.inodes.memory self with content := ⟨s.inodes.free, 0⟩ }) := by
        refine ⟨hok.putInode (by omega) _, hlt, by rw [putInode_free]; omega, fun i hi hne => ?_,
          by rw [putInode_extents, hext], by rw [putInode_extents, hext]; exact fun _ _ => rfl⟩
        rw [putInode_other _ _ _ hne, hmem]
      have hcontent : ((s₂.putInode self { s.inodes.memory self with
          content := ⟨s.inodes.free, 0⟩ }).inodes.memory self).content = ⟨s.inodes.free, 0⟩ := by
        rw [putInode_same]
      refine ((processEntries_spec hproc (sortEntries names) ⟨hopen₂.ok, hlt, hcontent,
        by rw [putInode_free]; omega, fun i h1 h2 => ?_⟩).mono (fun _ _ h => h) ?_).bind ?_
      · rw [putInode_other _ _ _ (by omega), hmem]
        exact h.ok.inodes.clean i (by omega)
      · rintro _ s₃ ⟨m, hm, hdir, g, hw, hg⟩
        rw [putInode_same] at hdir
        refine Stopped.dir hopen₂ (.inr (.inr ?_)) (by rw [putInode_free, hw]; exact hfree) hg
        rw [hdir, dents_dir (by exact hft), hw]
        exact ⟨rfl, by simpa using hm⟩
      · rintro _ s₃ ⟨hdir, g, hw, hg⟩
        rw [putInode_same] at hdir
        rw [Nat.zero_add] at hdir
        have hd := Indexed.dir hopen₂ (p := (s.inodes.memory self).parentIdx)
          (by rw [hdir]; exact hft) (by rw [hdir]) (by rw [hdir, hw])
          (by rw [putInode_free, hw]; exact hfree) (by rw [putInode_extents, hext])
          hg.toIndexed
        refine putPath_spec.mono ?_ ?_
        · rintro _ s₄ rfl
          have hft₃ : (s₃.inodes.memory self).ftype = ftDir := by rw [hdir]; exact hft
          refine ⟨g, names, rfl, ?_, hd.2, ?_, hg.mirrors, ?_, ?_⟩
          · exact { hd.1 with ok := ⟨hd.1.ok.inodes, hd.1.ok.extents⟩ }
          · show s₃.inodes.memory self = _
            rw [hdir]
          · show s₃.be.inodeMap = _
            rw [hg.watched, putInode_free, hfree, hw, putInode_be, hbe,
              watchInode_congr E (hft₃.trans hft.symm)]
            rfl
          · -- the names of the directory and of what was there stay until the entries are processed
            have hopened : PathsPut [] s (s₂.putInode self
                { s.inodes.memory self with content := ⟨s.inodes.free, 0⟩ }) := by
              refine .frame (by rw [putInode_be, hbe]) hopen₂.le fun i _ => ?_
              unfold inodeNames
              by_cases hi : i = self
              · rw [hi, putInode_same]
              · rw [putInode_other _ _ _ hi, hmem]
            have hkids := hopened.trans hg.paths fun _ he => absurd he List.not_mem_nil
            rw [putInode_free, hfree, List.nil_append, ← hw] at hkids
            rw [leaveEntry, if_pos (.inl hft₃)]
            have hfree₃ := hg.free_eq
            rw [putInode_free] at hfree₃
            exact hkids.trans (.one hg.ok (by omega) rfl rfl fun _ => rfl)
              hg.mirrors.entries_ne_nil
        · rintro _ s₄ rfl
          exact ⟨hd.2, g, hd.1.toPartial⟩

end

/-! ## `process_ino_fiemap` -/

theorem Mirrored.of_put {k : Forest XalInode} {v : XalInode}
    (h : Mirrored E path p self (s.putInode self v) s' k)
    (hname : v.name = (s.inodes.memory self).name)
    (hlen : v.namelen = (s.inodes.memory self).namelen)
    (hmode : (s.inodes.memory self).ftype = 0 → HasMode E.kernel path (s'.inodes.memory self))
    (hft : (s.inodes.memory self).ftype ≠ 0 → v.ftype = (s.inodes.memory self).ftype) :
    Mirrored E path p self s s' k where
  toBlock := h.toBlock.of_put (by simp)
  free_eq := h.free_eq
  staged := h.staged
  others i hi hne := (h.others i hi hne).trans (putInode_other _ _ _ hne)
  name := by rw [h.name, putInode_same, hname]
  namelen := by rw [h.namelen, putInode_same, hlen]
  mode := hmode
  ftype h0 := by
    rw [h.ftype (by rw [putInode_same, hft h0]; exact h0), putInode_same, hft h0]
  isInode := h.isInode
  watched := h.watched
  paths := by
    have hput : PathsPut [] s (s.putInode self v) := by
      refine .frame rfl (Nat.le_refl _) fun i _ => ?_
      unfold inodeNames
      by_cases hi : i = self
      · rw [hi, putInode_same, hname]
      · rw [putInode_other _ _ _ hi]
    exact hput.trans h.paths fun _ he => absurd he List.not_mem_nil

/-- A regular file that has been read. -/
theorem FileRead.mirrored (h : FileRead E path self s s') (hok : StoreOk s)
    (hlt : self < s.inodes.free) (hb : Blank (s.inodes.memory self))
    (hft : (s.inodes.memory self).ftype = ftRegFile)
    {st : Stat} (hst : E.kernel.stat path = .ok st) (hino : (s.inodes.memory self).ino = st.stIno)
    (hsize : (s.inodes.memory self).size = st.stSize) :
    Mirrored E path (s.inodes.memory self).parentIdx self s s' .nil := by
  have hfile : s'.inodes.memory self = { s.inodes.memory self with
    content := contentAfter (s.inodes.memory self).content s.extents.free
      (reported E.kernel E.sb path) } := h.file
  have hft' : (s'.inodes.memory self).ftype = ftRegFile := by rw [hfile]; exact hft
  have hopen : Opened self s s' :=
    ⟨⟨h.ok.inodes, h.ok.extents⟩, hlt, Nat.le_of_eq h.free.symm, fun i _ hne => h.keep i hne,
      by have := h.extents_free; simp only at this; omega, h.extents_keep⟩
  have hblank : (s.inodes.memory self).content = default := hb
  have hleaf : Indexed (s.inodes.memory self).parentIdx self s s'
      (.cons (s'.inodes.memory self) .nil .nil) := by
    refine .leaf hopen h.free (by rw [hfile]) (by rw [dents_of_ne (by rw [hft']; decide)])
      fun h0 => ?_
    rw [exts_file hft', hfile, contentAfter] at h0 ⊢
    by_cases hr : reported E.kernel E.sb path = []
    · rw [if_pos hr, hblank] at h0
      exact absurd rfl h0
    · rw [if_neg hr]
      exact ⟨Nat.le_refl _, Nat.le_of_eq h.extents_free.symm⟩
  refine ⟨hleaf, fun i _ hne => h.keep i hne, by rw [hfile], by rw [hfile], fun h0 => ?_,
    fun _ => by rw [hfile], ⟨⟨st, hst, by rw [hfile]; exact hino, by rw [hfile]; exact hsize⟩,
      .inr ⟨hft', rfl, ?_⟩⟩, ?_, ?_⟩
  · rw [hft] at h0; exact absurd h0 (by decide)
  · rw [extentsOf, hfile, contentAfter]
    by_cases hr : reported E.kernel E.sb path = []
    · rw [if_pos hr, hblank, hr]; rfl
    · rw [if_neg hr]; exact h.stored
  · rw [watchInode_file E (by rw [hft']; decide), h.inodeMap]
    rfl
  · exact h.paths hok hlt (by rw [hft']; decide)

variable (hI : E.mpInodes.Bounded poolReserved inodeNbytes)
  (hX : E.mpExtents.Bounded poolReserved extentNbytes)
include hI hX

/-- The type is known. -/
theorem processTyped_spec {procIno : CStr → Nat → Fm Unit}
    (hproc : ∀ path {d : Nat} {s : Store FiemapBe}, Ready d s →
      IndexesAs E path d s (procIno path d s)) (h : Ready self s) {st : Stat}
    (hst : E.kernel.stat path = .ok st) :
    (processTyped E procIno st path self s).Sat
      (fun _ s' => (∃ k, Mirrored E path (s.inodes.memory self).parentIdx self s s' k) ∧
        (s'.inodes.memory self).ftype = (s.inodes.memory self).ftype)
      (fun _ => Stopped (s.inodes.memory self).parentIdx self s) := by
  unfold processTyped
  rw [setInode_bind, inodeAt_bind, putInode_same]
  have hf : Ready self (s.putInode self { s.inodes.memory self with
      ino := st.stIno, size := st.stSize }) :=
    h.put h.blank
  by_cases hd : (s.inodes.memory self).ftype = ftDir
  · rw [if_pos hd]
    refine (processInodeDir_spec hproc hI hf (by rw [putInode_same]; exact hd)).mono ?_ ?_
    · rintro _ s' ⟨k, names, hop, hidx, hothers, hself, hmir, hwatched, hpaths⟩
      rw [putInode_same] at hself hidx
      have hft : (s'.inodes.memory self).ftype = (s.inodes.memory self).ftype := by rw [hself]
      refine ⟨⟨k, Mirrored.of_put (v := { s.inodes.memory self with
        ino := st.stIno, size := st.stSize }) ⟨hidx, hothers, ?_, ?_, ?_, ?_, ?_, hwatched,
          hpaths⟩ rfl rfl ?_ fun _ => rfl⟩, hft⟩
      · rw [hself, putInode_same]
      · rw [hself, putInode_same]
      · rw [putInode_same]; exact fun h0 => absurd (hd.symm.trans h0) (by decide)
      · rw [putInode_same]; exact fun _ => hft
      · exact ⟨⟨st, hst, by rw [hself], by rw [hself]⟩,
          .inl ⟨hft.trans hd, names, hop, hmir⟩⟩
      · exact fun h0 => absurd (hd.symm.trans h0) (by decide)
    · intro _ s' hs'
      rw [putInode_same] at hs'
      exact hs'.of_put
  · rw [if_neg hd]
    by_cases hr : (s.inodes.memory self).ftype = ftRegFile
    · rw [if_pos hr]
      refine (processInodeFile_spec hX hf.ok hf.lt).mono ?_ ?_
      · intro _ s' hs'
        have hm := hs'.mirrored hf.ok hf.lt hf.blank (by rw [putInode_same]; exact hr) hst
          (by rw [putInode_same]) (by rw [putInode_same])
        have hft : (s'.inodes.memory self).ftype = (s.inodes.memory self).ftype := by
          rw [hm.ftype (by rw [putInode_same, hr]; decide), putInode_same]
        rw [putInode_same] at hm
        refine ⟨⟨.nil, hm.of_put rfl rfl ?_ fun _ => rfl⟩, hft⟩
        exact fun h0 => absurd (hr.symm.trans h0) (by decide)
      · intro _ s' hs'
        refine Stopped.of_put (Stopped.leaf hs'.toOpened (.inl ?_))
        rw [dents_of_ne (by rw [hs'.ftype, putInode_same]; exact hd)]
    · rw [if_neg hr]
      exact Stopped.of_put (Stopped.leaf (.refl hf.ok hf.lt) (hf.blank.toPartial _ _ _))

/-- `process_ino_fiemap` builds what the operating system reports (module doc). -/
theorem processInoFiemap_spec (fuel : Nat) : ∀ (path : CStr) {self : Nat} {s : Store FiemapBe},
    Ready self s → IndexesAs E path self s (processInoFiemap E fuel path self s) := by
  induction fuel with
  | zero => intro path self s _; trivial
  | succ fuel ih =>
    intro path self s h
    have hstop : Stopped (s.inodes.memory self).parentIdx self s s :=
      Stopped.leaf (.refl h.ok h.lt) (h.blank.toPartial _ _ _)
    unfold processInoFiemap
    cases hst : E.kernel.stat path with
    | error errno => exact hstop
    | ok st =>
      -- the type is derived from the mode, unless the inode has one
      have hput : ∀ ft, ft ≠ 0 → (s.inodes.memory self).ftype = 0 →
          (ft = ftDir ↔ isDirMode st.stMode = true) → IndexesAs E path self s
            (processTyped E (processInoFiemap E fuel) st path self
              (s.putInode self { s.inodes.memory self with ftype := ft })) := by
        intro ft hft h0 hmode
        have hf : Ready self (s.putInode self { s.inodes.memory self with ftype := ft }) :=
          h.put h.blank
        refine (processTyped_spec hI hX ih hf hst).mono ?_ ?_
        · rintro _ s' ⟨⟨k, hk⟩, hft'⟩
          rw [putInode_same] at hk hft'
          refine ⟨k, hk.of_put rfl rfl (fun _ st' hst' => ?_) fun h1 => absurd h0 h1⟩
          rw [hst] at hst'
          cases hst'
          rw [hft']
          exact hmode
        · intro _ s' hs'
          rw [putInode_same] at hs'
          exact hs'.of_put
      show IndexesAs E path self s ((deriveFtype st.stMode self >>= fun _ =>
        processTyped E (processInoFiemap E fuel) st path self) s)
      by_cases h0 : (s.inodes.memory self).ftype = 0
      · by_cases hd : isDirMode st.stMode = true
        · rw [bind_of_ok (deriveFtype_dir h0 hd)]
          exact hput ftDir (by decide) h0 (by simp [hd])
        · by_cases hr : isRegMode st.stMode = true
          · rw [bind_of_ok (deriveFtype_reg h0 hd hr)]
            exact hput ftRegFile (by decide) h0 (by simp [hd, ftDir, ftRegFile])
          · rw [bind_of_fail (deriveFtype_fail h0 hd hr)]
            exact hstop
      · rw [bind_of_ok (deriveFtype_known h0)]
        exact (processTyped_spec hI hX ih h hst).mono (fun _ _ h' => h'.1) fun _ _ h' => h'

end Xallib
