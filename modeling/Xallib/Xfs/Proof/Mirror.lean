import Xallib.Xfs.Mirror
import Xallib.Xfs.Proof.DirBtree

/-!
# An XFS index stands for what the directories list

`processIno_mirrors`: where `process_ino` succeeds on a blank inode, what it has built stands for
the entry and for all that is listed below it (`XfsMirrored`). `Listing.mirrors` is the step from
the children to the directory, whatever the format of the directory.

What holds between a slot and its entry is a parameter, `F`: it may be about the extents of the slot
too, as long as it is `Steady`, and has only to be shown for one slot at a time (`Holds`).
-/

namespace Xallib

open Lib Lib.Forest Lib.Cm Lib.Run

variable {E : XfsEnv} {p slot self dinode : Nat} {s₀ s s₁ s' : Store Buf} {u : Unit}

variable {F : Store Buf → XalInode → XalInode → Prop}

/-- What holds of a slot and its entry holds when more extents have been stored. -/
def Steady (F : Store Buf → XalInode → XalInode → Prop) : Prop :=
  ∀ ⦃s s' : Store Buf⦄ ⦃v e : XalInode⦄,
  F s v e → s.extents.free ≤ s'.extents.free →
    (∀ i < s.extents.free, s'.extents.memory i = s.extents.memory i) → F s' v e

/-- Siblings that were indexed, and stand for the entries `l`. -/
structure MirroredBy (E : XfsEnv) (F : Store Buf → XalInode → XalInode → Prop) (p slot : Nat)
    (s s' : Store Buf) (g : Forest XalInode) (l : List XalInode) : Prop extends
    Indexed p slot s s' g where
  labels : Labels (entryKids E) (F s') g l

/-- The same, where a slot holds its entry. -/
abbrev XfsMirrored (E : XfsEnv) : Nat → Nat → Store Buf → Store Buf → Forest XalInode →
    List XalInode → Prop := MirroredBy E fun _ => IsEntry E

theorem MirroredBy.nil (hs : StoreOk s) : MirroredBy E F p slot s s .nil [] where
  toIndexed := .nil hs
  labels := rfl

theorem MirroredBy.cons {v e : XalInode} {k g : Forest XalInode} {l : List XalInode} (hF : Steady F)
    (hv : MirroredBy E F p slot s s₁ (.cons v k .nil) [e])
    (hg : MirroredBy E F p (slot + 1) s₁ s' g l) (hp : p < slot)
    (hroom : slot + 1 + g.width ≤ s.inodes.free) :
    MirroredBy E F p slot s s' (.cons v k g) (e :: l) where
  toIndexed := hv.toIndexed.cons hg.toIndexed hp hroom
  labels := by
    have hsteady : ∀ v e, F s₁ v e → F s' v e := fun v e h => hF h hg.extents_le hg.extents_keep
    obtain ⟨e', rest, he, hf, hk, -⟩ := hv.labels
    obtain ⟨rfl, -⟩ := List.cons.inj he
    exact ⟨e, l, rfl, hsteady _ _ hf, hk.mono hsteady, hg.labels⟩

/-- Before the round of child `i` of `p`: the slots of the children from `i` on, for the entries
`l`, are as the listing left them. -/
structure AtChild (p base : Nat) (v : XalInode) (l : List XalInode)
    (pre : XalInode → XalInode) (i : Nat)
    (s : Store Buf) : Prop where
  ok : StoreOk s
  dir : s.inodes.memory p = v
  room : base + l.length ≤ s.inodes.free
  kids : ∀ j e, i ≤ j → l[j]? = some e → s.inodes.memory (base + j) = pre e

section
variable {base i : Nat} {v e : XalInode} {l : List XalInode} {pre : XalInode → XalInode}

theorem AtChild.next (h : AtChild p base v l pre i s) (hpb : p < base) {w : XalInode}
    {k : Forest XalInode} (hv : s₁.inodes.memory p = v)
    (hk : Indexed p (base + i) s s₁ (.cons w k .nil)) : AtChild p base v l pre (i + 1) s₁ where
  ok := hk.ok
  dir := hv
  room := by
    have := h.room
    have := hk.free_eq
    omega
  kids j e' hj hje := by
    obtain ⟨hjl, -⟩ := List.getElem?_eq_some_iff.1 hje
    have := h.room
    rw [hk.keep (base + j) (by omega) (by omega) (by simp only [width_cons, width_nil]; omega)]
    exact h.kids j e' (by omega) hje

end

/-- The loop over the children of `p`, from child `i` on, where `n` are left; `pre e` is what the
slot of the entry `e` holds before its round. -/
theorem mirror_children {cond : Store Buf → Nat → Bool} {body : Nat → Xm Unit} {base : Nat}
    {v : XalInode} {l : List XalInode} {pre : XalInode → XalInode} (hF : Steady F) (hpb : p < base)
    (hcond : ∀ t i, t.inodes.memory p = v → cond t i = decide (i < l.length))
    (hbody : ∀ t i e, l[i]? = some e → AtChild p base v l pre i t →
      ∀ u t', body i t = .ok u t' → t'.inodes.memory p = v ∧
        ∃ w k, MirroredBy E F p (base + i) t t' (.cons w k .nil) [e]) (n : Nat) :
    ∀ {m i : Nat} {s : Store Buf}, AtChild p base v l pre i s → i + n = l.length →
      forUp cond body m i s = .ok u s' →
      s'.inodes.memory p = v ∧ ∃ g, MirroredBy E F p (base + i) s s' g (l.drop i) := by
  induction n with
  | zero =>
    intro m i s h hi hr
    rw [forUp_stop (by rw [hcond s i h.dir]; exact decide_eq_false (by omega))] at hr
    obtain ⟨-, rfl⟩ := Run.ok.inj hr
    rw [List.drop_eq_nil_of_le (by omega)]
    exact ⟨h.dir, .nil, .nil h.ok⟩
  | succ n ih =>
    intro m i s h hi hr
    have hlt : i < l.length := by omega
    have hroom := h.room
    rcases forUp_ok hr with ⟨hc, -⟩ | ⟨-, m', w, s₁, hb, hr'⟩
    · rw [hcond s i h.dir] at hc
      exact absurd hlt (of_decide_eq_false hc)
    · obtain ⟨hv₁, w, k, hk⟩ := hbody s i _ (List.getElem?_eq_getElem hlt) h _ _ hb
      obtain ⟨hv', g, hg⟩ := ih (h.next hpb hv₁ hk.toIndexed) (by omega) hr'
      have hw := hg.labels.width
      rw [List.length_drop] at hw
      rw [List.drop_eq_getElem_cons hlt]
      exact ⟨hv', .cons w k g, hk.cons hF hg (by omega) (by omega)⟩

/-! ## Directories -/

/-- `self` was read as the dinode says: only its content has changed, and its children `k` stand for
what it lists. -/
structure ReadAs (E : XfsEnv) (F : Store Buf → XalInode → XalInode → Prop) (dinode d : Nat)
    (s s' : Store Buf) (k : Forest XalInode) : Prop extends Indexed (s.inodes.memory d).parentIdx d
      s s' (.cons (s'.inodes.memory d) k .nil) where
  others : ∀ i < s.inodes.free, i ≠ d → s'.inodes.memory i = s.inodes.memory i
  inode : s'.inodes.memory d = { s.inodes.memory d with content := (s'.inodes.memory d).content }
  kids : Labels (entryKids E) (F s') k
    (if (s.inodes.memory d).ftype = ftDir then (dirListing E dinode).getD [] else [])
  listed : (s.inodes.memory d).ftype = ftDir → (dirListing E dinode).isSome = true

/-- Once the children are listed, the loop over them makes the directory stand for what it lists. -/
theorem Listing.mirrors {Q : XalInode → Prop} {cond : Store Buf → Nat → Bool} {body : Nat → Xm Unit}
    {l : List XalInode} {pre : XalInode → XalInode} (hF : Steady F) (h : Listing Q self s₀ s)
    (hft : (s₀.inodes.memory self).ftype = ftDir) (hlist : dirListing E dinode = some l)
    (hlen : s.inodes.free = s₀.inodes.free + l.length)
    (hat : AtChild self s₀.inodes.free (s.inodes.memory self) l pre 0 s)
    (hcond : ∀ t i, t.inodes.memory self = s.inodes.memory self → cond t i = decide (i < l.length))
    (hbody : ∀ t i e, l[i]? = some e →
      AtChild self s₀.inodes.free (s.inodes.memory self) l pre i t →
      ∀ u t', body i t = .ok u t' → t'.inodes.memory self = s.inodes.memory self ∧
        ∃ w k, MirroredBy E F self (s₀.inodes.free + i) t t' (.cons w k .nil) [e]) {m : Nat}
    (hr : forUp cond body m 0 s = .ok u s') : ∃ k, ReadAs E F dinode self s₀ s' k := by
  have hlt := h.lt
  obtain ⟨hv, g, hg⟩ := mirror_children hF hlt hcond hbody l.length hat (Nat.zero_add _) hr
  rw [List.drop_zero] at hg
  have hw := hg.labels.width
  have hdir : s'.inodes.memory self = { s₀.inodes.memory self with
      content := ⟨s₀.inodes.free, g.width⟩ } := by
    rw [hv, h.dir, hw, hlen, Nat.add_sub_cancel_left]
  obtain ⟨hi, hothers⟩ := Indexed.dir h.toOpened (p := (s₀.inodes.memory self).parentIdx)
    (by rw [hdir]; exact hft) (by rw [hdir]) (by rw [hdir]) (by omega) (by rw [h.extents])
    hg.toIndexed
  refine ⟨g, hi, hothers, by rw [hdir], ?_, fun _ => by rw [hlist]; rfl⟩
  rw [if_pos hft, hlist]
  exact hg.labels

/-- The children that have been listed, by their entries. -/
theorem Listing.kids_of_children {Q : XalInode → Prop} {l : List XalInode}
    (h : Listing Q self s₀ s) (hch : childrenOf s self = l) :
    s.inodes.free = s₀.inodes.free + l.length ∧
      ∀ j e, l[j]? = some e → s.inodes.memory (s₀.inodes.free + j) = e := by
  have hle := h.le
  subst hch
  rw [childrenOf, h.dir]
  refine ⟨by simp only [List.length_map, List.length_range]; omega, fun j e hj => ?_⟩
  rw [List.getElem?_map, Option.map_eq_some_iff] at hj
  obtain ⟨i, hi, rfl⟩ := hj
  rw [List.getElem?_range (by simpa using (List.getElem?_eq_some_iff.1 hi).1)] at hi
  obtain rfl := Option.some.inj hi
  rfl

/-- What `process_ino` does on the slot of an entry. -/
def MirrorsBy (E : XfsEnv) (F : Store Buf → XalInode → XalInode → Prop)
    (procIno : Nat → Nat → Xm Unit) : Prop :=
  ∀ ⦃e : XalInode⦄ ⦃d : Nat⦄ ⦃s s' : Store Buf⦄ ⦃u : Unit⦄, Ready d s →
    (s.inodes.memory d).name = e.name → (s.inodes.memory d).namelen = e.namelen →
    (s.inodes.memory d).ftype = e.ftype → procIno e.ino d s = .ok u s' →
    (∀ i < s.inodes.free, i ≠ d → s'.inodes.memory i = s.inodes.memory i) ∧
      ∃ k, MirroredBy E F (s.inodes.memory d).parentIdx d s s'
        (.cons (s'.inodes.memory d) k .nil) [e]

abbrev MirrorsEntry (E : XfsEnv) : (Nat → Nat → Xm Unit) → Prop := MirrorsBy E fun _ => IsEntry E

section
variable {procIno : Nat → Nat → Xm Unit} (hF : Steady F) (hproc : MirrorsBy E F procIno)
include hproc

omit hproc in
/-- The children that have been listed are in their slots. -/
theorem Listing.atChildren {l : List XalInode} (h : Listing (Kid self) self s₀ s)
    (hch : childrenOf s self = l.map (XalInode.inDir self)) :
    s.inodes.free = s₀.inodes.free + l.length ∧ (∀ e ∈ l, Blank e) ∧
      AtChild self s₀.inodes.free (s.inodes.memory self) l (XalInode.inDir self) 0 s := by
  obtain ⟨hlen, hkids⟩ := h.kids_of_children hch
  rw [List.length_map] at hlen
  have hpre : ∀ j e, l[j]? = some e → s.inodes.memory (s₀.inodes.free + j) = e.inDir self :=
    fun j e hj => hkids j _ (by rw [List.getElem?_map, hj]; rfl)
  refine ⟨hlen, fun e he => ?_, h.ok, rfl, Nat.le_of_eq hlen.symm, fun j e _ => hpre j e⟩
  obtain ⟨j, hj⟩ := List.mem_iff_getElem?.1 he
  have hjl := (List.getElem?_eq_some_iff.1 hj).1
  have hb : Blank (e.inDir self) := hpre j e hj ▸ (h.kids _ (by omega) (by omega)).1
  exact hb

/-- A round of `process_children`. -/
theorem child_mirrors {l : List XalInode} {base i : Nat} {v e : XalInode} {t t' : Store Buf}
    (hlt : self < base) (hidx : v.content.idx = base) (he : l[i]? = some e) (hblank : Blank e)
    (h : AtChild self base v l (XalInode.inDir self) i t)
    (hr : (do
      let v ← inodeAt self
      let inode ← inodeAt (v.content.idx + i)
      procIno inode.ino (v.content.idx + i)) t = .ok u t') :
    t'.inodes.memory self = v ∧ ∃ w k, MirroredBy E F self (base + i) t t'
      (.cons w k .nil) [e] := by
  have hil := (List.getElem?_eq_some_iff.1 he).1
  have hroom := h.room
  have hi := h.kids i e (Nat.le_refl _) he
  rw [inodeAt_bind, inodeAt_bind, h.dir, hidx, hi] at hr
  obtain ⟨hothers, k, hk⟩ := hproc (e := e) ⟨h.ok, by omega, by rw [hi]; exact hblank⟩
    (by rw [hi]; rfl) (by rw [hi]; rfl) (by rw [hi]; rfl) hr
  rw [hi] at hk
  exact ⟨by rw [hothers self (by omega) (by omega), h.dir], _, k, hk⟩

include hF in
theorem processChildren_mirrors {l : List XalInode} (h : Listing (Kid self) self s₀ s)
    (hft : (s₀.inodes.memory self).ftype = ftDir) (hlist : dirListing E dinode = some l)
    (hch : childrenOf s self = l.map (XalInode.inDir self))
    (hr : processChildren procIno self s = .ok u s') : ∃ k, ReadAs E F dinode self s₀ s' k := by
  obtain ⟨hlen, hblank, hat⟩ := h.atChildren hch
  refine h.mirrors hF hft hlist hlen hat (fun t i ht => ?_) (fun t i e he ht u t' hr => ?_) hr
  · rw [ht, h.dir, hlen, Nat.add_sub_cancel_left]
  · exact child_mirrors hproc h.lt (by rw [h.dir]) he (hblank e (List.mem_of_getElem? he)) ht hr

omit hproc in
/-- What a directory with extents has listed when its loop over them ends. -/
theorem Ready.extentsChildren (hI : E.mpInodes.Bounded poolReserved inodeNbytes) (h : Ready self s)
    (hfmt : diFormat E dinode = fmtExtents) {ran : Bool}
    (hr : dirExtentsLoop E dinode self (diNextents E dinode) 0 (signed64 (diSize E dinode))
      (s.putInode self { s.inodes.memory self with
        content := { (s.inodes.memory self).content with idx := s.inodes.free % 2 ^ 32 } }) =
      .ok ran s') :
    ∃ l, dirListing E dinode = some l ∧ Listing (Kid self) self s s' ∧
      childrenOf s' self = l.map (XalInode.inDir self) := by
  have hblank : (s.inodes.memory self).content = default := h.blank
  obtain ⟨l, hyield, hl, hch⟩ := dirExtentsLoop_appends hI dinode _ _ _ (h.listing (Kid self)) hr
  rw [← inDir_dirExtentsYield] at hyield
  cases hy : dirExtentsYield E 0 dinode (diNextents E dinode) 0 (signed64 (diSize E dinode)) with
  | none => rw [hy] at hyield; cases hyield
  | some la =>
    rw [hy] at hyield
    obtain rfl : la.1.map (XalInode.inDir self) = l := congrArg Prod.fst (Option.some.inj hyield)
    refine ⟨la.1, ?_, hl, ?_⟩
    · rw [dirListing, if_neg (by rw [hfmt]; decide), if_pos hfmt, hy]
      rfl
    · rw [hch, childrenOf, putInode_same, hblank]
      rfl

include hF in
theorem processDinodeDirExtents_mirrors (hI : E.mpInodes.Bounded poolReserved inodeNbytes)
    (h : Ready self s) (hft : (s.inodes.memory self).ftype = ftDir)
    (hfmt : diFormat E dinode = fmtExtents)
    (hr : processDinodeDirExtents E procIno dinode self s = .ok u s') :
    ∃ k, ReadAs E F dinode self s s' k := by
  unfold processDinodeDirExtents at hr
  obtain ⟨-, hr⟩ := assert_bind_ok.1 hr
  rw [read_bind, setInode_bind] at hr
  obtain ⟨ran, s₁, hloop, hr⟩ := bind_ok.1 hr
  rw [inodeAt_bind] at hr
  obtain ⟨_, s₂, hchildren, hr⟩ := bind_ok.1 hr
  obtain ⟨-, rfl⟩ := failIf_ok.1 hr
  obtain ⟨l, hlist, hl, hch⟩ := h.extentsChildren hI hfmt hloop
  exact processChildren_mirrors hF hproc hl hft hlist hch hchildren

omit hproc in
/-- What is written to the content of `self` first makes no difference. -/
theorem ReadAs.of_put {k : Forest XalInode} {content : XalContent}
    (h : ReadAs E F dinode self (s.putInode self { s.inodes.memory self with content }) s' k) :
    ReadAs E F dinode self s s' k where
  toBlock := by
    have := h.toBlock
    rw [putInode_same] at this
    exact this.of_put (by simp)
  free_eq := h.free_eq
  staged := h.staged
  others i hi hne := (h.others i hi hne).trans (putInode_other _ _ _ hne)
  inode := by
    have := h.inode
    rw [putInode_same] at this
    exact this
  kids := by
    have := h.kids
    rw [putInode_same] at this
    exact this
  listed hft := h.listed (by rw [putInode_same]; exact hft)

omit hproc in
/-- The lists of the leaves, as children of `d`. -/
theorem mapM_inDir {f g : Nat → Option (List XalInode)} {d : Nat}
    (hfg : ∀ p, g p = (f p).map (List.map (XalInode.inDir d))) (ps : List Nat) :
    ∀ {lists : List (List XalInode)}, ps.mapM g = some lists →
      ∃ l, (ps.mapM f).map List.flatten = some l ∧ lists.flatten = l.map (XalInode.inDir d) := by
  induction ps with
  | nil =>
    intro lists h
    obtain rfl := Option.some.inj h
    exact ⟨[], rfl, rfl⟩
  | cons p ps ih =>
    intro lists h
    rw [List.mapM_cons, hfg] at h
    cases hp : f p with
    | none => rw [hp] at h; cases h
    | some m =>
      rw [hp] at h
      cases hps : ps.mapM g with
      | none => rw [hps] at h; cases h
      | some rest =>
        rw [hps] at h
        obtain rfl : m.map (XalInode.inDir d) :: rest = lists := Option.some.inj h
        obtain ⟨l, hl, hflat⟩ := ih hps
        obtain ⟨ls, hls, rfl⟩ := Option.map_eq_some_iff.1 hl
        refine ⟨m ++ ls.flatten, ?_, ?_⟩
        · rw [List.mapM_cons, hp, hls]
          rfl
        · rw [List.flatten_cons, hflat, List.map_append]

omit hproc in
/-- What a B+tree directory has listed before its children are processed. -/
theorem dirBtree_children (hI : E.mpInodes.Bounded poolReserved inodeNbytes)
    (hok : StoreOk s) (hself : self < s.inodes.free) (hfmt : diFormat E dinode = fmtBtree)
    (hr : dirBtreeListing E dinode self s = .ok u s') :
    ∃ l, dirListing E dinode = some l ∧ Listing (Kid self) self s s' ∧
      childrenOf s' self = l.map (XalInode.inDir self) := by
  obtain ⟨hl, lists, hlists, hch⟩ := dirBtreeListing_children hI hok hself hr
  obtain ⟨l, hl₀, hflat⟩ := mapM_inDir (fun p => by rw [← inDir_lblockYield, inDir_list]) _ hlists
  refine ⟨l, ?_, hl, hch.trans hflat⟩
  rw [dirListing, if_pos hfmt]
  exact hl₀

include hF in
theorem processDinodeDirBtreeRoot_mirrors (hI : E.mpInodes.Bounded poolReserved inodeNbytes)
    (hok : StoreOk s) (hself : self < s.inodes.free) (hft : (s.inodes.memory self).ftype = ftDir)
    (hfmt : diFormat E dinode = fmtBtree)
    (hr : processDinodeDirBtreeRoot E procIno dinode self s = .ok u s') :
    ∃ k, ReadAs E F dinode self s s' k := by
  rw [processDinodeDirBtreeRoot_eq (dirRootInside_of_ok hr)] at hr
  obtain ⟨_, s₁, hlist, hchildren⟩ := bind_ok.1 hr
  obtain ⟨l, hl₀, hl, hch⟩ := dirBtree_children hI hok hself hfmt hlist
  exact processChildren_mirrors hF hproc hl hft hl₀ hch hchildren

omit hproc in
/-- The first loop of `process_dinode_dir_local` writes the entries to the slots claimed for
them. -/
theorem localEntries_lists {base : Nat} (hne : self < base) (n : Nat) :
    ∀ {i cursor i8count : Nat} {s s' : Store Buf}, (s.inodes.memory self).content.idx = base →
      (∀ j, i ≤ j → j < i + n → s.inodes.memory (base + j) = default) →
      localEntries E self n i cursor i8count s = .ok u s' →
      (∀ j < base + i, s'.inodes.memory j = s.inodes.memory j) ∧
        ∀ j e, (localList E n cursor i8count)[j]? = some e →
          s'.inodes.memory (base + i + j) = e := by
  induction n with
  | zero =>
    intro i cursor i8count s s' _ _ hr
    obtain ⟨-, rfl⟩ := Run.ok.inj hr
    exact ⟨fun _ _ => rfl, fun j e hj => by cases hj⟩
  | succ n ih =>
    intro i cursor i8count s s' hidx hzero hr
    unfold localEntries at hr
    rw [inodeAt_bind] at hr
    obtain ⟨-, hr⟩ := assert_bind_ok.1 hr
    rw [setInode_bind, hidx, hzero i (Nat.le_refl _) (by omega)] at hr
    obtain ⟨hkeep, hlist⟩ := ih (by rw [putInode_other _ _ _ (by omega), hidx])
      (fun j h1 h2 => by rw [putInode_other _ _ _ (by omega), hzero j (by omega) (by omega)]) hr
    refine ⟨fun j hj => ?_, fun j e hj => ?_⟩
    · rw [hkeep j (by omega), putInode_other _ _ _ (by omega)]
    · cases j with
      | zero =>
        obtain rfl := Option.some.inj hj
        rw [Nat.add_zero, hkeep (base + i) (by omega), putInode_same]
      | succ j =>
        rw [show base + i + (j + 1) = base + (i + 1) + j by omega]
        exact hlist j e hj

omit hproc in
theorem length_localList (n : Nat) : ∀ cursor i8count : Nat,
    (localList E n cursor i8count).length = n := by
  induction n with
  | zero => exact fun _ _ => rfl
  | succ n ih => exact fun _ _ => congrArg (· + 1) (ih _ _)

omit hproc in
/-- Once the entries of a short-form directory are written, they are in their slots. -/
theorem Ready.localChildren {n : Nat} (h : Ready self s) (hfmt : diFormat E dinode = fmtLocal)
    (hn : n = (E.dinodes (dfork dinode)).toNat) (hok : StoreOk s₁)
    (hfree : s₁.inodes.free = s.inodes.free + n)
    (hmem : s₁.inodes.memory = (s.putInode self { s.inodes.memory self with
      content := { (s.inodes.memory self).content with count := n } }).inodes.memory)
    (hext : s₁.extents = s.extents)
    (hr : localEntries E self n 0 (dfork dinode + 2 +
        if (E.dinodes (dfork dinode + 1)).toNat ≠ 0 then 8 else 4)
      (E.dinodes (dfork dinode + 1)).toNat (s₁.putInode self { s₁.inodes.memory self with
        content := { (s₁.inodes.memory self).content with idx := s.inodes.free } }) = .ok u s') :
    ∃ l, dirListing E dinode = some l ∧ l.length = n ∧ (∀ e ∈ l, Blank e) ∧
      s'.inodes.free = s.inodes.free + n ∧ Listing Blank self s s' ∧
      AtChild self s.inodes.free (s'.inodes.memory self) l id 0 s' := by
  have hlt := h.lt
  have hl := h.claimed hok hfree hmem hext
  obtain ⟨hl₂, hfree₂⟩ := (localEntries_spec _ (hl.mono fun v hv => by rw [hv]; rfl)
    (by rw [putInode_free]; omega)).ok hr
  rw [putInode_free, hfree] at hfree₂
  obtain ⟨-, hlist⟩ := localEntries_lists hlt _ (by rw [hl.dir])
    (fun j _ hj => hl.kids _ (by omega) (by rw [putInode_free]; omega)) hr
  refine ⟨_, ?_, length_localList n _ _, fun e he => ?_, hfree₂, hl₂, hl₂.ok, rfl, ?_,
    fun j e _ hj => hlist j e hj⟩
  · rw [dirListing, if_neg (by rw [hfmt]; decide), if_neg (by rw [hfmt]; decide), if_pos hfmt, ← hn]
  · obtain ⟨j, hj⟩ := List.mem_iff_getElem?.1 he
    have hjl := (List.getElem?_eq_some_iff.1 hj).1
    rw [length_localList] at hjl
    exact hlist j e hj ▸ hl₂.kids _ (by omega) (by omega)
  · rw [length_localList, hfree₂]

/-- A round of the second loop of `process_dinode_dir_local`. -/
theorem localChild_mirrors {l : List XalInode} {base i : Nat} {v e : XalInode} {t t' : Store Buf}
    (hlt : self < base) (hidx : v.content.idx = base) (he : l[i]? = some e) (hblank : Blank e)
    (h : AtChild self base v l id i t)
    (hr : (do
      let v ← inodeAt self
      setInode (v.content.idx + i) fun dentry => { dentry with parentIdx := self }
      let dentry ← inodeAt (v.content.idx + i)
      procIno dentry.ino (v.content.idx + i)) t = .ok u t') :
    t'.inodes.memory self = v ∧ ∃ w k, MirroredBy E F self (base + i) t t'
      (.cons w k .nil) [e] := by
  have hil := (List.getElem?_eq_some_iff.1 he).1
  have hroom := h.room
  have hne : base + i ≠ self := by omega
  have hi : t.inodes.memory (base + i) = e := h.kids i e (Nat.le_refl _) he
  rw [inodeAt_bind, h.dir, hidx, setInode_bind, inodeAt_bind, putInode_same, hi] at hr
  obtain ⟨hothers, k, hk⟩ := hproc (e := e)
    ⟨h.ok.putInode (by omega) _, by rw [putInode_free]; omega, by
    rw [putInode_same]; exact hblank⟩ (by rw [putInode_same]) (by rw [putInode_same])
    (by rw [putInode_same]) hr
  rw [putInode_same] at hk
  refine ⟨by rw [hothers self (by rw [putInode_free]; omega) (by omega),
    putInode_other _ _ _ (by omega), h.dir], _, k, ⟨hk.toBlock.of_put (by simp), hk.free_eq,
    hk.staged⟩, hk.labels⟩

include hF in
theorem processDinodeDirLocal_mirrors (hI : E.mpInodes.Bounded poolReserved inodeNbytes)
    (h : Ready self s) (hft : (s.inodes.memory self).ftype = ftDir)
    (hfmt : diFormat E dinode = fmtLocal)
    (hr : processDinodeDirLocal E procIno dinode self s = .ok u s') :
    ∃ k, ReadAs E F dinode self s s' k := by
  unfold processDinodeDirLocal at hr
  obtain ⟨-, hr⟩ := assert_bind_ok.1 hr
  rw [setInode_bind] at hr
  obtain ⟨idx, s₁, hclaim, hr⟩ := bind_ok.1 hr
  obtain ⟨hok, rfl, hfree, hmem, hext, -⟩ := (onInodes_claim hI (h.ok.putInode h.lt _) _).ok hclaim
  rw [setInode_bind] at hr
  obtain ⟨_, s₂, hentries, hr⟩ := bind_ok.1 hr
  obtain ⟨l, hdir, hlen, hblank, hfree₂, hl, hat⟩ :=
    h.localChildren hfmt rfl hok hfree hmem hext hentries
  refine hl.mirrors hF hft hdir (by rw [hlen]; exact hfree₂) hat (fun t i _ => ?_)
    (fun t i e he ht u t' hr => ?_) hr
  · rw [hlen]
  · exact localChild_mirrors hproc h.lt (by rw [hl.dir]) he
      (hblank e (List.mem_of_getElem? he)) ht hr

end

/-! ## `process_ino` -/

/-- A regular file that has been read. -/
theorem Filing.readAs (h : Filing self s s') (hft : (s.inodes.memory self).ftype = ftRegFile) :
    ReadAs E F dinode self s s' .nil := by
  obtain ⟨hothers, k, hk⟩ := h.processed hft
  have hft' : (s'.inodes.memory self).ftype = ftRegFile := by rw [h.file]; exact hft
  have hnil : k = .nil := by
    have hw : 0 = k.width := by
      rw [← hk.placed.2.1.count, dents_of_ne (by rw [hft']; decide)]
    cases k with
    | nil => rfl
    | cons _ _ _ => cases hw
  subst hnil
  refine ⟨hk, hothers, by rw [h.file], ?_, fun hd => ?_⟩
  · rw [if_neg (by rw [hft]; decide)]
    rfl
  · rw [hft] at hd
    exact absurd hd (by decide)

section
variable (hI : E.mpInodes.Bounded poolReserved inodeNbytes)
  (hX : E.mpExtents.Bounded poolReserved extentNbytes)
include hI hX

theorem Decoder.mirrors {procIno : Nat → Nat → Xm Unit} (hF : Steady F)
    (hproc : MirrorsBy E F procIno) {fuel ftype fmt : Nat} {decoder : Xm Unit}
    (hd : Decoder E procIno fuel dinode self ftype fmt decoder) (h : Ready self s)
    (hft : (s.inodes.memory self).ftype = ftype) (hfmt : diFormat E dinode = fmt)
    (hr : decoder s = .ok u s') : ∃ k, ReadAs E F dinode self s s' k := by
  cases hd with
  | dirLocal => exact processDinodeDirLocal_mirrors hF hproc hI h hft hfmt hr
  | dirExtents => exact processDinodeDirExtents_mirrors hF hproc hI h hft hfmt hr
  | dirBtree =>
    rw [read_bind, setInode_bind] at hr
    obtain ⟨k, hk⟩ := processDinodeDirBtreeRoot_mirrors hF hproc hI (h.ok.putInode h.lt _) h.lt
      (by rw [putInode_same]; exact hft) hfmt hr
    exact ⟨k, hk.of_put⟩
  | fileExtents =>
    exact ⟨.nil, ((processDinodeFileExtents_filing hX h hft dinode).ok hr).readAs hft⟩
  | fileBtree =>
    exact ⟨.nil, ((processDinodeFileBtreeRoot_filing hX h hft fuel dinode).ok hr).readAs hft⟩

theorem processFormat_mirrors {procIno : Nat → Nat → Xm Unit} (hF : Steady F)
    (hproc : MirrorsBy E F procIno) (h : Ready self s) {fuel : Nat}
    (hr : processFormat E procIno fuel dinode self s = .ok u s') :
    ∃ k, ReadAs E F dinode self s s' k := by
  rcases processFormat_cases E procIno fuel dinode self s with
    ⟨decoder, hd, h₁⟩ | ⟨e, h₁⟩ | ⟨hfmt, h₁⟩
  · rw [h₁] at hr
    exact hd.mirrors hI hX hF hproc h rfl rfl hr
  · rw [h₁] at hr
    cases hr
  · -- a format the `switch` does not know: nothing is read
    rw [h₁] at hr
    obtain ⟨-, rfl⟩ := Run.ok.inj hr
    have hlist : dirListing E dinode = some [] := by
      simp only [fmtUuid] at hfmt
      rw [dirListing, if_neg (by simp only [fmtBtree]; omega),
        if_neg (by simp only [fmtExtents]; omega),
        if_neg (by simp only [fmtLocal]; omega)]
    refine ⟨.nil, .leaf (.refl h.ok h.lt) rfl rfl (by rw [h.blank.dents]) fun h0 => ?_,
      fun _ _ _ => rfl, rfl, ?_, fun _ => by rw [hlist]; rfl⟩
    · rw [h.blank.exts] at h0
      exact absurd rfl h0
    · rw [hlist]
      split <;> rfl

omit hI hX in
/-- The fields that `process_ino` sets, and what it then reads. -/
theorem ReadAs.isEntry {e v : XalInode} {d : Nat} {k : Forest XalInode}
    (h : ReadAs E F dinode d (s.putInode d v) s' k) (hd : E.dinodesMap e.ino = some dinode)
    (hname : v.name = e.name) (hlen : v.namelen = e.namelen) (hft : v.ftype = entryType E e)
    (hino : v.ino = diIno E dinode) (hsize : v.size = diSize E dinode) :
    IsEntry E (s'.inodes.memory d) e := by
  have hinode := h.inode
  have hlisted := h.listed
  rw [putInode_same] at hinode hlisted
  refine ⟨?_, ?_, ?_, dinode, hd, ?_, ?_, ?_⟩
  · rw [hinode]; exact hname
  · rw [hinode]; exact hlen
  · rw [hinode]; exact hft
  · rw [hinode]; exact hino
  · rw [hinode]; exact hsize
  · rw [hinode]; exact hlisted

omit hI hX in
theorem ReadAs.mirrored {e v : XalInode} {d : Nat} {k : Forest XalInode}
    (h : ReadAs E F dinode d (s.putInode d v) s' k) (hd : E.dinodesMap e.ino = some dinode)
    (hft : v.ftype = entryType E e) (hpar : v.parentIdx = (s.inodes.memory d).parentIdx)
    (hv : F s' (s'.inodes.memory d) e) :
    (∀ i < s.inodes.free, i ≠ d → s'.inodes.memory i = s.inodes.memory i) ∧
      MirroredBy E F (s.inodes.memory d).parentIdx d s s'
        (.cons (s'.inodes.memory d) k .nil) [e] := by
  have hblock := h.toBlock
  have hkids := h.kids
  rw [putInode_same] at hblock hkids
  rw [hpar] at hblock
  rw [hft] at hkids
  refine ⟨fun i hi hne => (h.others i hi hne).trans (putInode_other _ _ _ hne),
    ⟨hblock.of_put (by simp), h.free_eq, h.staged⟩, e, [], rfl, hv, ?_, rfl⟩
  rw [entryKids, hd]
  exact hkids

omit hI hX in
/-- The type is that of the entry. -/
theorem Ready.deriveFtype_entry {e : XalInode} {d : Nat} (h : Ready d s)
    (hd : E.dinodesMap e.ino = some dinode) (hft : (s.inodes.memory d).ftype = e.ftype)
    (hr : Xallib.deriveFtype (diMode E dinode) d s = .ok u s') :
    Ready d s' ∧ (s'.inodes.memory d).ftype = entryType E e := by
  refine ⟨h.deriveFtype hr, ?_⟩
  rw [deriveFtype_ok hr, putInode_same, entryType, hd, hft]

/-- `F` holds of a slot once its entry has been processed. -/
def Holds (E : XfsEnv) (F : Store Buf → XalInode → XalInode → Prop) : Prop :=
  ∀ ⦃e : XalInode⦄ ⦃dinode d fuel : Nat⦄ ⦃s s' : Store Buf⦄ ⦃u : Unit⦄, Ready d s →
    E.dinodesMap e.ino = some dinode → (s.inodes.memory d).ftype = entryType E e →
    processFormat E (processIno E fuel) fuel dinode d s = .ok u s' →
    IsEntry E (s'.inodes.memory d) e → F s' (s'.inodes.memory d) e

/-- `process_ino` makes a slot stand for its entry (module doc). -/
theorem processIno_mirrorsBy (hF : Steady F) (hholds : Holds E F) (fuel : Nat) :
    MirrorsBy E F (processIno E fuel) := by
  induction fuel with
  | zero =>
    intro e d s s' u _ _ _ _ hr
    cases hr
  | succ fuel ih =>
    intro e d s s' u h hname hlen hft hr
    unfold processIno dinodesGet at hr
    cases hd : E.dinodesMap e.ino with
    | none => rw [hd] at hr; cases hr
    | some dinode =>
      rw [hd, ret_bind] at hr
      obtain ⟨-, hr⟩ := assert_bind_ok.1 hr
      obtain ⟨_, s₁, hr₁, hr⟩ := bind_ok.1 hr
      have htype := (h.deriveFtype_entry hd hft hr₁).2
      have hs₁ := deriveFtype_ok hr₁
      subst hs₁
      rw [putInode_same] at htype
      rw [setInode_bind, putInode_twice, putInode_same] at hr
      obtain ⟨k, hk⟩ := processFormat_mirrors hI hX hF ih (h.put (by exact h.blank)) hr
      have hentry := hk.isEntry hd hname hlen htype rfl rfl
      obtain ⟨hothers, hm⟩ := hk.mirrored hd htype rfl
        (hholds (h.put (by exact h.blank)) hd (by rw [putInode_same]; exact htype) hr hentry)
      exact ⟨hothers, k, hm⟩

theorem processIno_mirrors (fuel : Nat) : MirrorsEntry E (processIno E fuel) :=
  processIno_mirrorsBy hI hX (fun _ _ _ _ h _ _ => h) (fun _ _ _ _ _ _ _ _ _ _ _ h => h) fuel

end

/-! ## The index -/

/-- The inodes of a complete index, from the root on, stand for what is listed from the root
entry. -/
abbrev XfsTreeBy (E : XfsEnv) (F : Store Buf → XalInode → XalInode → Prop) (x : Xal Buf) :
    Forest XalInode → Prop :=
  LabelTree (entryKids E) (F x.store) (·.parentIdx) (fun v => (dents v).1) (fun v => (dents v).2)
    x.store.inodes.memory x.rootIdx poolIdxNone (rootEntry E)

abbrev XfsTree (E : XfsEnv) : Xal Buf → Forest XalInode → Prop := XfsTreeBy E fun _ => IsEntry E

section
variable {x x' : Xal Buf} {fuel : Nat}

theorem Begun.xfsTree {slot : Nat} {k : Forest XalInode} (h : Begun E.sb slot s₀ s)
    (hm : MirroredBy E F (s.inodes.memory slot).parentIdx slot s s'
      (.cons (s'.inodes.memory slot) k .nil) [rootEntry E])
    (hx : x.store = s') (hroot : x.rootIdx = slot) :
    XfsTreeBy E F x k ∧ x.store.inodes.free = x.rootIdx + 1 + k.size := by
  subst hx hroot
  have hplaced := hm.placed
  have hfree := hm.free_eq
  rw [h.root, h.free] at hplaced
  rw [deep_cons, deep_nil, h.free] at hfree
  exact ⟨⟨hplaced, hm.labels⟩, hfree⟩

theorem xalIndex_xfs_treeBy (hF : Steady F) (hholds : Holds E F) (hE : XfsCall E x)
    (hok : StoreOk x.store) (hr : xalIndex (xalBeXfsIndex E fuel) x = .ok u x') :
    ∃ k, XfsTreeBy E F x' k ∧ x'.store.inodes.free = x'.rootIdx + 1 + k.size := by
  unfold xalIndex at hr
  rw [read_bind] at hr
  obtain ⟨-, hr⟩ := failIf_bind_ok.1 hr
  unfold xalBeXfsIndex at hr
  obtain ⟨-, hr⟩ := failIf_bind_ok.1 hr
  obtain ⟨_, x₁, h₁, hr⟩ := bind_ok.1 hr
  obtain ⟨s₁, hc₁, rfl⟩ := zoom_ok.1 h₁
  obtain ⟨hok₁, -, -⟩ := (clearInodes_spec hok).ok hc₁
  obtain ⟨_, x₂, h₂, hr⟩ := bind_ok.1 hr
  obtain ⟨s₂, hc₂, rfl⟩ := zoom_ok.1 h₂
  obtain ⟨hok₂, -, -⟩ := (clearExtents_spec hok₁).ok hc₂
  refine (claimRoot_bind hE.inodes hok₂ (fun s₃ h₃ => ?_) fun _ _ _ _ => trivial : Run.Sat _
    (fun _ x' => ∃ k, XfsTreeBy E F x' k ∧ x'.store.inodes.free = x'.rootIdx + 1 + k.size)
    fun _ _ => True).ok hr
  refine (sat_zoom (sat_of_ok fun _ s' hs => ?_) : (onStore _ _).Sat (fun _ x₁ =>
    ∃ k, XfsTreeBy E F { x₁ with dirty := false } k ∧
      x₁.store.inodes.free = x₁.rootIdx + 1 + k.size) fun _ _ => True).bind fun _ _ h => h
  obtain ⟨-, k, hk⟩ := processIno_mirrorsBy hE.inodes hE.extents hF hholds fuel
    (e := rootEntry E) h₃.ready
    (by rw [h₃.root]; rfl) (by rw [h₃.root]; rfl) (by rw [h₃.root]; rfl) hs
  exact ⟨k, h₃.xfsTree hk rfl rfl⟩

/-- A successful index stands for what the directories list. -/
theorem xalIndex_xfs_tree (hE : XfsCall E x) (hok : StoreOk x.store)
    (hr : xalIndex (xalBeXfsIndex E fuel) x = .ok u x') :
    ∃ k, XfsTree E x' k ∧ x'.store.inodes.free = x'.rootIdx + 1 + k.size :=
  xalIndex_xfs_treeBy (fun _ _ _ _ h _ _ => h) (fun _ _ _ _ _ _ _ _ _ _ _ h => h) hE hok hr

end

end Xallib
