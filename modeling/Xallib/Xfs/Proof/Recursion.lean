import Xallib.Lib.Below
import Xallib.Xfs.Counted
import Xallib.Xfs.Proof.Reads

/-!
# The recursion of `process_ino` ends

There is no set of visited inodes and no limit on the depth: what ends the recursion is the pool.
Every call has a slot of its own, which was claimed for it (`processInoCounted_within`: a call
raises the number of calls by at most one more than the number of claimed slots), and before a call
for an entry of a directory at least that entry has been claimed, so the depth is bounded by the
elements of the pool. An index that was successful is a finite tree, so a cycle is an error
(`Labels.acc`).

* `Decodable E e`: what is assumed of the entries below `e`.
* `ReadsInside E e`: what is read of their inodes is in `be->dinodes`.
* `CyclicFrom E e`: the directories below `e` form a cycle.

Nothing in the source checks the counts of an inode against `be->dinodes`: where a read is outside
of it the process can stop (`processIno_outside`).
-/

namespace Xallib

open Lib Lib.Buf Lib.Forest Lib.Cm Lib.Run

section
variable (E : XfsEnv)

/-- Reading the entries of the directory, without the calls for them, does not go on for ever. -/
def DecodesFinitely (dinode : Nat) : Prop :=
  ∀ (self : Nat) (s : Store Buf), Ready self s → (s.inodes.memory self).ftype = ftDir →
    processFormat E (fun _ _ => pure ()) 0 dinode self s ≠ .spin

/-- Of what is below `e`, the regular files are in `FMT_EXTENTS`, and the data of every directory
decodes to finitely many entries. -/
structure Decodable (e : XalInode) : Prop where
  file : ∀ b dinode, Linked (entryKids E) e b → E.dinodesMap b.ino = some dinode →
    entryType E b = ftRegFile → diFormat E dinode = fmtExtents
  dir : ∀ b dinode, Linked (entryKids E) e b → E.dinodesMap b.ino = some dinode →
    entryType E b = ftDir → DecodesFinitely E dinode

/-- What is read of the inodes below `e` is in `be->dinodes`. -/
def ReadsInside (e : XalInode) : Prop :=
  ∀ b dinode, Linked (entryKids E) e b → E.dinodesMap b.ino = some dinode →
    InodeReads E (entryType E b) dinode

/-- `process_ino`, without the calls for the entries, comes back from the inode. -/
structure InodeEnds (ftype dinode : Nat) : Prop where
  inside : dinode + 160 ≤ dinodesRoom E.sb
  file : ftype = ftRegFile → diFormat E dinode = fmtExtents
  returns : ∀ (self : Nat) (s : Store Buf), Ready self s → (s.inodes.memory self).ftype = ftype →
    (processFormat E (fun _ _ => pure ()) 0 dinode self s).Returns

/-- It does from every inode below `e`. -/
def EndsBelow (e : XalInode) : Prop :=
  ∀ b dinode, Linked (entryKids E) e b → E.dinodesMap b.ino = some dinode →
    InodeEnds E (entryType E b) dinode

/-- The directory with the inode number `i` lists one with the inode number `j`. -/
def SubDir (i j : Nat) : Prop := ∃ dinode l e, E.dinodesMap i = some dinode ∧
  dirListing E dinode = some l ∧ e ∈ l ∧ e.ino = j ∧ entryType E e = ftDir

/-- The graph of directories, as it is reached from `e`, has a cycle. -/
def CyclicFrom (e : XalInode) : Prop := entryType E e = ftDir ∧
  ∃ i, Relation.ReflTransGen (SubDir E) e.ino i ∧ Relation.TransGen (SubDir E) i i

end

variable {E : XfsEnv} {self dinode room : Nat} {e : XalInode} {c c' : Tallied} {s s₀ s' : Store Buf}

/-! ## Cycles -/

theorem SubDir.kid {b : XalInode} {j : Nat} (h : SubDir E b.ino j) (hb : entryType E b = ftDir) :
    ∃ b' ∈ entryKids E b, b'.ino = j ∧ entryType E b' = ftDir := by
  obtain ⟨dinode, l, e, hd, hl, he, hj, ht⟩ := h
  refine ⟨e, ?_, hj, ht⟩
  rw [entryKids, hd]
  show e ∈ if entryType E b = ftDir then (dirListing E dinode).getD [] else []
  rw [if_pos hb, hl]
  exact he

/-- The first step of a cycle leads to a cycle. -/
theorem SubDir.next {i : Nat} (h : Relation.TransGen (SubDir E) i i) :
    ∃ j, SubDir E i j ∧ Relation.TransGen (SubDir E) j j := by
  obtain ⟨j, hj, hji⟩ := Relation.TransGen.head'_iff.1 h
  exact ⟨j, hj, .tail' hji hj⟩

theorem not_cyclic_of_acc (h : Acc (fun b a => b ∈ entryKids E a) e) : ¬CyclicFrom E e := by
  induction h with
  | intro e _ ih =>
    rintro ⟨ht, i, hpath, hcycle⟩
    rcases Relation.ReflTransGen.cases_head hpath with rfl | ⟨j, hj, hji⟩
    · obtain ⟨j, hj, hcycle⟩ := SubDir.next hcycle
      obtain ⟨b, hb, rfl, hbt⟩ := hj.kid ht
      exact ih b hb ⟨hbt, _, .refl, hcycle⟩
    · obtain ⟨b, hb, rfl, hbt⟩ := hj.kid ht
      exact ih b hb ⟨hbt, i, hji, hcycle⟩

/-! ## Calls and claimed slots -/

/-- How many more calls there have been than claimed slots. -/
def Tallied.excess (c : Tallied) : Int := c.calls - c.store.inodes.free

theorem uncalled_of_ok {α : Type} {x : Xm α} {a : α} (h : x c.store = .ok a s') :
    uncalled x c = .ok a { c with store := s' } := zoom_of_ok h

theorem uncalled_of_fail {α : Type} {x : Xm α} {e : Err} (h : x c.store = .fail e s') :
    uncalled x c = .fail e { c with store := s' } := zoom_of_fail h

theorem uncalled_inodeAt_bind {α : Type} (i : Nat) (f : XalInode → Xc α) :
    (uncalled (inodeAt i) >>= f) c = f (c.store.inodes.memory i) c := rfl

theorem uncalled_setInode_bind {α : Type} (i : Nat) (g : XalInode → XalInode) (f : Unit → Xc α) :
    (uncalled (setInode i g) >>= f) c =
      f () ⟨c.store.putInode i (g (c.store.inodes.memory i)), c.calls⟩ := rfl

theorem uncalled_read_bind {α : Type} (f : Store Buf → Xc α) :
    (uncalled read >>= f) c = f c.store c := rfl

theorem Stopped.free_le {p : Nat} (h : Stopped p self s s') : s.inodes.free ≤ s'.inodes.free := by
  obtain ⟨-, k, hk⟩ := h
  have := hk.room
  omega

/-- A call that makes no calls, and claims what it likes. -/
theorem within_uncalled {α : Type} {x : Xm α} (hret : (x c.store).Returns)
    (hle : (x c.store).Sat (fun _ t => c.store.inodes.free ≤ t.inodes.free)
      fun _ t => c.store.inodes.free ≤ t.inodes.free) :
    (uncalled x c).Within Tallied.excess c.excess := by
  rcases hret.cases with ⟨a, t, hx⟩ | ⟨e, t, hx⟩
  · have := hle.ok hx
    rw [uncalled_of_ok hx]
    exact within_ok (by simp only [Tallied.excess]; omega)
  · have := hle.fail hx
    rw [uncalled_of_fail hx]
    exact within_fail (by simp only [Tallied.excess]; omega)

/-! ## The loop over the entries -/

/-- What a counted `process_ino` does on the slot of an entry, where less than `room` elements of
the pool are left: one call more than slots that are claimed. -/
def CallsEntry (E : XfsEnv) (procIno : Nat → Nat → Xc Unit) (room : Nat) : Prop :=
  ∀ ⦃e : XalInode⦄ ⦃d : Nat⦄ ⦃c : Tallied⦄, EndsBelow E e → Ready d c.store →
    (c.store.inodes.memory d).ftype = e.ftype → poolReserved < c.store.inodes.free + room →
    (procIno e.ino d c).Within Tallied.excess (c.excess + 1)

theorem childCall_apply (procIno : Nat → Nat → Xc Unit) (i : Nat) :
    childCall procIno self i c =
      procIno (c.store.inodes.memory ((c.store.inodes.memory self).content.idx + i)).ino
        ((c.store.inodes.memory self).content.idx + i) c := rfl

theorem localChildCall_apply (procIno : Nat → Nat → Xc Unit) (i : Nat) :
    localChildCall procIno self i c =
      procIno (c.store.inodes.memory ((c.store.inodes.memory self).content.idx + i)).ino
        ((c.store.inodes.memory self).content.idx + i)
        ⟨c.store.putInode ((c.store.inodes.memory self).content.idx + i)
          { c.store.inodes.memory ((c.store.inodes.memory self).content.idx + i) with
            parentIdx := self }, c.calls⟩ := by
  rw [localChildCall, uncalled_inodeAt_bind, uncalled_setInode_bind, uncalled_inodeAt_bind,
    putInode_same]

/-- The rounds of a loop over the entries, each with one call. -/
theorem children_within {cond : Tallied → Nat → Bool} {body : Nat → Xc Unit} {base : Nat}
    {v : XalInode}
    {l : List XalInode} {pre : XalInode → XalInode} (hat : AtChild self base v l pre 0 c.store)
    (hcond : ∀ c i, c.store.inodes.memory self = v → cond c i = decide (i < l.length))
    (hround : ∀ i c e, l[i]? = some e → AtChild self base v l pre i c.store →
      (body i c).Within Tallied.excess (c.excess + 1) ∧
        ∀ u c', body i c = .ok u c' → AtChild self base v l pre (i + 1) c'.store)
    {m : Nat} (hm : l.length ≤ m) :
    (forUp cond body m 0 c).Within Tallied.excess (c.excess + l.length) := by
  have hloop : (forUp cond body m 0 c).Within Tallied.excess (c.excess + (l.length - 0 : Nat)) :=
    within_forUp (fun i c => AtChild self base v l pre i c.store) (fun i c h => hcond c i h.dir)
      (fun i c h hi => hround i c l[i] (List.getElem?_eq_getElem hi) h) m hat
        (Nat.zero_le _) (by omega)
  rw [Nat.sub_zero] at hloop
  exact hloop

section
variable {procIno : Nat → Nat → Xc Unit} {procIno' : Nat → Nat → Xm Unit}
  (hcalls : CallsEntry E procIno room)
  (herase : ∀ ino d, Erases Tallied.store (procIno ino d) (procIno' ino d))
  (hproc : MirrorsEntry E procIno')
include hcalls herase hproc

theorem childCall_within {l : List XalInode} {base i : Nat} {v : XalInode} (hlt : self < base)
    (hidx : v.content.idx = base) (he : l[i]? = some e) (hblank : Blank e) (hends : EndsBelow E e)
    (h : AtChild self base v l (XalInode.inDir self) i c.store)
    (hroom : poolReserved < base + 1 + room) :
    (childCall procIno self i c).Within Tallied.excess (c.excess + 1) ∧
      ∀ u c', childCall procIno self i c = .ok u c' →
        AtChild self base v l (XalInode.inDir self) (i + 1) c'.store := by
  have hil := (List.getElem?_eq_some_iff.1 he).1
  have hfree := h.room
  have hi := h.kids i e (Nat.le_refl _) he
  constructor
  · rw [childCall_apply, h.dir, hidx, hi]
    exact hcalls (e := e) hends ⟨h.ok, by omega, by rw [hi]; exact hblank⟩
      (by rw [hi]; rfl) (by omega)
  · intro u c' hr
    obtain ⟨hv, w, k, hk⟩ :=
      child_mirrors hproc hlt hidx he hblank h ((childCall_erases herase i).ok hr)
    exact h.next hlt hv hk.toIndexed

theorem localChildCall_within {l : List XalInode} {base i : Nat} {v : XalInode} (hlt : self < base)
    (hidx : v.content.idx = base) (he : l[i]? = some e) (hblank : Blank e) (hends : EndsBelow E e)
    (h : AtChild self base v l id i c.store) (hroom : poolReserved < base + 1 + room) :
    (localChildCall procIno self i c).Within Tallied.excess (c.excess + 1) ∧
      ∀ u c', localChildCall procIno self i c = .ok u c' →
        AtChild self base v l id (i + 1) c'.store := by
  have hil := (List.getElem?_eq_some_iff.1 he).1
  have hfree := h.room
  have hi : c.store.inodes.memory (base + i) = e := h.kids i e (Nat.le_refl _) he
  constructor
  · have hlt' : base + i < c.store.inodes.free := by omega
    have hw := hcalls (e := e) (d := base + i)
      (c := ⟨c.store.putInode (base + i) { e with parentIdx := self }, c.calls⟩) hends
      ⟨h.ok.putInode hlt' _, hlt', by rw [putInode_same]; exact hblank⟩ (by rw [putInode_same])
      (by show _ < c.store.inodes.free + _; omega)
    rw [localChildCall_apply, h.dir, hidx, hi]
    exact hw
  · intro u c' hr
    obtain ⟨hv, w, k, hk⟩ :=
      localChild_mirrors hproc hlt hidx he hblank h ((localChildCall_erases herase i).ok hr)
    exact h.next hlt hv hk.toIndexed

/-! ## Directories -/

/-- The children that have been listed are called, one in each round. -/
theorem processChildrenCounted_within {l : List XalInode} (h : Listing (Kid self) self s₀ c.store)
    (hch : childrenOf c.store self = l.map (XalInode.inDir self)) (hends : ∀ b ∈ l, EndsBelow E b)
    (hroom : poolReserved < s₀.inodes.free + 1 + room) :
    (processChildrenCounted procIno self c).Within Tallied.excess (c.excess + l.length) := by
  obtain ⟨hlen, hblank, hat⟩ := h.atChildren hch
  have hlt := h.ok.free_lt
  refine children_within hat (fun c i hv => ?_) (fun i c b hb hat => ?_) (by omega)
  · rw [hv, h.dir, hlen, Nat.add_sub_cancel_left]
  · have hmem := List.mem_of_getElem? hb
    exact childCall_within hcalls herase hproc h.lt (by rw [h.dir]) hb (hblank b hmem)
      (hends b hmem) hat hroom

omit hcalls herase hproc in
/-- The slots that were claimed for the entries pay for their calls. -/
theorem excess_listed {n : Nat} (h : s.inodes.free = c.store.inodes.free + n) :
    (⟨s, c.calls⟩ : Tallied).excess + n = c.excess := by
  simp only [Tallied.excess]
  omega

/-- The call comes back, and gives back no slots. -/
def Advances (s : Store Buf) (r : Run Err (Store Buf) Unit) : Prop :=
  r.Returns ∧ ∀ e t, r = .fail e t → s.inodes.free ≤ t.inodes.free

omit hcalls herase hproc in
/-- What a directory does before its loop, then the loop. -/
theorem Advances.within {α : Type} {p : Xm α} {f : α → Xm Unit} {g : α → Xc Unit}
    (h : Advances c.store ((p >>= f) c.store))
    (hloop : ∀ a t, p c.store = .ok a t → (g a ⟨t, c.calls⟩).Within Tallied.excess c.excess) :
    ((uncalled p >>= g) c).Within Tallied.excess c.excess := by
  rcases h.1.of_bind.cases with ⟨a, t, hp⟩ | ⟨e, t, hp⟩
  · rw [bind_of_ok (uncalled_of_ok hp)]
    exact hloop a t hp
  · have hle := h.2 e t (bind_of_fail hp)
    rw [bind_of_fail (uncalled_of_fail hp)]
    exact within_fail (by simp only [Tallied.excess]; omega)

variable (hI : E.mpInodes.Bounded poolReserved inodeNbytes)
  (hkids : ∀ l, dirListing E dinode = some l → ∀ b ∈ l, EndsBelow E b)
include hI hkids

theorem dirBtreeRootCounted_within {procIno₀ : Nat → Nat → Xm Unit} (hok : StoreOk c.store)
    (hself : self < c.store.inodes.free) (hfmt : diFormat E dinode = fmtBtree)
    (hroom : poolReserved < c.store.inodes.free + 1 + room)
    (h : Advances c.store (processDinodeDirBtreeRoot E procIno₀ dinode self c.store)) :
    (processDinodeDirBtreeRootCounted E procIno dinode self c).Within Tallied.excess c.excess := by
  rw [processDinodeDirBtreeRoot_bind] at h
  refine h.within fun _ t ht => ?_
  obtain ⟨l, hl, hlisting, hch⟩ := dirBtree_children hI hok hself hfmt (dirRootListing_ok ht).2
  rw [← excess_listed (hlisting.atChildren hch).1]
  exact processChildrenCounted_within hcalls herase hproc (c := ⟨t, c.calls⟩) hlisting hch
    (hkids l hl)
    hroom

theorem dirExtentsCounted_within {procIno₀ : Nat → Nat → Xm Unit} (hready : Ready self c.store)
    (hfmt : diFormat E dinode = fmtExtents) (hroom : poolReserved < c.store.inodes.free + 1 + room)
    (h : Advances c.store (processDinodeDirExtents E procIno₀ dinode self c.store)) :
    (processDinodeDirExtentsCounted E procIno dinode self c).Within Tallied.excess c.excess := by
  rw [processDinodeDirExtents_eq] at h
  refine h.within fun ran t ht => ?_
  unfold dirExtentsListing at ht
  obtain ⟨-, ht⟩ := assert_bind_ok.1 ht
  rw [read_bind, setInode_bind] at ht
  obtain ⟨l, hl, hlisting, hch⟩ := hready.extentsChildren hI hfmt ht
  rw [uncalled_inodeAt_bind, ← excess_listed (hlisting.atChildren hch).1]
  refine (processChildrenCounted_within hcalls herase hproc (c := ⟨t, c.calls⟩) hlisting hch
    (hkids l hl)
    hroom).bind (Int.le_refl _) fun _ c' _ hle => ?_
  exact (within_uncalled (returns_failIf _ _)
    (sat_failIf (fun _ => Nat.le_refl _) fun _ => Nat.le_refl _)).mono hle

theorem dirLocalCounted_within {procIno₀ : Nat → Nat → Xm Unit} (hready : Ready self c.store)
    (hfmt : diFormat E dinode = fmtLocal) (hroom : poolReserved < c.store.inodes.free + 1 + room)
    (h : Advances c.store (processDinodeDirLocal E procIno₀ dinode self c.store)) :
    (processDinodeDirLocalCounted E procIno dinode self c).Within Tallied.excess c.excess := by
  rw [processDinodeDirLocal_eq] at h
  refine h.within fun _ t ht => ?_
  unfold localListing at ht
  obtain ⟨-, ht⟩ := assert_bind_ok.1 ht
  rw [setInode_bind] at ht
  obtain ⟨idx, s₁, hclaim, ht⟩ := bind_ok.1 ht
  obtain ⟨hok, rfl, hfree, hmem, hext, -⟩ :=
    (onInodes_claim hI (hready.ok.putInode hready.lt _) _).ok hclaim
  rw [setInode_bind] at ht
  obtain ⟨l, hl, hlen, hblank, hfree₂, hlisting, hat⟩ :=
    hready.localChildren hfmt rfl hok hfree hmem hext ht
  rw [← hlen] at hfree₂
  rw [← excess_listed hfree₂]
  refine children_within (c := ⟨t, c.calls⟩) hat (fun c i _ => by rw [hlen])
    (fun i c b hb hat => ?_) (Nat.le_of_eq hlen)
  have hmem := List.mem_of_getElem? hb
  exact localChildCall_within hcalls herase hproc hready.lt (by rw [hlisting.dir]) hb
    (hblank b hmem)
    (hkids l hl b hmem) hat hroom

end

/-! ## `process_ino` -/

theorem EndsBelow.kid {b : XalInode} (h : EndsBelow E e) (hb : b ∈ entryKids E e) :
    EndsBelow E b := fun b' dinode hl => h b' dinode (.head hb hl)

theorem EndsBelow.kids (h : EndsBelow E e) (hd : E.dinodesMap e.ino = some dinode)
    (ht : entryType E e = ftDir) : ∀ l, dirListing E dinode = some l → ∀ b ∈ l, EndsBelow E b := by
  intro l hl b hb
  refine h.kid ?_
  rw [entryKids, hd]
  show b ∈ if entryType E e = ftDir then (dirListing E dinode).getD [] else []
  rw [if_pos ht, hl]
  exact hb

/-- What is assumed of the inodes, and where they are read, lets `process_ino` come back from
each. -/
theorem ReadsInside.endsBelow (h : ReadsInside E e)
    (hmap : ∀ ino dinode, E.dinodesMap ino = some dinode → dinode + 160 ≤ dinodesRoom E.sb)
    (hsb : BlockSizes E.sb) (hdec : Decodable E e) : EndsBelow E e := by
  intro b dinode hl hd
  refine ⟨hmap _ _ hd, hdec.file b dinode hl hd, fun self s hready hft => ?_⟩
  refine processFormat_returns hsb (fun _ _ _ => safe_ok _ _) ?_ ?_ ?_
  · rw [hft]
    exact h b dinode hl hd
  · rw [hft]
    exact hdec.file b dinode hl hd
  · intro hdir
    exact hdec.dir b dinode hl hd (hft.symm.trans hdir) self s hready hdir

/-- An inode that is left as it was. -/
theorem Ready.nothing (h : Ready self s) : Indexes self s (.ok () s) := by
  refine Processed.leaf (.refl h.ok h.lt) rfl rfl (by rw [h.blank.dents]) fun h0 => ?_
  rw [h.blank.exts] at h0
  exact absurd rfl h0

section
variable (hI : E.mpInodes.Bounded poolReserved inodeNbytes)
  (hX : E.mpExtents.Bounded poolReserved extentNbytes)
include hI hX

theorem processFormat_advances (h : Ready self s)
    (hends : InodeEnds E (s.inodes.memory self).ftype dinode) :
    Advances s (processFormat E (fun _ _ => pure ()) 0 dinode self s) :=
  ⟨hends.returns self s h rfl, fun _ _ hr =>
    ((processFormat_spec hI hX (fun _ _ _ h => h.nothing) h 0 dinode).fail hr).free_le⟩

/-- The `switch` makes no more calls than there are slots claimed. -/
theorem processFormatCounted_within {procIno : Nat → Nat → Xc Unit} {procIno' : Nat → Nat → Xm Unit}
    (hcalls : CallsEntry E procIno room)
    (herase : ∀ ino d, Erases Tallied.store (procIno ino d) (procIno' ino d))
    (hproc : MirrorsEntry E procIno') (hends : EndsBelow E e)
    (hd : E.dinodesMap e.ino = some dinode)
    (h : Ready self c.store) (hft : (c.store.inodes.memory self).ftype = entryType E e)
    (hroom : poolReserved < c.store.inodes.free + 1 + room) (fuel : Nat) :
    (processFormatCounted E procIno fuel dinode self c).Within Tallied.excess c.excess := by
  have hfail : ∀ e : Err, (uncalled (Cm.fail e : Xm Unit) c).Within Tallied.excess c.excess :=
    fun e => within_fail (Int.le_refl _)
  have hself := hends e dinode .refl hd
  rw [← hft] at hself
  -- the inode without the calls
  have hadv := processFormat_advances hI hX h hself
  have hkids (hdir : (c.store.inodes.memory self).ftype = ftDir) :=
    hends.kids hd (hft.symm.trans hdir)
  unfold processFormatCounted
  unfold processFormat at hadv
  rw [uncalled_inodeAt_bind]
  rw [inodeAt_bind] at hadv
  by_cases hb : diFormat E dinode = fmtBtree
  · rw [if_pos hb] at hadv ⊢
    by_cases hdir : (c.store.inodes.memory self).ftype = ftDir
    · rw [if_pos hdir, read_bind, setInode_bind] at hadv
      rw [if_pos hdir, uncalled_read_bind, uncalled_setInode_bind]
      exact dirBtreeRootCounted_within hcalls herase hproc hI (hkids hdir)
        (c := ⟨c.store.putInode self _, c.calls⟩) (h.ok.putInode h.lt _) h.lt hb hroom hadv
    · rw [if_neg hdir]
      by_cases hf : (c.store.inodes.memory self).ftype = ftRegFile
      · have hfmt := hself.file hf
        rw [hb] at hfmt
        exact absurd hfmt (by decide)
      · rw [if_neg hf]
        exact hfail _
  · rw [if_neg hb] at hadv ⊢
    by_cases he : diFormat E dinode = fmtExtents
    · rw [if_pos he] at hadv ⊢
      by_cases hdir : (c.store.inodes.memory self).ftype = ftDir
      · rw [if_pos hdir] at hadv ⊢
        exact dirExtentsCounted_within hcalls herase hproc hI (hkids hdir) h he hroom hadv
      · rw [if_neg hdir] at hadv ⊢
        by_cases hf : (c.store.inodes.memory self).ftype = ftRegFile
        · rw [if_pos hf] at hadv ⊢
          exact within_uncalled hadv.1
            ((processDinodeFileExtents_filing hX h hf dinode).mono (fun _ _ ht => ht.le)
              fun _ _ ht => ht.free_le)
        · rw [if_neg hf]
          exact hfail _
    · rw [if_neg he] at hadv ⊢
      by_cases hl : diFormat E dinode = fmtLocal
      · rw [if_pos hl] at hadv ⊢
        by_cases hdir : (c.store.inodes.memory self).ftype = ftDir
        · rw [if_pos hdir] at hadv ⊢
          exact dirLocalCounted_within hcalls herase hproc hI (hkids hdir) h hl hroom hadv
        · rw [if_neg hdir]
          exact hfail _
      · rw [if_neg hl]
        by_cases hu : diFormat E dinode = fmtDev ∨ diFormat E dinode = fmtUuid
        · rw [if_pos hu]
          exact hfail _
        · rw [if_neg hu]
          exact within_ok (Int.le_refl _)

/-- A call comes back, and has made no more calls than it has claimed slots, but for itself. The
induction is on what is left of the pool. -/
theorem processInoCounted_within (fuel : Nat) : CallsEntry E (processInoCounted E fuel) fuel := by
  induction fuel with
  | zero =>
    intro e d c _ h _ hroom
    have hle := h.ok.inodes.free_le
    have hle' := h.ok.inodes.allocated_le
    omega
  | succ fuel ih =>
    intro e d c hends h hft hroom
    unfold processInoCounted
    rw [modify_bind]
    -- the call itself
    have hself : (⟨c.store, c.calls + 1⟩ : Tallied).excess = c.excess + 1 := by
      simp only [Tallied.excess]
      omega
    rw [← hself]
    cases hd : E.dinodesMap e.ino with
    | none =>
      have hget : dinodesGet E e.ino c.store = .fail ⟨.dinode, -EINVAL⟩ c.store := by
        rw [dinodesGet, hd]
        rfl
      rw [bind_of_fail (uncalled_of_fail (c := ⟨c.store, c.calls + 1⟩) hget)]
      exact within_fail (Int.le_refl _)
    | some dinode =>
      have hget : dinodesGet E e.ino c.store = .ok dinode c.store := by
        rw [dinodesGet, hd]
        rfl
      have hin := (hends e dinode .refl hd).inside
      rw [bind_of_ok (uncalled_of_ok (c := ⟨c.store, c.calls + 1⟩) hget),
        bind_of_ok (uncalled_of_ok (c := ⟨c.store, c.calls + 1⟩) (assert_true hin c.store))]
      rcases deriveFtype_cases (diMode E dinode) d c.store with ⟨ft, ht⟩ | ⟨err, ht⟩
      · obtain ⟨hready, htype⟩ := h.deriveFtype_entry hd hft ht
        have hfree := congrArg (·.inodes.free) (deriveFtype_ok ht)
        generalize c.store.putInode d _ = t at ht hready htype hfree
        rw [bind_of_ok (uncalled_of_ok (c := ⟨c.store, c.calls + 1⟩) ht), uncalled_setInode_bind]
        refine (processFormatCounted_within hI hX ih (processInoCounted_erases fuel)
          (processIno_mirrors hI hX fuel) hends hd (hready.put (by exact hready.blank))
          (by rw [putInode_same]; exact htype) ?_ fuel).mono ?_
        · show _ < t.inodes.free + _ + _
          rw [hfree, putInode_free]
          omega
        show ((c.calls + 1 : Nat) : Int) - t.inodes.free ≤ (c.calls + 1 : Nat) - c.store.inodes.free
        rw [hfree, putInode_free]
      · rw [bind_of_fail (uncalled_of_fail (c := ⟨c.store, c.calls + 1⟩) ht)]
        exact within_fail (Int.le_refl _)

end

/-! ## From the first slot -/

/-- The entry that the first slot is taken for, with the inode number that is asked for. -/
def startEntry (s : Store Buf) (ino : Nat) : XalInode := { s.inodes.memory 0 with ino }

/-- Where the recursion has succeeded there is no cycle. -/
theorem processIno_acyclic (hI : E.mpInodes.Bounded poolReserved inodeNbytes)
    (hX : E.mpExtents.Bounded poolReserved extentNbytes) {fuel ino : Nat} {u : Unit} (h : Ready 0 s)
    (hr : processIno E fuel ino 0 s = .ok u s') : ¬CyclicFrom E (startEntry s ino) := by
  obtain ⟨-, k, hk⟩ := processIno_mirrors hI hX fuel (e := startEntry s ino) h rfl rfl rfl hr
  exact not_cyclic_of_acc (hk.labels.acc _ List.mem_cons_self)

/-- What is read of an entry is in `be->dinodes` once the recursion has succeeded on it. -/
theorem processIno_reads (hI : E.mpInodes.Bounded poolReserved inodeNbytes)
    (hX : E.mpExtents.Bounded poolReserved extentNbytes) {fuel ino : Nat} {u : Unit} (h : Ready 0 s)
    (hr : processIno E fuel ino 0 s = .ok u s') : ReadsInside E (startEntry s ino) := by
  obtain ⟨-, k, hk⟩ := processIno_mirrorsBy hI hX
    (F := fun _ _ e => ∀ dinode, E.dinodesMap e.ino = some dinode →
      InodeReads E (entryType E e) dinode)
    (fun _ _ _ _ h _ _ => h) (fun e dinode d fuel s s' u _ hd hft hr _ dinode' hd' => by
      obtain rfl : dinode = dinode' := Option.some.inj (hd.symm.trans hd')
      rw [← hft]
      exact processFormat_reads hr) fuel (e := startEntry s ino) h rfl rfl rfl hr
  intro b dinode hl hd
  obtain ⟨_, hb⟩ := Labels.linked hk.labels _ List.mem_cons_self b hl
  exact hb dinode hd

theorem localEntries_ne_spin (n : Nat) : ∀ (i cursor i8count : Nat) (s : Store Buf),
    localEntries E self n i cursor i8count s ≠ .spin := by
  induction n with
  | zero => exact fun _ _ _ _ h => nomatch h
  | succ n ih =>
    intro i cursor i8count s
    unfold localEntries
    rw [inodeAt_bind]
    exact bind_ne_spin (assert_ne_spin _ _) fun _ _ _ => ih _ _ _ _

/-- The data of a short-form directory is read to an end. -/
theorem decodesFinitely_local (hfmt : diFormat E dinode = fmtLocal) : DecodesFinitely E dinode := by
  intro self s _ hft
  unfold processFormat
  rw [inodeAt_bind, if_neg (by rw [hfmt]; decide), if_neg (by rw [hfmt]; decide),
    if_pos hfmt, if_pos hft,
    processDinodeDirLocal_eq]
  refine bind_ne_spin ?_ fun _ t _ => ?_
  · unfold localListing
    refine bind_ne_spin (assert_ne_spin _ _) fun _ s₁ _ => ?_
    rw [setInode_bind]
    refine bind_ne_spin (returns_zoom (claimInodes_returns _ _)).ne_spin fun idx t _ => ?_
    rw [setInode_bind]
    exact localEntries_ne_spin _ _ _ _ _
  · exact (returns_forUp (fun i t => returns_ok _ _) _ t).ne_spin

/-- A directory in short form, with the inode number 128, which lists itself as `a`. -/
def selfListed : XfsEnv := xfsTableEnv smallSb
  (fun i => if i = 2 then 0x40 else if i = 5 then 1 else
    ofList 176 [1, 0, 0, 0, 0, 128, 1, 0, 0, 97, 2, 0, 0, 0, 128] i)
  (fun ino => if ino = 128 then some 0 else none)

/-- There is nothing below the directory but the directory. -/
theorem selfListed_linked {b : XalInode}
    (h : Linked (entryKids selfListed) (startEntry rootClaimed 128) b) :
    b.ino = 128 ∧ entryType selfListed b = ftDir := by
  induction h with
  | refl => decide +kernel
  | @tail b b' _ hb ih =>
    obtain ⟨hino, htype⟩ := ih
    have hlist : dirListing selfListed 0 = some [{ (default : XalInode) with
        namelen := 1, name := [97], ftype := ftDir, ino := 128 }] := by decide +kernel
    rw [entryKids, hino] at hb
    change b' ∈ if entryType selfListed b = ftDir then (dirListing selfListed 0).getD []
      else [] at hb
    rw [if_pos htype, hlist] at hb
    obtain rfl := List.mem_singleton.1 hb
    decide +kernel

theorem selfListed_decodable : Decodable selfListed (startEntry rootClaimed 128) where
  file b dinode hl _ hf := by
    rw [(selfListed_linked hl).2] at hf
    exact absurd hf (by decide)
  dir b dinode hl hd _ := by
    rw [(selfListed_linked hl).1] at hd
    obtain rfl : 0 = dinode := Option.some.inj hd
    exact decodesFinitely_local (by decide +kernel)

theorem selfListed_cyclic : CyclicFrom selfListed (startEntry rootClaimed 128) := by
  have hself : SubDir selfListed 128 128 := by
    refine ⟨0, _,
      { (default : XalInode) with namelen := 1, name := [97], ftype := ftDir, ino := 128 },
      rfl, rfl, ?_, rfl, rfl⟩
    decide +kernel
  exact ⟨by decide +kernel, 128, .refl, .single hself⟩

theorem selfListed_readsInside : ReadsInside selfListed (startEntry rootClaimed 128) := by
  intro b dinode hl hd
  obtain ⟨hino, htype⟩ := selfListed_linked hl
  rw [hino] at hd
  obtain rfl : 0 = dinode := Option.some.inj hd
  rw [htype]
  exact ⟨fun _ h => absurd h (by decide +kernel), fun _ h => absurd h (by decide +kernel),
    fun _ _ => ⟨by decide, by decide +kernel, trivial⟩, fun h => absurd h (by decide)⟩

theorem smallSb_sizes : BlockSizes smallSb := ⟨by decide, by decide, by decide, by decide⟩

/-- An inode with nothing below it. -/
theorem decodable_alone (dinode : Nat) (hkids : entryKids E e = [])
    (hd : E.dinodesMap e.ino = some dinode)
    (hfile : entryType E e = ftRegFile → diFormat E dinode = fmtExtents)
    (hdir : entryType E e = ftDir → DecodesFinitely E dinode) : Decodable E e := by
  have hself {b : XalInode} {dinode' : Nat} (hl : Linked (entryKids E) e b)
      (hd' : E.dinodesMap b.ino = some dinode') : b = e ∧ dinode' = dinode := by
    have hb : b = e := by
      rcases Relation.ReflTransGen.cases_head hl with rfl | ⟨c, hc, -⟩
      · rfl
      · rw [hkids] at hc
        cases hc
    subst hb
    exact ⟨rfl, Option.some.inj (hd'.symm.trans hd)⟩
  constructor
  · intro b dinode' hl hd' hf
    obtain ⟨rfl, rfl⟩ := hself hl hd'
    exact hfile hf
  · intro b dinode' hl hd' hf
    obtain ⟨rfl, rfl⟩ := hself hl hd'
    exact hdir hf

theorem processIno_of_format (dinode : Nat) {fuel ino : Nat}
    (hd : E.dinodesMap ino = some dinode)
    (hin : dinode + 160 ≤ dinodesRoom E.sb)
    (ht : deriveFtype (diMode E dinode) self s = .ok () s') :
    processIno E (fuel + 1) ino self s = processFormat E (processIno E fuel) fuel dinode self
      (s'.putInode self { s'.inodes.memory self with
        size := diSize E dinode, ino := diIno E dinode }) := by
  have hget : dinodesGet E ino s = .ok dinode s := by
    rw [dinodesGet, hd]
    rfl
  rw [processIno, bind_of_ok hget, bind_of_ok (assert_true hin s), bind_of_ok ht, setInode_bind]

/-- The last of eight inodes is a regular file with 22 records of extents, of which 21 are in
`be->dinodes`. -/
def overlongFile : XfsEnv := xfsTableEnv smallSb
  (fun i => if i = 3586 then 0x81 else if i = 3589 then 2 else if i = 3663 then 22 else 0)
  (fun ino => if ino = 131 then some 3584 else none)

/-- A directory with a B+tree, and without an attribute fork. -/
def plainBtreeDir : XfsEnv := xfsTableEnv smallSb
  (fun i => if i = 2 then 0x40 else if i = 5 then 3 else if i = 177 then 1 else 0)
  (fun ino => if ino = 128 then some 0 else none)

/-- A directory of a file system whose blocks have no bytes. -/
def noBlocksDir : XfsEnv := xfsTableEnv { smallSb with blocksize := 0 }
  (fun i => if i = 2 then 0x40 else if i = 5 then 2 else 0)
  (fun ino => if ino = 128 then some 0 else none)

theorem overlongFile_stops (procIno : Nat → Nat → Xm Unit) (fuel : Nat)
    (hft : (s.inodes.memory self).ftype = ftRegFile)
    (hX : s.extents = sharedPool extentNbytes) :
    processFormat overlongFile procIno fuel 3584 self s = .crash := by
  have hfmt : diFormat overlongFile 3584 = fmtExtents := by decide +kernel
  have hn : diNextents overlongFile 3584 = 22 := by decide +kernel
  have hrun : (xalPoolClaimExtents overlongFile.mpExtents 22
      (sharedPool extentNbytes : XalPool XalExtent)).okWith (fun _ => true) = true := by
    decide +kernel
  obtain ⟨idx, p, hclaim, -⟩ := exists_of_okWith hrun
  rw [← hX] at hclaim
  have hclaim : onExtents (xalPoolClaimExtents overlongFile.mpExtents 22) s =
      .ok idx { s with extents := p } := zoom_of_ok hclaim
  unfold processFormat
  rw [inodeAt_bind, hft, hfmt, if_neg (by decide), if_pos rfl, if_neg (by decide), if_pos rfl]
  unfold processDinodeFileExtents
  rw [hn, bind_of_ok hclaim, setInode_bind]
  exact decodeExtents_crash _ _ _ _ _ _ _ (by decide) (by decide)

/-- The pointers of the root are where the source takes the attribute fork to be. -/
theorem plainBtreeDir_stops (procIno : Nat → Nat → Xm Unit) (fuel : Nat) (h : Ready self s)
    (hft : (s.inodes.memory self).ftype = ftDir) :
    processFormat plainBtreeDir procIno fuel 0 self s = .crash := by
  have hfmt : diFormat plainBtreeDir 0 = fmtBtree := by decide +kernel
  have hroot : be16 plainBtreeDir.dinodes (dfork 0) = 1 := by decide +kernel
  unfold processFormat
  rw [inodeAt_bind, hft, hfmt, if_pos rfl, if_pos rfl, read_bind, setInode_bind]
  unfold processDinodeDirBtreeRoot
  rw [bind_of_ok (assert_true (by decide) _), hroot, bind_of_ok (failIf_false (by decide) _ _),
    inodeAt_bind, putInode_same, bind_of_ok (failIf_false (not_not.2 ?_) _ _), read_bind,
    setInode_bind]
  · refine bind_of_crash ?_
    rw [forUp_step (by decide)]
    exact bind_of_crash (bind_of_crash (assert_false (by decide +kernel) _))
  · exact congrArg XalContent.count h.blank

theorem noBlocksDir_stops (procIno : Nat → Nat → Xm Unit) (fuel : Nat)
    (hft : (s.inodes.memory self).ftype = ftDir) :
    processFormat noBlocksDir procIno fuel 0 self s = .crash := by
  have hfmt : diFormat noBlocksDir 0 = fmtExtents := by decide +kernel
  unfold processFormat
  rw [inodeAt_bind, hft, hfmt, if_neg (by decide), if_pos rfl, if_pos rfl]
  exact bind_of_crash (assert_false (by decide) _)

end Xallib
