import Xallib.Base.Proof.Twin
import Xallib.Xfs.Proof.Btree
import Xallib.Xfs.Proof.Mirror
import Xallib.Xfs.Stray

/-!
# Indexing the same contents again

`E.again mpI mpX uninit stray`: the file system of `E`, with other answers of `mprotect` and other
values on the stack. From stores that hold the same, `process_ino` on it follows `process_ino` on
`E` (`processIno_follows`): it stores the same, unless a pool fails, or an uninitialised `err` is
returned (`FailsAgain`). What `be->buf` holds before, and what is on the stack behind the local
arrays, plays no part, provided that all that is decoded is in the blocks and the arrays
(`ContentsFit`).
-/

namespace Xallib

open Lib Lib.Cm Lib.Run Lib.Buf

/-- The same contents (module doc). -/
def XfsEnv.again (E : XfsEnv) (mpI mpX : Mprotect) (uninit : Nat → Int) (stray : Buf) : XfsEnv :=
  { E with dev := E.dev.withStray stray, mpInodes := mpI, mpExtents := mpX, uninit }

/-- A pool fails, or `process_dinode_dir_extents` returns the `err` it does not initialise. -/
def FailsAgain (uninit : Nat → Int) (e : Err) : Prop :=
  PoolFailure e ∨ ∃ i, uninit i ≠ 0 ∧ e = ⟨.dentries, uninit i⟩

/-- The B+tree of extents of the regular file `e`, if it has one, fits in its blocks, and in the
arrays for their pointers. -/
def FileTreeFits (E : XfsEnv) (e : XalInode) : Prop :=
  entryType E e = ftRegFile → ∀ dinode, E.dinodesMap e.ino = some dinode →
    diFormat E dinode = fmtBtree → ∀ r ∈ fileRoots E dinode, ∀ r', Linked (fileKids E) r r' →
      FileFits E r'

/-- What the directory `e` lists is read in the local arrays. -/
def DirFits (E : XfsEnv) (e : XalInode) : Prop :=
  entryType E e = ftDir → ∀ dinode, E.dinodesMap e.ino = some dinode → DirInside E dinode

/-- So is what all directories that are listed list, and the B+trees of all regular files fit. -/
def ContentsFit (E : XfsEnv) : Prop := ∀ q e, XfsListed E q e → FileTreeFits E e ∧ DirFits E e

variable {E : XfsEnv} {mpI mpX : Mprotect} {uninit : Nat → Int} {stray : Buf} {self dinode : Nat}
variable {s s' t : Store Buf} {u : Unit} {α : Type}

/-- Two stores that hold the same, whatever is in the buffers. -/
abbrev XfsTwin (d : Nat) (s t : Store Buf) : Prop := TwinAt (fun _ _ => True) d s t

/-- The second function follows the first, on the inode `self`. -/
abbrev FollowsOn (uninit : Nat → Int) (self : Nat) (x x' : Xm α) : Prop :=
  Follows (XfsTwin self) (FailsAgain uninit) x x'

/-- A block that is read is the same in the array. -/
theorem follows_readInto_bind {count offset : Nat} {f f' : Buf → Xm α}
    (hf : ∀ b b', blockRead E.dev count offset = some b → (∀ i < blockNbytesMax, b' i = b i) →
      FollowsOn uninit self (f b) (f' b')) :
    FollowsOn uninit self (onBe (devReadInto E.dev count offset) >>= f)
      (onBe (devReadInto (E.again mpI mpX uninit stray).dev count offset) >>= f') := by
  intro s t h a s' hr
  obtain ⟨b, s₁, hread, hrest⟩ := bind_ok.1 hr
  obtain ⟨buf, hinto, rfl⟩ := zoom_ok.1 hread
  have hb := devReadInto_block hinto
  obtain ⟨b', hb', hsame⟩ := blockRead_stray stray hb
  obtain ⟨buf', hinto'⟩ := devReadInto_of_block hb' t.be
  have hread' : onBe (devReadInto (E.again mpI mpX uninit stray).dev count offset) t =
      .ok b' { t with be := buf' } := zoom_of_ok hinto'
  rw [bind_of_ok hread']
  have h₁ : XfsTwin self { s with be := buf } { t with be := buf' } :=
    ⟨⟨⟨h.ok.inodes, h.ok.extents⟩, ⟨h.ok'.inodes, h.ok'.extents⟩, h.inodes, h.free, h.extents,
      h.extentsFree, trivial⟩, h.lt⟩
  exact hf b b' hb hsame h₁ hrest

section
variable (hI : E.mpInodes.Bounded poolReserved inodeNbytes)
  (hI' : mpI.Bounded poolReserved inodeNbytes)
include hI hI'

/-! ## Listing a directory -/

/-- The claim of a slot, the entry and the count. -/
theorem follows_dentry (v : XalInode) {f f' : Xm α} (hf : FollowsOn uninit self f f') :
    FollowsOn uninit self
      (do let slot ← onInodes (xalPoolClaimInodes E.mpInodes 1)
          setInode slot fun _ => v
          countDentry self
          f)
      (do let slot ← onInodes (xalPoolClaimInodes mpI 1)
          setInode slot fun _ => v
          countDentry self
          f') := by
  intro s t h
  refine (h.claimInodes (fun e he => .inl he) hI hI' 1).bind fun slot s₁ t₁ hc h₁ => ?_
  obtain ⟨-, rfl, hfree, -⟩ := (onInodes_claim hI h.ok 1).ok hc
  have hlt := h.lt
  have h₂ : XfsTwin self s₁ t₁ := ⟨h₁.1, by omega⟩
  rw [setInode_bind, setInode_bind]
  exact follows_bind (follows_setSelf _) (fun _ => hf) (h₂.put (by omega) v)

/-- Equal entries are stored, in blocks that are the same in the array. -/
theorem dblockEntries_follows {dblock dblock' : Buf}
    (hsame : ∀ i < blockNbytesMax, dblock' i = dblock i) (fuel : Nat) : ∀ {ofz : Nat},
    EntriesInside E dblock fuel ofz →
    FollowsOn uninit self (dblockEntries E dblock self fuel ofz)
      (dblockEntries (E.again mpI mpX uninit stray) dblock' self fuel ofz) := by
  induction fuel with
  | zero =>
    intro ofz _
    unfold dblockEntries
    exact follows_bounded ()
  | succ fuel ih =>
    intro ofz hin
    unfold dblockEntries
    refine follows_ite (fun hofz => ?_) fun _ => follows_ret ()
    obtain ⟨hdentry, hrest⟩ := hin hofz
    rw [decodeDentry_congr hsame hdentry]
    refine follows_ite (fun _ => follows_ret ()) fun hlive => ?_
    refine follows_ite (fun _ => ih (hrest hlive)) fun _ => ?_
    exact follows_dentry hI hI' _ (ih (hrest hlive))

omit hI hI' in
theorem forDblocks_follows {body body' : Nat → Xm Bool} {goesOn : Nat → Prop} {next : Prop}
    (hbody : ∀ fsbno, DblockInside E fsbno → FollowsOn uninit self (body fsbno) (body' fsbno))
    (hgo : ∀ fsbno s s', body fsbno s = .ok true s' → goesOn fsbno) (start nblocks n : Nat) :
    ∀ {k : Nat}, BlocksInside E start nblocks goesOn next n k →
      FollowsOn uninit self (forDblocks E start nblocks body n k)
        (forDblocks (E.again mpI mpX uninit stray) start nblocks body' n k) := by
  induction n with
  | zero =>
    intro k _
    unfold forDblocks
    exact follows_bounded true
  | succ n ih =>
    intro k hin
    unfold BlocksInside at hin
    unfold forDblocks
    refine follows_ite (fun hk => ?_) fun _ => follows_ret true
    rw [if_pos hk] at hin
    obtain ⟨hblock, hrest⟩ := hin
    intro s t h
    refine (hbody _ hblock h).bind fun more s₁ t₁ hr h₁ => ?_
    cases more with
    | false => exact tracks_ret h₁ false
    | true => exact ih (hrest (hgo _ _ _ hr)) h₁

omit hI hI' in
/-- Where every block goes on, so do all of them. -/
theorem forDblocks_true {body : Nat → Xm Bool} {start nblocks : Nat}
    (hbody : ∀ fsbno more s s', body fsbno s = .ok more s' → more = true) (n : Nat) :
    ∀ {k : Nat} {more : Bool} {s s' : Store Buf},
      forDblocks E start nblocks body n k s = .ok more s' → more = true := by
  induction n with
  | zero =>
    intro k more s s' h
    unfold forDblocks at h
    by_cases hk : k * fsblkPerDblk E < nblocks
    · rw [if_pos hk] at h
      cases h
    · rw [if_neg hk] at h
      exact (Run.ok.inj h).1.symm
  | succ n ih =>
    intro k more s s' h
    unfold forDblocks at h
    by_cases hk : k * fsblkPerDblk E < nblocks
    · rw [if_pos hk] at h
      obtain ⟨more', t, hb, h⟩ := bind_ok.1 h
      obtain rfl := hbody _ _ _ _ hb
      exact ih h
    · rw [if_neg hk] at h
      exact (Run.ok.inj h).1.symm

omit hI hI' in
theorem dblockMagicOk_congr {dblock dblock' : Buf}
    (hsame : ∀ i < blockNbytesMax, dblock' i = dblock i) :
    dblockMagicOk dblock' = dblockMagicOk dblock := by
  rw [dblockMagicOk, dblockMagicOk, be32_congr fun i _ hi =>
    hsame i (Nat.lt_trans (show i < 4 by omega) (by decide))]

omit hI hI' in
theorem blockHeader_congr {block block' : Buf} (hsame : ∀ i < blockNbytesMax, block' i = block i) :
    be32 block' 0 = be32 block 0 ∧ blockLevel block' = blockLevel block ∧
      blockNumrecs block' = blockNumrecs block := by
  have hhead : ∀ i < 8, block' i = block i := fun i hi =>
    hsame i (Nat.lt_trans hi (by decide))
  refine ⟨be32_congr fun i _ hi => hhead i (by omega), ?_, ?_⟩
  · unfold blockLevel
    exact be16_congr fun i _ hi => hhead i (by omega)
  · unfold blockNumrecs
    exact be16_congr fun i _ hi => hhead i (by omega)

theorem processDinodeDirExtentsDblock_follows {fsbno : Nat} (hin : DblockInside E fsbno) :
    FollowsOn uninit self (processDinodeDirExtentsDblock E fsbno self)
      (processDinodeDirExtentsDblock (E.again mpI mpX uninit stray) fsbno self) := by
  unfold processDinodeDirExtentsDblock dblockRead
  refine follows_readInto_bind fun dblock dblock' hblock hsame => ?_
  rw [dblockMagicOk_congr hsame]
  exact follows_ite (fun hmagic => dblockEntries_follows hI hI' hsame _ (hin dblock hblock hmagic))
    fun _ => follows_ret ()

theorem dirExtentsLoop_follows (n : Nat) : ∀ {i : Nat} {nbytes : Int},
    ForkInside E dinode n i nbytes →
    FollowsOn uninit self (dirExtentsLoop E dinode self n i nbytes)
      (dirExtentsLoop (E.again mpI mpX uninit stray) dinode self n i nbytes) := by
  induction n with
  | zero => exact fun _ => follows_ret false
  | succ n ih =>
    intro i nbytes hin
    unfold dirExtentsLoop
    refine follows_ite (fun hleft => ?_) fun _ => follows_ret false
    have hin := hin hleft
    refine follows_bind follows_assert fun _ s t h => ?_
    refine (forDblocks_follows (fun fsbno hblock => ?_) (fun _ _ _ _ => trivial) _ _ _ hin h).bind
      fun more s₁ t₁ hr h₁ => ?_
    · exact follows_bind (processDinodeDirExtentsDblock_follows hI hI' hblock) fun _ =>
        follows_ret true
    · obtain rfl : more = true := forDblocks_true (fun _ _ _ _ hbody => by
        obtain ⟨_, _, -, hbody⟩ := bind_ok.1 hbody
        exact (Run.ok.inj hbody).1.symm) _ hr
      exact follows_bind (ih (hin.next (fun _ _ _ _ => trivial) _ hr)) (fun ran => follows_ret _) h₁

theorem leafDblock_follows {fsbno : Nat} (hin : DblockInside E fsbno) :
    FollowsOn uninit self (leafDblock E self fsbno)
      (leafDblock (E.again mpI mpX uninit stray) self fsbno) := by
  unfold leafDblock dblockRead
  refine follows_readInto_bind fun dblock dblock' hblock hsame => ?_
  rw [dblockMagicOk_congr hsame]
  refine follows_ite (fun hmagic => ?_) fun _ => follows_ret false
  exact follows_bind (dblockEntries_follows hI hI' hsame _ (hin dblock hblock hmagic)) fun _ =>
    follows_ret true

omit hI hI' in
/-- A block after which the decoding of a leaf goes on. -/
theorem leafDblock_passes {fsbno : Nat} (h : leafDblock E self fsbno s = .ok true s') :
    DblockPasses E fsbno := by
  unfold leafDblock dblockRead at h
  obtain ⟨dblock, t, hread, h⟩ := bind_ok.1 h
  obtain ⟨_, hinto, -⟩ := zoom_ok.1 hread
  by_cases hmagic : dblockMagicOk dblock = true
  · exact ⟨dblock, devReadInto_block hinto, hmagic⟩
  · rw [if_neg hmagic] at h
    cases h

theorem leafRecords_follows {block block' : Buf} (hsame : ∀ i < blockNbytesMax, block' i = block i)
    (n : Nat) : ∀ {i : Nat}, RecordsInside E block n i →
    FollowsOn uninit self (leafRecords E block self n i)
      (leafRecords (E.again mpI mpX uninit stray) block' self n i) := by
  induction n with
  | zero => exact fun _ => follows_ret ()
  | succ n ih =>
    intro i hin
    obtain ⟨hrecord, hin⟩ := hin
    unfold leafRecords
    rw [xfsExtentAt_inside hsame hrecord]
    intro s t h
    refine (forDblocks_follows (fun _ hblock => leafDblock_follows hI hI' hblock)
      (fun _ _ _ => leafDblock_passes) _ _ _ hin h).bind fun more s₁ t₁ hr h₁ => ?_
    cases more with
    | false => exact tracks_ret h₁ ()
    | true =>
      refine ih (hin.next ?_ _ hr) h₁
      exact fun _ _ _ => leafDblock_passes

theorem btreeLblockProcess_follows {fsbno : Nat} (hin : LblockInside E fsbno) :
    FollowsOn uninit self (btreeLblockProcess E fsbno self)
      (btreeLblockProcess (E.again mpI mpX uninit stray) fsbno self) := by
  unfold btreeLblockProcess
  refine follows_readInto_bind fun block block' hblock hsame => ?_
  obtain ⟨hmagic, hlevel, hrecs⟩ := blockHeader_congr hsame
  unfold btreeLblockDecodeLeafRecords
  rw [hmagic, hlevel, hrecs]
  refine follows_ite (fun h0 => ?_) fun _ => follows_of_not fun _ _ _ hr => by cases hr
  refine follows_bind follows_assert fun _ s t h => tracks_failIf_bind fun hm =>
    tracks_failIf_bind fun _ => ?_
  exact leafRecords_follows hI hI' hsame _ (hin block hblock (not_not.1 hm) h0) h

theorem dirBtreeListing_follows (hin : ∀ p ∈ dirFsbnos E dinode, LblockInside E p) :
    FollowsOn uninit self (dirBtreeListing E dinode self)
      (dirBtreeListing (E.again mpI mpX uninit stray) dinode self) := by
  unfold dirBtreeListing
  refine follows_bind (follows_failIf _) fun _ => follows_inodeAt fun v => ?_
  refine follows_bind (follows_failIf _) fun _ => follows_read fun s t h => ?_
  rw [← h.free]
  refine follows_bind (follows_setSelf _) (fun _ => ?_) h
  exact follows_forM fun fsbno hmem => btreeLblockProcess_follows hI hI' (hin fsbno hmem)

end

/-! ## Directories -/

/-- What `process_ino` does on the slot of an entry with `P`, the two of them followed. -/
def FollowsEntry (uninit : Nat → Int) (P : XalInode → Prop)
    (procIno procIno' : Nat → Nat → Xm Unit) :
    Prop :=
  ∀ ⦃e : XalInode⦄ ⦃d : Nat⦄ ⦃s t : Store Buf⦄, P e → Ready d s →
    (s.inodes.memory d).ftype = e.ftype →
    XfsTwin d s t → Tracks (XfsTwin d) (FailsAgain uninit) (procIno e.ino d s) (procIno' e.ino d t)

/-- The loop over the children of `p`, for the entries `l`. -/
theorem children_follow (E : XfsEnv) {cond cond' : Store Buf → Nat → Bool}
    {body body' : Nat → Xm Unit} {p base : Nat}
    {v : XalInode} {l : List XalInode} {pre : XalInode → XalInode} (hpb : p < base)
    (hcond : ∀ t i, t.inodes.memory p = v → cond t i = decide (i < l.length))
    (hcond' : ∀ t i, t.inodes.memory p = v → cond' t i = decide (i < l.length))
    (hmirror : ∀ t i e, l[i]? = some e → AtChild p base v l pre i t →
      ∀ u t', body i t = .ok u t' → t'.inodes.memory p = v ∧
        ∃ w k, XfsMirrored E p (base + i) t t' (.cons w k .nil) [e])
    (hbody : ∀ s t i e, l[i]? = some e → AtChild p base v l pre i s → XfsTwin p s t →
      Tracks (XfsTwin p) (FailsAgain uninit) (body i s) (body' i t))
    (hat : AtChild p base v l pre 0 s) (h : XfsTwin p s t) (n : Nat) :
    Tracks (XfsTwin p) (FailsAgain uninit) (forUp cond body n 0 s) (forUp cond' body' n 0 t) := by
  have hlt : ∀ {i s}, AtChild p base v l pre i s → cond s i = true → i < l.length :=
    fun {i s} hi hc => of_decide_eq_true ((hcond s i hi.dir).symm.trans hc)
  apply tracks_forUp (fun i s => AtChild p base v l pre i s)
  · intro i s t hi hs
    rw [hcond s i hi.dir, hcond' t i (by rw [hs.inodes]; exact hi.dir)]
  · intro i s t hi hc hs
    exact hbody s t i _ (List.getElem?_eq_getElem (hlt hi hc)) hi hs
  · intro i s u t hi hc hr
    obtain ⟨hv, w, k, hk⟩ := hmirror s i _ (List.getElem?_eq_getElem (hlt hi hc)) hi u t hr
    exact hi.next hpb hv hk.toIndexed
  · exact hat
  · exact h

section
variable {P : XalInode → Prop} {procIno procIno' : Nat → Nat → Xm Unit}
  (hm : MirrorsEntry E procIno) (hf : FollowsEntry uninit P procIno procIno')
include hm hf

theorem processChildren_follows {l : List XalInode} {s₀ : Store Buf}
    (h : Listing (Kid self) self s₀ s) (hch : childrenOf s self = l.map (XalInode.inDir self))
    (hP : ∀ e ∈ l, P e) (ht : XfsTwin self s t) :
    Tracks (XfsTwin self) (FailsAgain uninit) (processChildren procIno self s)
      (processChildren procIno' self t) := by
  obtain ⟨hlen, hblank, hat⟩ := h.atChildren hch
  have hcond : ∀ (t : Store Buf) i, t.inodes.memory self = s.inodes.memory self →
      decide (i < (t.inodes.memory self).content.count) = decide (i < l.length) := by
    intro t i ht
    rw [ht, h.dir, hlen, Nat.add_sub_cancel_left]
  have hlt := h.lt
  refine children_follow E hlt hcond hcond (fun t i e he hat u t' hr => ?_)
    (fun s₁ t₁ i e he hat h₁ => ?_) hat ht _
  · exact child_mirrors hm hlt (by rw [h.dir]) he (hblank e (List.mem_of_getElem? he)) hat hr
  · have hil := (List.getElem?_eq_some_iff.1 he).1
    have hroom := hat.room
    have hi := hat.kids i e (Nat.le_refl _) he
    have hmem := List.mem_of_getElem? he
    have hidx : (s.inodes.memory self).content.idx = s₀.inodes.free := by rw [h.dir]
    rw [inodeAt_bind, inodeAt_bind, inodeAt_bind, inodeAt_bind, h₁.inodes, hat.dir, hidx, hi]
    exact (hf (hP e hmem) ⟨hat.ok, by omega, by rw [hi]; exact hblank e hmem⟩ (by rw [hi]; rfl)
      ⟨h₁.toTwin, by omega⟩).mono fun _ _ _ _ h₂ => h₂.up (by omega)

theorem processDinodeDirExtents_follows (hI : E.mpInodes.Bounded poolReserved inodeNbytes)
    (hI' : mpI.Bounded poolReserved inodeNbytes) (h : Ready self s)
    (hfmt : diFormat E dinode = fmtExtents) (hin : DirInside E dinode)
    (hP : ∀ l, dirListing E dinode = some l → ∀ e ∈ l, P e) (ht : XfsTwin self s t) :
    Tracks (XfsTwin self) (FailsAgain uninit) (processDinodeDirExtents E procIno dinode self s)
      (processDinodeDirExtents (E.again mpI mpX uninit stray) procIno' dinode self t) := by
  unfold processDinodeDirExtents
  refine tracks_assert_bind fun _ => ?_
  rw [read_bind, read_bind, setInode_bind, setInode_bind, ht.inodes, ht.free]
  refine (dirExtentsLoop_follows hI hI' _ (hin.extents hfmt) (ht.put ht.lt _)).bind
    fun ran s₁ t₁ hloop h₁ => ?_
  obtain ⟨l, hlist, hl, hch⟩ := h.extentsChildren hI hfmt hloop
  rw [inodeAt_bind, inodeAt_bind, h₁.inodes]
  refine (processChildren_follows hm hf hl hch (hP l hlist) h₁).bind fun u s₂ t₂ _ h₂ => ?_
  intro u s₃ hr
  obtain ⟨-, rfl⟩ := failIf_ok.1 hr
  by_cases hc : ran = false ∧ (s₁.inodes.memory self).content.count = 0 ∧ uninit self ≠ 0
  · exact .inr ⟨_, t₂, failIf_true hc _ _, .inr ⟨self, hc.2.2, rfl⟩⟩
  · exact .inl ⟨t₂, failIf_false hc _ _, h₂⟩

theorem processDinodeDirBtreeRoot_follows (hI : E.mpInodes.Bounded poolReserved inodeNbytes)
    (hI' : mpI.Bounded poolReserved inodeNbytes) (hfmt : diFormat E dinode = fmtBtree)
    (hin : DirInside E dinode) (hP : ∀ l, dirListing E dinode = some l → ∀ e ∈ l, P e)
    (ht : XfsTwin self s t) :
    Tracks (XfsTwin self) (FailsAgain uninit) (processDinodeDirBtreeRoot E procIno dinode self s)
      (processDinodeDirBtreeRoot (E.again mpI mpX uninit stray) procIno' dinode self t) := by
  by_cases hroot : DirRootInside E dinode
  swap
  · exact tracks_of_not fun _ _ hr => hroot (dirRootInside_of_ok hr)
  have hroot' : DirRootInside (E.again mpI mpX uninit stray) dinode := hroot
  rw [processDinodeDirBtreeRoot_eq hroot, processDinodeDirBtreeRoot_eq hroot']
  refine (dirBtreeListing_follows hI hI' (hin.btree hfmt) ht).bind fun u s₁ t₁ hlist h₁ => ?_
  obtain ⟨l, hl₀, hl, hch⟩ := dirBtree_children hI ht.ok ht.lt hfmt hlist
  exact processChildren_follows hm hf hl hch (hP l hl₀) h₁

omit hm hf in
/-- The entries of a short-form directory are written to the slots from `base` on. -/
theorem localEntries_follows {base : Nat} (hne : self < base) (n : Nat) :
    ∀ {i cursor i8count : Nat} {s t : Store Buf}, (s.inodes.memory self).content.idx = base →
      base + i + n ≤ s.inodes.free → XfsTwin self s t →
      Tracks (XfsTwin self) (FailsAgain uninit) (localEntries E self n i cursor i8count s)
        (localEntries (E.again mpI mpX uninit stray) self n i cursor i8count t) := by
  induction n with
  | zero => exact fun _ _ h => tracks_ret h ()
  | succ n ih =>
    intro i cursor i8count s t hidx hroom h
    unfold localEntries
    rw [inodeAt_bind, inodeAt_bind]
    refine tracks_assert_bind fun _ => ?_
    rw [setInode_bind, setInode_bind, h.inodes, hidx]
    exact ih (by rw [putInode_other _ _ _ (by omega), hidx]) (by rw [putInode_free]; omega)
      (h.put (by omega) _)

theorem processDinodeDirLocal_follows (hI : E.mpInodes.Bounded poolReserved inodeNbytes)
    (hI' : mpI.Bounded poolReserved inodeNbytes) (h : Ready self s)
    (hfmt : diFormat E dinode = fmtLocal) (hP : ∀ l, dirListing E dinode = some l → ∀ e ∈ l, P e)
    (ht : XfsTwin self s t) :
    Tracks (XfsTwin self) (FailsAgain uninit) (processDinodeDirLocal E procIno dinode self s)
      (processDinodeDirLocal (E.again mpI mpX uninit stray) procIno' dinode self t) := by
  have hlt := h.lt
  unfold processDinodeDirLocal
  refine tracks_assert_bind fun _ => ?_
  rw [setInode_bind, setInode_bind, ht.inodes]
  refine ((ht.put hlt _).claimInodes (fun e he => .inl he) hI hI' _).bind fun idx s₁ t₁ hc h₁ => ?_
  obtain ⟨hok, rfl, hfree, hmem, hext, -⟩ := (onInodes_claim hI (h.ok.putInode hlt _) _).ok hc
  rw [putInode_free] at hfree
  have h₁' : XfsTwin self s₁ t₁ := ⟨h₁.1, by omega⟩
  rw [setInode_bind, setInode_bind, h₁'.inodes]
  refine (localEntries_follows hlt _ (by rw [putInode_same]; rfl) (by rw [putInode_free]; omega)
    (h₁'.put (by omega) _)).bind fun u s₂ t₂ hentries h₂ => ?_
  obtain ⟨l, hdir, hlen, hblank, hfree₂, hl, hat⟩ :=
    h.localChildren hfmt rfl hok hfree hmem hext hentries
  refine children_follow E hlt (fun t i _ => by rw [hlen]) (fun t i _ => by rw [hlen]; rfl)
    (fun t i e he hat u t' hr => ?_) (fun s₁ t₁ i e he hat h₁ => ?_) hat h₂ _
  · exact localChild_mirrors hm hlt (by rw [hl.dir]) he (hblank e (List.mem_of_getElem? he)) hat hr
  · have hil := (List.getElem?_eq_some_iff.1 he).1
    have hroom := hat.room
    have hi : s₁.inodes.memory (s.inodes.free + i) = e := hat.kids i e (Nat.le_refl _) he
    have hmem := List.mem_of_getElem? he
    have hidx : (s₂.inodes.memory self).content.idx = s.inodes.free := by rw [hl.dir]
    rw [inodeAt_bind, inodeAt_bind, h₁.inodes, hat.dir, hidx, setInode_bind,
      setInode_bind, h₁.inodes,
      inodeAt_bind, inodeAt_bind, putInode_same, putInode_same, hi]
    exact (hf (hP l hdir e hmem) ⟨hat.ok.putInode (by omega) _, by rw [putInode_free]; omega, by
      rw [putInode_same]; exact hblank e hmem⟩ (by rw [putInode_same])
      ⟨h₁.toTwin.putInode (by omega) _, by rw [putInode_free]; omega⟩).mono
        fun _ _ _ _ h₂ => h₂.up (by omega)

end

/-! ## Regular files -/

section
variable (hX : E.mpExtents.Bounded poolReserved extentNbytes)
  (hX' : mpX.Bounded poolReserved extentNbytes)

/-- Equal records are stored in the claimed extents. -/
theorem decodeExtents_follows {room : Nat} {buf buf' : Buf} {ofz start : Nat} (n : Nat) :
    ∀ {rec : Nat} {s t : Store Buf},
      (∀ i, rec ≤ i → i < rec + n → xfsExtentAt buf' (ofz + 16 * i) =
        xfsExtentAt buf (ofz + 16 * i)) →
      start + rec + n ≤ s.extents.free → XfsTwin self s t →
      Tracks (XfsTwin self) (FailsAgain uninit) (decodeExtents room buf ofz start n rec s)
        (decodeExtents room buf' ofz start n rec t) := by
  induction n with
  | zero => exact fun _ _ h => tracks_ret h ()
  | succ n ih =>
    intro rec s t hbuf hroom h
    unfold decodeExtents
    refine tracks_assert_bind fun _ => ?_
    rw [setExtent_bind, setExtent_bind, hbuf rec (Nat.le_refl _) (by omega)]
    exact ih (fun i h1 h2 => hbuf i (by omega) (by omega)) (by rw [putExtent_free]; omega)
      ⟨h.toTwin.putExtent (by omega) _, h.lt⟩

include hX hX'

theorem processDinodeFileExtents_follows (ht : XfsTwin self s t) :
    Tracks (XfsTwin self) (FailsAgain uninit) (processDinodeFileExtents E dinode self s)
      (processDinodeFileExtents (E.again mpI mpX uninit stray) dinode self t) := by
  unfold processDinodeFileExtents
  refine (ht.claimExtents (fun e he => .inl he) hX hX' _).bind fun idx s₁ t₁ hc h₁ => ?_
  obtain ⟨-, rfl, hfree, -⟩ := (onExtents_claim hX ht.ok _).ok hc
  have h₂ : XfsTwin self s₁ t₁ := ⟨h₁.1, by rw [h₁.2.2]; exact ht.lt⟩
  rw [setInode_bind, setInode_bind, h₂.inodes]
  exact decodeExtents_follows _ (fun _ _ _ => rfl) (by rw [putInode_extents, hfree, Nat.add_zero])
    (h₂.put h₂.lt _)

omit hX hX' in
/-- After a read both buffers hold the block. -/
theorem follows_devRead {count offset : Nat} (dev : XnvmeDev) (ht : XfsTwin self s t) :
    Tracks (fun s' t' => XfsTwin self s' t' ∧ ∃ block, deviceRead dev count offset = some block ∧
        (∀ i < count, s'.be i = block i) ∧ ∀ i < count, t'.be i = s'.be i)
      (FailsAgain uninit) (onBe (devRead dev count offset) s)
        (onBe (devRead dev count offset) t) := by
  intro u s₁ hr
  obtain ⟨b, hread, rfl⟩ := zoom_ok.1 hr
  obtain ⟨block, hblock, hbytes⟩ := devRead_block hread
  obtain ⟨b', hread', hbytes'⟩ := devRead_of_block hblock t.be
  refine .inl ⟨_, zoom_of_ok hread', ⟨⟨⟨ht.ok.inodes, ht.ok.extents⟩,
    ⟨ht.ok'.inodes, ht.ok'.extents⟩,
    ht.inodes, ht.free, ht.extents, ht.extentsFree, trivial⟩, ht.lt⟩, block, hblock, hbytes,
    fun i hi => ?_⟩
  exact (hbytes' i hi).trans (hbytes i hi).symm

/-- A leaf that fits in its block is read as it is on the device. -/
theorem processFileBtreeLeaf_follows {fsbno : Nat} (hfits : FileFits E ⟨true, fsbno⟩)
    (ht : XfsTwin self s t) :
    Tracks (XfsTwin self) (FailsAgain uninit) (processFileBtreeLeaf E fsbno self s)
      (processFileBtreeLeaf (E.again mpI mpX uninit stray) fsbno self t) := by
  unfold processFileBtreeLeaf
  refine (follows_devRead E.dev ht).bind fun _ s₁ t₁ _ h => ?_
  obtain ⟨h₁, block, hblock, hbytes, hsame⟩ := h
  obtain ⟨hm, hl, hn⟩ := header_congr (E := E) hsame hfits.header
  obtain ⟨hmb, hlb, hnb⟩ := header_congr (E := E) hbytes hfits.header
  rw [read_bind, read_bind, hm, hl, hn]
  refine tracks_failIf_bind fun hmagic => tracks_failIf_bind fun hlevel => ?_
  have hrec := hfits.records rfl block (by
    rw [fileBlockAt, hblock, Option.filter_some, if_pos (by rw [← hmb]; simpa using hmagic)])
    (by rw [← hlb]; exact not_not.1 hlevel)
  rw [← hnb] at hrec
  refine (h₁.claimExtents (fun e he => .inl he) hX hX' _).bind fun idx s₂ t₂ hc h₂ => ?_
  obtain ⟨-, rfl, hfree, -⟩ := (onExtents_claim hX h₁.ok _).ok hc
  have h₃ : XfsTwin self s₂ t₂ := ⟨h₂.1, by rw [h₂.2.2]; exact h₁.lt⟩
  rw [setInode_bind, setInode_bind, h₃.inodes]
  refine decodeExtents_follows _ (fun i _ hi => ?_) (by rw [putInode_extents, hfree, Nat.add_zero])
    (h₃.put h₃.lt _)
  exact xfsExtentAt_congr (E := E) hsame (by omega)

theorem processFileBtreeNode_follows (fuel : Nat) : ∀ {fsbno : Nat} {s t : Store Buf},
    (∀ r, Linked (fileKids E) ⟨false, fsbno⟩ r → FileFits E r) → XfsTwin self s t →
    Tracks (XfsTwin self) (FailsAgain uninit) (processFileBtreeNode E self fuel fsbno s)
      (processFileBtreeNode (E.again mpI mpX uninit stray) self fuel fsbno t) := by
  induction fuel with
  | zero => exact fun _ _ => tracks_of_not fun _ _ hr => by cases hr
  | succ fuel ih =>
    intro fsbno s t hfits ht
    have hfit := hfits _ .refl
    unfold processFileBtreeNode
    refine tracks_failIf_bind fun hmax => ?_
    refine (follows_devRead E.dev ht).bind fun _ s₁ t₁ _ h => tracks_assert_bind fun _ => ?_
    obtain ⟨h₁, block, hblock, hbytes, hsame⟩ := h
    obtain ⟨hm, hl, hn⟩ := header_congr (E := E) hsame hfit.header
    obtain ⟨hmb, hlb, hnb⟩ := header_congr (E := E) hbytes hfit.header
    rw [read_bind, read_bind, hm, hl, hn]
    refine tracks_failIf_bind fun hmagic => tracks_failIf_bind fun hlevel => ?_
    have hptr := lblockPointer_congr (E := E) hsame
    have hptrb := lblockPointer_congr (E := E) hbytes
    have hat : fileBlockAt E fsbno = some block := by
      rw [fileBlockAt, hblock, Option.filter_some, if_pos (by rw [← hmb]; simpa using hmagic)]
    have hpointers := hfit.pointers rfl block hat (by rw [← hlb]; exact hlevel)
    rw [← hnb] at hpointers
    have hkids : fileKids E ⟨false, fsbno⟩ = (List.range (blockNumrecs s₁.be)).map fun i =>
        ⟨blockLevel s₁.be == 1, lblockPointer E s₁.be i⟩ := by
      rw [fileKids, hat, hnb, hlb]
      simp only [hptrb]
      exact if_neg (by rw [← hlb]; simpa using hlevel)
    have hkid : ∀ i < blockNumrecs s₁.be, ∀ r,
        Linked (fileKids E) ⟨blockLevel s₁.be == 1, lblockPointer E s₁.be i⟩ r → FileFits E r := by
      intro i hi r hr
      refine hfits r (Relation.ReflTransGen.head ?_ hr)
      rw [hkids]
      exact List.mem_map_of_mem (List.mem_range.2 hi)
    apply tracks_forUp (fun _ _ => True)
    · exact fun _ _ _ _ _ => rfl
    · intro i s₂ t₂ _ hi h₂
      have hi : i < blockNumrecs s₁.be := of_decide_eq_true hi
      have hlink := hkid i hi
      have hptr' : lblockPointer (E.again mpI mpX uninit stray) t₁.be i = lblockPointer E s₁.be i :=
        (lblockPointer_stray (by omega) t₁.be).trans (hptr i)
      rw [hptr']
      by_cases h1 : blockLevel s₁.be = 1
      · rw [if_pos h1, if_pos h1]
        rw [h1] at hlink
        exact processFileBtreeLeaf_follows hX hX' (hlink _ .refl) h₂
      · rw [if_neg h1, if_neg h1]
        rw [show (blockLevel s₁.be == 1) = false from beq_eq_false_iff_ne.2 h1] at hlink
        exact ih hlink h₂
    · exact fun _ _ _ _ _ _ _ => trivial
    · trivial
    · exact h₁

theorem processDinodeFileBtreeRoot_follows (fuel : Nat)
    (hfits : ∀ r ∈ fileRoots E dinode, ∀ r', Linked (fileKids E) r r' → FileFits E r')
    (ht : XfsTwin self s t) :
    Tracks (XfsTwin self) (FailsAgain uninit) (processDinodeFileBtreeRoot E fuel dinode self s)
      (processDinodeFileBtreeRoot (E.again mpI mpX uninit stray) fuel dinode self t) := by
  by_cases hroot : FileRootInside E dinode
  swap
  · exact tracks_of_not fun _ _ hr => hroot (fileRootInside_of_ok hr)
  have hroot' : FileRootInside (E.again mpI mpX uninit stray) dinode := hroot
  rw [processDinodeFileBtreeRoot_eq hroot, processDinodeFileBtreeRoot_eq hroot']
  unfold fileBtreeFiling
  refine tracks_failIf_bind fun _ => ?_
  rw [inodeAt_bind, inodeAt_bind, ht.inodes]
  refine tracks_failIf_bind fun _ => ?_
  rw [read_bind, read_bind, setInode_bind, setInode_bind, ht.inodes, ht.extentsFree]
  refine follows_forM (fun p hp s₁ t₁ h₁ => ?_) (ht.put ht.lt _)
  have hlink := hfits _ (List.mem_map_of_mem hp)
  refine tracks_ite (fun h1 => ?_) fun h1 => ?_
  · rw [h1] at hlink
    exact processFileBtreeLeaf_follows hX hX' (hlink _ .refl) h₁
  · rw [show ((fileBtreePos E dinode).level == 1) = false from beq_eq_false_iff_ne.2 h1] at hlink
    exact processFileBtreeNode_follows hX hX' fuel hlink h₁

end

/-! ## `process_ino` -/

section
variable (hI : E.mpInodes.Bounded poolReserved inodeNbytes)
  (hX : E.mpExtents.Bounded poolReserved extentNbytes) (hI' : mpI.Bounded poolReserved inodeNbytes)
  (hX' : mpX.Bounded poolReserved extentNbytes)
include hI hX hI' hX'

theorem processFormat_follows {P : XalInode → Prop} {procIno procIno' : Nat → Nat → Xm Unit}
    (hm : MirrorsEntry E procIno) (hf : FollowsEntry uninit P procIno procIno') {fuel : Nat}
    (h : Ready self s)
    (hP : (s.inodes.memory self).ftype = ftDir → ∀ l, dirListing E dinode = some l → ∀ e ∈ l, P e)
    (hfits : (s.inodes.memory self).ftype = ftRegFile → diFormat E dinode = fmtBtree →
      ∀ r ∈ fileRoots E dinode, ∀ r', Linked (fileKids E) r r' → FileFits E r')
    (hin : (s.inodes.memory self).ftype = ftDir → DirInside E dinode) (ht : XfsTwin self s t) :
    Tracks (XfsTwin self) (FailsAgain uninit) (processFormat E procIno fuel dinode self s)
      (processFormat (E.again mpI mpX uninit stray) procIno' fuel dinode self t) := by
  have hfail : ∀ {e : Err} {s t : Store Buf}, Tracks (XfsTwin self) (FailsAgain uninit)
      ((Cm.fail e : Xm Unit) s) ((Cm.fail e : Xm Unit) t) := by
    intro e s t
    exact tracks_of_not fun _ _ hr => by cases hr
  unfold processFormat
  rw [inodeAt_bind, inodeAt_bind, ht.inodes]
  refine tracks_ite (fun hb => ?_) fun _ => tracks_ite (fun he => ?_) fun _ =>
    tracks_ite (fun hl => ?_) fun _ => tracks_ite (fun _ => hfail) fun _ => tracks_ret ht ()
  · refine tracks_ite (fun hd => ?_) fun _ => tracks_ite (fun hr => ?_) fun _ => hfail
    · rw [read_bind, read_bind, setInode_bind, setInode_bind, ht.inodes, ht.free]
      exact processDinodeDirBtreeRoot_follows hm hf hI hI' hb (hin hd) (hP hd) (ht.put ht.lt _)
    · exact processDinodeFileBtreeRoot_follows hX hX' fuel (hfits hr hb) ht
  · refine tracks_ite (fun hd => ?_) fun _ => tracks_ite (fun _ => ?_) fun _ => hfail
    · exact processDinodeDirExtents_follows hm hf hI hI' h he (hin hd) (hP hd) ht
    · exact processDinodeFileExtents_follows hX hX' ht
  · refine tracks_ite (fun hd => ?_) fun _ => hfail
    exact processDinodeDirLocal_follows hm hf hI hI' h hl (hP hd) ht

/-- On the entries that the directories list, `process_ino` does the same again (module doc). -/
theorem processIno_follows (hfits : ContentsFit E) (fuel : Nat) :
    FollowsEntry uninit (fun e => ∃ q, XfsListed E q e) (processIno E fuel)
      (processIno (E.again mpI mpX uninit stray) fuel) := by
  induction fuel with
  | zero => exact fun _ _ _ _ _ _ _ _ => tracks_of_not fun _ _ hr => by cases hr
  | succ fuel ih =>
    rintro e d s t ⟨q, hq⟩ h hft ht
    unfold processIno
    have hget : ∀ r, dinodesGet (E.again mpI mpX uninit stray) r = dinodesGet E r := fun _ => rfl
    rw [hget]
    unfold dinodesGet
    cases hd : E.dinodesMap e.ino with
    | none => exact tracks_of_not fun _ _ hr => by cases hr
    | some dinode =>
      rw [ret_bind, ret_bind]
      refine tracks_assert_bind fun _ => ?_
      refine (follows_deriveFtype (diMode E dinode) ht).bind fun _ s₁ t₁ hr h₁ => ?_
      obtain ⟨hready, htype⟩ := h.deriveFtype_entry hd hft hr
      rw [setInode_bind, setInode_bind, h₁.inodes]
      refine processFormat_follows hI hX hI' hX' (processIno_mirrors hI hX fuel) ih
        (hready.put hready.blank) (fun hdir l hl c hc => ?_) (fun hreg hfmt => ?_) (fun hdir => ?_)
        (h₁.put h₁.lt _)
      · rw [putInode_same] at hdir
        have hkid : c ∈ entryKids E e := by
          rw [entryKids, hd]
          show c ∈ if entryType E e = ftDir then (dirListing E dinode).getD [] else []
          rw [if_pos (htype.symm.trans hdir), hl]
          exact hc
        exact ⟨_, hq.kid hkid⟩
      · rw [putInode_same] at hreg
        exact (hfits q e hq).1 (htype.symm.trans hreg) dinode hd hfmt
      · rw [putInode_same] at hdir
        exact (hfits q e hq).2 (htype.symm.trans hdir) dinode hd

end

end Xallib
