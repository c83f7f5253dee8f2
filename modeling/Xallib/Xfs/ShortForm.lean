import Xallib.E2E.Machine
import Xallib.Xfs.Proof.Mirror

/-!
# Short-form directories

The entries of a small directory stand in its inode: `SfDir.bytes` is how XFS writes them. All inode
numbers, that of the parent included, have 8 bytes if one of them needs more than 4, and `i8count`
tells how many do. `process_dinode_dir_local` takes `i8count` for the number of entries with 8
bytes: `localListing_decodes_iff` says which directories it reads back.
-/

namespace Xallib

open Lib Lib.Buf Lib.Cm Lib.Run

/-! ## The format -/

structure SfEntry where
  name : List UInt8
  offset : Nat
  ftype : UInt8
  ino : Nat
  name_pos : 0 < name.length
  name_lt : name.length < 2 ^ 8
  ino_lt : ino < 2 ^ 56

/-- The number of inode numbers above `UINT32_MAX`. -/
def wideInos (parent : Nat) (entries : List SfEntry) : Nat :=
  (parent :: entries.map SfEntry.ino).countP (UINT32_MAX < ·)

/-- A directory; the header has one byte for each of the two counts. -/
structure SfDir where
  parent : Nat
  entries : List SfEntry
  parent_lt : parent < 2 ^ 56
  count_lt : entries.length < 2 ^ 8
  i8count_lt : wideInos parent entries < 2 ^ 8

/-- An entry whose inode number has `width` bytes. -/
def SfEntry.bytes (width : Nat) (e : SfEntry) : List UInt8 :=
  UInt8.ofNat e.name.length :: (beBytes 2 e.offset ++ (e.name ++ e.ftype :: beBytes width e.ino))

/-- What the index stores for an entry. -/
def SfEntry.inode (e : SfEntry) : XalInode :=
  { (default : XalInode) with
    namelen := e.name.length
    name := e.name
    ftype := e.ftype.toNat
    ino := e.ino }

namespace SfDir

variable (d : SfDir)

def i8count : Nat := wideInos d.parent d.entries

def width : Nat := if d.i8count ≠ 0 then 8 else 4

def bytes : List UInt8 :=
  UInt8.ofNat d.entries.length :: UInt8.ofNat d.i8count ::
    (beBytes d.width d.parent ++ d.entries.flatMap (SfEntry.bytes d.width))

/-- The directory has no entry behind the first `i8count` ones, unless all inode numbers are narrow.
(An inode number 0 at the end has the same bytes in either width; no entry has it.) -/
def ReadBack : Prop :=
  d.i8count = 0 ∨ ∀ e, d.entries[d.i8count]? = some e → e.ino = 0 ∧ d.entries.length = d.i8count + 1

end SfDir

/-! ## Decoding the entries -/

section
variable {E : XfsEnv} {cursor : Nat}

/-- The fields of an entry, and where its inode number is. -/
theorem SfEntry.decode {width : Nat} {e : SfEntry} {rest : List UInt8}
    (h : Has E.dinodes cursor (e.bytes width ++ rest)) :
    (E.dinodes cursor).toNat = e.name.length ∧ E.dinodes.slice (cursor + 3) e.name.length = e.name ∧
      E.dinodes (cursor + 3 + e.name.length) = e.ftype ∧
      Has E.dinodes (cursor + 3 + e.name.length + 1) (beBytes width e.ino) ∧
      Has E.dinodes (cursor + 3 + e.name.length + 1 + width) rest := by
  rw [SfEntry.bytes, List.cons_append, has_cons, List.append_assoc, has_append, length_beBytes,
    List.append_assoc, has_append, List.cons_append, has_cons, has_append, length_beBytes] at h
  obtain ⟨hlen, -, hname, hftype, hino, hrest⟩ := h
  refine ⟨?_, hname, hftype, hino, hrest⟩
  rw [hlen, UInt8.toNat_ofNat', Nat.mod_eq_of_lt e.name_lt]

/-- Narrow inode numbers are read back. -/
theorem localList_narrow {entries : List SfEntry} (hino : ∀ e ∈ entries, e.ino < 2 ^ 32) :
    ∀ {cursor : Nat}, Has E.dinodes cursor (entries.flatMap (SfEntry.bytes 4)) →
      localList E entries.length cursor 0 = entries.map SfEntry.inode := by
  induction entries with
  | nil => exact fun _ => rfl
  | cons e entries ih =>
    intro cursor h
    rw [List.forall_mem_cons] at hino
    rw [List.flatMap_cons] at h
    obtain ⟨hlen, hname, hftype, hat, hrest⟩ := SfEntry.decode h
    simp only [List.length_cons, localList, hlen, hname, hftype, hat.be32 hino.1, ne_eq, not_true,
      if_false, List.map_cons]
    rw [ih hino.2 hrest]
    rfl

/-- Wide ones, where `k` is left of `i8count`. -/
theorem localList_wide {entries : List SfEntry} : ∀ {cursor k : Nat},
    Has E.dinodes cursor (entries.flatMap (SfEntry.bytes 8)) →
      (localList E entries.length cursor k = entries.map SfEntry.inode ↔
        ∀ e, entries[k]? = some e → e.ino = 0 ∧ entries.length = k + 1) := by
  induction entries with
  | nil =>
    intro cursor k _
    exact iff_of_true rfl fun e he => by cases he
  | cons e entries ih =>
    intro cursor k h
    rw [List.flatMap_cons] at h
    obtain ⟨hlen, hname, hftype, hat, hrest⟩ := SfEntry.decode h
    have hlt := e.ino_lt
    cases k with
    | succ k =>
      simp only [List.length_cons, localList, hlen, hname, hftype, hat.be64 (by omega), ne_eq,
        Nat.succ_ne_zero, not_false_eq_true, if_true, List.map_cons, Nat.add_sub_cancel,
        List.getElem?_cons_succ, Nat.add_right_cancel_iff]
      rw [List.cons.injEq, ih hrest]
      exact and_iff_right rfl
    | zero =>
      have hhigh : be32 E.dinodes (cursor + 3 + e.name.length + 1) = e.ino / 2 ^ 32 := by
        rw [beBytes_add 4 4, has_append] at hat
        exact hat.1.be32 (by omega)
      simp only [List.length_cons, localList, hlen, hname, hftype, hhigh, ne_eq, not_true, if_false,
        List.map_cons, List.getElem?_cons_zero, Option.some.injEq, forall_eq', List.cons.injEq,
        Nat.zero_add, Nat.add_eq_right, List.length_eq_zero_iff]
      constructor
      · rintro ⟨hhead, htail⟩
        have hzero : e.ino = 0 := by
          have hino : e.ino / 2 ^ 32 = e.ino := congrArg XalInode.ino hhead
          omega
        refine ⟨hzero, ?_⟩
        cases entries with
        | nil => rfl
        | cons e' entries =>
          -- the length of the next name is read from the inode number
          have hnext : E.dinodes (cursor + 3 + e.name.length + 1 + 4) = 0 := by
            rw [hzero, beBytes_add 4 4, has_append, length_beBytes] at hat
            obtain ⟨-, hlow⟩ := hat
            rw [beBytes, has_cons] at hlow
            exact hlow.1
          have hnamelen := congrArg XalInode.namelen (List.cons.inj htail).1
          simp only [hnext] at hnamelen
          exact absurd hnamelen.symm (Nat.pos_iff_ne_zero.1 e'.name_pos)
      · rintro ⟨hzero, rfl⟩
        refine ⟨?_, rfl⟩
        rw [hzero]
        simp only [SfEntry.inode, hzero, Nat.zero_div]

theorem mem_wideInos {d : SfDir} (h0 : d.i8count = 0) : ∀ e ∈ d.entries, e.ino < 2 ^ 32 := by
  intro e he
  rw [SfDir.i8count, wideInos, List.countP_eq_zero] at h0
  have hle := h0 e.ino (List.mem_cons_of_mem _ (List.mem_map_of_mem he))
  rw [decide_eq_true_eq, UINT32_MAX] at hle
  omega

/-- The entries behind the header. -/
theorem SfDir.localList_iff (d : SfDir) {dinode : Nat} (h : Has E.dinodes (dfork dinode) d.bytes) :
    (E.dinodes (dfork dinode)).toNat = d.entries.length ∧
      (localList E d.entries.length
        (dfork dinode + 2 + if (E.dinodes (dfork dinode + 1)).toNat ≠ 0 then 8 else 4)
        (E.dinodes (dfork dinode + 1)).toNat = d.entries.map SfEntry.inode ↔ d.ReadBack) := by
  rw [SfDir.bytes, has_cons, has_cons, has_append, length_beBytes] at h
  obtain ⟨hcount, hi8, -, hentries⟩ := h
  have hi8' : (E.dinodes (dfork dinode + 1)).toNat = d.i8count := by
    rw [hi8, UInt8.toNat_ofNat', Nat.mod_eq_of_lt]
    exact d.i8count_lt
  refine ⟨by rw [hcount, UInt8.toNat_ofNat', Nat.mod_eq_of_lt d.count_lt], ?_⟩
  rw [hi8', SfDir.ReadBack]
  rw [SfDir.width] at hentries
  by_cases h0 : d.i8count = 0
  · rw [if_neg (not_not.2 h0)] at hentries ⊢
    rw [h0]
    exact iff_of_true (localList_narrow (mem_wideInos h0) hentries) (.inl rfl)
  · rw [if_pos h0] at hentries ⊢
    rw [localList_wide hentries, or_iff_right h0]

end

/-! ## The listing -/

section
variable {E : XfsEnv} {self dinode : Nat} {s s' : Store Buf}

/-- `process_dinode_dir_local` up to the end of its first loop. -/
def localListing (E : XfsEnv) (dinode self : Nat) : Xm Unit := do
  assert (dfork dinode + 2 ≤ dinodesRoom E.sb)
  let count := (E.dinodes (dfork dinode)).toNat
  let i8count := (E.dinodes (dfork dinode + 1)).toNat
  setInode self fun v => { v with content := { v.content with count } }
  let idx ← onInodes (xalPoolClaimInodes E.mpInodes count)
  setInode self fun v => { v with content := { v.content with idx } }
  localEntries E self count 0 (dfork dinode + 2 + if i8count ≠ 0 then 8 else 4) i8count

theorem processDinodeDirLocal_eq (procIno : Nat → Nat → Xm Unit) (s : Store Buf) :
    processDinodeDirLocal E procIno dinode self s = (localListing E dinode self >>= fun _ =>
      forUp (fun _ i => i < (E.dinodes (dfork dinode)).toNat) (fun i => do
        let v ← inodeAt self
        setInode (v.content.idx + i) fun dentry => { dentry with parentIdx := self }
        let dentry ← inodeAt (v.content.idx + i)
        procIno dentry.ino (v.content.idx + i)) (E.dinodes (dfork dinode)).toNat 0) s := by
  unfold processDinodeDirLocal localListing
  rw [bind_assoc_apply]
  refine bind_congr_apply _ fun _ t => ?_
  rw [setInode_bind, bind_assoc_apply, setInode_bind, bind_assoc_apply]
  exact bind_congr_apply _ fun idx t => (bind_assoc_apply _ _ _ t).symm

theorem localEntries_free {u : Unit} (n : Nat) : ∀ {i cursor i8count : Nat} {s s' : Store Buf},
    localEntries E self n i cursor i8count s = .ok u s' → s'.inodes.free = s.inodes.free := by
  induction n with
  | zero =>
    intro i cursor i8count s s' h
    rw [(Run.ok.inj h).2]
  | succ n ih =>
    intro i cursor i8count s s' h
    unfold localEntries at h
    rw [inodeAt_bind] at h
    obtain ⟨-, h⟩ := assert_bind_ok.1 h
    rw [setInode_bind] at h
    rw [ih h, putInode_free]

/-- The slots that were claimed are the children of `self`, and hold the entries as decoded. -/
theorem localListing_children (hI : E.mpInodes.Bounded poolReserved inodeNbytes) (hok : StoreOk s)
    (hself : self < s.inodes.free) (hr : localListing E dinode self s = .ok () s') :
    (s'.inodes.memory self).content = ⟨s.inodes.free, (E.dinodes (dfork dinode)).toNat⟩ ∧
      s'.inodes.free = s.inodes.free + (E.dinodes (dfork dinode)).toNat ∧
      childrenOf s' self = localList E (E.dinodes (dfork dinode)).toNat
        (dfork dinode + 2 + if (E.dinodes (dfork dinode + 1)).toNat ≠ 0 then 8 else 4)
        (E.dinodes (dfork dinode + 1)).toNat := by
  unfold localListing at hr
  obtain ⟨-, hr⟩ := assert_bind_ok.1 hr
  rw [setInode_bind] at hr
  obtain ⟨idx, s₁, hclaim, hr⟩ := bind_ok.1 hr
  obtain ⟨-, rfl, hfree, hmem, -, -⟩ := (onInodes_claim hI (hok.putInode hself _) _).ok hclaim
  rw [setInode_bind] at hr
  rw [putInode_free] at hfree hr
  have hself₁ : (s₁.inodes.memory self).content.count = (E.dinodes (dfork dinode)).toNat := by
    rw [hmem, putInode_same]
  obtain ⟨hkeep, hlist⟩ := localEntries_lists hself _ (by rw [putInode_same])
    (fun j _ hj => by
      rw [putInode_other _ _ _ (by omega), hmem, putInode_other _ _ _ (by omega)]
      exact hok.inodes.clean _ (Nat.le_add_right _ _)) hr
  have hcontent : (s'.inodes.memory self).content =
      ⟨s.inodes.free, (E.dinodes (dfork dinode)).toNat⟩ := by
    rw [hkeep self (by omega), putInode_same]
    simp only [hself₁]
  refine ⟨hcontent, ?_, ?_⟩
  · rw [localEntries_free _ hr, putInode_free, hfree]
  · rw [childrenOf, hcontent]
    refine List.ext_getElem (by simp [length_localList]) fun i h1 h2 => ?_
    rw [List.getElem_map, List.getElem_range]
    exact hlist i _ (List.getElem?_eq_getElem h2)

end

/-- The entries of the directory are in the slots that were claimed, as the children of `slot`. -/
structure SfListed (d : SfDir) (slot : Nat) (s s' : Store Buf) : Prop where
  content : (s'.inodes.memory slot).content = ⟨s.inodes.free, d.entries.length⟩
  free : s'.inodes.free = s.inodes.free + d.entries.length
  children : childrenOf s' slot = d.entries.map SfEntry.inode

/-- A directory is read back exactly if no entry is behind those that `i8count` counts (module
doc). -/
theorem localListing_decodes_iff (E : XfsEnv) (hI : E.mpInodes.Bounded poolReserved inodeNbytes)
    (d : SfDir) (dinode self : Nat) (s s' : Store Buf) (hok : StoreOk s)
    (hself : self < s.inodes.free)
    (hd : Has E.dinodes (dfork dinode) d.bytes) (hr : localListing E dinode self s = .ok () s') :
    SfListed d self s s' ↔ d.ReadBack := by
  obtain ⟨hcontent, hfree, hch⟩ := localListing_children hI hok hself hr
  obtain ⟨hcount, hiff⟩ := d.localList_iff hd
  rw [hcount] at hcontent hfree hch
  rw [← hiff, ← hch]
  exact ⟨fun h => h.children, fun h => ⟨hcontent, hfree, h⟩⟩

/-! ## Two entries -/

/-- A directory of two entries, `a` and `b`. -/
def twoEntries (parent ino ino' : Nat) (hp : parent < 2 ^ 56) (h : ino < 2 ^ 56)
    (h' : ino' < 2 ^ 56) :
    SfDir where
  parent
  entries := [⟨[97], 0, 1, ino, by decide, by decide, h⟩,
    ⟨[98], 0, 1, ino', by decide, by decide, h'⟩]
  parent_lt := hp
  count_lt := by show 2 < 2 ^ 8; decide
  i8count_lt := Nat.lt_of_le_of_lt List.countP_le_length (by show 3 < 2 ^ 8; decide)

/-- Inode numbers of 4 bytes. -/
def narrowDir : SfDir := twoEntries 128 131 132 (by decide) (by decide) (by decide)

/-- The parent has an inode number of 8 bytes. -/
def mixedDir : SfDir := twoEntries (2 ^ 33) 131 132 (by decide) (by decide) (by decide)

def sfEnv (d : SfDir) : XfsEnv := xfsTableEnv smallSb (ofList 176 d.bytes) fun _ => none

theorem localListing_narrow : ∃ s', localListing (sfEnv narrowDir) 0 0 rootClaimed = .ok () s' ∧
    childrenOf s' 0 = narrowDir.entries.map SfEntry.inode := by
  have hrun : (localListing (sfEnv narrowDir) 0 0 rootClaimed).okWith (fun _ => true) = true := by
    decide +kernel
  obtain ⟨_, s', hr, -⟩ := exists_of_okWith hrun
  have hlisted := (localListing_decodes_iff (sfEnv narrowDir)
    (mprotectWithin_bounded _ _ _) narrowDir 0
    0 rootClaimed s' rootClaimed_ok Nat.zero_lt_one (has_ofList _ _) hr).2 (.inl (by decide))
  exact ⟨s', hr, hlisted.children⟩

/-- The second entry is read with the upper half of its inode number. -/
theorem localListing_mixed : ∃ s', localListing (sfEnv mixedDir) 0 0 rootClaimed = .ok () s' ∧
    Has (sfEnv mixedDir).dinodes (dfork 0) mixedDir.bytes ∧
    (childrenOf s' 0).map XalInode.ino = [131, 0] ∧ ¬SfListed mixedDir 0 rootClaimed s' := by
  have hrun : (localListing (sfEnv mixedDir) 0 0 rootClaimed).okWith
      (fun s' => (childrenOf s' 0).map XalInode.ino == [131, 0]) = true := by decide +kernel
  obtain ⟨_, s', hr, hinos⟩ := exists_of_okWith hrun
  rw [beq_iff_eq] at hinos
  refine ⟨s', hr, has_ofList _ _, hinos, fun h => ?_⟩
  rw [h.children] at hinos
  exact absurd hinos (by decide)

end Xallib
