import Xallib.Xfs.Proof.Index

/-!
# The entries of a directory block

A data block of a directory is a sequence of items from offset 64 on: entries (`LiveEntry`) and
regions that a deletion has left unused (`UnusedRegion`). The loop over a block takes an unused
region for the end of the data: of the entries it lists exactly those before the first one
(`dblockEntries_items`). So it lists all entries of a block if and only if none comes after an
unused region (`dblockEntries_lists_iff`).
-/

namespace Xallib

open Lib Lib.Forest Lib.Cm Lib.Run Lib.Buf

/-! ## The format -/

/-- The length of an entry: the inode number, the length of the name, the name, the type and the
tag, padded to 8 bytes. -/
def entryNbytes (namelen : Nat) : Nat := (8 + 1 + namelen + 1 + 2 + 7) / 8 * 8

/-- An entry; `tail` is the padding and the tag. -/
structure LiveEntry where
  ino : Nat
  name : List UInt8
  ftype : UInt8
  tail : List UInt8
  ino_pos : 0 < ino
  ino_top : ino / 2 ^ 48 < 0xffff
  name_pos : 0 < name.length
  name_le : name.length ≤ 255
  tail_length : 8 + 1 + name.length + 1 + tail.length = entryNbytes name.length

/-- An unused region; `rest` is what is left of it behind its tag and its length. -/
structure UnusedRegion where
  length : Nat
  rest : List UInt8
  eight_dvd : 8 ∣ length
  eight_le : 8 ≤ length
  length_lt : length < 2 ^ 16
  rest_length : 4 + rest.length = length

inductive DirItem
  | live (e : LiveEntry)
  | unused (r : UnusedRegion)

namespace DirItem

def bytes : DirItem → List UInt8
  | live e => beBytes 8 e.ino ++ UInt8.ofNat e.name.length :: (e.name ++ e.ftype :: e.tail)
  | unused r => beBytes 2 0xffff ++ (beBytes 2 r.length ++ r.rest)

def isLive : DirItem → Bool
  | live _ => true
  | unused _ => false

/-- The entry, unless it is `.` or `..`. -/
def entry? : DirItem → Option LiveEntry
  | live e => if e.name = [dot] ∨ e.name = [dot, dot] then none else some e
  | unused _ => none

end DirItem

/-- The bytes of a sequence of items. -/
def layout (items : List DirItem) : List UInt8 := items.flatMap DirItem.bytes

/-- The entries to list. -/
def entries (items : List DirItem) : List LiveEntry := items.filterMap DirItem.entry?

/-- The inode that stands for an entry of the directory `d`. -/
def LiveEntry.inode (e : LiveEntry) (d : Nat) : XalInode :=
  { (default : XalInode) with
    ino := e.ino, namelen := e.name.length, name := e.name, ftype := e.ftype.toNat, parentIdx := d }

/-- The entries to list before the first unused region. -/
def entriesBefore (items : List DirItem) : List LiveEntry :=
  entries (items.takeWhile DirItem.isLive)

/-- The entries to list after the first unused region. -/
def entriesAfter (items : List DirItem) : List LiveEntry :=
  entries (items.dropWhile DirItem.isLive)

theorem entries_split (items : List DirItem) :
    entries items = entriesBefore items ++ entriesAfter items := by
  rw [entriesBefore, entriesAfter, entries, entries, entries, ← List.filterMap_append,
    List.takeWhile_append_dropWhile]

theorem entriesBefore_unused (r : UnusedRegion) (items : List DirItem) :
    entriesBefore (.unused r :: items) = [] := rfl

theorem entriesBefore_dot {e : LiveEntry} (h : e.name = [dot] ∨ e.name = [dot, dot])
    (items : List DirItem) : entriesBefore (.live e :: items) = entriesBefore items := by
  have : DirItem.entry? (.live e) = none := if_pos h
  exact List.filterMap_cons_none this

theorem entriesBefore_live {e : LiveEntry} (h : ¬(e.name = [dot] ∨ e.name = [dot, dot]))
    (items : List DirItem) : entriesBefore (.live e :: items) = e :: entriesBefore items := by
  have : DirItem.entry? (.live e) = some e := if_neg h
  exact List.filterMap_cons_some this

/-! ## Decoding one item -/

section
variable {b : Buf} {o : Nat}

theorem decodeDentry_unused {r : UnusedRegion} (h : Has b o (DirItem.unused r).bytes) :
    decodeDentry b o = (r.length, default) := by
  simp only [DirItem.bytes, has_append, length_beBytes] at h
  obtain ⟨htag, hlen, -⟩ := h
  rw [decodeDentry, htag.be16 (by decide), if_pos rfl, hlen.be16 r.length_lt]

theorem decodeDentry_live {e : LiveEntry} (h : Has b o (DirItem.live e).bytes) :
    decodeDentry b o = ((DirItem.live e).bytes.length,
      { (default : XalInode) with
        ino := e.ino, namelen := e.name.length, name := e.name, ftype := e.ftype.toNat }) := by
  have hn := e.name_le
  simp only [DirItem.bytes, has_append, has_cons, length_beBytes] at h
  obtain ⟨hino, hlen, hname, hft, -⟩ := h
  have hino : be64 b o = e.ino := hino.be64 (by have := e.ino_top; omega)
  have hlen : (b (o + 8)).toNat = e.name.length := by
    rw [hlen, UInt8.toNat_ofNat', Nat.mod_eq_of_lt (by omega)]
  have hname : b.slice (o + 9) e.name.length = e.name := hname
  have htag : be16 b o ≠ 0xffff := by
    rw [be16_eq_div, hino]
    exact Nat.ne_of_lt e.ino_top
  have hbytes : (DirItem.live e).bytes.length = (8 + 1 + 1 + 2 + e.name.length + 7) / 8 * 8 := by
    have := e.tail_length
    simp only [entryNbytes] at this
    simp only [DirItem.bytes, List.length_append, List.length_cons, length_beBytes]
    omega
  rw [decodeDentry, if_neg htag, hbytes]
  simp only [hino, hlen, hname]
  rw [show o + 9 + e.name.length = o + 8 + 1 + e.name.length by omega, hft]

theorem isDotDentry_live (e : LiveEntry) (v : XalInode) (hname : v.name = e.name)
    (hlen : v.namelen = e.name.length) :
    isDotDentry v = true ↔ e.name = [dot] ∨ e.name = [dot, dot] := by
  rw [isDotDentry, XalInode.nameAt, XalInode.nameAt, hname, hlen]
  rcases hn : e.name with _ | ⟨x, _ | ⟨y, _ | ⟨z, l⟩⟩⟩ <;> simp

end

/-! ## The loop over a block -/

/-- The inodes in the range of children of `d`. -/
def childrenOf (s : Store Buf) (d : Nat) : List XalInode :=
  (List.range (s.inodes.memory d).content.count).map fun i =>
    s.inodes.memory ((s.inodes.memory d).content.idx + i)

section
variable {E : XfsEnv} {self : Nat} {s₀ s : Store Buf}

/-- One more child. -/
theorem Listing.children_add (h : Listing (Kid self) self s₀ s) {s₁ s₂ : Store Buf}
    (hok : StoreOk s₁) (hfree : s₁.inodes.free = s.inodes.free + 1)
    (hmem : s₁.inodes.memory = s.inodes.memory) {v : XalInode}
    (hr : countDentry self (s₁.putInode s.inodes.free v) = .ok () s₂) :
    childrenOf s₂ self = childrenOf s self ++ [v] := by
  have hlt := h.lt
  have hle := h.le
  have hbound := hok.free_lt
  have hne : self ≠ s.inodes.free := by omega
  rw [countDentry, setInode_apply, putInode_other _ _ _ hne, hmem, h.dir] at hr
  obtain rfl := (Run.ok.inj hr).2
  rw [childrenOf, childrenOf, putInode_same, h.dir]
  have hcount : (s.inodes.free - s₀.inodes.free + 1) % 2 ^ 32 =
      s.inodes.free - s₀.inodes.free + 1 := Nat.mod_eq_of_lt (by omega)
  simp only [hcount, List.range_succ, List.map_append, List.map_cons, List.map_nil]
  congr 1
  · refine List.map_congr_left fun i hi => ?_
    rw [List.mem_range] at hi
    rw [putInode_other _ _ _ (by omega), putInode_other _ _ _ (by omega), hmem]
  · rw [show s₀.inodes.free + (s.inodes.free - s₀.inodes.free) = s.inodes.free by omega,
      putInode_other _ _ _ hne.symm, putInode_same]

/-- The loop lists the entries before the first unused region, or a claim has failed. -/
theorem dblockEntries_items (hI : E.mpInodes.Bounded poolReserved inodeNbytes) {dblock : Buf}
    (items : List DirItem) : ∀ {fuel ofz : Nat} {s : Store Buf}, Listing (Kid self) self s₀ s →
      Has dblock ofz (layout items) → ofz + (layout items).length = E.sb.dirblocksize →
      items.length ≤ fuel →
      (∃ s', dblockEntries E dblock self fuel ofz s = .ok () s' ∧ childrenOf s' self =
        childrenOf s self ++ (entriesBefore items).map (·.inode self)) ∨
      ∃ e s', dblockEntries E dblock self fuel ofz s = .fail e s' := by
  induction items with
  | nil =>
    intro fuel ofz s _ _ hend _
    have hend : ¬ofz < E.sb.dirblocksize := by
      simp only [layout, List.flatMap_nil, List.length_nil] at hend; omega
    refine .inl ⟨s, ?_, by simp [entriesBefore, entries]⟩
    cases fuel with
    | zero => simp only [dblockEntries, if_neg hend]
    | succ fuel => rw [dblockEntries, if_neg hend, ret_apply]
  | cons item items ih =>
    intro fuel ofz s h hb hend hfuel
    simp only [layout, List.flatMap_cons, has_append, List.length_append] at hb hend
    obtain ⟨hitem, hrest⟩ := hb
    obtain ⟨fuel, rfl⟩ : ∃ m, fuel = m + 1 := ⟨fuel - 1, by
      rw [List.length_cons] at hfuel; omega⟩
    rw [List.length_cons] at hfuel
    cases item with
    | unused r =>
      have hlt : ofz < E.sb.dirblocksize := by
        simp only [DirItem.bytes, List.length_append, length_beBytes] at hend; omega
      refine .inl ⟨s, ?_, by simp [entriesBefore_unused]⟩
      rw [dblockEntries, if_pos hlt]
      simp only [decodeDentry_unused hitem]
      rw [if_pos (.inl rfl), ret_apply]
    | live e =>
      have hlt : ofz < E.sb.dirblocksize := by
        simp only [DirItem.bytes, List.length_append, length_beBytes] at hend; omega
      have hpos := e.name_pos
      have hino := e.ino_pos
      have hrest := fun s h => @ih fuel (ofz + (DirItem.live e).bytes.length) s h hrest
        (by rw [← hend, layout]; omega) (by omega)
      rw [dblockEntries, if_pos hlt]
      simp only [decodeDentry_live hitem]
      rw [if_neg (by omega)]
      by_cases hd : e.name = [dot] ∨ e.name = [dot, dot]
      · rw [if_pos ((isDotDentry_live e _ rfl rfl).2 hd)]
        rw [entriesBefore_dot hd]
        exact hrest s h
      · rw [if_neg (mt (isDotDentry_live e _ rfl rfl).1 hd), entriesBefore_live hd]
        have hclaim := onInodes_claim hI h.ok 1
        have hret : (onInodes (xalPoolClaimInodes E.mpInodes 1) s).Returns :=
          returns_zoom (claimInodes_returns 1 _)
        rcases hret.cases with ⟨slot, s₁, hc⟩ | ⟨err, s₁, hc⟩
        · obtain ⟨hok, rfl, hfree, hmem, hext, -⟩ := hclaim.ok hc
          rw [bind_of_ok hc, setInode_bind]
          have hadd := h.add hok hfree hmem hext (v := e.inode self) ⟨rfl, rfl⟩
          -- counting the child is one write
          obtain ⟨s₂, hcount⟩ : ∃ s₂, countDentry self (s₁.putInode s.inodes.free (e.inode self)) =
              .ok () s₂ := ⟨_, rfl⟩
          have hcons := h.children_add hok hfree hmem hcount
          have hstep := bind_of_ok (f := fun _ => dblockEntries E dblock self fuel
            (ofz + (DirItem.live e).bytes.length)) hcount
          rcases hrest s₂ (hadd.ok hcount) with ⟨s', hr, hch⟩ | ⟨err, s', hr⟩
          · refine .inl ⟨s', hstep.trans hr, ?_⟩
            rw [hch, hcons, List.append_assoc, List.map_cons]
            rfl
          · exact .inr ⟨err, s', hstep.trans hr⟩
        · exact .inr ⟨err, s₁, bind_of_fail hc⟩

theorem DirItem.length_bytes_pos (item : DirItem) : 0 < item.bytes.length := by
  cases item <;> simp [bytes, beBytes]

theorem length_le_layout (items : List DirItem) : items.length ≤ (layout items).length := by
  induction items with
  | nil => exact Nat.le_refl _
  | cons item items ih =>
    have := item.length_bytes_pos
    simp only [layout, List.flatMap_cons, List.length_append, List.length_cons] at ih ⊢
    omega

/-- The loop appends all entries of a block to the children, if and only if none comes after an
unused region. -/
theorem dblockEntries_lists_iff {dblock : Buf} {items : List DirItem}
    (hI : E.mpInodes.Bounded poolReserved inodeNbytes) (h : Listing (Kid self) self s₀ s)
    (hb : Has dblock 64 (layout items)) (hlen : 64 + (layout items).length = E.sb.dirblocksize)
    (hclaims : ∀ e s', dblockEntries E dblock self (E.sb.dirblocksize + 1) 64 s ≠ .fail e s') :
    (∃ s', dblockEntries E dblock self (E.sb.dirblocksize + 1) 64 s = .ok () s' ∧
      childrenOf s' self = childrenOf s self ++ (entries items).map (·.inode self)) ↔
    entriesAfter items = [] := by
  have hfuel : items.length ≤ E.sb.dirblocksize + 1 := by
    have := length_le_layout items
    omega
  rcases dblockEntries_items hI items h hb hlen hfuel with ⟨s', hr, hch⟩ | ⟨e, s', hr⟩
  · rw [hr]
    constructor
    · rintro ⟨t, ht, hall⟩
      obtain rfl := (Run.ok.inj ht).2
      rw [hch, entries_split items, List.map_append] at hall
      have := congrArg List.length hall
      simp only [List.length_append, List.length_map] at this
      exact List.eq_nil_of_length_eq_zero (by omega)
    · intro ha
      refine ⟨s', rfl, ?_⟩
      rw [hch, entries_split, ha, List.append_nil]
  · exact absurd hr (hclaims e s')

end

/-! ## Blocks of two entries -/

/-- The entry of a file with a name of one byte, and inode number 131. -/
def smallEntry (name : UInt8) : LiveEntry where
  ino := 131
  name := [name]
  ftype := 1
  tail := [0, 0, 0, 0, 0]
  ino_pos := by decide
  ino_top := by decide
  name_pos := Nat.one_pos
  name_le := by simp
  tail_length := by simp [entryNbytes]

/-- An unused region of `8 * n` bytes. -/
def unusedRegion (n : Nat) (h0 : 0 < n) (h : n < 2 ^ 13) : UnusedRegion where
  length := 8 * n
  rest := List.replicate (8 * n - 4) 0
  eight_dvd := Nat.dvd_mul_right 8 n
  eight_le := by omega
  length_lt := by omega
  rest_length := by rw [List.length_replicate]; omega

/-- A disk with directory blocks of 1024 bytes. -/
def smallBlocks : XfsEnv :=
  { mpInodes := mprotectWithin poolReserved inodeNbytes 0
    mpExtents := mprotectWithin poolReserved extentNbytes 0
    sb := { (default : XalSb) with blocksize := 1024, dirblocksize := 1024 }
    dev := ⟨bufNbytes, 512, fun _ _ => none, fun _ => 0⟩
    dinodes := fun _ => 0
    dinodesMap := fun _ => none
    retrieved := true
    uninit := fun _ => 0 }

/-- The root is claimed, and nothing else. -/
def rootClaimed : Store Buf :=
  ⟨{ sharedPool inodeNbytes with free := 1 }, sharedPool extentNbytes, fun _ => 0⟩

/-- The root has begun to list its children. -/
def rootListing : Store Buf :=
  rootClaimed.putInode 0 { rootClaimed.inodes.memory 0 with
    content := { (rootClaimed.inodes.memory 0).content with idx := 1 } }

theorem rootClaimed_ok : StoreOk rootClaimed :=
  ⟨⟨by decide, Nat.le_refl _, rfl, rfl, fun _ _ => rfl⟩,
    ⟨Nat.zero_le _, Nat.le_refl _, rfl, rfl, fun _ _ => rfl⟩⟩

theorem rootListing_listing : Listing (Kid 0) 0 rootClaimed rootListing :=
  Ready.listing ⟨rootClaimed_ok, Nat.zero_lt_one, rfl⟩ (Kid 0)

/-- Two entries, and the rest unused. -/
def filledBlock : List DirItem :=
  [.live (smallEntry 97), .live (smallEntry 98), .unused (unusedRegion 116 (by decide) (by decide))]

/-- The same with a hole between the entries. -/
def holedBlock : List DirItem :=
  [.live (smallEntry 97), .unused (unusedRegion 2 (by decide) (by decide)),
    .live (smallEntry 98), .unused (unusedRegion 114 (by decide) (by decide))]

theorem dblockEntries_filled :
    ∃ s', dblockEntries smallBlocks (ofList 64 (layout filledBlock)) 0 1025 64 rootListing =
      .ok () s' ∧
      childrenOf s' 0 = [(smallEntry 97).inode 0, (smallEntry 98).inode 0] := by
  have hrun : ((dblockEntries smallBlocks (ofList 64 (layout filledBlock)) 0 1025 64
      rootListing).okWith fun _ => true) = true := by decide +kernel
  obtain ⟨_, s', hr, -⟩ := exists_of_okWith hrun
  have hnot : ∀ e t, dblockEntries smallBlocks (ofList 64 (layout filledBlock)) 0
      (smallBlocks.sb.dirblocksize + 1) 64 rootListing ≠ .fail e t := by
    intro e t hf
    rw [show smallBlocks.sb.dirblocksize + 1 = 1025 from rfl, hr] at hf
    cases hf
  obtain ⟨t, ht, hch⟩ := (dblockEntries_lists_iff (mprotectWithin_bounded _ _ _)
    rootListing_listing (has_ofList 64 (layout filledBlock)) (by decide +kernel) hnot).2 rfl
  exact ⟨t, ht, hch⟩

/-- The entry behind the hole is not listed. -/
theorem dblockEntries_holed :
    Listing (Kid 0) 0 rootClaimed rootListing ∧
      Has (ofList 64 (layout holedBlock)) 64 (layout holedBlock) ∧
      64 + (layout holedBlock).length = smallBlocks.sb.dirblocksize ∧
      ∃ s', dblockEntries smallBlocks (ofList 64 (layout holedBlock)) 0
          (smallBlocks.sb.dirblocksize + 1) 64 rootListing = .ok () s' ∧
        childrenOf s' 0 ≠ childrenOf rootListing 0 ++ (entries holedBlock).map (·.inode 0) := by
  have hrun : ((dblockEntries smallBlocks (ofList 64 (layout holedBlock)) 0
      (smallBlocks.sb.dirblocksize + 1) 64 rootListing).okWith fun s' =>
        (childrenOf s' 0).length == 1) = true := by decide +kernel
  obtain ⟨_, s', hr, hlen⟩ := exists_of_okWith hrun
  refine ⟨rootListing_listing, has_ofList _ _, by decide +kernel, s', hr, fun he => ?_⟩
  rw [he] at hlen
  exact absurd hlen (by decide +kernel)

end Xallib
