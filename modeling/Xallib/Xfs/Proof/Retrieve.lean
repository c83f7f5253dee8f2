import Mathlib.Algebra.Order.BigOperators.Group.List
import Mathlib.Algebra.Order.Group.Nat
import Xallib.Xfs.Proof.Descent
import Xallib.Xfs.Proof.Dinodes

/-!
# The inodes that are retrieved

`IabTree E ag blkno l`: at the block `blkno` of an allocation group the device has an inode
allocation B+tree of level 0 or 1, with the records `l` on its leaves. `dinodes_retrieved`: where
`xal_dinodes_retrieve` is successful it has decoded the records of all trees once, in order
(`Decodes`), the inodes they select are in the first slots of `be->dinodes`, in the same order, and
`dinodes_get` finds each of them by its number.
-/

namespace Xallib

open Lib Lib.Cm Lib.Run Lib.Buf

/-! ## Trees on the device -/

section
variable (E : IabEnv) (ag : XalAg)

/-- The most pointers in a node. -/
def iabMaxrecs : Nat := (E.sb.blocksize - 56) / 8

/-- The pointers stand behind the keys, of which there is room for the most pointers. -/
def iabPointer (block : Buf) (i : Nat) : Nat := be32 block (56 + iabMaxrecs E * 4 + i * 4)

/-- A leaf, whose records are in its block. -/
def IabLeaf (blkno : Nat) (l : List XalOdfInobtRec) : Prop :=
  ∃ block, iabBlockAt E ag blkno = some block ∧ blockLevel block = 0 ∧
    56 + 16 * blockNumrecs block ≤ E.sb.blocksize ∧ l = inobtRecords block

/-- A tree (module doc). -/
def IabTree (blkno : Nat) (l : List XalOdfInobtRec) : Prop :=
  IabLeaf E ag blkno l ∨
    ∃ block, iabBlockAt E ag blkno = some block ∧ blockLevel block = 1 ∧
      blockNumrecs block ≤ iabMaxrecs E ∧
      Concat (IabLeaf E ag) ((List.range (blockNumrecs block)).map (iabPointer E block)) l

/-! ## What the records select -/

/-- The inodes of a chunk, as they are read from the device; behind them is the rest of the local
array. -/
def chunkAt (r : XalOdfInobtRec) : Option Buf :=
  (deviceRead E.dev (chunkNbytes E.sb) (chunkOffset E ag r)).map fun block i =>
    if i < chunkNbytes E.sb then block i else if i < bufNbytes then 0 else E.dev.stray i

/-- The bytes of the inodes that the code selects of a chunk. -/
def recordImages (r : XalOdfInobtRec) : List (List UInt8) :=
  match chunkAt E ag r with
  | none => []
  | some chunk => (copied r).map fun i => chunk.slice (i * E.sb.inodesize) E.sb.inodesize

/-- The number of an inode, as it is in its bytes. -/
def imageIno (img : List UInt8) : Nat := be64 (ofList 0 img) 152

end

/-- The records of all allocation groups, where `recs g` are those of the group `g`. -/
def groupRecords (E : IabEnv) (recs : Nat → List XalOdfInobtRec) : List (XalAg × XalOdfInobtRec) :=
  (List.range E.sb.agcount).flatMap fun g => (recs g).map fun r => (E.ags g, r)

/-- The inodes they select. -/
def groupImages (E : IabEnv) (recs : Nat → List XalOdfInobtRec) : List (List UInt8) :=
  (groupRecords E recs).flatMap fun p => recordImages E p.1 p.2

/-! ## The records are decoded once -/

/-- From `s` to `s'` the records were decoded, one after the other, and apart from that only blocks
have been read. -/
inductive Decodes (E : IabEnv) : List (XalAg × XalOdfInobtRec) → Retrieval → Retrieval → Prop
  | nil {s : Retrieval} : Decodes E [] s s
  | block {l : List (XalAg × XalOdfInobtRec)} {s s' : Retrieval} {b : Buf} :
      Decodes E l { s with buf := b } s' → Decodes E l s s'
  | cons {ag : XalAg} {r : XalOdfInobtRec} {l : List (XalAg × XalOdfInobtRec)}
      {s t s' : Retrieval} :
      decodeIab3LeafRecord E ag r s = .ok () t → Decodes E l t s' → Decodes E ((ag, r) :: l) s s'

section
variable {E : IabEnv} {ag : XalAg} {s s' t : Retrieval} {l m : List (XalAg × XalOdfInobtRec)}

theorem Decodes.append (h : Decodes E l s t) (h' : Decodes E m t s') : Decodes E (l ++ m) s s' := by
  induction h with
  | nil => exact h'
  | block _ ih => exact .block (ih h')
  | cons hr _ ih => exact .cons hr (ih h')

theorem iabBlockAt_size {block : Buf} {blkno : Nat} (h : iabBlockAt E ag blkno = some block) :
    E.sb.blocksize ≤ blockNbytesMax := by
  obtain ⟨hread, -⟩ := Option.filter_eq_some_iff.1 h
  rw [blockRead, Option.ite_none_right_eq_some] at hread
  exact hread.1.2.2.2.1

theorem sblockPointer_eq {block : Buf} (hmax : E.sb.blocksize ≤ blockNbytesMax) {i : Nat}
    (hi : i < iabMaxrecs E) : sblockPointer E block i = iabPointer E block i := by
  simp only [blockNbytesMax] at hmax
  rw [iabMaxrecs] at hi
  have hofz : (btreeSblockMeta E.sb).2 = 56 + iabMaxrecs E * 4 := by
    simp only [btreeSblockMeta, usub, iabMaxrecs]
    omega
  have hcopied : ∀ j < 4, nodePointers E.dev E.sb block (btreeSblockMeta E.sb).2 (i * 4 + j) =
      block (56 + iabMaxrecs E * 4 + i * 4 + j) := by
    intro j hj
    rw [nodePointers, hofz, if_pos (by rw [iabMaxrecs]; omega), Nat.add_assoc _ (i * 4) j]
  have h0 := hcopied 0 (by decide)
  have h1 := hcopied 1 (by decide)
  have h2 := hcopied 2 (by decide)
  have h3 := hcopied 3 (by decide)
  simp only [Nat.add_zero] at h0
  simp only [sblockPointer, iabPointer, be32, be16, Nat.add_assoc] at h0 h1 h2 h3 ⊢
  rw [h0, h1, h2, h3]

/-- The records of a leaf. -/
theorem leaf_decodes {block : Buf} {u : Unit} (h : decodeIab3LeafRecords E ag block s = .ok u s') :
    Decodes E ((inobtRecords block).map fun r => (ag, r)) s s' := by
  unfold decodeIab3LeafRecords at h
  rw [forUp_range] at h
  have hrounds : Concat (fun i l => l = [(ag, inobtRecAt block i)])
      (List.range (blockNumrecs block))
      ((List.range (blockNumrecs block)).flatMap fun i => [(ag, inobtRecAt block i)]) :=
    Concat.flatMap fun _ _ => rfl
  rw [inobtRecords, List.map_map, List.map_eq_flatMap]
  refine (forM_concat (I := fun _ => True) (R := Decodes E) (fun _ => .nil)
    (fun _ _ _ _ _ => .append)
    (fun i m s t v hm _ hr => ?_) hrounds s s' u trivial h).2
  subst hm
  exact ⟨trivial, .cons (assert_bind_ok.1 hr).2 .nil⟩

theorem leafTree_decodes {blkno : Nat} {recs : List XalOdfInobtRec} {n : Nat} {u : Unit}
    (hl : IabLeaf E ag blkno recs) (h : retrieveDinodesViaIab3 E ag n blkno s = .ok u s') :
    Decodes E (recs.map fun r => (ag, r)) s s' := by
  obtain ⟨block, hat, hlevel, -, rfl⟩ := hl
  cases n with
  | zero => cases h
  | succ n =>
    obtain ⟨b, hread⟩ := readIab3Block_of_block hat s
    unfold retrieveDinodesViaIab3 at h
    rw [bind_of_ok hread, if_neg (by omega), if_pos hlevel] at h
    exact .block (leaf_decodes h)

theorem tree_decodes {blkno : Nat} {recs : List XalOdfInobtRec} {n : Nat} {u : Unit}
    (ht : IabTree E ag blkno recs) (h : retrieveDinodesViaIab3 E ag n blkno s = .ok u s') :
    Decodes E (recs.map fun r => (ag, r)) s s' := by
  rcases ht with hl | ⟨block, hat, hlevel, hmax, hkids⟩
  · exact leafTree_decodes hl h
  cases n with
  | zero => cases h
  | succ n =>
    obtain ⟨b, hread⟩ := readIab3Block_of_block hat s
    unfold retrieveDinodesViaIab3 at h
    rw [bind_of_ok hread, if_pos hlevel] at h
    obtain ⟨-, h⟩ := assert_bind_ok.1 h
    rw [forUp_range] at h
    have hpointers : (List.range (blockNumrecs block)).map (sblockPointer E block) =
        (List.range (blockNumrecs block)).map (iabPointer E block) := by
      refine List.map_congr_left fun i hi => sblockPointer_eq (iabBlockAt_size hat) ?_
      have := List.mem_range.1 hi
      omega
    rw [forM_map, hpointers] at h
    have happend : ∀ (m l : List XalOdfInobtRec) s t s', Decodes E (m.map fun r => (ag, r)) s t →
        Decodes E (l.map fun r => (ag, r)) t s' →
          Decodes E ((m ++ l).map fun r => (ag, r)) s s' := by
      intro m l s t s' hm hl
      rw [List.map_append]
      exact hm.append hl
    have hbody : ∀ p m s t v, IabLeaf E ag p m → True →
        retrieveDinodesViaIab3 E ag n p s = .ok v t →
        True ∧ Decodes E (m.map fun r => (ag, r)) s t :=
      fun _ _ _ _ _ hp _ hr => ⟨trivial, leafTree_decodes hp hr⟩
    exact .block (forM_concat (I := fun _ => True)
      (R := fun l => Decodes E (l.map fun r => (ag, r)))
      (fun _ => .nil) happend hbody hkids _ s' u trivial h).2

/-! ## What the records leave -/

/-- The map after the inodes `inos` have been entered for the slots from `index` on. -/
def enterInos (inodesize : Nat) : Nat → List Nat → (Nat → Option Nat) → Nat → Option Nat
  | _, [], m => m
  | index, ino :: inos, m => enterInos inodesize (index + 1) inos fun i =>
      if i = ino then some (index * inodesize) else m i

theorem enterInos_append (inodesize : Nat) (a b : List Nat) :
    ∀ (index : Nat) (m : Nat → Option Nat),
    enterInos inodesize index (a ++ b) m = enterInos inodesize (index + a.length) b
      (enterInos inodesize index a m) := by
  induction a with
  | nil => exact fun _ _ => rfl
  | cons ino a ih =>
    intro index m
    rw [List.cons_append, enterInos, enterInos, ih, List.length_cons, Nat.add_assoc, Nat.add_comm 1]

/-- Different numbers are found where they were entered. -/
theorem enterInos_eq_some {inodesize : Nat} {inos : List Nat} (hnodup : inos.Nodup) :
    ∀ {index : Nat} {m : Nat → Option Nat} {ino ofz : Nat}, enterInos inodesize index inos m ino =
      some ofz ↔
      (∃ k, inos[k]? = some ino ∧ ofz = (index + k) * inodesize) ∨ ino ∉ inos ∧
        m ino = some ofz := by
  induction inos with
  | nil => intro index m ino ofz; simp [enterInos]
  | cons a inos ih =>
    rw [List.nodup_cons] at hnodup
    intro index m ino ofz
    rw [enterInos, ih hnodup.2]
    by_cases ha : ino = a
    · subst ha
      simp only [hnodup.1, not_false_eq_true, true_and, if_true, Option.some.injEq]
      constructor
      · rintro (⟨k, hk, -⟩ | h)
        · exact absurd (List.mem_of_getElem? hk) hnodup.1
        · exact .inl ⟨0, rfl, h.symm⟩
      · rintro (⟨k, hk, h⟩ | ⟨h, -⟩)
        · cases k with
          | zero => exact .inr h.symm
          | succ k =>
            have hmem : ino ∈ inos := List.mem_of_getElem? hk
            exact absurd hmem hnodup.1
        · exact absurd List.mem_cons_self h
    · simp only [List.mem_cons, ha, false_or]
      refine or_congr_left ⟨?_, ?_⟩
      · rintro ⟨k, hk, h⟩
        exact ⟨k + 1, hk, by rw [h, Nat.add_assoc, Nat.add_comm 1]⟩
      · rintro ⟨k, hk, h⟩
        cases k with
        | zero => exact absurd (Option.some.inj hk).symm ha
        | succ k => exact ⟨k, hk, by rw [h, Nat.add_assoc, Nat.add_comm 1]⟩

/-- The inodes `imgs` have been stored and entered. -/
structure Entered (inodesize : Nat) (imgs : List (List UInt8)) (s s' : Retrieval) : Prop extends
    Retrieved inodesize imgs s s' where
  map : s'.dinodesMap = enterInos inodesize s.index (imgs.map imageIno) s.dinodesMap

theorem Entered.nil (inodesize : Nat) (s : Retrieval) : Entered inodesize [] s s :=
  ⟨.nil inodesize s, rfl⟩

theorem Entered.append {inodesize : Nat} {a b : List (List UInt8)} (ha : Entered inodesize a s t)
    (hb : Entered inodesize b t s') : Entered inodesize (a ++ b) s s' := by
  refine ⟨ha.toRetrieved.append hb.toRetrieved, ?_⟩
  rw [hb.map, ha.map, ha.index, List.map_append, enterInos_append, List.length_map]

theorem Entered.be {inodesize : Nat} {imgs : List (List UInt8)} {b : Buf}
    (h : Entered inodesize imgs { s with buf := b } s') : Entered inodesize imgs s s' :=
  ⟨⟨h.index, h.images, h.keep⟩, h.map⟩

/-- The number of an inode is in its bytes. -/
theorem imageIno_slice {inodesize : Nat} (hsize : dinodeNbytes ≤ inodesize) (b : Buf) (ofz : Nat) :
    imageIno (b.slice ofz inodesize) = be64 b (ofz + 152) := by
  refine be64_congr fun j hj => ?_
  have hlt : 152 + j < inodesize := by
    simp only [dinodeNbytes] at hsize
    omega
  rw [ofList, if_neg (Nat.not_lt_zero _), Nat.sub_zero, List.getD_eq_getElem?_getD,
    List.getElem?_eq_getElem (by rw [length_slice]; exact hlt), Option.getD_some]
  simp only [slice, List.getElem_map, List.getElem_range, Nat.add_assoc]

theorem copyDinode_enters (hsize : dinodeNbytes ≤ E.sb.inodesize) {chunk : Buf} {i : Nat} {u : Unit}
    (h : copyDinode E chunk i s = .ok u s') :
    Entered E.sb.inodesize [chunk.slice (i * E.sb.inodesize) E.sb.inodesize] s s' := by
  have hsize' : 160 ≤ E.sb.inodesize := Nat.le_trans (by decide) hsize
  refine ⟨(copyDinode_spec hsize' chunk i s).post h, ?_⟩
  unfold copyDinode at h
  rw [read_bind] at h
  obtain ⟨-, h⟩ := assert_bind_ok.1 h
  rw [modify_bind, read_bind] at h
  obtain ⟨-, h⟩ := failIf_bind_ok.1 h
  obtain ⟨-, rfl⟩ := Run.ok.inj h
  have hino : be64 (s.dinodes.copy (s.index * E.sb.inodesize) chunk (i * E.sb.inodesize)
      E.sb.inodesize) (s.index * E.sb.inodesize + 152) = be64 chunk (i * E.sb.inodesize + 152) :=
    be64_congr fun j hj => by
      rw [Nat.add_assoc, copy_inside (by omega), Nat.add_assoc]
  simp only [hino, List.map_singleton, imageIno_slice hsize]
  rfl

/-- The local copy of a chunk. -/
def localChunk (E : IabEnv) (b : Buf) : Buf := fun i =>
  if i < chunkNbytes E.sb then b i else if i < bufNbytes then 0 else E.dev.stray i

theorem decodeChunk_enters (hsize : dinodeNbytes ≤ E.sb.inodesize) {chunk : Buf}
    {r : XalOdfInobtRec}
    {u : Unit} (h : decodeChunk E chunk r s = .ok u s') :
    Entered E.sb.inodesize ((copied r).map fun i => chunk.slice (i * E.sb.inodesize) E.sb.inodesize)
      s s' := by
  unfold decodeChunk at h
  rw [forUp_range, forM_filter] at h
  have hbody : ∀ i m s t v, m = [chunk.slice (i * E.sb.inodesize) E.sb.inodesize] → True →
      copyDinode E chunk i s = .ok v t → True ∧ Entered E.sb.inodesize m s t := by
    rintro i _ s t v rfl - hr
    exact ⟨trivial, copyDinode_enters hsize hr⟩
  rw [List.map_eq_flatMap]
  exact (forM_concat (I := fun _ => True) (Entered.nil _) (fun _ _ _ _ _ => .append) hbody
    (Concat.flatMap fun _ _ => rfl) s s' u
    trivial h).2

/-- The chunk of a record that has been read. -/
theorem chunkAt_of_read {r : XalOdfInobtRec} {block b : Buf}
    (hblock : deviceRead E.dev (chunkNbytes E.sb) (chunkOffset E ag r) = some block)
    (hbytes : ∀ i < chunkNbytes E.sb, b i = block i) : chunkAt E ag r = some (localChunk E b) := by
  rw [chunkAt, hblock, Option.map_some]
  congr 1
  funext i
  by_cases hi : i < chunkNbytes E.sb
  · rw [localChunk, if_pos hi, if_pos hi, hbytes i hi]
  · rw [localChunk, if_neg hi, if_neg hi]

theorem record_enters (hsize : dinodeNbytes ≤ E.sb.inodesize) {r : XalOdfInobtRec} {u : Unit}
    (h : decodeIab3LeafRecord E ag r s = .ok u s') :
    Entered E.sb.inodesize (recordImages E ag r) s s' := by
  unfold decodeIab3LeafRecord at h
  obtain ⟨-, h⟩ := assert_bind_ok.1 h
  obtain ⟨-, h⟩ := assert_bind_ok.1 h
  obtain ⟨-, h⟩ := assert_bind_ok.1 h
  obtain ⟨_, s₁, hzero, h⟩ := bind_ok.1 h
  obtain ⟨b₁, -, rfl⟩ := zoom_ok.1 hzero
  obtain ⟨_, s₂, hread, h⟩ := bind_ok.1 h
  obtain ⟨b, hdev, rfl⟩ := zoom_ok.1 hread
  obtain ⟨block, hblock, hbytes⟩ := devRead_block hdev
  rw [recordImages, chunkAt_of_read hblock hbytes]
  exact (decodeChunk_enters hsize h).be.be

theorem Decodes.entered (hsize : dinodeNbytes ≤ E.sb.inodesize) (h : Decodes E l s s') :
    Entered E.sb.inodesize (l.flatMap fun p => recordImages E p.1 p.2) s s' := by
  induction h with
  | nil => exact .nil _ _
  | block _ ih => exact ih.be
  | cons hr _ ih =>
    rw [List.flatMap_cons]
    exact (record_enters hsize hr).append ih

end

/-! ## All allocation groups -/

section
variable {E : IabEnv} {recs : Nat → List XalOdfInobtRec} {s s' : Retrieval}

theorem dropDinodes_ok {x : Cm Err Retrieval Unit} {u : Unit} :
    dropDinodes x s = .ok u s' ↔ x s = .ok u s' := by
  unfold dropDinodes
  cases x s <;> simp

/-- No record selects more inodes than it counts. -/
theorem length_recordImages_le (ag : XalAg) (r : XalOdfInobtRec) :
    (recordImages E ag r).length ≤ r.count := by
  rw [recordImages]
  cases chunkAt E ag r with
  | none => exact Nat.zero_le _
  | some chunk =>
    show ((copied r).map _).length ≤ _
    rw [List.length_map, copied]
    exact Nat.le_trans (List.length_filter_le _ _) (Nat.le_of_eq List.length_range)

theorem length_groupImages_le :
    (groupImages E recs).length ≤ ((groupRecords E recs).map fun p => p.2.count).sum := by
  rw [groupImages, List.length_flatMap]
  exact List.sum_le_sum fun p _ => length_recordImages_le p.1 p.2

/-- With the array allocated, the map empty and nothing copied yet. -/
def Retrieval.started (s : Retrieval) : Retrieval :=
  { s with dinodes := fun _ => 0, dinodesMap := fun _ => none, index := 0, retrieved := true }

theorem xalDinodesRetrieve_decodes {fuel : Nat}
    (htrees : ∀ g < E.sb.agcount, IabTree E (E.ags g) (E.ags g).agiRoot (recs g))
    (h : xalDinodesRetrieve E fuel s = .ok () s') :
    Decodes E (groupRecords E recs) s.started s' := by
  unfold xalDinodesRetrieve at h
  obtain ⟨-, h⟩ := failIf_bind_ok.1 h
  rw [modify_bind] at h
  obtain ⟨-, h⟩ := failIf_bind_ok.1 h
  rw [modify_bind, forUp_range] at h
  have hbody : ∀ g m s t v, (g < E.sb.agcount ∧ m = (recs g).map fun r => (E.ags g, r)) → True →
      dropDinodes (retrieveDinodesViaIab3 E (E.ags g) fuel (E.ags g).agiRoot) s = .ok v t →
      True ∧ Decodes E m s t := by
    rintro g _ s t v ⟨hg, rfl⟩ - hr
    exact ⟨trivial, tree_decodes (htrees g hg) (dropDinodes_ok.1 hr)⟩
  exact (forM_concat (I := fun _ => True) (fun _ => .nil) (fun _ _ _ _ _ => .append) hbody
    (Concat.flatMap fun g hg => ⟨List.mem_range.1 hg, rfl⟩) _ s' () trivial h).2

/-- What a retrieval leaves. -/
structure DinodesRetrieved (E : IabEnv) (recs : Nat → List XalOdfInobtRec) (s s' : Retrieval) :
    Prop where
  decodes : Decodes E (groupRecords E recs) s.started s'
  index : s'.index = (groupImages E recs).length
  room : s'.index ≤ E.sb.nallocated
  slots : ∀ k img, (groupImages E recs)[k]? = some img →
    s'.dinodes.slice (k * E.sb.inodesize) E.sb.inodesize = img
  get : ∀ X : XfsEnv, X.dinodes = s'.dinodes → X.dinodesMap = s'.dinodesMap → ∀ ino st,
    (∀ ofz t, dinodesGet X ino st = .ok ofz t ↔
      t = st ∧ ∃ k < s'.index, ofz = k * E.sb.inodesize ∧ diIno X ofz = ino) ∧
    ((∃ ofz t, dinodesGet X ino st = .ok ofz t) ↔ ino ∈ (groupImages E recs).map imageIno)

theorem dinodesGet_ok {X : XfsEnv} {ino ofz : Nat} {st t : Store Buf} :
    dinodesGet X ino st = .ok ofz t ↔ t = st ∧ X.dinodesMap ino = some ofz := by
  unfold dinodesGet
  cases X.dinodesMap ino with
  | none =>
    constructor
    · intro h; cases h
    · rintro ⟨-, h⟩; cases h
  | some d =>
    constructor
    · intro h
      obtain ⟨rfl, rfl⟩ := Run.ok.inj h
      exact ⟨rfl, rfl⟩
    · rintro ⟨rfl, h⟩
      cases h
      rfl

/-- A retrieval has decoded each record of each group once, has stored the selected inodes one
behind the other, and `dinodes_get` finds exactly those. -/
theorem dinodes_retrieved (E : IabEnv) (hsize : dinodeNbytes ≤ E.sb.inodesize)
    (recs : Nat → List XalOdfInobtRec)
    (htrees : ∀ g < E.sb.agcount, IabTree E (E.ags g) (E.ags g).agiRoot (recs g))
    (hcount : ((groupRecords E recs).map fun p => p.2.count).sum ≤ E.sb.nallocated)
    (hdistinct : ((groupImages E recs).map imageIno).Nodup) (fuel : Nat) (s s' : Retrieval)
    (h : xalDinodesRetrieve E fuel s = .ok () s') : DinodesRetrieved E recs s s' := by
  have hdecodes := xalDinodesRetrieve_decodes htrees h
  have hall : Entered E.sb.inodesize (groupImages E recs) s.started s' := hdecodes.entered hsize
  have hindex : s'.index = (groupImages E recs).length := by
    rw [hall.index]
    exact Nat.zero_add _
  have hslots : ∀ k img, (groupImages E recs)[k]? = some img →
      s'.dinodes.slice (k * E.sb.inodesize) E.sb.inodesize = img := by
    intro k img hk
    have himages := hall.images
    rw [← himages] at hk
    obtain ⟨hlt, rfl⟩ := List.getElem?_eq_some_iff.1 hk
    rw [List.getElem_map, List.getElem_range]
    show _ = s'.dinodes.slice ((0 + k) * E.sb.inodesize) _
    rw [Nat.zero_add]
  refine ⟨hdecodes, hindex, ?_, hslots, fun X hd hm ino st => ?_⟩
  · rw [hindex]
    exact Nat.le_trans length_groupImages_le hcount
  have hget : ∀ ofz, s'.dinodesMap ino = some ofz ↔
      ∃ k, ((groupImages E recs).map imageIno)[k]? = some ino ∧ ofz = k * E.sb.inodesize := by
    intro ofz
    rw [hall.map, enterInos_eq_some hdistinct]
    show (∃ k, _ ∧ ofz = (0 + k) * _) ∨ _ ∧ none = some ofz ↔ _
    simp
  have hino : ∀ k img, (groupImages E recs)[k]? = some img →
      diIno X (k * E.sb.inodesize) = imageIno img := by
    intro k img hk
    rw [← hslots k img hk, imageIno_slice hsize, diIno, hd]
  constructor
  · intro ofz t
    rw [dinodesGet_ok, hm, hget]
    refine and_congr_right fun _ => ⟨?_, ?_⟩
    · rintro ⟨k, hk, rfl⟩
      rw [List.getElem?_map, Option.map_eq_some_iff] at hk
      obtain ⟨img, himg, rfl⟩ := hk
      obtain ⟨hlt, -⟩ := List.getElem?_eq_some_iff.1 himg
      exact ⟨k, by rw [hindex]; exact hlt, rfl, hino k img himg⟩
    · rintro ⟨k, hk, rfl, rfl⟩
      rw [hindex] at hk
      have himg := List.getElem?_eq_getElem hk
      refine ⟨k, ?_, rfl⟩
      rw [List.getElem?_map, himg, hino k _ himg]
      rfl
  · rw [List.mem_iff_getElem?]
    constructor
    · rintro ⟨ofz, t, hg⟩
      obtain ⟨-, hg⟩ := dinodesGet_ok.1 hg
      rw [hm, hget] at hg
      obtain ⟨k, hk, -⟩ := hg
      exact ⟨k, hk⟩
    · rintro ⟨k, hk⟩
      exact ⟨k * E.sb.inodesize, st, dinodesGet_ok.2 ⟨rfl, by rw [hm, hget]; exact ⟨k, hk, rfl⟩⟩⟩

end

/-! ## A node, a leaf and two inodes -/

/-- Block 1 is a node that points to block 2, a leaf with one record. -/
def nodeAndLeaf : Buf := fun i =>
  if i < 8192 then
    if i = 4096 + 2079 then 2 else ofList 4096 [0x49, 0x41, 0x42, 0x33, 0, 1, 0, 1] i
  else if i < 32768 then
    ofList 8192 ([0x49, 0x41, 0x42, 0x33, 0, 0, 0, 1] ++ List.replicate 48 0 ++ beBytes 4 64 ++
      beBytes 2 0 ++ beBytes 1 2 ++ beBytes 1 0 ++ beBytes 8 0) i
  else if i % 512 = 159 then UInt8.ofNat (i / 512) else 0

/-- One allocation group, whose chunk of two inodes is at block 8. -/
def twoInodes : IabEnv where
  dev := ⟨bufNbytes, 512, fun slba _ => some fun i => nodeAndLeaf (slba * 512 + i), fun _ => 0⟩
  sb := { (default : XalSb) with
    agcount := 1, nallocated := 2, blocksize := 4096, inodesize := 512
    inopblock := 8, inopblog := 3, agblklog := 16 }
  ags _ := { (default : XalAg) with agiRoot := 1 }
  khInit := true
  calloc := true
  khPut _ := true

def twoRecord : XalOdfInobtRec := ⟨64, 0, 2, 0, 0⟩

theorem twoInodes_tree : IabTree twoInodes (twoInodes.ags 0) 1 [twoRecord] := by
  have hnode : (iabBlockAt twoInodes (twoInodes.ags 0) 1).any fun block => blockLevel block == 1 &&
      (List.range (blockNumrecs block)).map (iabPointer twoInodes block) == [2] := by decide +kernel
  have hleaf : (iabBlockAt twoInodes (twoInodes.ags 0) 2).any fun block => blockLevel block == 0 &&
      (blockNumrecs block == 1 && inobtRecords block == [twoRecord]) := by decide +kernel
  obtain ⟨node, hat, h⟩ := (Option.any_eq_true _ _).1 hnode
  obtain ⟨leaf, hat', h'⟩ := (Option.any_eq_true _ _).1 hleaf
  simp only [Bool.and_eq_true, beq_iff_eq] at h h'
  have hnumrecs : blockNumrecs node = 1 := by
    rw [← List.length_range (n := blockNumrecs node), ← List.length_map (iabPointer twoInodes node),
      h.2]
    rfl
  refine .inr ⟨node, hat, h.1, by rw [hnumrecs]; decide, ?_⟩
  rw [h.2]
  exact .cons (m := [twoRecord]) (l := []) ⟨leaf, hat', h'.1, by rw [h'.2.1]; decide,
    h'.2.2.symm⟩ .nil

theorem dinodes_retrieved_two : ∃ s', xalDinodesRetrieve twoInodes 2 noneRetrieved = .ok () s' ∧
    s'.index = 2 ∧ DinodesRetrieved twoInodes (fun _ => [twoRecord]) noneRetrieved s' := by
  have hrun : (xalDinodesRetrieve twoInodes 2 noneRetrieved).okWith (fun s' => s'.index == 2) =
      true := by
    decide +kernel
  obtain ⟨_, s', hr, hindex⟩ := exists_of_okWith hrun
  refine ⟨s', hr, by simpa using hindex, ?_⟩
  apply dinodes_retrieved twoInodes (by decide) _ _ (by decide) (by decide +kernel) 2 _ _ hr
  intro g hg
  obtain rfl : g = 0 := Nat.lt_one_iff.1 hg
  exact twoInodes_tree

end Xallib
