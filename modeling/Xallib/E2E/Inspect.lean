import Xallib.Cli.Inspect
import Xallib.E2E.Records
import Xallib.E2E.Table
import Xallib.Lib.Listing

/-!
# What the command line puts out

`xal --find` and `xal --bmap` put out, for an index that stands for a tree, the lines of the nodes
of the tree in preorder (`cliWalk_ok`), and return an error exactly if there is a node that is
neither a directory nor a regular file (`typed_of_cliWalk`).
-/

namespace Xallib

open Lib Lib.Forest Lib.Cm Lib.Run

/-! ## The lines of a listing -/

/-- The text of a path: the URI, and the names below it. -/
def pathText (devUri : CStr) (q : List CStr) : CStr :=
  devUri ++ (if q ≠ [] ∧ devUri.getLast? = some slash then [slash] else []) ++ joinNames q

/-- Neither `_walk` nor an inspector knows other types. -/
def KnownType (ftype : Nat) : Prop := ftype = ftDir ∨ ftype = ftRegFile

/-- An inspector has counted an inode of the type `ftype`, and has put out its lines. -/
def XalNodeinspectorArgs.inspected (args : XalNodeinspectorArgs) (ftype : Nat)
    (lines : List CliLine) : XalNodeinspectorArgs where
  ndirs := args.ndirs + if ftype = ftDir then 1 else 0
  nfiles := args.nfiles + if ftype = ftRegFile then 1 else 0
  out := args.out ++ lines

section
variable {ν : Type} (ftype : ν → Nat) (recs : ν → List XalExtent)
  (lines : List CStr → ν → List CliLine)

/-- The same of a whole listing, from nothing on. -/
def inspectedAll (entries : List (List CStr × ν)) : XalNodeinspectorArgs where
  ndirs := entries.countP fun y => ftype y.2 = ftDir
  nfiles := entries.countP fun y => ftype y.2 = ftRegFile
  out := entries.flatMap fun y => lines y.1 y.2

/-- The lines of `xal --find` -/
def findLines (devUri : CStr) (q : List CStr) (_ : ν) : List CliLine := [.path (pathText devUri q)]

/-- The lines of `xal --bmap`, where `row` is the line of an extent. -/
def bmapLines (row : XalExtent → CliLine) (devUri : CStr) (q : List CStr) (c : ν) : List CliLine :=
  if ftype c = ftDir then [] else
  if recs c = [] then [.noExtents (pathText devUri q)] else
  .file (pathText devUri q) :: (recs c).map row

theorem foldl_inspected (entries : List (List CStr × ν)) : ∀ args : XalNodeinspectorArgs,
    entries.foldl (fun args y => args.inspected (ftype y.2) (lines y.1 y.2)) args =
      ⟨args.ndirs + (inspectedAll ftype lines entries).ndirs,
        args.nfiles + (inspectedAll ftype lines entries).nfiles,
        args.out ++ (inspectedAll ftype lines entries).out⟩ := by
  induction entries with
  | nil =>
    intro args
    simp [inspectedAll]
  | cons y entries ih =>
    intro args
    rw [List.foldl_cons, ih]
    simp only [XalNodeinspectorArgs.inspected, inspectedAll, List.countP_cons, List.flatMap_cons,
      XalNodeinspectorArgs.mk.injEq, decide_eq_true_eq, List.append_assoc, and_true]
    omega

end

/-! ## One call -/

section
variable {δ ν : Type} {x : Xal δ} {kids : ν → List ν} {F : XalInode → ν → Prop} {name : ν → CStr}
  {ftype : ν → Nat} {recs : ν → List XalExtent} {r c : ν} {k : Forest XalInode} {q : List CStr}
  {i d fuel : Nat} {devUri : CStr} {lines : List CStr → ν → List CliLine}
  {inspector : Nat → WalkCb XalNodeinspectorArgs} {args args' : XalNodeinspectorArgs}

theorem putLine_ok {text : Cm Err CStr Unit} {t : CStr} (h : text [] = .ok () t)
    (line : CStr → CliLine) (args : XalNodeinspectorArgs) : putLine line text args =
      .ok () { args with out := args.out ++ [line t] } := by
  rw [putLine, h]

/-- The root is the only inode without a parent. -/
theorem parentIdx_ne_iff (ht : IndexOf x kids F r k) (hsize : x.rootIdx + 1 + k.size < 2 ^ 32)
    (hs : SlotAt x kids name r q i c) :
    (x.store.inodes.memory i).parentIdx ≠ poolIdxNone ↔ q ≠ [] := by
  have hroot : (x.store.inodes.memory x.rootIdx).parentIdx = poolIdxNone := ht.placed.2.1.1
  rcases hs.cases with ⟨rfl, rfl, -⟩ | ⟨q₀, d, j, c₀, hd, hj, -, rfl, rfl⟩
  · exact iff_of_false (not_not.2 hroot) (not_not.2 rfl)
  · obtain ⟨hpar, -, -⟩ := ht.child_of_stands hd hj
    have hin := ht.slot_of_stands hd
    refine iff_of_true ?_ (by simp)
    rw [hpar]
    simp only [poolIdxNone, UINT32_MAX]
    omega

/-- An index that stands for the tree below `r`, with the names and the types of its nodes. -/
structure ShownAs (x : Xal δ) (kids : ν → List ν) (F : XalInode → ν → Prop) (name : ν → CStr)
    (ftype : ν → Nat) (r : ν) (k : Forest XalInode) : Prop where
  tree : IndexOf x kids F r k
  free : x.store.inodes.free = x.rootIdx + 1 + k.size
  size : x.store.inodes.free < 2 ^ 32
  dirty : x.dirty = false
  types : ∀ v c, F v c → v.ftype = ftype c
  names : ∀ q i c, SlotAt x kids name r q i c → i ≠ x.rootIdx →
    printedName (x.store.inodes.memory i) = name c

variable (hx : ShownAs x kids F name ftype r k)
include hx

theorem ShownAs.ftype_eq (hs : SlotAt x kids name r q i c) :
    (x.store.inodes.memory i).ftype = ftype c :=
  hx.types _ _ (hx.tree.labelAt hs).fact

theorem ppNodePath_ok (devUri : CStr) (hs : SlotAt x kids name r q i c) (hi : i < fuel) :
    ppNodePath x devUri fuel i [] = .ok () (pathText devUri q) := by
  have hsize := hx.size
  rw [hx.free] at hsize
  have hp := prints_of_stands hx.tree hsize hx.names hs
  have hpar := parentIdx_ne_iff hx.tree hsize hs
  have hprint (out : CStr) : (xalInodePathPp x fuel (some i) >>= fun _ => pure ()) out =
      .ok () (out ++ joinNames q) := by
    rw [bind_of_ok (hp fuel out hi), ret_apply]
  unfold ppNodePath pathText
  rw [modify_bind]
  by_cases h : q ≠ [] ∧ devUri.getLast? = some slash
  · rw [if_pos (by rw [hpar]; exact h), if_pos h]
    exact hprint _
  · rw [if_neg (by rw [hpar]; exact h), if_neg h, List.append_nil]
    exact hprint _

theorem nodeInspectorFind_ok (hs : SlotAt x kids name r q i c) (hi : i < fuel)
    (hc : KnownType (ftype c)) : nodeInspectorFind x devUri fuel i d args =
      .ok () (args.inspected (ftype c) (findLines devUri q c)) := by
  have hft := hx.ftype_eq hs
  have hpath := putLine_ok (ppNodePath_ok hx devUri hs hi) .path
  unfold nodeInspectorFind
  rcases hc with hdir | hreg
  · rw [if_pos (by rw [xalInodeIsDir, hft, hdir]; rfl), modify_bind, hpath]
    simp [XalNodeinspectorArgs.inspected, findLines, hdir, ftDir, ftRegFile]
  · rw [if_neg (by rw [xalInodeIsDir, hft, hreg]; decide),
      if_pos (by rw [xalInodeIsFile, hft, hreg]; rfl), modify_bind, hpath]
    simp [XalNodeinspectorArgs.inspected, findLines, hreg, ftDir, ftRegFile]

theorem nodeInspectorBmap_ok (hs : SlotAt x kids name r q i c) (hi : i < fuel)
    (hrecs : ftype c = ftRegFile → extentsOf x.store.extents.memory
      (x.store.inodes.memory i) = recs c)
    (hc : KnownType (ftype c)) : nodeInspectorBmap x devUri fuel i d args =
      .ok () (args.inspected (ftype c) (bmapLines ftype recs (extentLine x) devUri q c)) := by
  have hft := hx.ftype_eq hs
  have hpath := putLine_ok (ppNodePath_ok hx devUri hs hi)
  unfold nodeInspectorBmap
  rcases hc with hdir | hreg
  · rw [if_pos (by rw [xalInodeIsDir, hft, hdir]; rfl)]
    show Run.ok () _ = _
    simp [XalNodeinspectorArgs.inspected, bmapLines, hdir, ftDir, ftRegFile]
  · have hrecs := hrecs hreg
    have hcount : (x.store.inodes.memory i).content.count = 0 ↔ recs c = [] := by
      rw [← hrecs, extentsOf, List.map_eq_nil_iff, List.range_eq_nil]
    rw [if_neg (by rw [xalInodeIsDir, hft, hreg]; decide),
      if_pos (by rw [xalInodeIsFile, hft, hreg]; rfl), modify_bind]
    by_cases h0 : recs c = []
    · rw [if_pos (hcount.2 h0), hpath]
      simp [XalNodeinspectorArgs.inspected, bmapLines, hreg, h0, ftDir, ftRegFile]
    · rw [if_neg (mt hcount.1 h0), bind_of_ok (hpath _ _)]
      have hrows : ppInodeExtents x i = (recs c).map (extentLine x) := by
        rw [← hrecs, extentsOf, List.map_map]
        rfl
      show Run.ok () _ = _
      rw [hrows]
      simp [XalNodeinspectorArgs.inspected, bmapLines, hreg, h0, ftDir, ftRegFile]

/-! ## The walk -/

/-- What the walk puts out where the types of all nodes are known (module doc). -/
theorem cliWalk_ok (hknown : ∀ q c, Found kids name r q c → KnownType (ftype c))
    (hcall : ∀ q i c d args, SlotAt x kids name r q i c → KnownType (ftype c) →
      inspector fuel i d args = .ok () (args.inspected (ftype c) (lines q c)))
    (hfuel : x.store.inodes.free ≤ fuel) : cliWalk x inspector fuel ⟨0, 0, []⟩ =
      .ok () (inspectedAll ftype lines (preorder kids name fuel [] r)) := by
  have hfree := hx.free
  have hall : List.Forall₂ (fun (a : Nat × Nat) (y : List CStr × ν) =>
      SlotAt x kids name r y.1 a.1 y.2) _ (preorder kids name fuel [] r) :=
    hx.tree.visits_preorder name (by omega) 0
  have hbody : ∀ (a : Nat × Nat) (y : List CStr × ν) (args : XalNodeinspectorArgs),
      SlotAt x kids name r y.1 a.1 y.2 → callCb (some (inspector fuel)) a.1 a.2 args =
        .ok () (args.inspected (ftype y.2) (lines y.1 y.2)) :=
    fun a y args hs => hcall _ _ _ _ args hs (hknown _ _ (hx.tree.listed_iff.1 ⟨_, hs⟩))
  have htyped : ∀ u ∈ (Forest.cons (x.store.inodes.memory x.rootIdx) k .nil).nodes, Typed u := by
    intro u hu
    rw [← hx.tree.placed.map_visits 0, List.mem_map] at hu
    obtain ⟨a, ha, rfl⟩ := hu
    obtain ⟨y, -, hs⟩ := exists_of_forall₂ hall ha
    rw [Typed, hx.ftype_eq hs]
    exact hknown _ _ (hx.tree.listed_iff.1 ⟨_, hs⟩)
  rw [cliWalk, xalWalk, xalGetRoot, walk_visits hx.dirty hx.tree.placed htyped (by omega),
    runCalls_eq, forM_forall₂ hbody hall, foldl_inspected]
  simp

/-- A walk that returns 0 has found known types only. -/
theorem typed_of_cliWalk (h : cliWalk x inspector fuel args = .ok () args') (q : List CStr) (c : ν)
    (hc : Found kids name r q c) : KnownType (ftype c) := by
  obtain ⟨i, hs⟩ := hx.tree.listed_iff.2 hc
  have hwalks : Walks x (some (inspector fuel)) fuel x.rootIdx := ⟨0, args, args', h⟩
  have hlisted : Listed x.store.inodes.memory x.rootIdx i := by
    clear hc
    induction hs with
    | root => exact .root
    | kid _ hj _ ih => exact .child ih ⟨Nat.le_add_right _ _, Nat.add_lt_add_left hj _⟩
  have htyped := (walk_returns hwalks).2.typed i hlisted
  rw [Typed, hx.ftype_eq hs] at htyped
  exact htyped

end

/-! ## XFS -/

/-- The entries of the file system in the order of the walk, down to the depth `n`. -/
def xfsEntries (E : XfsEnv) (n : Nat) : List (List CStr × XalInode) :=
  preorder (entryKids E) XalInode.nameBytes n [] (rootEntry E)

section
variable {E : XfsEnv} {y : Xal Buf} {k : Forest XalInode} {rec : XalExtent} {n : Nat}
  {F : Store Buf → XalInode → XalInode → Prop}

theorem XfsTreeBy.shownAs (ht : XfsTreeBy E F y k) (hF : ∀ v e, F y.store v e → IsEntry E v e)
    (hfree : y.store.inodes.free = y.rootIdx + 1 + k.size) (hok : StoreOk y.store)
    (hdirty : y.dirty = false) : ShownAs y (entryKids E) (F y.store)
      (fun e => untilNul e.nameBytes) (entryType E) (rootEntry E) k where
  tree := ht
  free := hfree
  size := hok.free_lt
  dirty := hdirty
  types v e h := (hF v e h).ftype
  names q i c hs _ := by
    obtain ⟨hname, hlen, -, -⟩ := hF _ _ (ht.labelAt hs).fact
    rw [printedName, hname, hlen]
    rfl

/-- The walk with an inspector, over what the directories list. -/
theorem XfsTreeBy.cliWalk (ht : XfsTreeBy E F y k) (hF : ∀ v e, F y.store v e → IsEntry E v e)
    (hfree : y.store.inodes.free = y.rootIdx + 1 + k.size) (hok : StoreOk y.store)
    (hdirty : y.dirty = false) {inspector : Nat → WalkCb XalNodeinspectorArgs}
    {lines : List CStr → XalInode → List CliLine} (hn : y.store.inodes.free ≤ n)
    (hcall : ∀ q i e d args,
      SlotAt y (entryKids E) (fun e => untilNul e.nameBytes) (rootEntry E) q i e →
        KnownType (entryType E e) →
      inspector n i d args = .ok () (args.inspected (entryType E e) (lines q e)))
    (args : XalNodeinspectorArgs) : Xallib.cliWalk y inspector n ⟨0, 0, []⟩ = .ok () args ↔
      (∀ q e, XfsListed E q e → KnownType (entryType E e)) ∧
        args = inspectedAll (entryType E) (fun q => lines (q.map untilNul)) (xfsEntries E n) := by
  have hx := ht.shownAs hF hfree hok hdirty
  have hok : (∀ q e, XfsListed E q e → KnownType (entryType E e)) →
      Xallib.cliWalk y inspector n ⟨0, 0, []⟩ = .ok () (inspectedAll (entryType E)
        (fun q => lines (q.map untilNul)) (xfsEntries E n)) := by
    intro hknown
    rw [cliWalk_ok hx (fun q e h => ?_) hcall hn]
    · have hrename := preorder_rename (entryKids E) XalInode.nameBytes untilNul n [] (rootEntry E)
      rw [List.map_nil] at hrename
      rw [hrename, xfsEntries]
      simp [inspectedAll, List.countP_map, List.flatMap_map, Function.comp_def]
    · obtain ⟨q', h⟩ := h.rename XalInode.nameBytes
      exact hknown q' e h
  constructor
  · intro h
    have hknown : ∀ q e, XfsListed E q e → KnownType (entryType E e) := by
      intro q e he
      obtain ⟨q', he⟩ := he.rename fun e => untilNul e.nameBytes
      exact typed_of_cliWalk hx h q' e he
    exact ⟨hknown, ((Run.ok.inj ((hok hknown).symm.trans h)).2).symm⟩
  · rintro ⟨hknown, rfl⟩
    exact hok hknown

/-- Each inode of the index is an entry, and each entry is an inode. -/
theorem XfsTreeBy.entries (ht : XfsTreeBy E F y k)
    (hfree : y.store.inodes.free = y.rootIdx + 1 + k.size) (hn : y.store.inodes.free ≤ n) :
    (∀ q e, (q, e) ∈ xfsEntries E n ↔ XfsListed E q e) ∧
      y.rootIdx + (xfsEntries E n).length = y.store.inodes.free := by
  have hlen := (ht.visits_preorder XalInode.nameBytes (n := n) (by omega) 0).length_eq
  rw [length_visits] at hlen
  refine ⟨fun q e => ht.mem_preorder XalInode.nameBytes (by omega), ?_⟩
  rw [xfsEntries, ← hlen, hfree]
  simp only [size_cons, size_nil]
  omega

/-- The line of an extent depends on the superblock and the backend only. -/
theorem Kept.extentLine {δ : Type} {x y : Xal δ} (h : Kept x y) :
    Xallib.extentLine y = Xallib.extentLine x := by
  funext rec
  rw [h]
  rfl

/-- The block size is one of whole sectors, and the numbers of the record are in range. -/
structure WholeSectors (sb : XalSb) (rec : XalExtent) : Prop where
  blocksize : 0 < sb.blocksize
  sectors : sectorSize ∣ sb.blocksize
  agblklog : sb.agblklog < 32
  nonempty : 0 < rec.nblocks
  file : (rec.startOffset + rec.nblocks) * sb.blocksize < 2 ^ 64
  device : (rec.startBlock / 2 ^ sb.agblklog * sb.agblocks +
    rec.startBlock % 2 ^ sb.agblklog + rec.nblocks) * sb.blocksize < 2 ^ 64

/-- The first and the last sector of a record, in the file and on the device. -/
def sectorLine (sb : XalSb) (rec : XalExtent) : CliLine :=
  let sectors := sb.blocksize / sectorSize
  let block := rec.startBlock / 2 ^ sb.agblklog * sb.agblocks + rec.startBlock % 2 ^ sb.agblklog
  .extent (rec.startOffset * sectors) ((rec.startOffset + rec.nblocks) * sectors - 1)
    (block * sectors) ((block + rec.nblocks) * sectors - 1)

/-- The last sector, computed modulo `2 ^ 64`. -/
theorem last_sector {a b m : Nat} (hm : 0 < m) (hb : 0 < b)
    (hlt : (a + b) * (sectorSize * m) < 2 ^ 64) :
    (a * m + b * m + (2 ^ 64 - 1)) % 2 ^ 64 = (a + b) * m - 1 := by
  have hpos : 0 < (a + b) * m := Nat.mul_pos (by omega) hm
  have hle : (a + b) * m ≤ (a + b) * (sectorSize * m) :=
    Nat.mul_le_mul_left _ (Nat.le_mul_of_pos_left m (by decide))
  rw [← Nat.add_mul]
  omega

theorem extentLine_eq (h : WholeSectors y.sb rec) (ht : y.type = .xfs) :
    extentLine y rec = sectorLine y.sb rec := by
  obtain ⟨hb, ⟨m, hm⟩, hlog, hn, hfile, hdev⟩ := h
  have hmpos : 0 < m := by
    rw [hm] at hb
    exact Nat.pos_of_mul_pos_left hb
  have hsize : y.sb.blocksize / sectorSize = m := by
    rw [hm]
    exact Nat.mul_div_cancel_left m (by decide)
  -- a number of blocks, in sectors
  have hblocks (a b : Nat) (hlt : (a + b) * y.sb.blocksize < 2 ^ 64) :
      a * y.sb.blocksize % 2 ^ 64 / sectorSize = a * m := by
    have hle : a * y.sb.blocksize ≤ (a + b) * y.sb.blocksize :=
      Nat.mul_le_mul_right _ (Nat.le_add_right a b)
    rw [Nat.mod_eq_of_lt (by omega), hm, Nat.mul_left_comm]
    exact Nat.mul_div_cancel_left _ (by decide)
  have hcount : rec.nblocks * y.sb.blocksize % 2 ^ 64 / sectorSize = rec.nblocks * m :=
    hblocks rec.nblocks rec.startOffset (by rwa [Nat.add_comm])
  have hfsbno : xalFsbnoOffset .xfs y.sb rec.startBlock / sectorSize =
      (rec.startBlock / 2 ^ y.sb.agblklog * y.sb.agblocks +
        rec.startBlock % 2 ^ y.sb.agblklog) * m := by
    rw [xalFsbnoOffset, agblkMask, Nat.mod_eq_of_lt hlog, Nat.and_two_pow_sub_one_eq_mod,
      Nat.shiftRight_eq_div_pow]
    exact hblocks _ _ hdev
  simp only [extentLine, sectorLine, hsize, ht, hfsbno, hcount, hblocks _ _ hfile]
  rw [last_sector hmpos hn (by rw [← hm]; exact hfile),
    last_sector hmpos hn (by rw [← hm]; exact hdev)]

end

/-- `xal --find` puts out one line for each path, after its directory. -/
theorem find_prints (shm : Bool) (E : XfsEnv) (x y : Xal Buf) (fuel : Nat) (hx : XfsReach shm x)
    (hE : XfsCall E x) (hr : xalIndex (xalBeXfsIndex E fuel) x = .ok () y) (devUri : CStr)
    (n : Nat) (hn : y.store.inodes.free ≤ n) (args : XalNodeinspectorArgs) :
    (cliWalk y (nodeInspectorFind y devUri) n ⟨0, 0, []⟩ = .ok () args ↔
      (∀ q e, XfsListed E q e → KnownType (entryType E e)) ∧
        args = inspectedAll (entryType E) (fun q => findLines devUri (q.map untilNul))
          (xfsEntries E n)) ∧
      (∀ q e, (q, e) ∈ xfsEntries E n ↔ XfsListed E q e) ∧
        y.rootIdx + (xfsEntries E n).length = y.store.inodes.free := by
  obtain ⟨k, ht, hfree⟩ := xalIndex_xfs_tree hE hx.alive.storeOk hr
  have hrooted := hx.rooted hE hr
  have hshown := ht.shownAs (fun _ _ h => h) hfree hrooted.ok hrooted.dirty
  refine ⟨?_, ht.entries hfree hn⟩
  refine ht.cliWalk (fun _ _ h => h) hfree hrooted.ok hrooted.dirty hn ?_ args
  intro q i e d args hs hknown
  exact nodeInspectorFind_ok hshown hs (by have := ht.slot_of_stands hs; omega) hknown

/-- The index of a device with a subdirectory, and what it lists. -/
theorem treeDisk_indexed : ∃ y, xalIndex (xalBeXfsIndex treeDisk 3) (xfsOpened treeDisk.sb) =
    .ok () y ∧ y.store.inodes.free ≤ 5 ∧ ∀ q e, (q, e) ∈ xfsEntries treeDisk 5 ↔
      XfsListed treeDisk q e := by
  have hrun : (xalIndex (xalBeXfsIndex treeDisk 3) (xfsOpened treeDisk.sb)).okWith
      (fun y => decide (y.store.inodes.free ≤ 5)) = true := by decide +kernel
  obtain ⟨_, y, hr, hn⟩ := exists_of_okWith hrun
  have hn := of_decide_eq_true hn
  obtain ⟨k, ht, hfree⟩ := xalIndex_xfs_tree (xfsTableEnv_call _ _ _)
    (xfsOpened_reach _).alive.storeOk hr
  exact ⟨y, hr, hn, (ht.entries hfree hn).1⟩

theorem treeDisk_known : ∀ q e, (q, e) ∈ xfsEntries treeDisk 5 →
    KnownType (entryType treeDisk e) := by
  have hall : ∀ u ∈ xfsEntries treeDisk 5, entryType treeDisk u.2 = ftDir ∨
      entryType treeDisk u.2 = ftRegFile := by decide +kernel
  exact fun q e he => hall (q, e) he

/-- What is found on the device `d`. -/
theorem find_prints_nested : ∃ y, xalIndex (xalBeXfsIndex treeDisk 3) (xfsOpened treeDisk.sb) =
    .ok () y ∧ cliWalk y (nodeInspectorFind y [100]) 5 ⟨0, 0, []⟩ =
      .ok () ⟨2, 3, [.path [100], .path [100, 47, 97], .path [100, 47, 100],
        .path [100, 47, 100, 47, 98], .path [100, 47, 100, 47, 99]]⟩ := by
  obtain ⟨y, hr, hn, hlisted⟩ := treeDisk_indexed
  have hfind := fun args => (find_prints true treeDisk _ y 3 (xfsOpened_reach _)
    (xfsTableEnv_call _ _ _) hr [100] 5 hn args).1
  exact ⟨y, hr, (hfind _).2 ⟨fun q e he => treeDisk_known q e ((hlisted q e).2 he),
    by decide +kernel⟩⟩

/-- `xal --bmap` puts out the records of each regular file, as sectors. -/
theorem bmap_prints (shm : Bool) (E : XfsEnv) (x y : Xal Buf) (fuel : Nat) (hx : XfsReach shm x)
    (hE : XfsCall E x) (hr : xalIndex (xalBeXfsIndex E fuel) x = .ok () y)
    (recs : XalInode → List XalExtent)
    (hrecs : ∀ q e, XfsListed E q e → entryType E e = ftRegFile →
      ∃ dinode, E.dinodesMap e.ino = some dinode ∧ FileRecords E dinode (recs e)) (devUri : CStr)
    (n : Nat) (hn : y.store.inodes.free ≤ n) (args : XalNodeinspectorArgs) :
    (cliWalk y (nodeInspectorBmap y devUri) n ⟨0, 0, []⟩ = .ok () args ↔
      (∀ q e, XfsListed E q e → KnownType (entryType E e)) ∧
        args = inspectedAll (entryType E) (fun q => bmapLines (entryType E) recs (extentLine y)
          devUri (q.map untilNul)) (xfsEntries E n)) ∧
      ∀ rec, WholeSectors E.sb rec → extentLine y rec = sectorLine E.sb rec := by
  obtain ⟨k, ht, hfree⟩ := xalIndex_xfs_treeBy recordedEntry_steady (recordedEntry_holds hE.extents)
    hE hx.alive.storeOk hr
  have hrooted := hx.rooted hE hr
  have hshown := ht.shownAs (fun _ _ h => h.1) hfree hrooted.ok hrooted.dirty
  constructor
  · refine ht.cliWalk (fun _ _ h => h.1) hfree hrooted.ok hrooted.dirty hn ?_ args
    intro q i e d args hs hknown
    refine nodeInspectorBmap_ok hshown hs (by have := ht.slot_of_stands hs; omega) ?_ hknown
    intro hreg
    obtain ⟨q', hl⟩ := (ht.listed_iff.1 ⟨i, hs⟩).rename XalInode.nameBytes
    obtain ⟨dinode, hd, hrec⟩ := hrecs q' e hl hreg
    obtain ⟨hentry, hstored⟩ := (ht.labelAt hs).fact
    exact (hstored (hentry.ftype.trans hreg)).2 dinode _ hd hrec
  · intro rec hrec
    have hkept := hrooted.kept
    have hsb : y.sb = E.sb := by rw [hkept, hE.sb]
    have htype : y.type = .xfs := by rw [hkept]; exact hx.alive.type_eq
    rw [← hsb] at hrec ⊢
    exact extentLine_eq hrec htype

/-- The records of the files on that device. -/
def treeRecords (e : XalInode) : List XalExtent :=
  if e.ino = 129 then [⟨0, 8, 3, 0⟩, ⟨3, 13, 1, 0⟩] else if e.ino = 131 then [⟨0, 7, 1, 0⟩] else []

/-- Their sectors, of 512 bytes, on the device `d`. -/
theorem bmap_prints_nested : ∃ y, xalIndex (xalBeXfsIndex treeDisk 3) (xfsOpened treeDisk.sb) =
    .ok () y ∧ cliWalk y (nodeInspectorBmap y [100]) 5 ⟨0, 0, []⟩ =
      .ok () ⟨2, 3, [.file [100, 47, 97], .extent 0 23 64 87, .extent 24 31 104 111,
        .file [100, 47, 100, 47, 98], .extent 0 7 56 63, .noExtents [100, 47, 100, 47, 99]]⟩ := by
  obtain ⟨y, hr, hn, hlisted⟩ := treeDisk_indexed
  have hrecs : ∀ q e, XfsListed treeDisk q e → entryType treeDisk e = ftRegFile →
      ∃ dinode, treeDisk.dinodesMap e.ino = some dinode ∧
        FileRecords treeDisk dinode (treeRecords e) := by
    have hall : ∀ u ∈ xfsEntries treeDisk 5, entryType treeDisk u.2 = ftRegFile →
        (treeDisk.dinodesMap u.2.ino).any fun dinode => diFormat treeDisk dinode == fmtExtents &&
          treeRecords u.2 == (List.range (diNextents treeDisk dinode)).map fun i =>
            xfsExtentAt treeDisk.dinodes (dfork dinode + 16 * i) := by decide +kernel
    intro q e he hreg
    obtain ⟨dinode, hd, h⟩ := (Option.any_eq_true _ _).1 (hall (q, e) ((hlisted q e).2 he) hreg)
    rw [Bool.and_eq_true, beq_iff_eq, beq_iff_eq] at h
    exact ⟨dinode, hd, .inl h⟩
  have hbmap := fun args => (bmap_prints true treeDisk _ y 3 (xfsOpened_reach _)
    (xfsTableEnv_call _ _ _) hr treeRecords hrecs [100] 5 hn args).1
  have hline : extentLine y = extentLine (xfsOpened treeDisk.sb) :=
    ((xfsOpened_reach _).rooted (xfsTableEnv_call _ _ _) hr).kept.extentLine
  refine ⟨y, hr, (hbmap _).2 ⟨fun q e he => treeDisk_known q e ((hlisted q e).2 he), ?_⟩⟩
  rw [hline]
  decide +kernel

/-! ## FIEMAP -/

def FiemapNode.ftype (c : FiemapNode) : Nat := if c.dir then ftDir else ftRegFile

/-- What the operating system lists in the order of the walk, down to the depth `n`, with the names
that are printed: those of an index are full paths. -/
def fiemapEntries (E : FiemapEnv) (n : Nat) : List (List CStr × FiemapNode) :=
  preorder (fiemapKids E.kernel) FiemapNode.stored n [] (fiemapRoot E.mountpoint)

theorem FiemapNode.knownType (c : FiemapNode) : KnownType c.ftype := by
  unfold FiemapNode.ftype
  cases c.dir with
  | true => exact .inl rfl
  | false => exact .inr rfl

section
variable {E : FiemapEnv} {y : Xal FiemapBe} {k : Forest XalInode} {v : XalInode} {c : FiemapNode}
  {K : Kernel} {sb : XalSb} {X : Nat → XalExtent}

theorem IsNode.ftype_eq (h : IsNode K sb X v c) : v.ftype = c.ftype := by
  rcases h.kind with ⟨hdir, hc, -⟩ | ⟨hreg, hc, -⟩
  · rw [hdir, FiemapNode.ftype, hc]
    rfl
  · rw [hreg, FiemapNode.ftype, hc]
    rfl

theorem IsNode.extents (h : IsNode K sb X v c) (hreg : c.ftype = ftRegFile) :
    extentsOf X v = reported K sb c.path := by
  rcases h.kind with ⟨hdir, -, -⟩ | ⟨-, -, hext⟩
  · rw [← h.ftype_eq, hdir] at hreg
    exact absurd hreg (by decide)
  · exact hext

theorem FiemapTree.shownAs (ht : FiemapTree E y k)
    (hfree : y.store.inodes.free = y.rootIdx + 1 + k.size) (hok : StoreOk y.store)
    (hdirty : y.dirty = false) (hC : CStrings E) :
    ShownAs y (fiemapKids E.kernel) (IsNode E.kernel E.sb y.store.extents.memory)
      FiemapNode.stored FiemapNode.ftype (fiemapRoot E.mountpoint) k where
  tree := ht
  free := hfree
  size := hok.free_lt
  dirty := hdirty
  types _ _ h := h.ftype_eq
  names q i c hs _ := by
    obtain ⟨hname, hlen, -, -, -⟩ := (ht.labelAt hs).fact
    obtain ⟨q', hl⟩ := (ht.listed_iff.1 ⟨i, hs⟩).rename FiemapNode.base
    rw [printedName, hname, hlen, List.take_length]
    exact untilNul_eq_iff.2 (hC.stored hl).2

end

/-- The same with the FIEMAP backend, whose walk always returns 0: it puts out the extents that the
operating system reports, as the index stores them. -/
theorem fiemap_prints (shm : Bool) (E : FiemapEnv) (x y : Xal FiemapBe) (fuel : Nat)
    (hx : FiemapReach shm x) (hE : FiemapCall E x) (hC : CStrings E)
    (hr : xalIndex (xalBeFiemapIndex E fuel) x = .ok () y) (devUri : CStr) (n : Nat)
    (hn : y.store.inodes.free ≤ n) :
    cliWalk y (nodeInspectorFind y devUri) n ⟨0, 0, []⟩ =
      .ok () (inspectedAll FiemapNode.ftype (findLines devUri) (fiemapEntries E n)) ∧
    cliWalk y (nodeInspectorBmap y devUri) n ⟨0, 0, []⟩ =
      .ok () (inspectedAll FiemapNode.ftype (bmapLines FiemapNode.ftype
        (fun c => reported E.kernel E.sb c.path) (extentLine y) devUri) (fiemapEntries E n)) := by
  obtain ⟨⟨hok, -, hroot, hdirty, -⟩, k, hk⟩ := hx.done hE hr
  have hfree : y.store.inodes.free = y.rootIdx + 1 + k.size := by rw [hk.free, hroot]
  have hshown := (hk.tree hroot).shownAs hfree hok hdirty hC
  have hlt (q i c) (hs : SlotAt y (fiemapKids E.kernel) FiemapNode.stored
      (fiemapRoot E.mountpoint) q i c) : i < n := by
    have := (hk.tree hroot).slot_of_stands hs
    omega
  constructor
  · exact cliWalk_ok hshown (fun _ c _ => c.knownType)
      (fun q i c d args hs => nodeInspectorFind_ok hshown hs (hlt q i c hs)) hn
  · refine cliWalk_ok hshown (fun _ c _ => c.knownType) (fun q i c d args hs => ?_) hn
    exact nodeInspectorBmap_ok hshown hs (hlt q i c hs) (hshown.tree.labelAt hs).fact.extents

/-- The files `/m/a`, `/m/d/b` and `/m/d/c`; below the mountpoint the full paths are put out. -/
theorem fiemap_prints_nested :
    ∃ y, xalIndex (xalBeFiemapIndex (treeDir 0) 3) (fiemapOpened (treeDir 0).sb false) =
        .ok () y ∧
      cliWalk y (nodeInspectorFind y [47, 109]) 5 ⟨0, 0, []⟩ =
        .ok () ⟨2, 3, [.path [47, 109], .path [47, 109, 47, 47, 109, 47, 97],
          .path [47, 109, 47, 47, 109, 47, 100],
          .path [47, 109, 47, 47, 109, 47, 100, 47, 47, 109, 47, 100, 47, 98],
          .path [47, 109, 47, 47, 109, 47, 100, 47, 47, 109, 47, 100, 47, 99]]⟩ ∧
      cliWalk y (nodeInspectorBmap y [47, 109]) 5 ⟨0, 0, []⟩ =
        .ok () ⟨2, 3, [.file [47, 109, 47, 47, 109, 47, 97], .extent 0 23 64 87,
          .extent 24 31 104 111,
          .file [47, 109, 47, 47, 109, 47, 100, 47, 47, 109, 47, 100, 47, 98], .extent 0 7 56 63,
          .noExtents [47, 109, 47, 47, 109, 47, 100, 47, 47, 109, 47, 100, 47, 99]]⟩ := by
  have hrun : (xalIndex (xalBeFiemapIndex (treeDir 0) 3) (fiemapOpened (treeDir 0).sb false)).okWith
      (fun y => decide (y.store.inodes.free ≤ 5)) = true := by decide +kernel
  obtain ⟨_, y, hr, hn⟩ := exists_of_okWith hrun
  have hC : CStrings (treeDir 0) := tableEnv_cStrings (by decide) (by decide)
  obtain ⟨hfind, hbmap⟩ := fiemap_prints true (treeDir 0) _ y 3 (fiemapOpened_reach _ _)
    (tableEnv_call rfl) hC hr [47, 109] 5 (of_decide_eq_true hn)
  have hline : extentLine y = extentLine (fiemapOpened (treeDir 0).sb false) := by
    obtain ⟨⟨-, hkept, -⟩, -⟩ := (fiemapOpened_reach _ _).done (tableEnv_call rfl) hr
    exact hkept.extentLine
  rw [hline] at hbmap
  refine ⟨y, hr, hfind.trans (congrArg _ ?_), hbmap.trans (congrArg _ ?_)⟩
  · decide +kernel
  · decide +kernel

end Xallib
