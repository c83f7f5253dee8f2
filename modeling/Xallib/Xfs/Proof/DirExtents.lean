import Xallib.Lib.Descent
import Xallib.Lib.Loop
import Xallib.Lib.Span
import Xallib.Xfs.Proof.Counters

/-!
# The blocks of a directory in extents format

`dirDblocks` are the blocks from which `process_dinode_dir_extents` decodes directory blocks, in
their order (`dirExtentsLoop_eq`). A directory block has several file-system blocks where
`dirblocksize` is larger than `blocksize`, and may go on in the next extent. The source reads whole
directory blocks from the start of each extent on: `dirExtents_blocks_iff`.
-/

namespace Xallib

open Lib Lib.Span Lib.Buf Lib.Cm Lib.Run

section
variable (E : XfsEnv) (dinode : Nat)

/-- An extent maps blocks of the directory to blocks of the file system. -/
def extentSpan (e : XalExtent) : Span := ⟨e.startOffset, e.startBlock, e.nblocks⟩

/-- The extent `i` of the data fork. -/
def forkExtent (i : Nat) : XalExtent := xfsExtentAt E.dinodes (dfork dinode + 16 * i)

/-- The blocks of an extent at which directory blocks are read. -/
def extentDblocks (e : XalExtent) : List Nat := starts (fsblkPerDblk E) (extentSpan e)

/-- Those of the data fork, extent `i` on, with the bytes left of the directory. -/
def dirDblocks : Nat → Nat → Int → List Nat
  | 0, _, _ => []
  | n + 1, i, nbytes =>
    if nbytes > 0 then
      extentDblocks E (forkExtent E dinode i) ++
        dirDblocks n (i + 1) (nbytes - (forkExtent E dinode i).nblocks * E.sb.blocksize)
    else []

/-- How many extents of the data fork the loop gets to. -/
def dirReads : Nat → Nat → Int → Nat
  | 0, _, _ => 0
  | n + 1, i, nbytes =>
    if nbytes > 0 then
      dirReads n (i + 1) (nbytes - (forkExtent E dinode i).nblocks * E.sb.blocksize) + 1
    else 0

/-- `XFS_DIR2_LEAF_OFFSET`: where the blocks of a directory end that hold entries. -/
def dirLeafOffset : Nat := 2 ^ 35

/-- A directory in extents format: `data` are its extents below the leaf offset, and its data fork
is in `be->dinodes`. -/
structure DirFork (data : List XalExtent) : Prop where
  inside : dfork dinode + 16 * data.length ≤ dinodesRoom E.sb
  extents : (List.range data.length).map (forkExtent E dinode) = data
  spans : Spans (fsblkPerDblk E) (dirLeafOffset / E.sb.dirblocksize) (data.map extentSpan)
  size : diSize E dinode = (data.map fun e => e.nblocks * E.sb.blocksize).sum

/-- The directory blocks, each as the file-system blocks it is made of. -/
def dirBlocks (data : List XalExtent) : List (List Nat) :=
  tiles (fsblkPerDblk E) (data.map extentSpan) (dirLeafOffset / E.sb.dirblocksize)

/-- What the loop decodes, each buffer as the file-system blocks it was read from. -/
def decodedBlocks : List (List Nat) :=
  (dirDblocks E dinode (diNextents E dinode) 0 (signed64 (diSize E dinode))).map
    (tile (fsblkPerDblk E))

end

section
variable {E : XfsEnv} {dinode self : Nat}

/-- The blocks of a directory block follow one another on the device, in one allocation group. -/
theorem xalFsbnoOffset_add {sb : XalSb} (hlog : sb.agblklog < 32) {fsbno j : Nat}
    (h : fsbno % 2 ^ sb.agblklog + j < 2 ^ sb.agblklog) :
    xalFsbnoOffset .xfs sb (fsbno + j) =
      (xalFsbnoOffset .xfs sb fsbno + j * sb.blocksize) % 2 ^ 64 := by
  have hdiv : (fsbno + j) / 2 ^ sb.agblklog = fsbno / 2 ^ sb.agblklog := by
    have hsplit := Nat.div_add_mod fsbno (2 ^ sb.agblklog)
    rw [← hsplit, Nat.add_assoc, Nat.mul_add_div (Nat.two_pow_pos _), Nat.div_eq_of_lt h, hsplit,
      Nat.add_zero]
  have hmod : (fsbno + j) % 2 ^ sb.agblklog = fsbno % 2 ^ sb.agblklog + j := by
    rw [Nat.add_mod, Nat.mod_eq_of_lt (show j < 2 ^ sb.agblklog by omega), Nat.mod_eq_of_lt h]
  simp only [xalFsbnoOffset, agblkMask, Nat.mod_eq_of_lt hlog, Nat.shiftRight_eq_div_pow,
    Nat.and_two_pow_sub_one_eq_mod, hdiv,
    hmod]
  rw [Nat.mod_add_mod, ← Nat.add_mul, Nat.add_assoc]

/-- The loop over an extent, round `k` on. -/
theorem forDblocks_eq (hper : 0 < fsblkPerDblk E) (body : Nat → Xm Unit) (start nblocks n : Nat) :
    ∀ (k : Nat) (s : Store Buf), (nblocks + fsblkPerDblk E - 1) / fsblkPerDblk E ≤ k + n →
      forDblocks E start nblocks (fun fsbno => do body fsbno; pure true) n k s =
        (((List.range' k ((nblocks + fsblkPerDblk E - 1) / fsblkPerDblk E - k)).map
          fun j => start + j * fsblkPerDblk E).forM body >>= fun _ => pure true) s := by
  have hround : ∀ k, k * fsblkPerDblk E < nblocks ↔
      k < (nblocks + fsblkPerDblk E - 1) / fsblkPerDblk E := by
    intro k
    rw [Nat.lt_iff_add_one_le, Nat.lt_iff_add_one_le, Nat.le_div_iff_mul_le hper, Nat.succ_mul]
    omega
  induction n with
  | zero =>
    intro k s hk
    have hstop : ¬k * fsblkPerDblk E < nblocks := by rw [hround]; omega
    unfold forDblocks
    rw [if_neg hstop, show (nblocks + fsblkPerDblk E - 1) / fsblkPerDblk E - k = 0 by omega]
    rfl
  | succ n ih =>
    intro k s hk
    unfold forDblocks
    by_cases hlt : k * fsblkPerDblk E < nblocks
    · have hk' := (hround k).1 hlt
      rw [if_pos hlt, show (nblocks + fsblkPerDblk E - 1) / fsblkPerDblk E - k =
        (nblocks + fsblkPerDblk E - 1) / fsblkPerDblk E - (k + 1) + 1 by omega, List.range'_succ,
        List.map_cons, bind_assoc_apply, forM_cons_bind]
      refine bind_congr_apply s fun _ t => ?_
      rw [ret_bind, if_pos rfl]
      exact ih (k + 1) t (by omega)
    · rw [if_neg hlt]
      rw [hround] at hlt
      rw [show (nblocks + fsblkPerDblk E - 1) / fsblkPerDblk E - k = 0 by omega]
      rfl

/-- The loop over an extent. -/
theorem forDblocks_extent (hper : 0 < fsblkPerDblk E) (body : Nat → Xm Unit) (e : XalExtent)
    (s : Store Buf) :
    forDblocks E e.startBlock e.nblocks (fun fsbno => do body fsbno; pure true) e.nblocks 0 s =
      ((extentDblocks E e).forM body >>= fun _ => pure true) s := by
  have hrounds : (e.nblocks + fsblkPerDblk E - 1) / fsblkPerDblk E ≤ 0 + e.nblocks := by
    have hle := Nat.le_mul_of_pos_left e.nblocks hper
    rw [Nat.zero_add, Nat.div_le_iff_le_mul_add_pred hper]
    omega
  rw [forDblocks_eq hper body e.startBlock e.nblocks e.nblocks 0 s hrounds, Nat.sub_zero,
    ← List.range_eq_range']
  rfl

theorem extentDblocks_isEmpty (hper : 0 < fsblkPerDblk E) (e : XalExtent) :
    (extentDblocks E e).isEmpty = !decide (0 < e.nblocks) := by
  have hdiv : 0 < (e.nblocks + fsblkPerDblk E - 1) / fsblkPerDblk E ↔ 0 < e.nblocks := by
    rw [Nat.div_pos_iff]
    omega
  rw [Bool.eq_iff_iff, List.isEmpty_iff_length_eq_zero, extentDblocks, starts, List.length_map,
    List.length_range, Bool.not_eq_true', decide_eq_false_iff_not, ← hdiv]
  exact Nat.pos_iff_ne_zero.not_left.symm

/-- The loop over the extents decodes these blocks, one after the other. -/
theorem dirExtentsLoop_eq (hper : 0 < fsblkPerDblk E) (n : Nat) :
    ∀ (i : Nat) (nbytes : Int) (s : Store Buf),
      dfork dinode + 16 * (i + dirReads E dinode n i nbytes) ≤ dinodesRoom E.sb →
      dirExtentsLoop E dinode self n i nbytes s =
        ((dirDblocks E dinode n i nbytes).forM
          (fun fsbno => processDinodeDirExtentsDblock E fsbno self) >>=
          fun _ => pure !(dirDblocks E dinode n i nbytes).isEmpty) s := by
  induction n with
  | zero => exact fun _ _ _ _ => rfl
  | succ n ih =>
    intro i nbytes s hin
    unfold dirExtentsLoop
    rw [dirDblocks]
    rw [dirReads] at hin
    by_cases hb : nbytes > 0
    · simp only [if_pos hb] at hin ⊢
      rw [bind_of_ok (assert_true (by omega) s), bind_congr_left (forDblocks_extent hper _ _ s),
        bind_assoc_apply, forM_append_bind]
      refine bind_congr_apply s fun _ t => ?_
      have hrest : dfork dinode + 16 * (i + 1 + dirReads E dinode n (i + 1) (nbytes -
          (xfsExtentAt E.dinodes (dfork dinode + 16 * i)).nblocks * E.sb.blocksize)) ≤
            dinodesRoom E.sb := by
        rw [forkExtent] at hin
        omega
      rw [ret_bind, bind_congr_left (ih _ _ t hrest), bind_assoc_apply]
      refine bind_congr_apply t fun _ t' => ?_
      have happend : ∀ l m : List Nat, (l ++ m).isEmpty = (l.isEmpty && m.isEmpty) := by
        intro l m
        cases l <;> rfl
      rw [ret_bind, happend, extentDblocks_isEmpty hper, Bool.not_and, Bool.not_not]
      rfl
    · simp only [if_neg hb]
      rfl

/-- As long as extents of the directory are left, so are bytes. -/
theorem dirDblocks_eq (hbs : 0 < E.sb.blocksize) {rest : List XalExtent}
    (hpos : ∀ e ∈ rest, 0 < e.nblocks) :
    ∀ (n i : Nat), (List.range rest.length).map (fun j => forkExtent E dinode (i + j)) = rest →
      dirDblocks E dinode n i ((rest.map fun e => e.nblocks * E.sb.blocksize).sum : Nat) =
        (rest.take n).flatMap (extentDblocks E) ∧
      dirReads E dinode n i ((rest.map fun e => e.nblocks * E.sb.blocksize).sum : Nat) ≤
        rest.length := by
  induction rest with
  | nil =>
    intro n i _
    cases n with
    | zero => exact ⟨rfl, Nat.le_refl _⟩
    | succ n => exact ⟨rfl, Nat.le_refl _⟩
  | cons e rest ih =>
    intro n i hread
    cases n with
    | zero => exact ⟨rfl, Nat.zero_le _⟩
    | succ n =>
      rw [List.length_cons, List.range_succ_eq_map, List.map_cons, List.map_map, List.cons.injEq,
        Nat.add_zero] at hread
      rw [List.forall_mem_cons] at hpos
      have hrest : (List.range rest.length).map (fun j => forkExtent E dinode (i + 1 + j)) =
          rest := by
        refine (List.map_congr_left fun j _ => ?_).trans hread.2
        show forkExtent E dinode (i + 1 + j) = forkExtent E dinode (i + (j + 1))
        rw [Nat.add_right_comm, Nat.add_assoc]
      have hlt := Nat.mul_pos hpos.1 hbs
      have hleft : (((e :: rest).map fun e => e.nblocks * E.sb.blocksize).sum : Int) -
          (e.nblocks : Int) * E.sb.blocksize =
            ((rest.map fun e => e.nblocks * E.sb.blocksize).sum : Nat) := by
        rw [List.map_cons, List.sum_cons]
        push_cast
        omega
      have hpositive : ((((e :: rest).map fun e => e.nblocks * E.sb.blocksize).sum : Nat) : Int) >
          0 := by
        rw [List.map_cons, List.sum_cons]
        omega
      obtain ⟨hblocks, hreads⟩ := ih hpos.2 n (i + 1) hrest
      constructor
      · rw [dirDblocks, if_pos hpositive, hread.1, hleft, hblocks, List.take_succ_cons,
          List.flatMap_cons]
      · rw [dirReads, if_pos hpositive, hread.1, hleft, List.length_cons]
        omega

theorem sum_nblocks (data : List XalExtent) (k : Nat) : (data.map fun e => e.nblocks * k).sum =
    ((data.map extentSpan).flatMap dsts).length * k := by
  induction data with
  | nil => simp
  | cons e data ih =>
    rw [List.map_cons, List.sum_cons, ih, List.map_cons, List.flatMap_cons,
      List.length_append, dsts,
      List.length_map, List.length_range, Nat.add_mul]
    rfl

variable {data : List XalExtent} {dirblklog : Nat}

theorem fsblkPerDblk_pos (hbs : 0 < E.sb.blocksize)
    (hdir : E.sb.dirblocksize = E.sb.blocksize * 2 ^ dirblklog) : 0 < fsblkPerDblk E := by
  rw [fsblkPerDblk, hdir, Nat.mul_div_cancel_left _ hbs]
  exact Nat.two_pow_pos dirblklog

/-- The size of the directory is below the leaf offset. -/
theorem DirFork.signed_size (h : DirFork E dinode data) (hper : 0 < fsblkPerDblk E) :
    signed64 (diSize E dinode) = ((data.map fun e => e.nblocks * E.sb.blocksize).sum : Nat) := by
  have hle := h.spans.length_le hper
  have hdir : fsblkPerDblk E * E.sb.blocksize ≤ E.sb.dirblocksize := Nat.div_mul_le_self _ _
  have hleaf : dirLeafOffset / E.sb.dirblocksize * E.sb.dirblocksize ≤ dirLeafOffset :=
    Nat.div_mul_le_self _ _
  have hsize : diSize E dinode ≤ dirLeafOffset := by
    calc diSize E dinode = ((data.map extentSpan).flatMap dsts).length * E.sb.blocksize := by
          rw [h.size, sum_nblocks]
      _ ≤ dirLeafOffset / E.sb.dirblocksize * fsblkPerDblk E * E.sb.blocksize :=
          Nat.mul_le_mul_right _ hle
      _ = dirLeafOffset / E.sb.dirblocksize * (fsblkPerDblk E * E.sb.blocksize) :=
        Nat.mul_assoc _ _ _
      _ ≤ dirLeafOffset / E.sb.dirblocksize * E.sb.dirblocksize := Nat.mul_le_mul_left _ hdir
      _ ≤ dirLeafOffset := hleaf
  rw [signed64, if_pos (by simp only [dirLeafOffset] at hsize; omega), h.size]

/-- The extents that the loop gets to, cut into directory blocks; they are in `be->dinodes`. -/
theorem DirFork.decodedBlocks_eq (h : DirFork E dinode data) (hbs : 0 < E.sb.blocksize)
    (hper : 0 < fsblkPerDblk E) : decodedBlocks E dinode =
      cuts (fsblkPerDblk E) ((data.take (diNextents E dinode)).map extentSpan) ∧
      dfork dinode + 16 * (0 + dirReads E dinode (diNextents E dinode) 0
        (signed64 (diSize E dinode))) ≤ dinodesRoom E.sb := by
  have hpos : ∀ e ∈ data, 0 < e.nblocks := fun e he => h.spans.pos _ (List.mem_map_of_mem he)
  have hread : (List.range data.length).map (fun j => forkExtent E dinode (0 + j)) = data := by
    simp only [Nat.zero_add]
    exact h.extents
  obtain ⟨hblocks, hreads⟩ := dirDblocks_eq hbs hpos (diNextents E dinode) 0 hread
  have hin := h.inside
  constructor
  · rw [decodedBlocks, h.signed_size hper, hblocks, cuts, List.flatMap_map]
    rfl
  · rw [h.signed_size hper]
    omega

end

/-- The directory blocks are decoded whole and in order exactly if each extent is a number of whole
directory blocks, where the loop gets to all of them (module doc). -/
theorem dirExtents_blocks_iff (E : XfsEnv) (dirblklog : Nat) (hbs : 0 < E.sb.blocksize)
    (hdir : E.sb.dirblocksize = E.sb.blocksize * 2 ^ dirblklog) (dinode self : Nat)
    (data : List XalExtent) (hd : DirFork E dinode data) :
    (∀ s, dirExtentsLoop E dinode self (diNextents E dinode) 0 (signed64 (diSize E dinode)) s =
      ((dirDblocks E dinode (diNextents E dinode) 0 (signed64 (diSize E dinode))).forM
          (fun fsbno => processDinodeDirExtentsDblock E fsbno self) >>= fun _ =>
        pure !(dirDblocks E dinode (diNextents E dinode) 0 (signed64 (diSize E dinode))).isEmpty)
          s) ∧
    (E.sb.agblklog < 32 → ∀ fsbno j, fsbno % 2 ^ E.sb.agblklog + j < 2 ^ E.sb.agblklog →
      xalFsbnoOffset .xfs E.sb (fsbno + j) =
        (xalFsbnoOffset .xfs E.sb fsbno + j * E.sb.blocksize) % 2 ^ 64) ∧
    (data.length ≤ diNextents E dinode →
      (decodedBlocks E dinode = dirBlocks E data ↔ ∀ e ∈ data, fsblkPerDblk E ∣ e.nblocks)) ∧
    ((∀ e ∈ data, fsblkPerDblk E ∣ e.nblocks) →
      (decodedBlocks E dinode = dirBlocks E data ↔ data.length ≤ diNextents E dinode)) := by
  have hper := fsblkPerDblk_pos hbs hdir
  obtain ⟨hdecoded, hin⟩ := hd.decodedBlocks_eq hbs hper
  have hall : data.length ≤ diNextents E dinode →
      (decodedBlocks E dinode = dirBlocks E data ↔ ∀ e ∈ data, fsblkPerDblk E ∣ e.nblocks) := by
    intro hle
    rw [hdecoded, List.take_of_length_le hle, dirBlocks, hd.spans.cuts_eq_tiles_iff hper,
      List.forall_mem_map]
    rfl
  refine ⟨fun s => dirExtentsLoop_eq hper _ _ _ s hin,
    fun hlog _ _ h => xalFsbnoOffset_add hlog h, hall,
    fun hdvd => ⟨fun heq => ?_, fun hle => (hall hle).2 hdvd⟩⟩
  by_contra hlt
  -- an extent that the loop does not get to has blocks
  have hflat := congrArg (fun l => l.flatten.length) heq
  have hdvd' : ∀ s ∈ (data.take (diNextents E dinode)).map extentSpan, fsblkPerDblk E ∣ s.len := by
    rw [List.forall_mem_map]
    exact fun e he => hdvd e (List.mem_of_mem_take he)
  simp only [hdecoded, flatten_cuts hper hdvd', dirBlocks, hd.spans.flatten_tiles hper] at hflat
  have hsplit : (data.map extentSpan).flatMap dsts =
      ((data.take (diNextents E dinode)).map extentSpan).flatMap dsts ++
        ((data.drop (diNextents E dinode)).map extentSpan).flatMap dsts := by
    rw [← List.flatMap_append, ← List.map_append, List.take_append_drop]
  have hleft := List.drop_eq_getElem_cons (Nat.not_le.1 hlt)
  have hpos := hd.spans.pos _ (List.mem_map_of_mem (List.getElem_mem (Nat.not_le.1 hlt)))
  rw [hsplit, hleft, List.length_append, List.map_cons, List.flatMap_cons, List.length_append,
    dsts, List.length_map, List.length_range] at hflat
  omega

/-! ## Two extents -/

/-- A directory of `nblocks` file-system blocks, with the extents `l`. -/
def extentsDinode (nblocks : Nat) (l : List BmbtRec) : Buf := fun i =>
  if i = 79 then UInt8.ofNat l.length else if i = 62 then UInt8.ofNat (4 * nblocks)
  else ofList 176 (l.flatMap BmbtRec.bytes) i

def extentsXfs (nblocks : Nat) (l : List BmbtRec) : XfsEnv :=
  xfsTableEnv smallSb (extentsDinode nblocks l) fun _ => none

/-- The record of a written extent. -/
def plainRec (startoff startblock blockcount : Nat)
    (h : startoff < 2 ^ 54 ∧ startblock < 2 ^ 52 ∧ blockcount < 2 ^ 21) : BmbtRec :=
  ⟨0, startoff, startblock, blockcount, Nat.two_pos, h.1, h.2.1, h.2.2⟩

/-- Two extents of two directory blocks and of one. -/
def wholeExtents : List BmbtRec := [plainRec 0 7 4 (by decide), plainRec 4 20 2 (by decide)]

/-- Two extents of one block. -/
def splitExtent : List BmbtRec := [plainRec 0 7 1 (by decide), plainRec 1 20 1 (by decide)]

theorem extentsXfs_fork {nblocks m : Nat} {l : List BmbtRec} (data : List XalExtent)
    (hin : 176 + 16 * data.length ≤ 4096) (hm : m ≤ 2 ^ 24)
    (hread : (List.range data.length).map (forkExtent (extentsXfs nblocks l) 0) = data)
    (himage : ∀ i, (image (data.map extentSpan) i).isSome ↔ i < 2 * m)
    (hpos : ∀ s ∈ data.map extentSpan, 0 < s.len)
    (hsorted : (data.map extentSpan).Pairwise fun s t => s.src + s.len ≤ t.src)
    (hsize : diSize (extentsXfs nblocks l) 0 = (data.map fun e => e.nblocks * 1024).sum) :
    DirFork (extentsXfs nblocks l) 0 data := by
  have hper : fsblkPerDblk (extentsXfs nblocks l) = 2 := by
    show 2048 / 1024 = 2
    decide
  have hbound : dirLeafOffset / (extentsXfs nblocks l).sb.dirblocksize = 2 ^ 24 := by
    show 2 ^ 35 / 2048 = 2 ^ 24
    decide
  have hinside : dfork 0 + 16 * data.length ≤ dinodesRoom (extentsXfs nblocks l).sb := by
    show 0 + 176 + 16 * data.length ≤ 8 * 512 % 2 ^ 64
    omega
  refine ⟨hinside, hread, ⟨hpos, hsorted, fun s hs => ?_, fun i j hij h => ?_⟩, hsize⟩
  · have hlast : (image (data.map extentSpan) (s.src + (s.len - 1))).isSome := by
      have := hpos s hs
      exact image_isSome.2 ⟨s, hs, by omega, by omega⟩
    rw [himage] at hlast
    have := hpos s hs
    rw [hper, hbound]
    omega
  · rw [himage] at h ⊢
    rw [hper] at hij
    omega

theorem dirExtents_blocks_whole :
    decodedBlocks (extentsXfs 6 wholeExtents) 0 = dirBlocks (extentsXfs 6 wholeExtents)
        [⟨0, 7, 4, 0⟩, ⟨4, 20, 2, 0⟩] ∧
      decodedBlocks (extentsXfs 6 wholeExtents) 0 = [[7, 8], [9, 10], [20, 21]] := by
  have hfork : DirFork (extentsXfs 6 wholeExtents) 0 [⟨0, 7, 4, 0⟩, ⟨4, 20, 2, 0⟩] := by
    refine extentsXfs_fork (m := 3) _ (by decide) (by decide) (by decide +kernel) (fun i => ?_)
      (by decide) (by decide) (by decide +kernel)
    rw [image_isSome]
    simp [extentSpan]
    omega
  have hcount : [(⟨0, 7, 4, 0⟩ : XalExtent), ⟨4, 20, 2, 0⟩].length ≤
      diNextents (extentsXfs 6 wholeExtents) 0 := by
    decide +kernel
  exact ⟨((dirExtents_blocks_iff (extentsXfs 6 wholeExtents) 1 (by decide) rfl 0 0 _ hfork).2.2.1
    hcount).2 (by decide), by decide +kernel⟩

/-- The directory block is decoded from its first half and what comes after it, and again from its
second half. -/
theorem dirExtents_blocks_split :
    DirFork (extentsXfs 2 splitExtent) 0 [⟨0, 7, 1, 0⟩, ⟨1, 20, 1, 0⟩] ∧
      decodedBlocks (extentsXfs 2 splitExtent) 0 = [[7, 8], [20, 21]] ∧
      dirBlocks (extentsXfs 2 splitExtent) [⟨0, 7, 1, 0⟩, ⟨1, 20, 1, 0⟩] ≠ [[7, 8], [20, 21]] := by
  have hfork : DirFork (extentsXfs 2 splitExtent) 0 [⟨0, 7, 1, 0⟩, ⟨1, 20, 1, 0⟩] := by
    refine extentsXfs_fork (m := 1) _ (by decide) (by decide) (by decide +kernel) (fun i => ?_)
      (by decide) (by decide) (by decide +kernel)
    rw [image_isSome]
    simp [extentSpan]
    omega
  refine ⟨hfork, by decide +kernel, fun h => ?_⟩
  have hflat := hfork.spans.flatten_tiles (by decide)
  have hblocks := congrArg List.flatten h
  rw [dirBlocks, hflat] at hblocks
  exact absurd hblocks (by decide)

end Xallib
