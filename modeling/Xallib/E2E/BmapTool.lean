import Xallib.Cli.BmapTool
import Xallib.E2E.Extents
import Xallib.E2E.Inspect

/-!
# The tool and `xal --bmap`

The tool asks for the extents of a file in batches, each from the end of the batch before.
`ReportsFrom`: what the operating system answers; `processRounds_rest`: the tool puts out all
extents, each once. `bmap_tool_agrees`: where it counts in sectors, its rows are those of
`xal --bmap` with the FIEMAP backend exactly if the extents are whole blocks, rounded to sectors;
where its unit is larger, as with `<linux/fs.h>`, exactly if nothing is as far as one unit.
-/

namespace Xallib

open Lib Lib.Cm Lib.Run

/-- The end of an extent in the file. -/
def FiemapExtent.stop (fe : FiemapExtent) : Nat := fe.feLogical + fe.feLength

/-- The extents `all` of a file, as FIEMAP reports them: from `start` on at most `cap` of those that
end behind it. -/
structure ReportsFrom (all : List FiemapExtent) (cap : Nat)
    (ioctl : Nat → Except Nat (List FiemapExtent)) : Prop where
  room : 0 < cap
  length : ∀ fe ∈ all, 0 < fe.feLength
  fits : ∀ fe ∈ all, fe.stop < 2 ^ 64
  sorted : all.Pairwise fun a b => a.stop ≤ b.feLogical
  last : ∀ pre fe post, all = pre ++ fe :: post → fe.feFlags &&& fiemapExtentLast ≠ 0 → post = []
  answer : ∀ start, ioctl start = .ok ((all.filter fun fe => start < fe.stop).take cap)

section
variable {all pre post : List FiemapExtent} {cap start : Nat}
  {ioctl : Nat → Except Nat (List FiemapExtent)} {fe : FiemapExtent}

/-! ## The batches -/

/-- `start` is between the extents that were read and the rest. -/
structure Between (all : List FiemapExtent) (start : Nat) (pre post : List FiemapExtent) :
    Prop where
  split : all = pre ++ post
  read : ∀ fe ∈ pre, fe.stop ≤ start
  rest : ∀ fe ∈ post, start < fe.stop

theorem Between.filter (h : Between all start pre post) :
    (all.filter fun fe => start < fe.stop) = post := by
  rw [h.split, List.filter_append, List.filter_eq_nil_iff.2, List.filter_eq_self.2, List.nil_append]
  · exact fun fe hfe => decide_eq_true (h.rest fe hfe)
  · intro fe hfe hlt
    have := h.read fe hfe
    have := of_decide_eq_true hlt
    omega

variable (h : ReportsFrom all cap ioctl)
include h

/-- The end of an extent is between the extents up to it and those behind it. -/
theorem ReportsFrom.between (hsplit : all = pre ++ fe :: post) :
    Between all fe.stop (pre ++ [fe]) post := by
  have hsorted := h.sorted
  rw [hsplit, List.pairwise_append] at hsorted
  obtain ⟨-, hrest, hpre⟩ := hsorted
  refine ⟨by rw [hsplit, List.append_assoc]; rfl, fun a ha => ?_, fun b hb => ?_⟩
  · rcases List.mem_append.1 ha with ha | ha
    · have := hpre a ha fe List.mem_cons_self
      exact Nat.le_trans this (Nat.le_add_right _ _)
    · obtain rfl := List.mem_singleton.1 ha
      exact Nat.le_refl _
  · have hle := (List.pairwise_cons.1 hrest).1 b hb
    have hlen := h.length b (by rw [hsplit]; simp [hb])
    exact Nat.lt_of_le_of_lt hle (Nat.lt_add_of_pos_right hlen)

/-- The rest of the extents is put out, whatever the batches are. -/
theorem processRounds_rest (blockSize : Nat) (fpath : CStr) (fuel : Nat) :
    ∀ {pre post : List FiemapExtent} {start : Nat} (printedHeader : Bool) (out : List CliLine),
      Between all start pre post →
      post.length < fuel → processRounds blockSize ioctl fpath fuel start printedHeader out =
        .ok () (out ++ (if printedHeader = true ∨ post = [] then [] else [.file fpath]) ++
          post.map (toolRow blockSize)) := by
  induction fuel with
  | zero => exact fun _ _ _ hlt => absurd hlt (Nat.not_lt_zero _)
  | succ fuel ih =>
    intro pre post start printedHeader out hb hlt
    unfold processRounds
    rw [h.answer, hb.filter]
    rcases List.eq_nil_or_concat' (post.take cap) with hnil | ⟨batch, fe, hbatch⟩
    · obtain rfl : post = [] := by
        cases post with
        | nil => rfl
        | cons a post =>
          obtain ⟨c, hc⟩ : ∃ c, cap = c + 1 := ⟨cap - 1, by have := h.room; omega⟩
          rw [hc] at hnil
          cases hnil
      simp
    · have hpost : post = batch ++ fe :: post.drop cap := by
        rw [List.append_cons, ← hbatch, List.take_append_drop]
      have hsplit : all = (pre ++ batch) ++ fe :: post.drop cap := by
        rw [hb.split, List.append_assoc, ← hpost]
      have hne : post ≠ [] := by
        rw [hpost]
        simp
      rw [hbatch]
      simp only [List.getLast?_concat]
      rw [modify_bind]
      by_cases hlast : fe.feFlags &&& fiemapExtentLast ≠ 0
      · have hrest := h.last _ _ _ hsplit hlast
        rw [hrest] at hpost
        rw [if_pos hlast, ret_apply, ← hpost]
        simp [hne]
      · have hfits : fe.feLogical + fe.feLength < 2 ^ 64 := h.fits fe (by rw [hsplit]; simp)
        have hlen : (post.drop cap).length < fuel := by
          have := congrArg List.length hpost
          rw [List.length_append, List.length_cons] at this
          omega
        rw [if_neg hlast, Nat.mod_eq_of_lt hfits]
        refine (ih true _ (h.between hsplit) hlen).trans ?_
        conv => rhs; rw [hpost]
        simp

end

/-! ## The rows -/

/-- Where the extent is and how long it is, in whole sectors, are multiples of the block size. -/
def FiemapExtent.WholeRow (b : Nat) (fe : FiemapExtent) : Prop :=
  b / sectorSize ∣ fe.feLogical / sectorSize ∧ b / sectorSize ∣ fe.fePhysical / sectorSize ∧
    b / sectorSize ∣ fe.feLength / sectorSize

/-- The extent is at the beginning of the file and of the device, and short. -/
def FiemapExtent.Below (bound : Nat) (fe : FiemapExtent) : Prop :=
  fe.feLogical < bound ∧ fe.fePhysical < bound ∧ fe.feLength < bound

section
variable {y : Xal FiemapBe} {fe : FiemapExtent} {blockSize : Nat}

/-- A number of bytes, stored as blocks of `sectorSize * m` bytes and put out as sectors. -/
theorem sectors_of_blocks {v m : Nat} (hv : v < 2 ^ 64) :
    v / (sectorSize * m) * (sectorSize * m) % 2 ^ 64 / sectorSize = v / sectorSize / m * m := by
  have hle : v / (sectorSize * m) * (sectorSize * m) ≤ v := Nat.div_mul_le_self _ _
  rw [Nat.mod_eq_of_lt (by omega), Nat.mul_left_comm, ← Nat.div_div_eq_div_mul]
  exact Nat.mul_div_cancel_left _ (by decide)

theorem extentLine_fiemap {m : Nat} (ht : y.type = .fiemap) (hm : y.sb.blocksize = sectorSize * m)
    (hfe : fe.Fits) : extentLine y (storedExtent y.sb fe) =
      .extent (fe.feLogical / sectorSize / m * m)
        ((fe.feLogical / sectorSize / m * m + fe.feLength / sectorSize / m * m + (2 ^ 64 - 1)) %
          2 ^ 64)
        (fe.fePhysical / sectorSize / m * m)
        ((fe.fePhysical / sectorSize / m * m + fe.feLength / sectorSize / m * m + (2 ^ 64 - 1)) %
          2 ^ 64) := by
  simp only [extentLine, storedExtent, ht, xalFsbnoOffset, hm, sectors_of_blocks hfe.logical,
    sectors_of_blocks hfe.physical, sectors_of_blocks hfe.length]

/-- The two rows agree where the three numbers do. -/
theorem extentLine_eq_toolRow_iff {m : Nat} (ht : y.type = .fiemap)
    (hm : y.sb.blocksize = sectorSize * m) (hfe : fe.Fits) :
    extentLine y (storedExtent y.sb fe) = toolRow blockSize fe ↔
      fe.feLogical / sectorSize / m * m = fe.feLogical / blockSize ∧
      fe.fePhysical / sectorSize / m * m = fe.fePhysical / blockSize ∧
      fe.feLength / sectorSize / m * m = fe.feLength / blockSize := by
  have hrow : fe.feLength / sectorSize / m * m < 2 ^ 64 := Nat.lt_of_le_of_lt
    (Nat.le_trans (Nat.div_mul_le_self _ _) (Nat.div_le_self _ _)) hfe.length
  have hlt : fe.feLength / blockSize < 2 ^ 64 :=
    Nat.lt_of_le_of_lt (Nat.div_le_self _ _) hfe.length
  rw [extentLine_fiemap ht hm hfe, toolRow, CliLine.extent.injEq]
  constructor
  · rintro ⟨hl, hend, hp, -⟩
    rw [hl] at hend
    refine ⟨hl, hp, ?_⟩
    generalize fe.feLength / sectorSize / m * m = stored at hrow hend ⊢
    generalize fe.feLength / blockSize = row at hlt hend ⊢
    omega
  · rintro ⟨hl, hp, hn⟩
    rw [hl, hp, hn]
    exact ⟨rfl, rfl, rfl, rfl⟩

/-- Where the tool counts in sectors, the row of `xal --bmap` is its row exactly if it is whole. -/
theorem extentLine_eq_toolRow (ht : y.type = .fiemap) (h512 : sectorSize ∣ y.sb.blocksize)
    (hfe : fe.Fits) : extentLine y (storedExtent y.sb fe) = toolRow sectorSize fe ↔
      fe.WholeRow y.sb.blocksize := by
  obtain ⟨m, hm⟩ := h512
  have hsize : y.sb.blocksize / sectorSize = m := by
    rw [hm]
    exact Nat.mul_div_cancel_left m (by decide)
  rw [extentLine_eq_toolRow_iff ht hm hfe, FiemapExtent.WholeRow, hsize, Nat.dvd_iff_div_mul_eq,
    Nat.dvd_iff_div_mul_eq, Nat.dvd_iff_div_mul_eq]

/-- A number that is rounded down to a multiple is a smaller part of it only near 0. -/
theorem div_mul_eq_div_iff {q m j : Nat} (hm : 0 < m) (hj : 2 ≤ j) :
    q / m * m = q / j ↔ q < m ∧ q < j := by
  constructor
  · intro h
    have hhalf : q / j ≤ q / 2 := Nat.div_le_div_left hj (by decide)
    have hmod := Nat.div_add_mod' q m
    have hlt := Nat.mod_lt q hm
    have hqm : q < m := by
      by_contra hle
      have hpos : 0 < q / m := Nat.div_pos (Nat.le_of_not_lt hle) hm
      have hmul : m ≤ q / m * m := Nat.le_mul_of_pos_left m hpos
      omega
    rw [Nat.div_eq_of_lt hqm, Nat.zero_mul] at h
    exact ⟨hqm, (Nat.div_eq_zero_iff_lt (by omega)).1 h.symm⟩
  · rintro ⟨hqm, hqj⟩
    rw [Nat.div_eq_of_lt hqm, Nat.div_eq_of_lt hqj, Nat.zero_mul]

/-- Where the unit of the tool is larger, the rows agree exactly if nothing is as far as one unit,
or as one block. -/
theorem extentLine_eq_toolRow_larger {j : Nat} (ht : y.type = .fiemap)
    (h512 : sectorSize ∣ y.sb.blocksize) (hb : y.sb.blocksize ≠ 0) (hj : 2 ≤ j) (hfe : fe.Fits) :
    extentLine y (storedExtent y.sb fe) = toolRow (sectorSize * j) fe ↔
      fe.Below (min (sectorSize * j) y.sb.blocksize) := by
  obtain ⟨m, hm⟩ := h512
  have hpos : 0 < m := Nat.pos_of_ne_zero fun h0 => hb (by rw [hm, h0, Nat.mul_zero])
  have hiff : ∀ v, v / sectorSize / m * m = v / (sectorSize * j) ↔
      v < min (sectorSize * j) (sectorSize * m) := by
    intro v
    have h512 : 0 < sectorSize := by decide
    rw [← Nat.div_div_eq_div_mul, div_mul_eq_div_iff hpos hj, Nat.lt_min, and_comm,
      Nat.div_lt_iff_lt_mul h512, Nat.div_lt_iff_lt_mul h512, Nat.mul_comm j, Nat.mul_comm m]
  rw [extentLine_eq_toolRow_iff ht hm hfe, hiff, hiff, hiff, hm]
  rfl

end

/-- The tool puts out all extents of a file, whatever the size of the answers. Where it counts in
sectors, its rows are those of `xal --bmap` with the FIEMAP backend exactly if all of them are
whole; where its unit is larger, exactly if no extent is as far as one unit. -/
theorem bmap_tool_agrees (shm : Bool) (E : FiemapEnv) (x y : Xal FiemapBe) (fuel : Nat)
    (hx : FiemapReach shm x) (hE : FiemapCall E x)
    (hr : xalIndex (xalBeFiemapIndex E fuel) x = .ok () y)
    (h512 : sectorSize ∣ E.sb.blocksize) (hb : E.sb.blocksize ≠ 0) (path : CStr) (n : Nat)
    (extents : Nat → FiemapExtent) (hreports : FileReports E path n extents)
    (hfits : ∀ i < n, (extents i).Fits) (cap : Nat)
    (ioctl : Nat → Except Nat (List FiemapExtent))
    (hioctl : ReportsFrom ((List.range n).map extents) cap ioctl) :
    (∀ blockSize ≠ 0, ∀ rounds, n < rounds →
      processFile blockSize ioctl path true (.ok ()) rounds [] =
        .ok () ((if n = 0 then [] else [.file path]) ++
          ((List.range n).map extents).map (toolRow blockSize))) ∧
    ((reported E.kernel E.sb path).map (extentLine y) =
        ((List.range n).map extents).map (toolRow sectorSize) ↔
      ∀ i < n, (extents i).WholeRow E.sb.blocksize) ∧
    ∀ j, 2 ≤ j → ((reported E.kernel E.sb path).map (extentLine y) =
        ((List.range n).map extents).map (toolRow (sectorSize * j)) ↔
      ∀ i < n, (extents i).Below (min (sectorSize * j) E.sb.blocksize)) := by
  have hkept := (hx.done hE hr).kept
  have hsb : y.sb = E.sb := by rw [hkept, hE.sb]
  have htype : y.type = .fiemap := by rw [hkept]; exact hx.alive.type_eq
  have hrows : ∀ {blockSize : Nat} {Agrees : FiemapExtent → Prop},
      (∀ i < n, extentLine y (storedExtent E.sb (extents i)) = toolRow blockSize (extents i) ↔
        Agrees (extents i)) →
      ((reported E.kernel E.sb path).map (extentLine y) =
        ((List.range n).map extents).map (toolRow blockSize) ↔ ∀ i < n, Agrees (extents i)) := by
    intro blockSize Agrees hall
    rw [hreports.reported, List.map_map, List.map_map, List.map_inj_left]
    simp only [List.mem_range]
    exact forall₂_congr hall
  rw [← hsb] at h512 hb hrows ⊢
  refine ⟨fun blockSize _ rounds hrounds => ?_,
    hrows fun i hi => extentLine_eq_toolRow htype h512 (hfits i hi),
    fun j hj => hrows fun i hi => extentLine_eq_toolRow_larger htype h512 hb hj (hfits i hi)⟩
  have hstart : Between ((List.range n).map extents) 0 [] ((List.range n).map extents) := by
    refine ⟨rfl, fun fe hfe => absurd hfe List.not_mem_nil, fun fe hfe => ?_⟩
    exact Nat.lt_of_lt_of_le (hioctl.length fe hfe) (Nat.le_add_left _ _)
  have hrun := processRounds_rest hioctl blockSize path rounds false [] hstart
    (by simpa using hrounds)
  show processRounds blockSize ioctl path rounds 0 false [] = _
  rw [hrun]
  simp

/-- Two extents, one in each answer. -/
def twoAnswers (start : Nat) : Except Nat (List FiemapExtent) :=
  .ok (([⟨0, 8192, 1024, 0⟩, ⟨1024, 4096, 1024, 1⟩].filter fun fe : FiemapExtent =>
    start < fe.stop).take 1)

/-- In sectors the rows agree, and in units of 1024 bytes they do not. -/
theorem bmap_tool_agrees_two : ∃ y, xalIndex (xalBeFiemapIndex twoExtents 2)
    (fiemapOpened smallSb false) = .ok () y ∧
      processFile sectorSize twoAnswers [47, 109, 47, 97] true (.ok ()) 3 [] =
        .ok () [.file [47, 109, 47, 97], .extent 0 1 16 17, .extent 2 3 8 9] ∧
      processFile 1024 twoAnswers [47, 109, 47, 97] true (.ok ()) 3 [] =
        .ok () [.file [47, 109, 47, 97], .extent 0 0 8 8, .extent 1 1 4 4] ∧
      (reported twoExtents.kernel twoExtents.sb [47, 109, 47, 97]).map (extentLine y) =
        [.extent 0 1 16 17, .extent 2 3 8 9] ∧
      (reported twoExtents.kernel twoExtents.sb [47, 109, 47, 97]).map (extentLine y) ≠
        [.extent 0 0 8 8, .extent 1 1 4 4] := by
  have hrun : (xalIndex (xalBeFiemapIndex twoExtents 2) (fiemapOpened smallSb false)).okWith
      (fun _ => true) = true := by decide +kernel
  obtain ⟨_, y, hr, -⟩ := exists_of_okWith hrun
  have hreports : FileReports twoExtents [47, 109, 47, 97] 2
      fun i => [⟨0, 8192, 1024, 0⟩, ⟨1024, 4096, 1024, 1⟩].getD i ⟨0, 0, 0, 0⟩ :=
    ⟨rfl, rfl, fun _ => rfl⟩
  have hioctl : ReportsFrom [⟨0, 8192, 1024, 0⟩, ⟨1024, 4096, 1024, 1⟩] 1 twoAnswers := by
    refine ⟨by decide, by decide, by decide, by decide, ?_, fun _ => rfl⟩
    intro pre fe post hsplit hlast
    rcases pre with - | ⟨a, - | ⟨b, pre⟩⟩
    · obtain ⟨rfl, -⟩ := List.cons.inj hsplit
      exact absurd rfl hlast
    · obtain ⟨-, hsplit⟩ := List.cons.inj hsplit
      exact (List.cons.inj hsplit).2.symm
    · have hlen := congrArg List.length hsplit
      simp at hlen
  have hfits : ∀ i < 2, FiemapExtent.Fits
      ([⟨0, 8192, 1024, 0⟩, ⟨1024, 4096, 1024, 1⟩].getD i ⟨0, 0, 0, 0⟩) := by
    intro i hi
    rcases Nat.lt_succ_iff_lt_or_eq.1 hi with hi | rfl
    · obtain rfl := Nat.lt_one_iff.1 hi
      exact ⟨by decide, by decide, by decide⟩
    · exact ⟨by decide, by decide, by decide⟩
  have hwhole : ∀ i < 2, FiemapExtent.WholeRow twoExtents.sb.blocksize
      ([⟨0, 8192, 1024, 0⟩, ⟨1024, 4096, 1024, 1⟩].getD i ⟨0, 0, 0, 0⟩) := by
    intro i hi
    rcases Nat.lt_succ_iff_lt_or_eq.1 hi with hi | rfl
    · obtain rfl := Nat.lt_one_iff.1 hi
      exact ⟨by decide, by decide, by decide⟩
    · exact ⟨by decide, by decide, by decide⟩
  obtain ⟨htool, hrows, hlarger⟩ := bmap_tool_agrees true twoExtents _ y 2 (fiemapOpened_reach _ _)
    (tableEnv_call rfl) hr (by decide) (by decide) [47, 109, 47, 97] 2 _ hreports hfits 1 twoAnswers
    hioctl
  refine ⟨y, hr, htool sectorSize (by decide) 3 (by decide), htool 1024 (by decide) 3 (by decide),
    (hrows.2 hwhole).trans (by decide), fun heq => ?_⟩
  have hbelow := (hlarger 2 (Nat.le_refl 2)).1 heq 0 (by decide)
  exact absurd hbelow.2.1 (by decide)

end Xallib
