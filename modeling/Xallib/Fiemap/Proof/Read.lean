import Xallib.Fiemap.Proof.File

/-!
# What `read_fiemap` reads

The file is asked for its number of extents, and then, in another call, for the extents themselves,
with room for as many (`Reports`). In between the file may change, and the room is computed in an
`int` (`fiemapBuffer`).

`fiemapComplete_iff`: the room is what the second call is told, and all extents are read, exactly if
the size does not leave the `int` and the file has no more extents than before, or if there is no
room at all.
-/

namespace Xallib

open Lib Lib.Cm Lib.Run

/-- The size that `realloc` is asked for: `sizeof(struct fiemap)` and the size of the extents, of
which a negative one is huge as a `size_t`. -/
def reallocNbytes (mapped : Nat) : Nat :=
  if extentsSize mapped < 2 ^ 31 then 32 + extentsSize mapped
  else (32 + (extentsSize mapped + 2 ^ 64 - 2 ^ 32)) % 2 ^ 64

/-- The bytes of the buffer, where `realloc` finds memory for it. -/
def fiemapBuffer (K : Kernel) (path : CStr) (mapped : Nat) : Option Nat :=
  if K.extentsMemory path = true ∧ reallocNbytes mapped < 2 ^ 63 then some (reallocNbytes mapped)
    else none

/-- The first call reports `mapped` extents. By the second one, the file has those in `file`: the
call fills what there is room for or, told of no room, counts. -/
structure Reports (K : Kernel) (path : CStr) (mapped : Nat) (file : List FiemapExtent) : Prop where
  lt : mapped < 2 ^ 32
  count : K.fiemapCount path = .ok mapped
  read : ∃ extents, K.fiemapRead path mapped =
      .ok (if mapped = 0 then file.length else min mapped file.length, extents) ∧
    ∀ i < min mapped file.length, file[i]? = some (extents i)

/-- The buffer has room for what the second call is told, and all extents of the file are read to
it. -/
structure FiemapComplete (E : FiemapEnv) (path : CStr) (mapped : Nat) (file : List FiemapExtent)
    (s : Store FiemapBe) : Prop where
  room : ∀ nbytes, fiemapBuffer E.kernel path mapped = some nbytes → 32 + 56 * mapped ≤ nbytes
  all : ∀ n extents s', readFiemap E path s = .ok (n, extents) s' →
    n ≤ mapped ∧ (List.range n).map extents = file

section
variable {E : FiemapEnv} {path : CStr} {mapped : Nat} {file : List FiemapExtent}
variable {s s' : Store FiemapBe}

theorem reallocNbytes_room (h : reallocNbytes mapped < 2 ^ 63) :
    32 + 56 * mapped ≤ reallocNbytes mapped ↔ 56 * mapped < 2 ^ 31 := by
  rw [reallocNbytes, extentsSize] at *
  split at h
  case isTrue hsmall =>
    rw [if_pos hsmall]
    omega
  case isFalse hbig =>
    -- the size is huge, or less than the header
    rw [if_neg hbig]
    have hsmall : 56 * mapped < 2 ^ 31 → 56 * mapped % 2 ^ 32 < 2 ^ 31 :=
      fun hm => Nat.lt_of_le_of_lt (Nat.mod_le _ _) hm
    have hlt : 56 * mapped % 2 ^ 32 < 2 ^ 32 := Nat.mod_lt _ (by decide)
    generalize 56 * mapped % 2 ^ 32 = size at *
    rw [iff_false_right fun hm => hbig (hsmall hm)]
    omega

/-- Where `realloc` finds no memory, nothing is read. -/
theorem readFiemap_no_buffer (hc : E.kernel.fiemapCount path = .ok mapped)
    (hnone : fiemapBuffer E.kernel path mapped = none) (r : Nat × (Nat → FiemapExtent)) :
    readFiemap E path s ≠ .ok r s' := by
  intro hr
  unfold readFiemap at hr
  simp only [hc] at hr
  obtain ⟨hsize, hr⟩ := assert_bind_ok.1 hr
  obtain ⟨hroom, -⟩ := failIf_bind_ok.1 hr
  rw [not_or, Nat.not_le, Bool.not_eq_false] at hroom
  rw [fiemapBuffer, if_pos] at hnone
  · cases hnone
  · refine ⟨hroom.2, ?_⟩
    rw [reallocNbytes, if_pos hroom.1]
    omega

/-- With room for all that the first call reports, the answer of the second one is the result. -/
theorem readFiemap_of_room (hc : E.kernel.fiemapCount path = .ok mapped)
    (hroom : fiemapBuffer E.kernel path mapped ≠ none) (hsize : 56 * mapped < 2 ^ 31)
    {r : Nat × (Nat → FiemapExtent)} (hread : E.kernel.fiemapRead path mapped = .ok r) :
    readFiemap E path s = .ok r s := by
  have hext : extentsSize mapped = 56 * mapped := Nat.mod_eq_of_lt (by omega)
  have hmem : E.kernel.extentsMemory path = true := by
    by_contra hmem
    exact hroom (if_neg fun h => hmem h.1)
  obtain ⟨n, extents⟩ := r
  unfold readFiemap
  simp only [hc]
  rw [bind_of_ok (assert_true (by omega) s)]
  rw [bind_of_ok (failIf_false (by rw [not_or, hext, hmem]; simp; omega) _ s)]
  simp only [hread]
  rw [bind_of_ok (assert_true (by rw [hext]; omega) s)]
  rfl

end

/-- A read is complete exactly if there is room for no fewer extents than the file has by the second
call, or if `realloc` finds no memory. -/
theorem fiemapComplete_iff (E : FiemapEnv) (path : CStr) (mapped : Nat) (file : List FiemapExtent)
    (s : Store FiemapBe) (hK : Reports E.kernel path mapped file) :
    FiemapComplete E path mapped file s ↔
      fiemapBuffer E.kernel path mapped = none ∨ 56 * mapped < 2 ^ 31 ∧ file.length ≤ mapped := by
  obtain ⟨extents, hread, hfill⟩ := hK.read
  constructor
  · intro h
    cases hbuf : fiemapBuffer E.kernel path mapped with
    | none => exact .inl rfl
    | some nbytes =>
      have hroom := h.room nbytes hbuf
      rw [fiemapBuffer, Option.ite_none_right_eq_some, Option.some.injEq] at hbuf
      obtain ⟨⟨hmem, hlt⟩, rfl⟩ := hbuf
      have hsize := (reallocNbytes_room hlt).1 hroom
      refine .inr ⟨hsize, ?_⟩
      have hbuf : fiemapBuffer E.kernel path mapped ≠ none := by
        rw [fiemapBuffer, if_pos ⟨hmem, hlt⟩]
        exact Option.some_ne_none _
      have hr := readFiemap_of_room (s := s) hK.count hbuf hsize hread
      obtain ⟨hle, hall⟩ := h.all _ _ _ hr
      have hlen := congrArg List.length hall
      rw [List.length_map, List.length_range] at hlen
      omega
  · intro h
    constructor
    case room =>
      intro nbytes hbuf
      rcases h with hnone | ⟨hsize, -⟩
      · rw [hnone] at hbuf
        cases hbuf
      · rw [fiemapBuffer, Option.ite_none_right_eq_some, Option.some.injEq] at hbuf
        obtain ⟨⟨-, hlt⟩, rfl⟩ := hbuf
        exact (reallocNbytes_room hlt).2 hsize
    case all =>
      intro n found s' hr
      have hsome : fiemapBuffer E.kernel path mapped ≠ none :=
        fun hnone => readFiemap_no_buffer hK.count hnone _ hr
      obtain ⟨hsize, hlen⟩ := h.resolve_left hsome
      rw [readFiemap_of_room hK.count hsome hsize hread] at hr
      cases hr
      have hn : (if mapped = 0 then file.length else min mapped file.length) = file.length := by
        split
        · rfl
        · exact Nat.min_eq_right hlen
      rw [hn]
      refine ⟨hlen, List.ext_getElem? fun i => ?_⟩
      rw [List.getElem?_map]
      by_cases hi : i < file.length
      · rw [List.getElem?_range hi, hfill i (by omega), Option.map_some]
      · rw [List.getElem?_eq_none (by rw [List.length_range]; omega),
          List.getElem?_eq_none (by omega), Option.map_none]

/-! ## A file that is written in between -/

/-- A file with `mapped` extents at the first call, and two at the second one. -/
def grownKernel (mapped : Nat) : Kernel :=
  { tableKernel [] [([], [⟨0, 4096, 4096, 0⟩, ⟨8192, 16384, 4096, 1⟩])] with
    fiemapCount := fun _ => .ok mapped
    fiemapRead := fun _ n => .ok (if n = 0 then 2 else min n 2, fun i =>
      [⟨0, 4096, 4096, 0⟩, ⟨8192, 16384, 4096, 1⟩].getD i ⟨0, 0, 0, 0⟩) }

theorem grownKernel_reports (mapped : Nat) (h : mapped < 2 ^ 32) :
    Reports (grownKernel mapped) [] mapped [⟨0, 4096, 4096, 0⟩, ⟨8192, 16384, 4096, 1⟩] where
  lt := h
  count := rfl
  read := by
    refine ⟨_, rfl, fun i hi => ?_⟩
    rw [List.getD_eq_getElem?_getD,
      List.getElem?_eq_getElem (Nat.lt_of_lt_of_le hi (Nat.min_le_right _ _))]
    rfl

/-- The calls of a library on this file. -/
def grownEnv (mapped : Nat) : FiemapEnv := tableEnv (grownKernel mapped) [] default .none 0

theorem fiemapComplete_same :
    FiemapComplete (grownEnv 2) [] 2 [⟨0, 4096, 4096, 0⟩, ⟨8192, 16384, 4096, 1⟩]
      ⟨default, default, ⟨none, fun _ => none⟩⟩ :=
  (fiemapComplete_iff (grownEnv 2) [] 2 _ _ (grownKernel_reports 2 (by decide))).2
    (.inr ⟨by decide, by decide⟩)

/-- Of two extents, the first is read. -/
theorem fiemapComplete_not_grown :
    ¬FiemapComplete (grownEnv 1) [] 1 [⟨0, 4096, 4096, 0⟩, ⟨8192, 16384, 4096, 1⟩]
      ⟨default, default, ⟨none, fun _ => none⟩⟩ := by
  intro h
  have hr : ∃ extents s', readFiemap (grownEnv 1) [] ⟨default, default, ⟨none, fun _ => none⟩⟩ =
      .ok (1, extents) s' := ⟨_, _, rfl⟩
  obtain ⟨extents, s', hr⟩ := hr
  have hlen := congrArg List.length (h.all _ _ _ hr).2
  cases hlen

end Xallib
