import Xallib.Lib.Buf
import Xallib.Lib.Label

/-!
# What is read inside an image

`Has b o img`: the bytes `img` stand at `o` in the buffer. What is read there, inside of it, is what
is read of the image itself. Trees whose nodes list the same kids, as far as they are found, have
the same nodes (`found_congr`, `stands_congr`).
-/

namespace Lib

namespace Buf

variable {b : Buf} {o j : Nat} {img : List UInt8} (h : Has b o img)
include h

theorem Has.byte_at (hj : j < img.length) : b (o + j) = ofList 0 img j := by
  have hget : (b.slice o img.length)[j]? = img[j]? := by rw [show b.slice o img.length = img from h]
  rw [slice, List.getElem?_map, List.getElem?_range hj, List.getElem?_eq_getElem hj] at hget
  rw [ofList, if_neg (Nat.not_lt_zero _), Nat.sub_zero, List.getD_eq_getElem?_getD,
    List.getElem?_eq_getElem hj]
  exact Option.some.inj hget

theorem Has.slice_at {n : Nat} (hj : j + n ≤ img.length) :
    b.slice (o + j) n = (ofList 0 img).slice j n := by
  refine List.map_congr_left fun i hi => ?_
  have hlt := List.mem_range.1 hi
  rw [Nat.add_assoc, h.byte_at (by omega)]

theorem Has.be16_at (hj : j + 2 ≤ img.length) :
    Buf.be16 b (o + j) = Buf.be16 (ofList 0 img) j := by
  rw [Buf.be16, Buf.be16, h.byte_at (by omega), Nat.add_assoc, h.byte_at (by omega)]

theorem Has.be32_at (hj : j + 4 ≤ img.length) :
    Buf.be32 b (o + j) = Buf.be32 (ofList 0 img) j := by
  rw [Buf.be32, Buf.be32, h.be16_at (by omega), Nat.add_assoc, h.be16_at (by omega)]

theorem Has.be64_at (hj : j + 8 ≤ img.length) :
    Buf.be64 b (o + j) = Buf.be64 (ofList 0 img) j := by
  rw [Buf.be64, Buf.be64, h.be32_at (by omega), Nat.add_assoc, h.be32_at (by omega)]

end Buf

section
variable {β ν ι : Type} {kids kids' : ν → List ν} {name : ν → ι} {r : ν}

/-- Trees that list the same kids, wherever the second is found. -/
theorem found_congr (hkids : ∀ q c, Found kids' name r q c → kids c = kids' c) {q : List ι}
    {c : ν} : Found kids name r q c ↔ Found kids' name r q c := by
  constructor
  · intro h
    induction h with
    | root => exact .root
    | kid _ hc ih =>
      rw [hkids _ _ ih] at hc
      exact ih.kid hc
  · intro h
    induction h with
    | root => exact .root
    | kid hq hc ih =>
      rw [← hkids _ _ hq] at hc
      exact ih.kid hc

theorem stands_congr {first count : β → Nat} {mem : Nat → β} {root : Nat}
    (hkids : ∀ q c, Found kids name r q c → kids c = kids' c) {q : List ι} {i : Nat} {c : ν}
    (h : Stands kids name first count mem root r q i c) :
    Stands kids' name first count mem root r q i c ∧ Found kids name r q c := by
  induction h with
  | root => exact ⟨.root, .root⟩
  | kid _ hj hc ih =>
    refine ⟨ih.1.kid hj ?_, ih.2.kid (List.mem_of_getElem? hc)⟩
    rw [← hkids _ _ ih.2]
    exact hc

end

end Lib
