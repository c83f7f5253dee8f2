import Mathlib.Tactic.Ring

/-!
# Byte buffers

A buffer is a memory of bytes with its offsets. `be16`, `be32`, `be64` read big-endian numbers;
`Has b o l`: the bytes `l` stand at offset `o` of `b`. `beBytes n v` is the big-endian form of `v`
in `n` bytes, read back by `Has.be16`, `Has.be64`.
-/

namespace Lib

/-- A memory of bytes. -/
abbrev Buf := Nat → UInt8

namespace Buf

def be16 (b : Buf) (o : Nat) : Nat := (b o).toNat * 2 ^ 8 + (b (o + 1)).toNat
def be32 (b : Buf) (o : Nat) : Nat := be16 b o * 2 ^ 16 + be16 b (o + 2)
def be64 (b : Buf) (o : Nat) : Nat := be32 b o * 2 ^ 32 + be32 b (o + 4)

/-- The `n` bytes from offset `o` on. -/
def slice (b : Buf) (o n : Nat) : List UInt8 := (List.range n).map fun i => b (o + i)

/-- `memset(b, 0, n)` -/
def zero (b : Buf) (n : Nat) : Buf := fun i => if i < n then 0 else b i

/-- `memcpy(b + o, src + so, n)` -/
def copy (b : Buf) (o : Nat) (src : Buf) (so n : Nat) : Buf := fun i =>
  if o ≤ i ∧ i < o + n then src (so + (i - o)) else b i

/-- The `n` bytes of `v`, the most significant one first. -/
def beBytes : Nat → Nat → List UInt8
  | 0, _ => []
  | n + 1, v => UInt8.ofNat (v / 2 ^ (8 * n)) :: beBytes n v

/-- The bytes `l` stand at offset `o`. -/
def Has (b : Buf) (o : Nat) (l : List UInt8) : Prop := b.slice o l.length = l

/-- The buffer that has `l` at offset `o`, and zeros elsewhere. -/
def ofList (o : Nat) (l : List UInt8) : Buf := fun i => if i < o then 0 else l.getD (i - o) 0

variable {b : Buf} {o : Nat}

@[simp] theorem length_beBytes (n v : Nat) : (beBytes n v).length = n := by
  induction n with
  | zero => rfl
  | succ n ih => rw [beBytes, List.length_cons, ih]

@[simp] theorem length_slice (b : Buf) (o n : Nat) : (b.slice o n).length = n := by
  rw [slice, List.length_map, List.length_range]

theorem slice_succ (b : Buf) (o n : Nat) : b.slice o (n + 1) = b o :: b.slice (o + 1) n := by
  rw [slice, List.range_succ_eq_map, List.map_cons, List.map_map]
  refine congrArg _ (List.map_congr_left fun i _ => ?_)
  show b (o + (i + 1)) = b (o + 1 + i)
  rw [Nat.add_right_comm, Nat.add_assoc]

/-- The bytes of a number, the upper ones first. -/
theorem beBytes_add (m n v : Nat) : beBytes (m + n) v = beBytes m (v / 2 ^ (8 * n)) ++
    beBytes n v := by
  induction m with
  | zero => rw [Nat.zero_add, beBytes, List.nil_append]
  | succ m ih =>
    have hdiv : v / 2 ^ (8 * (m + n)) = v / 2 ^ (8 * n) / 2 ^ (8 * m) := by
      rw [Nat.div_div_eq_div_mul, ← Nat.pow_add, Nat.mul_add, Nat.add_comm]
    rw [Nat.succ_add, beBytes, beBytes, ih, hdiv, List.cons_append]

/-! ## What stands where -/

@[simp] theorem has_nil : Has b o [] ↔ True := iff_true_intro rfl

@[simp] theorem has_cons {x : UInt8} {l : List UInt8} :
    Has b o (x :: l) ↔ b o = x ∧ Has b (o + 1) l := by
  rw [Has, List.length_cons, slice_succ, List.cons.injEq]
  rfl

theorem has_append {l m : List UInt8} :
    Has b o (l ++ m) ↔ Has b o l ∧ Has b (o + l.length) m := by
  induction l generalizing o with
  | nil => simp
  | cons x l ih => simp only [List.cons_append, has_cons, ih, List.length_cons, and_assoc,
      Nat.add_comm l.length 1, Nat.add_assoc]

theorem has_ofList (o : Nat) (l : List UInt8) : Has (ofList o l) o l := by
  refine List.ext_getElem (by simp) fun i h1 h2 => ?_
  simp [slice, ofList, h2]

/-! ## Copies -/

theorem slice_congr {b' : Buf} {n : Nat} (h : ∀ i, o ≤ i → i < o + n → b' i = b i) :
    b'.slice o n = b.slice o n :=
  List.map_congr_left fun i hi => h (o + i) (by omega) (by rw [List.mem_range] at hi; omega)

theorem copy_inside {src : Buf} {so n i : Nat} (h : i < n) :
    b.copy o src so n (o + i) = src (so + i) := by
  rw [copy, if_pos (by omega), Nat.add_sub_cancel_left]

theorem copy_outside {src : Buf} {so n i : Nat} (h : i < o ∨ o + n ≤ i) :
    b.copy o src so n i = b i := if_neg (by omega)

theorem slice_copy (b : Buf) (o : Nat) (src : Buf) (so n : Nat) :
    (b.copy o src so n).slice o n = src.slice so n :=
  List.map_congr_left fun _ hi => copy_inside (List.mem_range.1 hi)

/-- Numbers are read from the bytes at their place. -/
theorem be16_lt (b : Buf) (o : Nat) : be16 b o < 2 ^ 16 := by
  have h1 := (b o).toNat_lt
  have h2 := (b (o + 1)).toNat_lt
  unfold be16
  omega

theorem be32_lt (b : Buf) (o : Nat) : be32 b o < 2 ^ 32 := by
  have h1 := be16_lt b o
  have h2 := be16_lt b (o + 2)
  unfold be32
  omega

theorem be64_lt (b : Buf) (o : Nat) : be64 b o < 2 ^ 64 := by
  have h1 := be32_lt b o
  have h2 := be32_lt b (o + 4)
  unfold be64
  omega

theorem be16_congr {b' : Buf} (h : ∀ i, o ≤ i → i < o + 2 → b' i = b i) : be16 b' o = be16 b o := by
  rw [be16, be16, h o (by omega) (by omega), h (o + 1) (by omega) (by omega)]

theorem be32_congr {b' : Buf} (h : ∀ i, o ≤ i → i < o + 4 → b' i = b i) : be32 b' o = be32 b o := by
  rw [be32, be32, be16_congr fun i h1 h2 => h i h1 (by omega),
    be16_congr fun i h1 h2 => h i (by omega) (by omega)]

theorem be64_congr {b' : Buf} {o' : Nat} (h : ∀ i < 8, b' (o' + i) = b (o + i)) :
    be64 b' o' = be64 b o := by
  simp only [be64, be32, be16, Nat.add_assoc]
  rw [← Nat.add_zero o', ← Nat.add_zero o]
  simp only [Nat.add_assoc, Nat.zero_add]
  rw [h 0 (by decide), h 1 (by decide), h 2 (by decide), h 3 (by decide), h 4 (by decide),
    h 5 (by decide), h 6 (by decide), h 7 (by decide)]

/-! ## Numbers -/

theorem Has.be16_mod {v : Nat} (h : Has b o (beBytes 2 v)) : be16 b o = v % 2 ^ 16 := by
  simp only [beBytes, has_cons] at h
  rw [Buf.be16, h.1, h.2.1, UInt8.toNat_ofNat', UInt8.toNat_ofNat']
  omega

theorem Has.be32_mod {v : Nat} (h : Has b o (beBytes 4 v)) : be32 b o = v % 2 ^ 32 := by
  rw [beBytes_add 2 2, has_append, length_beBytes] at h
  rw [Buf.be32, h.1.be16_mod, h.2.be16_mod]
  omega

theorem Has.be16 {v : Nat} (h : Has b o (beBytes 2 v)) (hv : v < 2 ^ 16) : be16 b o = v := by
  rw [h.be16_mod, Nat.mod_eq_of_lt hv]

theorem Has.be32 {v : Nat} (h : Has b o (beBytes 4 v)) (hv : v < 2 ^ 32) : be32 b o = v := by
  rw [h.be32_mod, Nat.mod_eq_of_lt hv]

theorem Has.be64 {v : Nat} (h : Has b o (beBytes 8 v)) (hv : v < 2 ^ 64) : be64 b o = v := by
  rw [beBytes_add 4 4, has_append, length_beBytes] at h
  rw [Buf.be64, h.1.be32_mod, h.2.be32_mod]
  omega

/-- The first two bytes of a number of eight. -/
theorem be16_eq_div (b : Buf) (o : Nat) : be16 b o = be64 b o / 2 ^ 48 := by
  have h2 := (b (o + 2)).toNat_lt
  have h3 := (b (o + 2 + 1)).toNat_lt
  have h4 := (b (o + 4)).toNat_lt
  have h5 := (b (o + 4 + 1)).toNat_lt
  have h6 := (b (o + 4 + 2)).toNat_lt
  have h7 := (b (o + 4 + 2 + 1)).toNat_lt
  simp only [be64, be32, be16]
  omega

end Buf

end Lib
