import Mathlib.Data.List.Sort
import Mathlib.Tactic.Ring

/-!
# Spans and tiles

A span maps the numbers from `src` on to those from `dst` on. A sorted list of spans maps numbers in
tiles of `per`: tile `t` is `t * per`, …, `t * per + per - 1`, and each tile is mapped whole or not
at all (`Spans`). A tile may begin in one span and end in the next.

`tiles`: where the tiles are mapped to, in their order. `cuts`: the same for a reader that cuts each
span into tiles from its own start on. They agree exactly if each span is a number of whole tiles
(`Spans.cuts_eq_tiles_iff`).
-/

namespace Lib

structure Span where
  src : Nat
  dst : Nat
  len : Nat

namespace Span

/-- The numbers the span maps, and where it maps them. -/
def srcs (s : Span) : List Nat := (List.range s.len).map (s.src + ·)
def dsts (s : Span) : List Nat := (List.range s.len).map (s.dst + ·)

/-- Where the spans map the number `l`. -/
def image (L : List Span) (l : Nat) : Option Nat :=
  L.findSome? fun s => if s.src ≤ l ∧ l < s.src + s.len then some (s.dst + (l - s.src)) else none

variable (per : Nat)

/-- The `per` numbers from `b` on. -/
def tile (b : Nat) : List Nat := (List.range per).map (b + ·)

/-- The starts of the tiles that a span is cut into, the last one perhaps in part behind its end. -/
def starts (s : Span) : List Nat := (List.range ((s.len + per - 1) / per)).map fun k =>
  s.dst + k * per

/-- The tiles of each span, from its start on. -/
def cuts (L : List Span) : List (List Nat) := (L.flatMap (starts per)).map (tile per)

/-- The tiles below `bound`, and where they are mapped to. -/
def mapped (L : List Span) (bound : Nat) : List Nat :=
  (List.range bound).filter fun t => (image L (t * per)).isSome

def tiles (L : List Span) (bound : Nat) : List (List Nat) :=
  (mapped per L bound).map fun t => (tile per (t * per)).map fun l => (image L l).getD 0

end Span

open Lib.Span

/-- The spans are sorted, none is empty, and each tile is mapped whole or not at all. -/
structure Spans (per bound : Nat) (L : List Span) : Prop where
  pos : ∀ s ∈ L, 0 < s.len
  sorted : L.Pairwise fun s t => s.src + s.len ≤ t.src
  below : ∀ s ∈ L, s.src + s.len ≤ bound * per
  whole : ∀ l l', l' / per = l / per → (image L l).isSome → (image L l').isSome

/-! ## Ranges -/

/-- The numbers below `q * per`, tile by tile. -/
theorem range_tiles (per q : Nat) :
    List.range (q * per) = (List.range q).flatMap fun k => tile per (k * per) := by
  induction q with
  | zero => simp
  | succ q ih =>
    rw [Nat.succ_mul, List.range_add, ih, List.range_succ, List.flatMap_append]
    simp [tile]

section
variable {per bound : Nat} {L : List Span}

/-- A span that is a number of whole tiles is cut into them. -/
theorem starts_flatMap (hper : 0 < per) {s : Span} (h : per ∣ s.len) :
    (starts per s).flatMap (tile per) = s.dsts := by
  obtain ⟨q, hq⟩ := h
  have hlen : (s.len + per - 1) / per = q := by
    rw [hq, Nat.add_sub_assoc hper, Nat.mul_add_div hper, Nat.div_eq_of_lt (by omega), Nat.add_zero]
  rw [starts, hlen, dsts, hq, Nat.mul_comm per q, range_tiles, List.flatMap_map, List.map_flatMap]
  refine List.flatMap_congr fun k _ => ?_
  simp only [tile, List.map_map]
  exact List.map_congr_left fun j _ => Nat.add_assoc _ _ _

/-- The number of tiles of a span, and that of the numbers in it. -/
theorem length_starts_mul (hper : 0 < per) (s : Span) :
    s.len ≤ (starts per s).length * per ∧
      (s.len = (starts per s).length * per ↔ per ∣ s.len) := by
  have hdiv := Nat.div_add_mod (s.len + per - 1) per
  have hlt := Nat.mod_lt (s.len + per - 1) hper
  rw [starts, List.length_map, List.length_range]
  rw [Nat.mul_comm] at hdiv
  refine ⟨by omega, fun h => ⟨_, by rw [Nat.mul_comm]; exact h⟩, ?_⟩
  rintro ⟨q, hq⟩
  have hlen : (s.len + per - 1) / per = q := by
    rw [hq, Nat.add_sub_assoc hper, Nat.mul_add_div hper, Nat.div_eq_of_lt (by omega), Nat.add_zero]
  rw [hlen, hq, Nat.mul_comm]

/-! ## What the spans map -/

theorem image_isSome {l : Nat} : (image L l).isSome ↔ ∃ s ∈ L, s.src ≤ l ∧ l < s.src + s.len := by
  rw [image, List.findSome?_isSome_iff]
  refine exists_congr fun s => and_congr_right fun _ => ?_
  by_cases h : s.src ≤ l ∧ l < s.src + s.len
  · simp [h]
  · simp [h]

/-- A number is mapped by the span it is in. -/
theorem Spans.image_eq (h : Spans per bound L) {s : Span} (hs : s ∈ L) {j : Nat} (hj : j < s.len) :
    image L (s.src + j) = some (s.dst + j) := by
  have hsorted := h.sorted
  clear h
  induction L with
  | nil => cases hs
  | cons t L ih =>
    rw [List.pairwise_cons] at hsorted
    rw [image, List.findSome?_cons]
    rcases List.mem_cons.1 hs with rfl | hs
    · rw [if_pos ⟨by omega, by omega⟩, Nat.add_sub_cancel_left]
    · have hlt := hsorted.1 s hs
      rw [if_neg (by omega)]
      exact ih hs hsorted.2

theorem mem_srcs {l : Nat} : l ∈ L.flatMap srcs ↔ (image L l).isSome := by
  rw [image_isSome, List.mem_flatMap]
  refine exists_congr fun s => and_congr_right fun _ => ?_
  rw [srcs, List.mem_map]
  constructor
  · rintro ⟨j, hj, rfl⟩
    have hj := List.mem_range.1 hj
    omega
  · rintro ⟨h1, h2⟩
    exact ⟨l - s.src, List.mem_range.2 (by omega), by omega⟩

theorem Spans.map_srcs (h : Spans per bound L) :
    (L.flatMap srcs).map (fun l => (image L l).getD 0) = L.flatMap dsts := by
  rw [List.map_flatMap]
  refine List.flatMap_congr fun s hs => ?_
  rw [srcs, dsts, List.map_map]
  refine List.map_congr_left fun j hj => ?_
  show (image L (s.src + j)).getD 0 = s.dst + j
  rw [h.image_eq hs (List.mem_range.1 hj), Option.getD_some]

/-- The numbers of ascending runs ascend. -/
theorem pairwise_flatMap_run {α : Type} {L : List α} {src len : α → Nat}
    (h : L.Pairwise fun s t => src s + len s ≤ src t) :
    (L.flatMap fun s => (List.range (len s)).map (src s + ·)).Pairwise (· < ·) := by
  rw [List.pairwise_flatMap]
  refine ⟨fun s _ => ?_, h.imp fun {s t} hst => ?_⟩
  · exact List.pairwise_map.2 (List.pairwise_lt_range.imp fun hij => by omega)
  · intro x hx y hy
    obtain ⟨i, hi, rfl⟩ := List.mem_map.1 hx
    obtain ⟨j, -, rfl⟩ := List.mem_map.1 hy
    have hi := List.mem_range.1 hi
    omega

/-- Ascending lists of the same numbers are equal. -/
theorem eq_of_ascending {l m : List Nat} (hl : l.Pairwise (· < ·)) (hm : m.Pairwise (· < ·))
    (h : ∀ x, x ∈ l ↔ x ∈ m) : l = m := by
  have hperm := (List.perm_ext_iff_of_nodup (hl.imp Nat.ne_of_lt) (hm.imp Nat.ne_of_lt)).2 h
  exact hperm.eq_of_pairwise (fun a b _ _ h1 h2 => absurd h1 (Nat.lt_asymm h2)) hl hm

/-- The numbers that are mapped, tile by tile. -/
theorem Spans.mapped_tiles (h : Spans per bound L) (hper : 0 < per) :
    (mapped per L bound).flatMap (fun t => tile per (t * per)) = L.flatMap srcs := by
  refine eq_of_ascending ?_ (pairwise_flatMap_run h.sorted) fun l => ?_
  · have hrun : (mapped per L bound).Pairwise fun s t => s * per + per ≤ t * per := by
      refine (List.pairwise_lt_range.sublist List.filter_sublist).imp fun {s t} hst => ?_
      rw [← Nat.succ_mul]
      exact Nat.mul_le_mul_right per hst
    exact pairwise_flatMap_run hrun
  · rw [mem_srcs, List.mem_flatMap]
    simp only [mapped, List.mem_filter, List.mem_range, tile, List.mem_map]
    constructor
    · rintro ⟨t, ⟨-, ht⟩, j, hj, rfl⟩
      refine h.whole (t * per) _ ?_ ht
      rw [Nat.mul_comm, Nat.mul_add_div hper, Nat.div_eq_of_lt hj, Nat.mul_div_cancel_left t hper,
        Nat.add_zero]
    · intro hl
      obtain ⟨s, hs, -, hlt⟩ := image_isSome.1 hl
      have hbound := h.below s hs
      refine ⟨l / per, ⟨?_, ?_⟩, l % per, Nat.mod_lt l hper, Nat.div_add_mod' l per⟩
      · exact (Nat.div_lt_iff_lt_mul hper).2 (by omega)
      · exact h.whole l _ (Nat.mul_div_cancel _ hper) hl

/-! ## Cuts and tiles -/

theorem length_flatMap_const {α β : Type} {f : α → List β} {n : Nat} (h : ∀ a, (f a).length = n)
    (l : List α) : (l.flatMap f).length = l.length * n := by
  induction l with
  | nil => simp
  | cons a l ih => rw [List.flatMap_cons, List.length_append, h, ih, List.length_cons, Nat.succ_mul,
      Nat.add_comm]

theorem length_tile (b : Nat) : (tile per b).length = per := by
  rw [tile, List.length_map, List.length_range]

theorem Spans.flatten_tiles (h : Spans per bound L) (hper : 0 < per) :
    (tiles per L bound).flatten = L.flatMap dsts := by
  rw [← h.map_srcs, ← h.mapped_tiles hper, tiles, ← List.flatMap_def, List.map_flatMap]

/-- There are at most as many numbers as there are in the tiles below the bound. -/
theorem Spans.length_le (h : Spans per bound L) (hper : 0 < per) :
    (L.flatMap dsts).length ≤ bound * per := by
  have hlen : ((mapped per L bound).flatMap fun t => tile per (t * per)).length =
      (mapped per L bound).length * per := length_flatMap_const (fun _ => length_tile _) _
  rw [← h.map_srcs, ← h.mapped_tiles hper, List.length_map, hlen]
  refine Nat.mul_le_mul_right per ?_
  rw [mapped]
  exact (List.length_filter_le _ _).trans (by rw [List.length_range])

/-- Where the spans are whole tiles, the numbers are the same. -/
theorem flatten_cuts (hper : 0 < per) (hdvd : ∀ s ∈ L, per ∣ s.len) :
    (cuts per L).flatten = L.flatMap dsts := by
  rw [cuts, ← List.flatMap_def, List.flatMap_assoc]
  exact List.flatMap_congr fun s hs => starts_flatMap hper (hdvd s hs)

/-- Each span takes as many tiles as it has, or one more. -/
theorem length_starts_eq_iff (hper : 0 < per) :
    (L.flatMap dsts).length ≤ (L.flatMap (starts per)).length * per ∧
      ((L.flatMap dsts).length = (L.flatMap (starts per)).length * per ↔ ∀ s ∈ L, per ∣ s.len) := by
  induction L with
  | nil => simp
  | cons s L ih =>
    obtain ⟨hle, hiff⟩ := ih
    obtain ⟨hle₁, hiff₁⟩ := length_starts_mul hper s
    have hlen : s.dsts.length = s.len := by rw [dsts, List.length_map, List.length_range]
    rw [List.flatMap_cons, List.flatMap_cons, List.length_append, List.length_append, hlen,
      Nat.add_mul,
      List.forall_mem_cons, ← hiff, ← hiff₁]
    exact ⟨by omega, by omega⟩

theorem Spans.cuts_eq_tiles_iff (h : Spans per bound L) (hper : 0 < per) :
    cuts per L = tiles per L bound ↔ ∀ s ∈ L, per ∣ s.len := by
  have hflat := h.flatten_tiles hper
  have hcuts : (cuts per L).map List.length =
      List.replicate (L.flatMap (starts per)).length per := by
    rw [cuts, List.map_map]
    exact List.eq_replicate_iff.2 ⟨List.length_map _, fun n hn => by
      obtain ⟨b, -, rfl⟩ := List.mem_map.1 hn
      exact length_tile b⟩
  have htiles : (tiles per L bound).map List.length =
      List.replicate (mapped per L bound).length per := by
    rw [tiles, List.map_map]
    exact List.eq_replicate_iff.2 ⟨List.length_map _, fun n hn => by
      obtain ⟨b, -, rfl⟩ := List.mem_map.1 hn
      exact (List.length_map _).trans (length_tile _)⟩
  have hlen : (L.flatMap dsts).length = (mapped per L bound).length * per := by
    rw [← hflat, List.length_flatten, htiles, List.sum_replicate_nat]
  rw [← (length_starts_eq_iff hper).2, hlen]
  constructor
  · intro heq
    rw [heq, htiles] at hcuts
    have hn := congrArg List.length hcuts
    rw [List.length_replicate, List.length_replicate] at hn
    rw [hn]
  · intro hn
    have hn : (mapped per L bound).length = (L.flatMap (starts per)).length :=
      Nat.eq_of_mul_eq_mul_right hper hn
    rw [List.eq_iff_flatten_eq, hflat, hcuts, htiles, hn]
    refine ⟨flatten_cuts hper ?_, rfl⟩
    rw [← (length_starts_eq_iff hper).2, hlen, hn]

end

end Lib
