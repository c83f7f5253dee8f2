import Xallib.Khash.Proof.Table

/-!
# Insertion and deletion

Both keep `KhWell`, and change what the table maps at one key. An element takes the bucket that the
search for its key has ended at, or a deleted one on the way; no other search is affected, since a
bucket that is in use does not become empty (`Kh.Leads.insert`).
-/

namespace Xallib

open Lib Lib.Cm Lib.Run KhFlags

section
variable {κ ν : Type} {hash : κ → Nat} {k : Nat} {h h' : Kh κ ν} {m : κ → Option ν} {key : κ}
  {x : Nat}

/-! ## The bucket of an element -/

/-- Where `kh_put` has found a bucket: it holds the key, or the search has missed the key, which may
come there. -/
structure PutAt (hash : κ → Nat) (k : Nat) (h : Kh κ ν) (key : κ) (x : Nat) : Prop where
  lt : x < 2 ^ k
  found : h.live x = true → h.keys x = key
  missed : h.live x = false → h.Misses hash k key
  chained : Chained hash k h.flags key x

theorem not_live_of_empty (hempty : h.flags.isempty x = true) : h.live x = false := by
  rw [Kh.live, iseither_eq, hempty]
  rfl

theorem not_live_of_del (hdel : h.flags.isdel x = true) : h.live x = false := by
  rw [Kh.live, iseither_eq, hdel, Bool.or_true]
  rfl

section
variable [DecidableEq κ]

theorem nonempty_of_goesOn {i : Nat} (hgo : h.goesOn key i = true) : h.flags.isempty i = false := by
  by_contra hempty
  rw [goesOn_false_iff.2 (.inl (by simpa using hempty))] at hgo
  cases hgo

theorem putBucket_ok (hs : KhShape k h) (key : κ) :
    ∃ x, putBucket hash key h = some x ∧ PutAt hash k h key x := by
  have hpos := Nat.two_pow_pos k
  obtain ⟨s, hlt, hgo, hend, hmisses⟩ := hs.search key
  have hchain : ∀ t ≤ s, ∀ u < t,
      h.flags.isempty (place (2 ^ k) (hash key) u) = false := fun t ht u hu =>
    nonempty_of_goesOn (hgo u (by omega))
  -- the bucket the search has ended at
  have hat : PutAt hash k h key (place (2 ^ k) (hash key) s) := by
    refine ⟨place_lt hpos, fun hlive => ?_, fun hdead => ?_, s, hlt, rfl,
      hchain s (Nat.le_refl _)⟩
    · rcases goesOn_false_iff.1 hend with hempty | ⟨-, hkey⟩
      · rw [not_live_of_empty hempty] at hlive
        cases hlive
      · exact hkey
    · rcases goesOn_false_iff.1 hend with hempty | ⟨hlive, -⟩
      · exact hmisses hempty
      · rw [hdead] at hlive
        cases hlive
  have hstart : hash key &&& (h.nBuckets - 1) = place (2 ^ k) (hash key) 0 := by
    rw [hs.nBuckets, and_mask, place, tri, Nat.add_zero]
  unfold putBucket
  by_cases hfirst : h.flags.isempty (hash key &&& (h.nBuckets - 1)) = true
  · simp only [if_pos hfirst]
    rw [hstart] at hfirst ⊢
    obtain rfl : s = 0 := by
      by_contra h0
      rw [nonempty_of_goesOn (hgo 0 (by omega))] at hfirst
      cases hfirst
    exact ⟨_, rfl, hat⟩
  · -- `site` is none, or a deleted bucket that the search has passed
    obtain ⟨site, hsite, hprobe⟩ := hs.probe hash key h.nBuckets
      (fun site i => if h.flags.isdel i then i else site)
      (fun site => site = h.nBuckets ∨
        ∃ t < s, site = place (2 ^ k) (hash key) t ∧ h.flags.isdel site = true) hlt hgo hend
      (fun x t ht hx => by
        by_cases hdel : h.flags.isdel (place (2 ^ k) (hash key) t) = true
        · rw [if_pos hdel]
          exact .inr ⟨t, ht, rfl, hdel⟩
        · rw [if_neg hdel]
          exact hx) (.inl rfl)
    simp only [if_neg hfirst, hprobe, if_neg Bool.false_ne_true, if_pos]
    by_cases hend' : h.flags.isempty (place (2 ^ k) (hash key) s) = true ∧ site ≠ h.nBuckets
    · rw [if_pos hend']
      obtain ⟨t, ht, rfl, hdel⟩ := hsite.resolve_left hend'.2
      refine ⟨_, rfl, place_lt hpos, fun hlive => ?_, fun _ => hmisses hend'.1, t, by omega, rfl,
        hchain t (by omega)⟩
      rw [not_live_of_del hdel] at hlive
      cases hlive
    · rw [if_neg hend']
      exact ⟨_, rfl, hat⟩

end

/-! ## A new element -/

/-- The table with a new element. -/
def Kh.insert (h : Kh κ ν) (x : Nat) (key : κ) : Kh κ ν :=
  { h with
    keys := fun j => if j = x then key else h.keys j
    flags := h.flags.setIsbothFalse x
    size := h.size + 1
    nOccupied := h.nOccupied + if h.flags.isempty x then 1 else 0 }

theorem live_insert (i : Nat) : (h.insert x key).live i = (h.live i || decide (i = x)) := by
  rw [Kh.live, Kh.live, iseither_eq, iseither_eq, Kh.insert, isempty_setIsbothFalse,
    isdel_setIsbothFalse]
  by_cases hix : i = x
  · rw [decide_eq_true hix, decide_eq_false (not_not.2 hix)]
    simp
  · rw [decide_eq_false hix, decide_eq_true hix]
    simp

theorem live_of_insert {i : Nat} (hlive : (h.insert x key).live i = true) (hne : i ≠ x) :
    h.live i = true := by
  simpa [live_insert, hne] using hlive

theorem KhShape.insert (hs : KhShape k h) (hx : x < 2 ^ k) (hdead : h.live x = false)
    (hroom : h.nOccupied < h.upperBound) (key : κ) : KhShape k (h.insert x key) := by
  refine ⟨hs.nBuckets, hs.two_le, hs.le_31, ?_, ?_, hs.upperBound, ?_⟩
  · show h.size + 1 = _
    rw [hs.size]
    refine (filled_put hx hdead (by simp [live_insert]) fun j hj => ?_).symm
    simp [live_insert, hj]
  · show h.nOccupied + _ = _
    rw [hs.nOccupied]
    by_cases hempty : h.flags.isempty x = true
    · rw [if_pos hempty]
      refine (filled_put hx (by simp [hempty]) (by simp [Kh.insert]) fun j hj => ?_).symm
      simp [Kh.insert, hj]
    · rw [if_neg hempty]
      refine filled_congr fun j _ => ?_
      by_cases hj : j = x
      · rw [hj]
        simpa [Kh.insert] using hempty
      · simp [Kh.insert, hj]
  · show h.nOccupied + (if h.flags.isempty x then 1 else 0) ≤ h.upperBound
    by_cases hempty : h.flags.isempty x = true
    · rw [if_pos hempty]
      exact hroom
    · rw [if_neg hempty]
      exact hs.room

theorem Chained.insert {key' : κ} {i : Nat} (hc : Chained hash k h.flags key' i) (x : Nat)
    (key : κ) : Chained hash k (h.insert x key).flags key' i := by
  obtain ⟨s, hs, hplace, hnonempty⟩ := hc
  refine ⟨s, hs, hplace, fun t ht => ?_⟩
  rw [Kh.insert, isempty_setIsbothFalse, hnonempty t ht, Bool.false_and]

theorem Kh.Leads.insert {key' : κ} (hl : h.Leads hash k key') (hdead : h.live x = false)
    (key : κ) : (h.insert x key).Leads hash k key' := by
  obtain ⟨i, hi, hlive, hkey, hc⟩ := hl
  have hix : i ≠ x := by
    rintro rfl
    rw [hdead] at hlive
    cases hlive
  exact ⟨i, hi, by rw [live_insert, hlive, Bool.true_or], (if_neg hix).trans hkey, hc.insert x key⟩

theorem KhWell.insert (hw : KhWell hash k h) (hx : PutAt hash k h key x) (hdead : h.live x = false)
    (hroom : h.nOccupied < h.upperBound) : KhWell hash k (h.insert x key) := by
  have hnot := hw.nowhere (hx.missed hdead)
  have hkey : ∀ {i}, i ≠ x → (h.insert x key).keys i = h.keys i := fun hne => if_neg hne
  have hkeyx : (h.insert x key).keys x = key := if_pos rfl
  refine ⟨hw.toKhShape.insert hx.lt hdead hroom key, fun i hi j hj h1 h2 he => ?_,
    fun i hi h1 => ?_⟩
  · by_cases hix : i = x
    · by_cases hjx : j = x
      · rw [hix, hjx]
      · rw [hix, hkeyx, hkey hjx] at he
        exact absurd he.symm (hnot j hj (live_of_insert h2 hjx))
    · by_cases hjx : j = x
      · rw [hjx, hkeyx, hkey hix] at he
        exact absurd he (hnot i hi (live_of_insert h1 hix))
      · rw [hkey hix, hkey hjx] at he
        exact hw.distinct i hi j hj (live_of_insert h1 hix) (live_of_insert h2 hjx) he
  · by_cases hix : i = x
    · rw [hix, hkeyx]
      exact hx.chained.insert x key
    · rw [hkey hix]
      exact (hw.chained i hi (live_of_insert h1 hix)).insert x key

/-! ## Values -/

/-- The assignment to `kh_value`. -/
def Kh.setVal (h : Kh κ ν) (x : Nat) (val : ν) : Kh κ ν :=
  { h with vals := fun j => if j = x then val else h.vals j }

theorem KhShape.setVal (hs : KhShape k h) (x : Nat) (val : ν) : KhShape k (h.setVal x val) where
  nBuckets := hs.nBuckets
  two_le := hs.two_le
  le_31 := hs.le_31
  size := hs.size
  nOccupied := hs.nOccupied
  upperBound := hs.upperBound
  room := hs.room

theorem KhWell.setVal (hw : KhWell hash k h) (x : Nat) (val : ν) :
    KhWell hash k (h.setVal x val) where
  toKhShape := hw.toKhShape.setVal x val
  distinct := hw.distinct
  chained := hw.chained

section
variable [DecidableEq κ]

/-- The value of a key that is in the table. -/
theorem Holds.setVal (hw : KhWell hash k h) (hm : h.Holds m) (hx : x < 2 ^ k)
    (hlive : h.live x = true) (val : ν) :
    (h.setVal x val).Holds (Function.update m (h.keys x) (some val)) := by
  intro key v
  rw [Function.update_apply]
  by_cases hkey : key = h.keys x
  · subst hkey
    rw [if_pos rfl]
    constructor
    · intro he
      exact ⟨x, by rw [← hw.nBuckets] at hx; exact hx, hlive, rfl, (if_pos rfl).trans
        (Option.some.inj he)⟩
    · rintro ⟨i, hi, hlive', he, hval⟩
      obtain rfl := hw.distinct i (hw.nBuckets ▸ hi) x hx hlive' hlive he
      exact congrArg some ((if_pos rfl).symm.trans hval)
  · rw [if_neg hkey, hm key v]
    refine exists_congr fun i => and_congr_right fun hi => and_congr_right fun _ =>
      and_congr_right fun he => ?_
    have hne : i ≠ x := by
      rintro rfl
      exact hkey he.symm
    show _ ↔ (if i = x then val else h.vals i) = v
    rw [if_neg hne]

/-- A key that was nowhere, with its value. -/
theorem Holds.insert (hw : KhWell hash k h) (hm : h.Holds m) (hx : PutAt hash k h key x)
    (hdead : h.live x = false) (val : ν) :
    ((h.insert x key).setVal x val).Holds (Function.update m key (some val)) := by
  have hnot := hw.nowhere (hx.missed hdead)
  have hn : x < h.nBuckets := by
    rw [hw.nBuckets]
    exact hx.lt
  intro key' v
  rw [Function.update_apply]
  by_cases hkey : key' = key
  · subst hkey
    rw [if_pos rfl]
    constructor
    · intro he
      refine ⟨x, hn, ?_, if_pos rfl, (if_pos rfl).trans (Option.some.inj he)⟩
      show (h.insert x key').live x = true
      simp [live_insert]
    · rintro ⟨i, hi, hlive, he, hval⟩
      by_cases hix : i = x
      · subst hix
        exact congrArg some ((if_pos rfl).symm.trans hval)
      · have hlive' : h.live i = true := by
          have hins : (h.insert x key').live i = true := hlive
          simpa [live_insert, hix] using hins
        exact absurd ((if_neg hix).symm.trans he) (hnot i (hw.nBuckets ▸ hi) hlive')
  · rw [if_neg hkey, hm key' v]
    refine exists_congr fun i => and_congr_right fun hi => ?_
    by_cases hix : i = x
    · subst hix
      refine iff_of_false (fun hc => ?_) fun hc => hkey ((if_pos rfl).symm.trans hc.2.1).symm
      rw [hdead] at hc
      exact absurd hc.1 Bool.false_ne_true
    · have hlive : ((h.insert x key).setVal x val).live i = h.live i := by
        show (h.insert x key).live i = h.live i
        simp [live_insert, hix]
      rw [hlive]
      refine and_congr_right fun _ => ?_
      show _ ↔ (if i = x then key else h.keys i) = key' ∧ (if i = x then val else h.vals i) = v
      rw [if_neg hix, if_neg hix]

end

/-! ## Deletion -/

theorem KhWell.del (hw : KhWell hash k h) (hx : x < 2 ^ k) (hlive : h.live x = true) :
    KhWell hash k (khDel x h) := by
  have hdel : khDel x h = { h with flags := h.flags.setIsdelTrue x, size := h.size - 1 } := by
    refine if_pos ⟨?_, ?_⟩
    · rw [hw.nBuckets]
      exact Nat.ne_of_lt hx
    · simpa [Kh.live] using hlive
  have hlive' : ∀ i, (khDel x h).live i = (h.live i && decide (i ≠ x)) := by
    intro i
    rw [hdel, Kh.live, Kh.live, iseither_eq, iseither_eq, isempty_setIsdelTrue, isdel_setIsdelTrue]
    by_cases hix : i = x <;> simp [hix]
  have hof : ∀ {i}, (khDel x h).live i = true → h.live i = true := by
    intro i hi
    rw [hlive', Bool.and_eq_true] at hi
    exact hi.1
  have hsize : filled (2 ^ k) h.live = filled (2 ^ k) (khDel x h).live + 1 := by
    refine filled_put hx ?_ hlive fun j hj => ?_
    · simp [hlive']
    · simp [hlive', hj]
  have hempty : ∀ i, (khDel x h).flags.isempty i = h.flags.isempty i := by
    intro i
    rw [hdel]
    exact isempty_setIsdelTrue _ _ _
  have hkeys : (khDel x h).keys = h.keys := by rw [hdel]
  refine ⟨⟨?_, hw.two_le, hw.le_31, ?_, ?_, ?_, ?_⟩, fun i hi j hj h1 h2 he => ?_,
    fun i hi h1 => ?_⟩
  · rw [hdel]
    exact hw.nBuckets
  · have hsub : (khDel x h).size = h.size - 1 := by rw [hdel]
    rw [hsub, hw.size, hsize]
    rfl
  · simp only [hempty]
    rw [hdel]
    exact hw.nOccupied
  · rw [hdel]
    exact hw.upperBound
  · rw [hdel]
    exact hw.room
  · rw [hkeys] at he
    exact hw.distinct i hi j hj (hof h1) (hof h2) he
  · obtain ⟨s, hs, hplace, hnonempty⟩ := hw.chained i hi (hof h1)
    rw [hkeys]
    exact ⟨s, hs, hplace, fun t ht => (hempty _).trans (hnonempty t ht)⟩

/-- A deleted key is not mapped any more. -/
theorem Holds.del [DecidableEq κ] (hw : KhWell hash k h) (hm : h.Holds m) (hx : x < 2 ^ k)
    (hlive : h.live x = true) : (khDel x h).Holds (Function.update m (h.keys x) none) := by
  have hdel : khDel x h = { h with flags := h.flags.setIsdelTrue x, size := h.size - 1 } := by
    refine if_pos ⟨?_, ?_⟩
    · rw [hw.nBuckets]
      exact Nat.ne_of_lt hx
    · simpa [Kh.live] using hlive
  intro key v
  rw [Function.update_apply, hdel]
  by_cases hkey : key = h.keys x
  · rw [if_pos hkey]
    refine iff_of_false (by simp) ?_
    rintro ⟨i, hi, hlive', he, -⟩
    by_cases hix : i = x
    · subst hix
      simp [Kh.live, iseither_eq] at hlive'
    · have hlive'' : h.live i = true := by
        simpa [Kh.live, iseither_eq, hix] using hlive'
      exact hix (hw.distinct i (hw.nBuckets ▸ hi) x hx hlive'' hlive (he.trans hkey))
  · rw [if_neg hkey, hm key v]
    refine exists_congr fun i => and_congr_right fun hi => ?_
    by_cases hix : i = x
    · subst hix
      exact iff_of_false (fun hc => hkey hc.2.1.symm) fun hc => hkey hc.2.1.symm
    · refine and_congr_left fun _ => ?_
      simp [Kh.live, iseither_eq, hix]

end

end Xallib
