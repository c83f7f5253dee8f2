import Xallib.Khash.Proof.Put
import Xallib.Lib.Round

/-!
# Resizing

`kh_resize` hashes the elements again, within the same arrays: while it runs, a bucket is in use if
it holds an element that the old flags still show, or one that the new flags show, and one element
may be in hand (`Contents`). Each round of the kick-out process puts that element into an empty
bucket of the new table, and takes up what was there (`Rehashing.kick`), until nothing was; the old
table loses an element with each kick, so the process ends (`kickOut_ok`).

`khResize_ok`: a table that is resized maps what it mapped, and has no deleted buckets left.
`kh_resize` never compares keys. So a table in which keys have come to be equal is resized as the
table of its bucket numbers is (`khResize_map`), and has the same elements afterwards (`Rehashed`).
-/

namespace Xallib

open Lib Lib.Cm Lib.Run KhFlags

/-! ## The number of buckets -/

theorem kroundup32_eq (x : BitVec 32) : (kroundup32 x).toNat = 2 ^ (x - 1).toNat.size % 2 ^ 32 :=
  (Smeared.one (x - 1)).double.double.double.double.double.succ (Nat.le_refl _)

theorem exists_roundedBuckets (newNBuckets : Nat) :
    ∃ k, 2 ≤ k ∧ k ≤ 31 ∧ roundedBuckets newNBuckets = 2 ^ k := by
  have hle : (BitVec.ofNat 32 newNBuckets - 1).toNat.size ≤ 32 := Nat.size_le.2 (BitVec.isLt _)
  rw [roundedBuckets, kroundup32_eq]
  generalize (BitVec.ofNat 32 newNBuckets - 1).toNat.size = k at hle
  by_cases hlt : 2 ^ k % 2 ^ 32 < 4
  · exact ⟨2, by decide, by decide, if_pos hlt⟩
  · rw [if_neg hlt]
    rcases Nat.lt_or_eq_of_le hle with h32 | rfl
    · rw [Nat.mod_eq_of_lt (Nat.pow_lt_pow_right (by decide) h32)] at hlt ⊢
      refine ⟨k, ?_, by omega, rfl⟩
      by_contra hk
      have h2 : 2 ^ k ≤ 2 ^ 1 := Nat.pow_le_pow_right (by decide) (by omega)
      omega
    · exact absurd (by decide) hlt

/-- The least power of two that is not less. -/
theorem roundedBuckets_eq {k n : Nat} (hk : 2 ≤ k) (h31 : k ≤ 31) (hlo : 2 ^ (k - 1) < n)
    (hhi : n ≤ 2 ^ k) : roundedBuckets n = 2 ^ k := by
  have hlt : 2 ^ k < 2 ^ 32 := Nat.pow_lt_pow_right (by decide) (by omega)
  have h4 : 2 ^ 2 ≤ 2 ^ k := Nat.pow_le_pow_right (by decide) hk
  have hpos := Nat.two_pow_pos (k - 1)
  have hone : (1 : BitVec 32).toNat = 1 := rfl
  have hsub : (BitVec.ofNat 32 n - 1).toNat = n - 1 := by
    have hn : n % 2 ^ 32 = n := Nat.mod_eq_of_lt (by omega)
    rw [BitVec.toNat_sub, hone, BitVec.toNat_ofNat, hn]
    omega
  have hsize : (n - 1).size = k := by
    apply Nat.le_antisymm
    · exact Nat.size_le.2 (by omega)
    · rw [show k = k - 1 + 1 by omega]
      exact Nat.lt_size.2 (by omega)
  rw [roundedBuckets, kroundup32_eq, hsub, hsize, Nat.mod_eq_of_lt hlt, if_neg (by omega)]

theorem roundedBuckets_one : roundedBuckets 1 = 2 ^ 2 := by decide

/-! ## Contents -/

section
variable {κ ν : Type} {used : Nat → Bool} {keys : Nat → κ} {vals : Nat → ν} {m : κ → Option ν}
  {key : κ} {val : ν} {i : Nat}

/-- The buckets that are `used`, and the element in `hand`, are what `m` maps; no key is twice. -/
structure Contents (used : Nat → Bool) (keys : Nat → κ) (vals : Nat → ν) (hand : Option (κ × ν))
    (m : κ → Option ν) : Prop where
  distinct : ∀ i j, used i = true → used j = true → keys i = keys j → i = j
  fresh : ∀ e, hand = some e → ∀ i, used i = true → keys i ≠ e.1
  holds : ∀ key v, m key = some v ↔
    (∃ i, used i = true ∧ keys i = key ∧ vals i = v) ∨ hand = some (key, v)

def setAt {α : Type} (f : Nat → α) (i : Nat) (a : α) : Nat → α := fun j => if j = i then a else f j

theorem setAt_self {α : Type} (f : Nat → α) (i : Nat) (a : α) : setAt f i a i = a := if_pos rfl

theorem setAt_ne {α : Type} (f : Nat → α) {i j : Nat} (a : α) (h : j ≠ i) : setAt f i a j = f j :=
  if_neg h

/-- An element is taken up. -/
theorem Contents.take (hc : Contents used keys vals none m) (hi : used i = true) :
    Contents (setAt used i false) keys vals (some (keys i, vals i)) m := by
  have hused : ∀ j, setAt used i false j = true ↔ used j = true ∧ j ≠ i := by
    intro j
    by_cases hj : j = i
    · subst hj
      simp [setAt_self]
    · simp [setAt_ne, hj]
  refine ⟨fun a b ha hb => hc.distinct a b ((hused a).1 ha).1 ((hused b).1 hb).1,
    fun e he j hj hkey => ?_, fun key v => ?_⟩
  · obtain rfl := Option.some.inj he
    obtain ⟨h1, h2⟩ := (hused j).1 hj
    exact h2 (hc.distinct j i h1 hi hkey)
  · rw [hc.holds key v]
    constructor
    · rintro (⟨j, hj, rfl, rfl⟩ | h)
      · by_cases hji : j = i
        · subst hji
          exact .inr rfl
        · exact .inl ⟨j, (hused j).2 ⟨hj, hji⟩, rfl, rfl⟩
      · cases h
    · rintro (⟨j, hj, h1, h2⟩ | h)
      · exact .inl ⟨j, ((hused j).1 hj).1, h1, h2⟩
      · cases h
        exact .inl ⟨i, hi, rfl, rfl⟩

/-- The element in hand is put down. -/
theorem Contents.put (hc : Contents used keys vals (some (key, val)) m) (hi : used i = false) :
    Contents (setAt used i true) (setAt keys i key) (setAt vals i val) none m := by
  have hused : ∀ {j}, j ≠ i → setAt used i true j = true → used j = true := by
    intro j hj h
    rwa [setAt_ne _ _ hj] at h
  have hfresh := hc.fresh _ rfl
  refine ⟨fun a b ha hb he => ?_, fun e he => ?_, fun key' v => ?_⟩
  · by_cases hai : a = i <;> by_cases hbi : b = i
    · rw [hai, hbi]
    · rw [hai, setAt_self, setAt_ne _ _ hbi] at he
      exact absurd he.symm (hfresh b (hused hbi hb))
    · rw [hbi, setAt_self, setAt_ne _ _ hai] at he
      exact absurd he (hfresh a (hused hai ha))
    · rw [setAt_ne _ _ hai, setAt_ne _ _ hbi] at he
      exact hc.distinct a b (hused hai ha) (hused hbi hb) he
  · cases he
  · rw [hc.holds key' v]
    constructor
    · rintro (⟨j, hj, h1, h2⟩ | h)
      · have hji : j ≠ i := by
          rintro rfl
          rw [hi] at hj
          cases hj
        refine .inl ⟨j, ?_, ?_, ?_⟩
        · rwa [setAt_ne _ _ hji]
        · rwa [setAt_ne _ _ hji]
        · rwa [setAt_ne _ _ hji]
      · cases h
        exact .inl ⟨i, setAt_self _ _ _, setAt_self _ _ _, setAt_self _ _ _⟩
    · rintro (⟨j, hj, h1, h2⟩ | h)
      · by_cases hji : j = i
        · rw [hji, setAt_self] at h1 h2
          exact .inr (by rw [h1, h2])
        · rw [setAt_ne _ _ hji] at hj h1 h2
          exact .inl ⟨j, hj, h1, h2⟩
      · cases h

/-- The element in hand is exchanged for one in use. -/
theorem Contents.swap (hc : Contents used keys vals (some (key, val)) m) (hi : used i = true) :
    Contents used (setAt keys i key) (setAt vals i val) (some (keys i, vals i)) m := by
  have hfresh := hc.fresh _ rfl
  refine ⟨fun a b ha hb he => ?_, fun e he j hj hkey => ?_, fun key' v => ?_⟩
  · by_cases hai : a = i <;> by_cases hbi : b = i
    · rw [hai, hbi]
    · rw [hai, setAt_self, setAt_ne _ _ hbi] at he
      exact absurd he.symm (hfresh b hb)
    · rw [hbi, setAt_self, setAt_ne _ _ hai] at he
      exact absurd he (hfresh a ha)
    · rw [setAt_ne _ _ hai, setAt_ne _ _ hbi] at he
      exact hc.distinct a b ha hb he
  · obtain rfl := Option.some.inj he
    by_cases hji : j = i
    · rw [hji, setAt_self] at hkey
      exact hfresh i hi hkey.symm
    · rw [setAt_ne _ _ hji] at hkey
      exact hji (hc.distinct j i hj hi hkey)
  · rw [hc.holds key' v]
    constructor
    · rintro (⟨j, hj, rfl, rfl⟩ | h)
      · by_cases hji : j = i
        · subst hji
          exact .inr rfl
        · refine .inl ⟨j, hj, ?_, ?_⟩
          · rw [setAt_ne _ _ hji]
          · rw [setAt_ne _ _ hji]
      · cases h
        exact .inl ⟨i, hi, setAt_self _ _ _, setAt_self _ _ _⟩
    · rintro (⟨j, hj, h1, h2⟩ | h)
      · by_cases hji : j = i
        · rw [hji, setAt_self] at h1 h2
          exact .inr (by rw [h1, h2])
        · rw [setAt_ne _ _ hji] at h1 h2
          exact .inl ⟨j, hj, h1, h2⟩
      · cases h
        exact .inl ⟨i, hi, rfl, rfl⟩

end

/-! ## The kick-out process -/

section
variable {κ ν : Type} {hash : κ → Nat} {n k size : Nat} {m : κ → Option ν} {r r' : Rehash κ ν}
  {key : κ} {val : ν} {hand : Option (κ × ν)} {i : Nat}

/-- A bucket of the old table whose element has not been placed yet. -/
def Rehash.pending (n : Nat) (r : Rehash κ ν) (i : Nat) : Bool :=
  decide (i < n) && !r.old.iseither i

def Rehash.placed (r : Rehash κ ν) (i : Nat) : Bool := !r.new.isempty i

def Rehash.used (n : Nat) (r : Rehash κ ν) (i : Nat) : Bool := r.pending n i || r.placed i

/-- The invariant (module doc). -/
structure Rehashing (hash : κ → Nat) (n k size : Nat) (m : κ → Option ν) (hand : Option (κ × ν))
    (r : Rehash κ ν) : Prop where
  contents : Contents (r.used n) r.keys r.vals hand m
  undeleted : ∀ i, r.new.isdel i = false
  apart : ∀ i, r.pending n i = true → r.placed i = false
  chained : ∀ i, r.placed i = true → i < 2 ^ k ∧ Chained hash k r.new (r.keys i) i
  count : filled n (r.pending n) + filled (2 ^ k) r.placed + hand.toList.length = size

/-- An element is put into bucket `i` of the new table. -/
def Rehash.place (r : Rehash κ ν) (i : Nat) (key : κ) (val : ν) : Rehash κ ν :=
  { r.write i key val with new := r.new.setIsemptyFalse i }

/-- The element of the old table in bucket `i` is taken up. -/
def Rehash.takeUp (r : Rehash κ ν) (i : Nat) : Rehash κ ν :=
  { r with old := r.old.setIsdelTrue i }

@[simp] theorem pending_place : (r.place i key val).pending n = r.pending n := rfl

@[simp] theorem placed_takeUp : (r.takeUp i).placed = r.placed := rfl

theorem placed_place : (r.place i key val).placed = setAt r.placed i true := by
  funext j
  rw [Rehash.placed, Rehash.place, isempty_setIsemptyFalse]
  by_cases hj : j = i
  · rw [hj, setAt_self]
    simp
  · rw [setAt_ne _ _ hj]
    simp [Rehash.placed, hj]

theorem pending_takeUp : (r.takeUp i).pending n = setAt (r.pending n) i false := by
  funext j
  rw [Rehash.pending, Rehash.takeUp, iseither_eq, isempty_setIsdelTrue, isdel_setIsdelTrue]
  by_cases hj : j = i
  · rw [hj, setAt_self]
    simp
  · rw [setAt_ne _ _ hj]
    simp [Rehash.pending, iseither_eq, hj]

theorem setAt_or {p q : Nat → Bool} (hq : q i = false) :
    (fun j => setAt p i false j || q j) = setAt (fun j => p j || q j) i false := by
  funext j
  by_cases hj : j = i
  · rw [hj, setAt_self, setAt_self, hq]
    rfl
  · rw [setAt_ne _ _ hj, setAt_ne _ _ hj]

/-- Taking up leaves one element less in the old table. -/
theorem filled_takeUp (hi : r.pending n i = true) :
    filled n (r.pending n) = filled n ((r.takeUp i).pending n) + 1 := by
  have hlt : i < n := by
    rw [Rehash.pending, Bool.and_eq_true, decide_eq_true_iff] at hi
    exact hi.1
  rw [pending_takeUp]
  exact filled_put hlt (setAt_self _ _ _) hi fun j hj => (setAt_ne _ _ hj).symm

/-- An element of the old table is taken up. -/
theorem Rehashing.takeUp (hr : Rehashing hash n k size m none r) (hi : r.pending n i = true) :
    Rehashing hash n k size m (some (r.keys i, r.vals i)) (r.takeUp i) := by
  have hplaced := hr.apart i hi
  have hused : (r.takeUp i).used n = setAt (r.used n) i false := by
    show (fun j => (r.takeUp i).pending n j || (r.takeUp i).placed j) = _
    rw [pending_takeUp, placed_takeUp, setAt_or hplaced]
    rfl
  refine ⟨?_, hr.undeleted, fun j hj => hr.apart j ?_, hr.chained, ?_⟩
  · rw [hused]
    apply hr.contents.take
    rw [Rehash.used, hi, Bool.true_or]
  · by_cases hji : j = i
    · rwa [hji]
    · rwa [pending_takeUp, setAt_ne _ _ hji] at hj
  · have hcount := hr.count
    rw [filled_takeUp hi] at hcount
    rw [placed_takeUp]
    simpa [Nat.add_right_comm] using hcount

/-- The bucket that the element in hand comes to. -/
structure Seek (hash : κ → Nat) (k : Nat) (r : Rehash κ ν) (key : κ) (i : Nat) : Prop where
  lt : i < 2 ^ k
  free : r.placed i = false
  chained : Chained hash k r.new key i

theorem chained_place (val : ν) (hi : Seek hash k r key i) (hold : ∀ j, r.placed j = true →
    j < 2 ^ k ∧ Chained hash k r.new (r.keys j) j) :
    ∀ j, (r.place i key val).placed j = true →
      j < 2 ^ k ∧ Chained hash k (r.place i key val).new ((r.place i key val).keys j) j := by
  intro j hj
  have hmono : ∀ {key' : κ} {j : Nat}, Chained hash k r.new key' j →
      Chained hash k (r.place i key val).new key' j := by
    rintro key' j ⟨s, hs, hplace, hnonempty⟩
    refine ⟨s, hs, hplace, fun t ht => ?_⟩
    rw [Rehash.place, isempty_setIsemptyFalse, hnonempty t ht, Bool.false_and]
  by_cases hji : j = i
  · subst hji
    refine ⟨hi.lt, ?_⟩
    rw [show (r.place j key val).keys j = key from setAt_self _ _ _]
    exact hmono hi.chained
  · rw [placed_place, setAt_ne _ _ hji] at hj
    rw [show (r.place i key val).keys j = r.keys j from setAt_ne _ _ hji]
    exact (hold j hj).imp_right hmono

theorem filled_place (val : ν) (hi : Seek hash k r key i) :
    filled (2 ^ k) (r.place i key val).placed = filled (2 ^ k) r.placed + 1 := by
  rw [placed_place]
  exact filled_put hi.lt hi.free (setAt_self _ _ _) fun j hj => setAt_ne _ _ hj

theorem undeleted_place (key : κ) (val : ν) (h : ∀ i, r.new.isdel i = false) (j : Nat) :
    (r.place i key val).new.isdel j = false := by
  rw [Rehash.place, isdel_setIsemptyFalse]
  exact h j

/-- The element in hand comes to a bucket that nothing is in. -/
theorem Rehashing.put (hr : Rehashing hash n k size m (some (key, val)) r)
    (hi : Seek hash k r key i) (hpending : r.pending n i = false) :
    Rehashing hash n k size m none (r.place i key val) := by
  have hused : (r.place i key val).used n = setAt (r.used n) i true := by
    funext j
    rw [Rehash.used, pending_place, placed_place]
    by_cases hj : j = i
    · rw [hj, setAt_self, setAt_self, Bool.or_true]
    · rw [setAt_ne _ _ hj, setAt_ne _ _ hj]
      rfl
  refine ⟨?_, undeleted_place key val hr.undeleted, fun j hj => ?_,
    chained_place val hi hr.chained, ?_⟩
  · rw [hused]
    apply hr.contents.put
    rw [Rehash.used, hpending, hi.free]
    rfl
  · have hji : j ≠ i := by
      rintro rfl
      rw [pending_place, hpending] at hj
      cases hj
    rw [placed_place, setAt_ne _ _ hji]
    exact hr.apart j hj
  · have hcount := hr.count
    rw [pending_place, filled_place val hi]
    simpa [Nat.add_assoc] using hcount

/-- The element in hand comes to a bucket of an element that is not placed yet, and kicks it out. -/
theorem Rehashing.kick (hr : Rehashing hash n k size m (some (key, val)) r)
    (hi : Seek hash k r key i) (hpending : r.pending n i = true) :
    Rehashing hash n k size m (some (r.keys i, r.vals i)) ((r.place i key val).takeUp i) := by
  have hused : ((r.place i key val).takeUp i).used n = r.used n := by
    funext j
    rw [Rehash.used, pending_takeUp, placed_takeUp, pending_place, placed_place]
    by_cases hj : j = i
    · rw [hj, setAt_self, setAt_self, Rehash.used, hpending]
      rfl
    · rw [setAt_ne _ _ hj, setAt_ne _ _ hj]
      rfl
  refine ⟨?_, undeleted_place key val hr.undeleted, fun j hj => ?_,
    chained_place val hi hr.chained, ?_⟩
  · rw [hused]
    apply hr.contents.swap
    rw [Rehash.used, hpending, Bool.true_or]
  · have hji : j ≠ i := by
      rintro rfl
      rw [pending_takeUp, setAt_self] at hj
      cases hj
    rw [pending_takeUp, setAt_ne _ _ hji] at hj
    rw [placed_takeUp, placed_place, setAt_ne _ _ hji]
    exact hr.apart j hj
  · have hcount := hr.count
    have htake := filled_takeUp (r := r.place i key val) (i := i) (n := n) hpending
    rw [pending_place] at htake
    rw [placed_takeUp, filled_place val hi]
    rw [htake] at hcount
    simp only [Option.toList_some, List.length_singleton] at hcount ⊢
    omega

/-- There is an empty bucket in the new table for the element in hand. -/
theorem Rehashing.seek (hr : Rehashing hash n k size m (some (key, val)) r) (hk : k ≤ 31)
    (hsize : size ≤ 2 ^ k) : ∃ i site, Seek hash k r key i ∧
      probeWhile (2 ^ k - 1) none (fun i => !r.new.isempty i) (fun site _ => site)
        (2 * (2 ^ k - 1 + 1)) (hash key &&& (2 ^ k - 1)) 0 0 = some (i, site, false) := by
  have hpos := Nat.two_pow_pos k
  have hlt : filled (2 ^ k) r.placed < 2 ^ k := by
    have hcount := hr.count
    simp only [Option.toList_some, List.length_singleton] at hcount
    omega
  obtain ⟨i, hi, hfree⟩ := exists_of_filled_lt hlt
  obtain ⟨s₀, hs₀, rfl⟩ := exists_place (hash key) hi
  obtain ⟨s, hs, hgo, hstop⟩ := exists_first
    (p := fun s => r.placed (place (2 ^ k) (hash key) s)) ⟨s₀, hs₀, hfree⟩
  have hprobe : ∃ site', True ∧ probeWhile (2 ^ k - 1) none (fun i => !r.new.isempty i)
      (fun site _ => site) (2 * (2 ^ k - 1 + 1)) (place (2 ^ k) (hash key) 0) 0 0 =
        some (place (2 ^ k) (hash key) s, site', false) :=
    probeWhile_stops (by omega) (fun _ h => by cases h) hs hgo hstop (P := fun _ => True)
      (fun _ _ _ _ => trivial) 0 (Nat.zero_le s) (by omega) trivial
  obtain ⟨site, -, hprobe⟩ := hprobe
  refine ⟨_, site, ⟨place_lt hpos, hstop, s, hs, rfl, fun t ht => ?_⟩, ?_⟩
  · simpa [Rehash.placed] using hgo t ht
  · rw [and_mask]
    exact hprobe

/-- Each kick takes an element out of the old table, so there is a last one. -/
theorem kickOut_ok (hk : k ≤ 31) (hsize : size ≤ 2 ^ k) : ∀ (fuel : Nat) (key : κ) (val : ν)
    (r : Rehash κ ν), Rehashing hash n k size m (some (key, val)) r →
    filled n (r.pending n) < fuel → ∃ r', kickOut hash n (2 ^ k - 1) fuel key val r = some r' ∧
      Rehashing hash n k size m none r' ∧
      ∀ j, r.pending n j = false → r'.pending n j = false := by
  intro fuel
  induction fuel with
  | zero =>
    intro key val r _ h
    omega
  | succ fuel ih =>
    intro key val r hr hfuel
    obtain ⟨i, site, hi, hprobe⟩ := hr.seek hk hsize
    rw [kickOut, hprobe]
    cases hpending : r.pending n i with
    | true =>
      have hkick := hr.kick hi hpending
      have htake := filled_takeUp (r := r.place i key val) (i := i) (n := n) hpending
      rw [pending_place] at htake
      obtain ⟨r', hr', hdone, hmono⟩ := ih _ _ _ hkick (by omega)
      refine ⟨r', ?_, hdone, fun j hj => hmono j ?_⟩
      · simp only [Rehash.pending, Bool.and_eq_true, decide_eq_true_iff] at hpending
        refine (if_pos ⟨hpending.1, ?_⟩).trans hr'
        simpa using hpending.2
      · rw [pending_takeUp, pending_place]
        by_cases hji : j = i
        · rw [hji, setAt_self]
        · rwa [setAt_ne _ _ hji]
    | false =>
      refine ⟨_, if_neg ?_, hr.put hi hpending, fun j hj => hj⟩
      intro ⟨h1, h2⟩
      simp [Rehash.pending, h1, h2] at hpending

theorem rehashBucket_ok (hk : k ≤ 31) (hsize : size ≤ 2 ^ k)
    (hr : Rehashing hash n k size m none r) {j : Nat} (hj : j < n) :
    ∃ r', rehashBucket hash n (2 ^ k - 1) r j = some r' ∧ Rehashing hash n k size m none r' ∧
      ∀ i, i = j ∨ r.pending n i = false → r'.pending n i = false := by
  rw [rehashBucket]
  cases hpending : r.pending n j with
  | true =>
    have htake := filled_takeUp hpending
    have hle := filled_le n (r.pending n)
    obtain ⟨r', hr', hdone, hmono⟩ := kickOut_ok hk hsize (n + 1) _ _ _ (hr.takeUp hpending)
      (by omega)
    refine ⟨r', (if_pos ?_).trans hr', hdone, fun i hi => hmono i ?_⟩
    · simpa [Rehash.pending, hj] using hpending
    · rw [pending_takeUp]
      by_cases hij : i = j
      · rw [hij, setAt_self]
      · rw [setAt_ne _ _ hij]
        exact hi.resolve_left hij
  | false =>
    refine ⟨r, if_neg ?_, hr, fun i hi => ?_⟩
    · intro h
      simp [Rehash.pending, hj, h] at hpending
    · rcases hi with rfl | hi
      · exact hpending
      · exact hi

/-- The loop over the old table. -/
theorem rehash_ok (hk : k ≤ 31) (hsize : size ≤ 2 ^ k) (hr : Rehashing hash n k size m none r) :
    ∀ j ≤ n, ∃ r', (List.range j).foldlM (rehashBucket hash n (2 ^ k - 1)) r = some r' ∧
      Rehashing hash n k size m none r' ∧ ∀ i < j, r'.pending n i = false := by
  intro j hj
  induction j with
  | zero => exact ⟨r, rfl, hr, fun i hi => absurd hi (Nat.not_lt_zero i)⟩
  | succ j ih =>
    obtain ⟨r₁, hrun, hr₁, hdone⟩ := ih (by omega)
    obtain ⟨r₂, hround, hr₂, hmono⟩ := rehashBucket_ok hk hsize hr₁ (j := j) (by omega)
    refine ⟨r₂, ?_, hr₂, fun i hi => hmono i ?_⟩
    · rw [List.range_succ, List.foldlM_append, hrun]
      simpa using hround
    · by_cases hij : i = j
      · exact .inl hij
      · exact .inr (hdone i (by omega))

end

/-! ## `kh_resize` -/

section
variable {κ ν : Type} {hash : κ → Nat} {k : Nat} {h : Kh κ ν} {m : κ → Option ν}

/-- A table as `kh_init` leaves it, or one with buckets. -/
inductive KhInv (hash : κ → Nat) (h : Kh κ ν) : Prop
  | fresh (nBuckets : h.nBuckets = 0) (size : h.size = 0) (nOccupied : h.nOccupied = 0)
      (upperBound : h.upperBound = 0)
  | buckets (k : Nat) (hw : KhWell hash k h)

/-- The same, whatever the keys are. -/
inductive KhShaped (h : Kh κ ν) : Prop
  | fresh (nBuckets : h.nBuckets = 0) (size : h.size = 0) (nOccupied : h.nOccupied = 0)
      (upperBound : h.upperBound = 0)
  | buckets (k : Nat) (hs : KhShape k h)

/-- No key is twice. -/
def Kh.Distinct (h : Kh κ ν) : Prop := ∀ i < h.nBuckets, ∀ j < h.nBuckets,
  h.live i = true → h.live j = true → h.keys i = h.keys j → i = j

theorem KhInv.shaped (hi : KhInv hash h) : KhShaped h := by
  cases hi with
  | fresh h0 hsize hocc hupper => exact .fresh h0 hsize hocc hupper
  | buckets k hw => exact .buckets k hw.toKhShape

/-- The arrays as the loop finds them. -/
def Kh.startRehash (h : Kh κ ν) : Rehash κ ν := ⟨h.flags, .cleared, h.keys, h.vals⟩

theorem used_startRehash : h.startRehash.used h.nBuckets =
    fun i => decide (i < h.nBuckets) && h.live i := by
  funext i
  simp [Rehash.used, Rehash.pending, Rehash.placed, Kh.startRehash, Kh.live]

theorem KhInv.distinct (hi : KhInv hash h) : h.Distinct := by
  cases hi with
  | fresh h0 =>
    intro i hi
    omega
  | buckets k hw =>
    unfold Kh.Distinct
    rw [hw.nBuckets]
    exact hw.distinct

theorem KhShaped.size (hs : KhShaped h) : h.size = filled h.nBuckets h.live := by
  cases hs with
  | fresh h0 hsize =>
    rw [h0, hsize]
    rfl
  | buckets k hs => rw [hs.nBuckets, hs.size]

theorem rehashing_start (hs : KhShaped h) (hd : h.Distinct) (hm : h.Holds m) (k : Nat) :
    Rehashing hash h.nBuckets k h.size m none h.startRehash where
  contents := by
    rw [used_startRehash]
    refine ⟨fun i j h1 h2 => ?_, fun _ he => ?_, fun key v => ?_⟩
    · rw [Bool.and_eq_true, decide_eq_true_iff] at h1 h2
      exact hd i h1.1 j h2.1 h1.2 h2.2
    · cases he
    · rw [hm key v]
      simp [Kh.startRehash, and_assoc]
  undeleted i := isdel_cleared i
  apart i _ := by
    show (!KhFlags.cleared.isempty i) = false
    rw [isempty_cleared]
    rfl
  chained i hplaced := by
    have h0 : (!KhFlags.cleared.isempty i) = true := hplaced
    rw [isempty_cleared] at h0
    cases h0
  count := by
    have hnone : filled (2 ^ k) h.startRehash.placed = 0 := filled_none fun i _ => by
      show (!KhFlags.cleared.isempty i) = false
      rw [isempty_cleared]
      rfl
    rw [hnone, hs.size]
    refine filled_congr fun i hlt => ?_
    simp [Rehash.pending, Kh.startRehash, Kh.live, hlt]

/-- The table that the loop leaves. -/
theorem rehashed_well {r : Rehash κ ν} {n size : Nat} (hk : 2 ≤ k) (h31 : k ≤ 31)
    (hsize : size < hashUpper (2 ^ k)) (hr : Rehashing hash n k size m none r)
    (hdone : ∀ i < n, r.pending n i = false) {h' : Kh κ ν}
    (hh : h' = ⟨2 ^ k, size, size, hashUpper (2 ^ k), r.new, r.keys, r.vals⟩) :
    KhWell hash k h' ∧ h'.Holds m := by
  subst hh
  have hnone : ∀ i, r.pending n i = false := by
    intro i
    by_cases hi : i < n
    · exact hdone i hi
    · simp [Rehash.pending, hi]
  have hused : ∀ i, r.used n i = r.placed i := by
    intro i
    rw [Rehash.used, hnone i, Bool.false_or]
  have hlive : ∀ i, (⟨2 ^ k, size, size, hashUpper (2 ^ k), r.new, r.keys, r.vals⟩ :
      Kh κ ν).live i = r.placed i := by
    intro i
    rw [Kh.live, iseither_eq, hr.undeleted i, Bool.or_false]
    rfl
  have hcount : size = filled (2 ^ k) r.placed := by
    have h := hr.count
    rw [filled_none fun i _ => hnone i] at h
    simpa using h.symm
  refine ⟨⟨⟨rfl, hk, h31, ?_, hcount, rfl, Nat.le_of_lt hsize⟩, ?_, ?_⟩, fun key v => ?_⟩
  · exact hcount.trans (filled_congr fun i _ => (hlive i).symm)
  · intro i _ j _ h1 h2
    exact hr.contents.distinct i j (by rw [hused, ← hlive]; exact h1)
      (by rw [hused, ← hlive]; exact h2)
  · intro i _ h1
    exact (hr.chained i ((hlive i).symm.trans h1)).2
  · rw [hr.contents.holds key v]
    constructor
    · rintro (⟨i, hi, h1, h2⟩ | he)
      · rw [hused] at hi
        exact ⟨i, (hr.chained i hi).1, (hlive i).trans hi, h1, h2⟩
      · cases he
    · rintro ⟨i, -, hi, h1, h2⟩
      exact .inl ⟨i, by rw [hused, ← hlive]; exact hi, h1, h2⟩

/-- A resize that takes place, unless the memory is refused (module doc). -/
theorem khResize_ok (hash : κ → Nat) (hs : KhShaped h) (hd : h.Distinct) (hm : h.Holds m)
    (alloc : KhAlloc) (newNBuckets : Nat) (hround : roundedBuckets newNBuckets = 2 ^ k)
    (hk : 2 ≤ k) (h31 : k ≤ 31)
    (hsize : h.size < hashUpper (2 ^ k))
    (hgrow : h.nBuckets ≤ 2 ^ k ∨ alloc.keys = true ∧ alloc.vals = true) :
    (∃ e, khResize hash alloc newNBuckets h = .fail e h ∧
      ¬(alloc.flags = true ∧ alloc.keys = true ∧ alloc.vals = true)) ∨
    ∃ h', khResize hash alloc newNBuckets h = .ok () h' ∧ KhWell hash k h' ∧ h'.Holds m ∧
      h'.size = h.size ∧ h'.nOccupied = h.size ∧ ∀ i, h'.flags.isdel i = false := by
  have hlt := hashUpper_lt hk
  obtain ⟨r, hrun, hr, hdone⟩ := rehash_ok h31 (by omega) (rehashing_start hs hd hm k) _
    (Nat.le_refl _)
  have hwell := rehashed_well hk h31 hsize hr hdone rfl
  have hrun' : (List.range h.nBuckets).foldlM (rehashBucket hash h.nBuckets (2 ^ k - 1))
      ⟨h.flags, .cleared, h.keys, h.vals⟩ = some r := hrun
  rw [khResize, read_bind, hround, if_neg (Nat.not_le.2 hsize)]
  by_cases hflags : alloc.flags = false
  · left
    refine ⟨⟨.khPut, -1⟩, ?_, ?_⟩
    · rw [failIf, if_pos hflags]
      rfl
    · simp [hflags]
  · rw [failIf, if_neg hflags, ret_bind]
    by_cases harrays : h.nBuckets < 2 ^ k ∧ (alloc.keys = false ∨ alloc.vals = false)
    · left
      refine ⟨⟨.khPut, -1⟩, ?_, ?_⟩
      · rw [failIf, if_pos harrays]
        rfl
      · rcases harrays.2 with h | h <;> simp [h]
    · right
      rw [failIf, if_neg harrays, ret_bind, hrun', ofLoop, ret_bind, Lib.Cm.assert, if_pos hgrow,
        ret_bind]
      exact ⟨_, rfl, hwell.1, hwell.2, rfl, rfl, hr.undeleted⟩

/-! ## Keys that change -/

variable {κ' ν' : Type}

/-- The table with other keys and values. -/
def Kh.map (f : κ → κ') (g : ν → ν') (h : Kh κ ν) : Kh κ' ν' where
  nBuckets := h.nBuckets
  size := h.size
  nOccupied := h.nOccupied
  upperBound := h.upperBound
  flags := h.flags
  keys i := f (h.keys i)
  vals i := g (h.vals i)

def Rehash.map (f : κ → κ') (g : ν → ν') (r : Rehash κ ν) : Rehash κ' ν' where
  old := r.old
  new := r.new
  keys i := f (r.keys i)
  vals i := g (r.vals i)

section
variable {hash' : κ' → Nat} {f : κ → κ'} {g : ν → ν'}

theorem place_map (r : Rehash κ ν) (i : Nat) (key : κ) (val : ν) :
    (r.map f g).place i (f key) (g val) = (r.place i key val).map f g := by
  unfold Rehash.place Rehash.write Rehash.map
  simp only [apply_ite f, apply_ite g]

theorem kickOut_succ (n newMask fuel : Nat) (key : κ) (val : ν) (r : Rehash κ ν) :
    kickOut hash n newMask (fuel + 1) key val r =
      match probeWhile newMask none (fun i => !r.new.isempty i) (fun site _ => site)
        (2 * (newMask + 1)) (hash key &&& newMask) 0 0 with
      | none => none
      | some (i, _, _) =>
        if i < n ∧ r.old.iseither i = false then
          kickOut hash n newMask fuel (r.keys i) (r.vals i) ((r.place i key val).takeUp i)
        else some (r.place i key val) := rfl

theorem kickOut_map (n newMask : Nat) : ∀ (fuel : Nat) (key : κ) (val : ν) (r : Rehash κ ν),
    kickOut hash' n newMask fuel (f key) (g val) (r.map f g) =
      (kickOut (fun key => hash' (f key)) n newMask fuel key val r).map (Rehash.map f g) := by
  intro fuel
  induction fuel with
  | zero => exact fun _ _ _ => rfl
  | succ fuel ih =>
    intro key val r
    rw [kickOut_succ, kickOut_succ, show (r.map f g).new = r.new from rfl]
    cases probeWhile newMask none (fun i => !r.new.isempty i) (fun site _ => site)
        (2 * (newMask + 1)) (hash' (f key) &&& newMask) 0 0 with
    | none => rfl
    | some p =>
      obtain ⟨i, -, -⟩ := p
      simp only [place_map]
      by_cases hold : i < n ∧ r.old.iseither i = false
      · rw [if_pos hold]
        exact (if_pos hold).trans (ih (r.keys i) (r.vals i) ((r.place i key val).takeUp i))
      · rw [if_neg hold]
        exact if_neg hold

theorem rehashBucket_map (n newMask : Nat) (r : Rehash κ ν) (j : Nat) :
    rehashBucket hash' n newMask (r.map f g) j =
      (rehashBucket (fun key => hash' (f key)) n newMask r j).map (Rehash.map f g) := by
  unfold rehashBucket
  by_cases hold : r.old.iseither j = false
  · rw [if_pos hold]
    exact (if_pos hold).trans (kickOut_map n newMask (n + 1) (r.keys j) (r.vals j) (r.takeUp j))
  · rw [if_neg hold]
    exact if_neg hold

theorem rehash_map (n newMask : Nat) (l : List Nat) : ∀ r : Rehash κ ν,
    l.foldlM (rehashBucket hash' n newMask) (r.map f g) =
      (l.foldlM (rehashBucket (fun key => hash' (f key)) n newMask) r).map (Rehash.map f g) := by
  induction l with
  | nil => exact fun _ => rfl
  | cons j l ih =>
    intro r
    rw [List.foldlM_cons, List.foldlM_cons, rehashBucket_map]
    cases rehashBucket (fun key => hash' (f key)) n newMask r j with
    | none => rfl
    | some r' => exact ih r'

theorem ofLoop_ok {σ α : Type} {o : Option α} {a : α} {s s' : σ} :
    ofLoop o s = .ok a s' ↔ o = some a ∧ s = s' := by
  cases o with
  | none => exact iff_of_false (fun h => nomatch h) fun h => nomatch h.1
  | some b => exact (Run.ok.injEq b s a s').to_iff.trans (and_congr_left' (Option.some_inj).symm)

/-- `kh_resize` takes no notice of what the keys and values are. -/
theorem khResize_map {alloc : KhAlloc} {newNBuckets : Nat} {h' : Kh κ ν}
    (hr : khResize (fun key => hash' (f key)) alloc newNBuckets h = .ok () h') :
    khResize hash' alloc newNBuckets (h.map f g) = .ok () (h'.map f g) := by
  unfold khResize at hr ⊢
  rw [read_bind] at hr ⊢
  by_cases hsize : h.size ≥ hashUpper (roundedBuckets newNBuckets)
  · rw [if_pos hsize, ret_apply] at hr
    obtain ⟨-, rfl⟩ := Run.ok.inj hr
    exact congrFun (if_pos hsize) _
  · rw [if_neg hsize] at hr
    refine (congrFun (if_neg hsize) _).trans ?_
    obtain ⟨hflags, hr⟩ := failIf_bind_ok.1 hr
    obtain ⟨harrays, hr⟩ := failIf_bind_ok.1 hr
    refine failIf_bind_ok.2 ⟨hflags, failIf_bind_ok.2 ⟨harrays, ?_⟩⟩
    obtain ⟨r, s, hloop, hr⟩ := bind_ok.1 hr
    obtain ⟨hrun, rfl⟩ := ofLoop_ok.1 hloop
    obtain ⟨hassert, hr⟩ := assert_bind_ok.1 hr
    have hmapped : (List.range h.nBuckets).foldlM (rehashBucket hash' h.nBuckets
        (roundedBuckets newNBuckets - 1)) (h.startRehash.map f g) = some (r.map f g) := by
      rw [rehash_map]
      exact congrArg (Option.map _) hrun
    refine bind_ok.2 ⟨r.map f g, _, ofLoop_ok.2 ⟨hmapped, rfl⟩, assert_bind_ok.2 ⟨hassert, ?_⟩⟩
    obtain ⟨-, rfl⟩ := Run.ok.inj hr
    rfl

end

/-- The elements after a rehash are those before, and the search for each leads to it. -/
structure Rehashed (hash : κ → Nat) (k : Nat) (h h' : Kh κ ν) : Prop where
  kept : ∀ i < h.nBuckets, h.live i = true →
    ∃ j < 2 ^ k, h'.live j = true ∧ h'.keys j = h.keys i ∧ h'.vals j = h.vals i
  only : ∀ j < 2 ^ k, h'.live j = true →
    ∃ i < h.nBuckets, h.live i = true ∧ h'.keys j = h.keys i ∧ h'.vals j = h.vals i
  chained : ∀ j < 2 ^ k, h'.live j = true → Chained hash k h'.flags (h'.keys j) j

theorem Rehashed.leads {h' : Kh κ ν} {k' : Nat} {key : κ} (hr : Rehashed hash k h h')
    (hn : h.nBuckets = 2 ^ k') (hl : h.Leads hash k' key) : h'.Leads hash k key := by
  obtain ⟨i, hi, hlive, rfl, -⟩ := hl
  obtain ⟨j, hj, hlive', hkey, -⟩ := hr.kept i (hn ▸ hi) hlive
  refine ⟨j, hj, hlive', hkey, ?_⟩
  rw [← hkey]
  exact hr.chained j hj hlive'

/-- The table of the bucket numbers. -/
def Kh.numbered (h : Kh κ ν) : Kh Nat Nat where
  nBuckets := h.nBuckets
  size := h.size
  nOccupied := h.nOccupied
  upperBound := h.upperBound
  flags := h.flags
  keys i := i
  vals i := i

theorem KhShaped.numbered (hs : KhShaped h) : KhShaped h.numbered := by
  cases hs with
  | fresh h0 hsize hocc hupper => exact .fresh h0 hsize hocc hupper
  | buckets k hs => exact .buckets k ⟨hs.nBuckets, hs.two_le, hs.le_31, hs.size, hs.nOccupied,
      hs.upperBound, hs.room⟩

theorem numbered_holds : h.numbered.Holds
    fun i => if i < h.nBuckets ∧ h.live i = true then some i else none := by
  intro i v
  rw [Option.ite_none_right_eq_some, Option.some_inj]
  constructor
  · rintro ⟨⟨hi, hlive⟩, rfl⟩
    exact ⟨i, hi, hlive, rfl, rfl⟩
  · rintro ⟨j, hj, hlive, rfl, rfl⟩
    exact ⟨⟨hj, hlive⟩, rfl⟩

/-- A resize that takes place, whatever the keys are. -/
theorem khResize_shape (hs : KhShaped h) (hash : κ → Nat) (newNBuckets : Nat)
    (hround : roundedBuckets newNBuckets = 2 ^ k) (hk : 2 ≤ k) (h31 : k ≤ 31)
    (hsize : h.size < hashUpper (2 ^ k)) :
    ∃ h', khResize hash .all newNBuckets h = .ok () h' ∧ KhShape k h' ∧ h'.size = h.size ∧
      h'.nOccupied = h.size ∧ Rehashed hash k h h' := by
  rcases khResize_ok (fun i => hash (h.keys i)) hs.numbered (fun _ _ _ _ _ _ he => he)
    numbered_holds .all newNBuckets hround hk h31 hsize (.inr ⟨rfl, rfl⟩) with
    ⟨e, -, hrefused⟩ | ⟨h₀, hrun, hw, hm, hsz, hocc, -⟩
  · exact absurd ⟨rfl, rfl, rfl⟩ hrefused
  · refine ⟨h₀.map h.keys h.vals, khResize_map hrun, ⟨hw.nBuckets, hw.two_le, hw.le_31, hw.size,
      hw.nOccupied, hw.upperBound, hw.room⟩, hsz, hocc, fun i hi hlive => ?_,
      fun j hj hlive => ?_, fun j hj hlive => ?_⟩
    · obtain ⟨j, hj, hlive', hkey, hval⟩ := (hm i i).1 (if_pos ⟨hi, hlive⟩)
      exact ⟨j, hw.nBuckets ▸ hj, hlive', congrArg h.keys hkey, congrArg h.vals hval⟩
    · -- a bucket of the new table holds the number of one of the old table
      obtain ⟨⟨hi, hlive'⟩, hval⟩ := Option.ite_none_right_eq_some.1
        ((hm (h₀.keys j) (h₀.vals j)).2 ⟨j, hw.nBuckets ▸ hj, hlive, rfl, rfl⟩)
      exact ⟨h₀.keys j, hi, hlive', rfl, congrArg h.vals (Option.some.inj hval).symm⟩
    · exact hw.chained j hj hlive

end

end Xallib
