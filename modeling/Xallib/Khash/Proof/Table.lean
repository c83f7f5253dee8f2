import Xallib.Khash.Proof.Flags

/-!
# Searches in a hash table

`KhShape k h`: a table of `2 ^ k` buckets whose counters count. There is always an empty bucket, so
a search ends: at a bucket of its key, or at an empty one (`KhShape.search`). `kh_get` and `kh_put`
are read off this.

`KhWell k h`: in addition no key is twice, and the search for each key passes no empty bucket before
it comes to it (`Chained`), so that a search that ends at an empty bucket is for a key that is
nowhere (`KhWell.nowhere`). Where keys change in the table, that is no longer so; a search still
finds what it leads to (`Kh.Leads`).
-/

namespace Xallib

open Lib Lib.Cm Lib.Run KhFlags

/-! ## The loop -/

section
variable {k start s site fuel : Nat} {last : Option Nat} {go : Nat → Bool} {see : Nat → Nat → Nat}

theorem and_mask (k x : Nat) : x &&& (2 ^ k - 1) = x % 2 ^ k := Nat.and_two_pow_sub_one_eq_mod x k

theorem nextBucket_eq (hk : k ≤ 32) (i step : Nat) :
    nextBucket (2 ^ k - 1) i step = (i + step) % 2 ^ k := by
  rw [nextBucket, and_mask, Nat.mod_mod_of_dvd _ (Nat.pow_dvd_pow 2 hk)]

/-- A loop that meets a bucket where it stops, before it has met all of them. -/
theorem probeWhile_stops (hk : k ≤ 32) (hlast : ∀ i, last = some i → i = place (2 ^ k) start 0)
    (hs : s < 2 ^ k) (hgo : ∀ t < s, go (place (2 ^ k) start t) = true)
    (hstop : go (place (2 ^ k) start s) = false) {P : Nat → Prop}
    (hsee : ∀ x, ∀ t < s, P x → P (see x (place (2 ^ k) start t))) :
    ∀ t ≤ s, s < t + fuel → P site → ∃ site', P site' ∧
      probeWhile (2 ^ k - 1) last go see fuel (place (2 ^ k) start t) t site =
        some (place (2 ^ k) start s, site', false) := by
  induction fuel generalizing site with
  | zero =>
    intro t ht hf
    omega
  | succ fuel ih =>
    intro t ht hf hP
    rcases Nat.lt_or_eq_of_le ht with hlt | rfl
    · have hnext : nextBucket (2 ^ k - 1) (place (2 ^ k) start t) (t + 1) =
          place (2 ^ k) start (t + 1) := by
        rw [nextBucket_eq hk, place_succ]
      have hne : last ≠ some (place (2 ^ k) start (t + 1)) := by
        intro h
        have h0 := place_inj (by omega) (by omega) (hlast _ h)
        omega
      obtain ⟨site', hP', h⟩ := ih (t + 1) (by omega) (by omega) (hsee _ t hlt hP)
      refine ⟨site', hP', ?_⟩
      rw [probeWhile, if_pos (hgo t hlt)]
      simp only [hnext, if_neg hne]
      exact h
    · refine ⟨site, hP, ?_⟩
      rw [probeWhile, if_neg (by rw [hstop]; decide)]

/-- A search that has not come around has ended where it does not go on. -/
theorem probeWhile_false {mask : Nat} {last : Option Nat} {go : Nat → Bool}
    {see : Nat → Nat → Nat} {fuel i step site i' site' : Nat}
    (h : probeWhile mask last go see fuel i step site = some (i', site', false)) :
    go i' = false := by
  induction fuel generalizing i step site with
  | zero => cases h
  | succ fuel ih =>
    rw [probeWhile] at h
    by_cases hgo : go i = true
    · rw [if_pos hgo] at h
      simp only at h
      split at h
      · cases h
      · exact ih h
    · rw [if_neg hgo] at h
      obtain ⟨rfl, -⟩ := Prod.mk.inj (Option.some.inj h)
      exact Bool.eq_false_iff.2 hgo

/-- A search that stops somewhere stops somewhere first. -/
theorem exists_first {n : Nat} {p : Nat → Bool} (h : ∃ s < n, p s = false) :
    ∃ s < n, (∀ t < s, p t = true) ∧ p s = false := by
  have hex : ∃ s, p s = false := h.imp fun _ hs => hs.2
  obtain ⟨s, hs, hp⟩ := h
  refine ⟨Nat.find hex, Nat.lt_of_le_of_lt (Nat.find_min' hex hp) hs, fun t ht => ?_,
    Nat.find_spec hex⟩
  simpa using Nat.find_min hex ht

end

/-! ## Tables -/

section
variable {κ ν : Type} (hash : κ → Nat)

def Kh.live (h : Kh κ ν) (i : Nat) : Bool := !h.flags.iseither i

/-- The search for `key` comes to bucket `i`, and passes no empty bucket. -/
def Chained (k : Nat) (flags : KhFlags) (key : κ) (i : Nat) : Prop :=
  ∃ s < 2 ^ k, place (2 ^ k) (hash key) s = i ∧
    ∀ t < s, flags.isempty (place (2 ^ k) (hash key) t) = false

/-- A table with buckets, whatever its keys are. -/
structure KhShape (k : Nat) (h : Kh κ ν) : Prop where
  nBuckets : h.nBuckets = 2 ^ k
  two_le : 2 ≤ k
  le_31 : k ≤ 31
  size : h.size = filled (2 ^ k) h.live
  nOccupied : h.nOccupied = filled (2 ^ k) fun i => !h.flags.isempty i
  upperBound : h.upperBound = hashUpper (2 ^ k)
  room : h.nOccupied ≤ h.upperBound

/-- A table in which each key is found (module doc). -/
structure KhWell (k : Nat) (h : Kh κ ν) : Prop extends KhShape k h where
  distinct : ∀ i < 2 ^ k, ∀ j < 2 ^ k, h.live i = true → h.live j = true →
    h.keys i = h.keys j → i = j
  chained : ∀ i < 2 ^ k, h.live i = true → Chained hash k h.flags (h.keys i) i

/-- What the table maps. -/
def Kh.Holds (h : Kh κ ν) (m : κ → Option ν) : Prop :=
  ∀ key v, m key = some v ↔ ∃ i < h.nBuckets, h.live i = true ∧ h.keys i = key ∧ h.vals i = v

/-- The search for `key` leads to a bucket that holds it. -/
def Kh.Leads (k : Nat) (h : Kh κ ν) (key : κ) : Prop :=
  ∃ i < 2 ^ k, h.live i = true ∧ h.keys i = key ∧ Chained hash k h.flags key i

/-- The search for `key` passes no bucket that holds it, and ends at an empty one. -/
def Kh.Misses (k : Nat) (h : Kh κ ν) (key : κ) : Prop :=
  ∃ s < 2 ^ k, h.flags.isempty (place (2 ^ k) (hash key) s) = true ∧
    ∀ t < s, h.live (place (2 ^ k) (hash key) t) = true →
      h.keys (place (2 ^ k) (hash key) t) ≠ key

variable {hash} {k : Nat} {h : Kh κ ν} {key : κ} {i : Nat}

theorem live_iff : h.live i = true ↔ h.flags.isempty i = false ∧ h.flags.isdel i = false := by
  rw [Kh.live, iseither_eq]
  simp

/-- The room that a full table still has. -/
theorem hashUpper_lt (hk : 2 ≤ k) : hashUpper (2 ^ k) < 2 ^ k := by
  have h4 : 2 ^ 2 ≤ 2 ^ k := Nat.pow_le_pow_right (by decide) hk
  unfold hashUpper
  omega

theorem KhShape.exists_empty (hs : KhShape k h) : ∃ i < 2 ^ k, h.flags.isempty i = true := by
  have hlt : filled (2 ^ k) (fun i => !h.flags.isempty i) < 2 ^ k := by
    rw [← hs.nOccupied]
    exact Nat.lt_of_le_of_lt hs.room (by rw [hs.upperBound]; exact hashUpper_lt hs.two_le)
  obtain ⟨i, hi, hempty⟩ := exists_of_filled_lt hlt
  exact ⟨i, hi, by simpa using hempty⟩

theorem KhShape.pos (hs : KhShape k h) : h.nBuckets ≠ 0 := by
  rw [hs.nBuckets]
  exact Nat.ne_of_gt (Nat.two_pow_pos k)

theorem KhWell.leads (hw : KhWell hash k h) (hi : i < 2 ^ k) (hlive : h.live i = true) :
    h.Leads hash k (h.keys i) := ⟨i, hi, hlive, rfl, hw.chained i hi hlive⟩

/-- What a search misses, it does not lead to. -/
theorem Kh.Misses.not_leads (hm : h.Misses hash k key) : ¬h.Leads hash k key := by
  obtain ⟨s, -, hempty, hpass⟩ := hm
  rintro ⟨i, -, hlive, hkey, s', -, rfl, hnonempty⟩
  rcases Nat.lt_trichotomy s' s with hlt | rfl | hlt
  · exact hpass s' hlt hlive hkey
  · rw [(live_iff.1 hlive).1] at hempty
    cases hempty
  · rw [hnonempty s hlt] at hempty
    cases hempty

/-- The key is nowhere. -/
theorem KhWell.nowhere (hw : KhWell hash k h) (hm : h.Misses hash k key) :
    ∀ i < 2 ^ k, h.live i = true → h.keys i ≠ key := by
  rintro i hi hlive rfl
  exact hm.not_leads (hw.leads hi hlive)

variable [DecidableEq κ]

theorem goesOn_false_iff : h.goesOn key i = false ↔
    h.flags.isempty i = true ∨ h.live i = true ∧ h.keys i = key := by
  rw [Kh.goesOn, live_iff]
  cases h.flags.isempty i <;> cases h.flags.isdel i <;> simp

/-- The end of a search (module doc). -/
theorem KhShape.search (hs : KhShape k h) (key : κ) :
    ∃ s < 2 ^ k, (∀ t < s, h.goesOn key (place (2 ^ k) (hash key) t) = true) ∧
      h.goesOn key (place (2 ^ k) (hash key) s) = false ∧
      (h.flags.isempty (place (2 ^ k) (hash key) s) = true → h.Misses hash k key) := by
  obtain ⟨i, hi, hempty⟩ := hs.exists_empty
  obtain ⟨s₀, hs₀, hplace⟩ := exists_place (hash key) hi
  have hstop : ∃ s < 2 ^ k, h.goesOn key (place (2 ^ k) (hash key) s) = false :=
    ⟨s₀, hs₀, goesOn_false_iff.2 (.inl (by rw [hplace]; exact hempty))⟩
  obtain ⟨s, hs, hgo, hend⟩ := exists_first hstop
  refine ⟨s, hs, hgo, hend, fun hempty => ⟨s, hs, hempty, fun t ht hlive hkey => ?_⟩⟩
  have hnot := hgo t ht
  rw [goesOn_false_iff.2 (.inr ⟨hlive, hkey⟩)] at hnot
  cases hnot

/-! ## `kh_get` -/

/-- The loop of a search in the table. -/
theorem KhShape.probe (hw : KhShape k h) (hash : κ → Nat) (key : κ) (site : Nat)
    (see : Nat → Nat → Nat) (P : Nat → Prop) {s : Nat} (hs : s < 2 ^ k)
    (hgo : ∀ t < s, h.goesOn key (place (2 ^ k) (hash key) t) = true)
    (hend : h.goesOn key (place (2 ^ k) (hash key) s) = false)
    (hsee : ∀ x, ∀ t < s, P x → P (see x (place (2 ^ k) (hash key) t)))
    (hP : P site) : ∃ site', P site' ∧
      probeWhile (h.nBuckets - 1) (some (hash key &&& (h.nBuckets - 1))) (h.goesOn key) see
        (2 * h.nBuckets) (hash key &&& (h.nBuckets - 1)) 0 site =
          some (place (2 ^ k) (hash key) s, site', false) := by
  have hle := hw.le_31
  have hstart : hash key &&& (h.nBuckets - 1) = place (2 ^ k) (hash key) 0 := by
    rw [hw.nBuckets, and_mask, place, tri, Nat.add_zero]
  rw [hstart, hw.nBuckets]
  exact probeWhile_stops (by omega) (fun i hi => (Option.some.inj hi).symm) hs hgo hend hsee 0
    (Nat.zero_le _) (by omega) hP

theorem khGet_ok (hs : KhShape k h) (key : κ) : ∃ x, khGet hash key h = .ok x h ∧
    (x = h.nBuckets ∧ h.Misses hash k key ∨ x < 2 ^ k ∧ h.live x = true ∧ h.keys x = key) := by
  obtain ⟨s, hlt, hgo, hend, hmisses⟩ := hs.search key
  obtain ⟨site, -, hprobe⟩ := hs.probe hash key 0 (fun site _ => site) (fun _ => True)
    hlt hgo hend (fun _ _ _ _ => trivial) trivial
  rw [khGet, if_neg hs.pos]
  simp only [hprobe]
  rcases goesOn_false_iff.1 hend with hempty | ⟨hlive, hkey⟩
  · refine ⟨h.nBuckets, ?_, .inl ⟨rfl, hmisses hempty⟩⟩
    rw [iseither_eq, hempty, Bool.true_or, if_pos rfl]
  · refine ⟨_, ?_, .inr ⟨place_lt (Nat.two_pow_pos k), hlive, hkey⟩⟩
    obtain ⟨h1, h2⟩ := live_iff.1 hlive
    rw [iseither_eq, h1, h2, Bool.false_or, if_neg Bool.false_ne_true]

/-- Whatever the table is like, what a lookup has found has the key. -/
theorem khLookup_key {h' : Kh κ ν} {v : ν} (hr : khLookup hash key h = .ok (some v) h') :
    ∃ i, h.keys i = key ∧ h.vals i = v := by
  obtain ⟨x, h₁, hget, hr⟩ := Cm.bind_ok.1 hr
  rw [read_bind] at hr
  obtain ⟨hfound, rfl⟩ := Run.ok.inj hr
  by_cases hend : x = h₁.nBuckets
  · rw [if_pos hend] at hfound
    cases hfound
  · rw [if_neg hend] at hfound
    unfold khGet at hget
    by_cases h0 : h.nBuckets = 0
    · rw [if_pos h0] at hget
      obtain ⟨rfl, rfl⟩ := Run.ok.inj hget
      exact absurd h0.symm hend
    · rw [if_neg h0] at hget
      simp only at hget
      split at hget
      · cases hget
      · obtain ⟨rfl, rfl⟩ := Run.ok.inj hget
        exact absurd rfl hend
      · rename_i i site hprobe
        obtain ⟨rfl, rfl⟩ := Run.ok.inj hget
        by_cases he : h.flags.iseither i = true
        · rw [if_pos he] at hend
          exact absurd rfl hend
        · rw [if_neg he] at hfound
          refine ⟨i, ?_, Option.some.inj hfound⟩
          rcases goesOn_false_iff.1 (probeWhile_false hprobe) with hempty | ⟨-, hkey⟩
          · rw [iseither_eq, hempty] at he
            exact absurd rfl he
          · exact hkey

/-- A lookup finds an element that the search for its key leads to. -/
theorem khLookup_leads (hs : KhShape k h) (hl : h.Leads hash k key) :
    ∃ x < 2 ^ k, h.live x = true ∧ h.keys x = key ∧
      khLookup hash key h = .ok (some (h.vals x)) h := by
  obtain ⟨x, hget, hx⟩ := khGet_ok hs key
  rcases hx with ⟨-, hmisses⟩ | ⟨hlt, hlive, hkey⟩
  · exact absurd hl hmisses.not_leads
  · refine ⟨x, hlt, hlive, hkey, ?_⟩
    rw [← hs.nBuckets] at hlt
    rw [khLookup, bind_of_ok hget, read_bind, ret_apply, if_neg (Nat.ne_of_lt hlt)]

/-- A lookup finds what the table maps. -/
theorem khLookup_ok (hw : KhWell hash k h) {m : κ → Option ν} (hm : h.Holds m) (key : κ) :
    khLookup hash key h = .ok (m key) h := by
  obtain ⟨x, hget, hx⟩ := khGet_ok hw.toKhShape key
  rw [khLookup, bind_of_ok hget, read_bind, ret_apply]
  rcases hx with ⟨rfl, hmisses⟩ | ⟨hlt, hlive, hkey⟩
  · rw [if_pos rfl]
    cases hmk : m key with
    | none => rfl
    | some v =>
      obtain ⟨i, hi, hlive, hkey, -⟩ := (hm key v).1 hmk
      rw [hw.nBuckets] at hi
      exact absurd hkey (hw.nowhere hmisses i hi hlive)
  · rw [← hw.nBuckets] at hlt
    rw [if_neg (Nat.ne_of_lt hlt), (hm key (h.vals x)).2 ⟨x, hlt, hlive, hkey, rfl⟩]

end

end Xallib
