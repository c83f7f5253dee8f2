import Xallib.Khash.Proof.Resize

/-!
# Runs of a hash table

`kh_put`, `kh_get`, `kh_del` and `kh_clear` on a table that holds a map do to it what their names
say (`khSet_ok`, `khLookup_holds`, `khRemove_ok`, `khClear_ok`); a put that is refused memory leaves
it as it was. So a run of them on a new table is a run of the map (`khRun_map`). Where keys have
changed in the table, a put still does what `khPut_shape` says.
-/

namespace Xallib

open Lib Lib.Cm Lib.Run KhFlags

section
variable {κ ν : Type} {hash : κ → Nat} {k : Nat} {h h' : Kh κ ν} {m : κ → Option ν}

/-! ## Operations -/

def KhAlloc.Granted (alloc : KhAlloc) : Prop :=
  alloc.flags = true ∧ alloc.keys = true ∧ alloc.vals = true

/-- What the dead buckets have as keys plays no part. -/
theorem KhInv.congr_keys (hi : KhInv hash h) {keys : Nat → κ}
    (hkeys : ∀ i < h.nBuckets, h.live i = true → keys i = h.keys i) :
    KhInv hash { h with keys } := by
  cases hi with
  | fresh h0 hsize hocc hupper => exact .fresh h0 hsize hocc hupper
  | buckets k hw =>
    rw [hw.nBuckets] at hkeys
    refine .buckets k ⟨⟨hw.nBuckets, hw.two_le, hw.le_31, hw.size, hw.nOccupied, hw.upperBound,
      hw.room⟩, fun i hi j hj h1 h2 he => ?_, fun i hi h1 => ?_⟩
    · have he' : h.keys i = h.keys j := (hkeys i hi h1).symm.trans (he.trans (hkeys j hj h2))
      exact hw.distinct i hi j hj h1 h2 he'
    · show Chained hash k h.flags (keys i) i
      rw [hkeys i hi h1]
      exact hw.chained i hi h1

theorem Kh.Holds.congr_keys (hm : h.Holds m) {keys : Nat → κ}
    (hkeys : ∀ i < h.nBuckets, h.live i = true → keys i = h.keys i) :
    ({ h with keys } : Kh κ ν).Holds m := by
  intro key v
  rw [hm key v]
  refine exists_congr fun i => and_congr_right fun hi => and_congr_right fun hlive => ?_
  show _ ↔ keys i = key ∧ h.vals i = v
  rw [hkeys i hi hlive]

theorem KhInv.room (hi : KhInv hash h) : h.nOccupied ≤ h.upperBound := by
  cases hi with
  | fresh _ _ hocc hupper => rw [hocc, hupper]
  | buckets k hw => exact hw.room

theorem KhShape.size_le (hs : KhShape k h) : h.size ≤ h.nOccupied := by
  rw [hs.size, hs.nOccupied]
  refine filled_mono fun i _ hlive => ?_
  rw [(live_iff.1 hlive).1]
  rfl

theorem two_mul_half (hk : 2 ≤ k) : 2 ^ k = 2 * 2 ^ (k - 1) := by
  obtain ⟨j, rfl⟩ := Nat.exists_eq_add_of_le' (Nat.le_of_succ_le hk)
  exact Nat.pow_succ'

/-- Half of the buckets is less than a table may hold. -/
theorem half_lt_hashUpper (hk : 2 ≤ k) : 2 ^ (k - 1) < hashUpper (2 ^ k) := by
  have h2 := two_mul_half hk
  have hle : 2 ^ 1 ≤ 2 ^ (k - 1) := Nat.pow_le_pow_right (by decide) (by omega)
  unfold hashUpper
  omega

/-- What the first part of `kh_put` does. -/
theorem khMakeRoom_cases (hs : KhShaped h) (hash : κ → Nat) (alloc : KhAlloc)
    (h30 : h.size < 2 ^ 30) :
    (∃ k, KhShape k h ∧ khMakeRoom hash alloc h = .ok () h ∧ h.nOccupied < h.upperBound) ∨
    ∃ k n, khMakeRoom hash alloc h = khResize hash alloc n h ∧ roundedBuckets n = 2 ^ k ∧ 2 ≤ k ∧
      k ≤ 31 ∧ h.size < hashUpper (2 ^ k) ∧ h.nBuckets ≤ 2 ^ k := by
  rw [khMakeRoom, read_bind]
  by_cases hfull : h.nOccupied ≥ h.upperBound
  · right
    rw [if_pos hfull]
    cases hs with
    | fresh hn hsize hocc hupper =>
      rw [if_neg (by rw [hn]; exact Nat.not_lt_zero _), hn, show (0 + 1) % 2 ^ 32 = 1 from rfl]
      refine ⟨2, 1, rfl, roundedBuckets_one, by decide, by decide, ?_, Nat.zero_le _⟩
      rw [hsize]
      decide
    | buckets k hs =>
      have hpos := Nat.two_pow_pos k
      have h2 := hs.two_le
      have h31 := hs.le_31
      have hhalf := half_lt_hashUpper h2
      have htwice := two_mul_half h2
      have hshift : (h.size <<< 1) % 2 ^ 32 = 2 * h.size := by
        rw [Nat.shiftLeft_eq]
        omega
      have hle : 2 ^ 1 ≤ 2 ^ (k - 1) := Nat.pow_le_pow_right (by decide) (by omega)
      rw [hshift]
      by_cases hclean : h.nBuckets > 2 * h.size
      · rw [if_pos hclean, hs.nBuckets]
        rw [hs.nBuckets] at hclean
        exact ⟨k, _, rfl, roundedBuckets_eq h2 h31 (by omega) (by omega), h2, h31, by omega,
          Nat.le_refl _⟩
      · rw [if_neg hclean, hs.nBuckets]
        rw [hs.nBuckets] at hclean
        have h30' : k < 31 := by
          by_contra hge
          have hle31 : 2 ^ 31 ≤ 2 ^ k := Nat.pow_le_pow_right (by decide) (by omega)
          omega
        have hlt31 : 2 ^ k < 2 ^ 31 := Nat.pow_lt_pow_right (by decide) h30'
        have hnext := half_lt_hashUpper (k := k + 1) (by omega)
        rw [Nat.add_sub_cancel] at hnext
        have hsucc : 2 ^ (k + 1) = 2 * 2 ^ k := Nat.pow_succ'
        have hupper := hashUpper_lt h2
        have hroom := hs.room
        rw [hs.upperBound] at hroom
        have hsz := hs.size_le
        rw [Nat.mod_eq_of_lt (by omega)]
        refine ⟨k + 1, _, rfl, roundedBuckets_eq (by omega) (by omega) ?_ (by omega), by omega,
          by omega, by omega, by omega⟩
        rw [Nat.add_sub_cancel]
        omega
  · left
    rw [if_neg hfull]
    cases hs with
    | fresh _ _ hocc hupper =>
      rw [hocc, hupper] at hfull
      exact absurd (Nat.le_refl 0) hfull
    | buckets k hs => exact ⟨k, hs, rfl, Nat.lt_of_not_le hfull⟩

/-- After the first part of `kh_put` a bucket may be taken. -/
theorem khMakeRoom_ok (hi : KhInv hash h) (hm : h.Holds m) (alloc : KhAlloc)
    (h30 : h.size < 2 ^ 30) :
    (∃ e, khMakeRoom hash alloc h = .fail e h ∧ ¬alloc.Granted) ∨
    ∃ k h', khMakeRoom hash alloc h = .ok () h' ∧ KhWell hash k h' ∧ h'.Holds m ∧
      h'.size = h.size ∧ h'.nOccupied < h'.upperBound := by
  rcases khMakeRoom_cases hi.shaped hash alloc h30 with
    ⟨k, hs, hrun, hroom⟩ | ⟨k, n, hrun, hround, hk, h31, hsize, hgrow⟩
  · cases hi with
    | fresh h0 => exact absurd h0 hs.pos
    | buckets k' hw => exact .inr ⟨k', h, hrun, hw, hm, rfl, hroom⟩
  · rw [hrun]
    rcases khResize_ok hash hi.shaped hi.distinct hm alloc n hround hk h31 hsize (.inl hgrow) with
      hfail | ⟨h', hrun', hw, hm', hsz, hocc, -⟩
    · exact .inl hfail
    · refine .inr ⟨k, h', hrun', hw, hm', hsz, ?_⟩
      rw [hocc, hw.upperBound]
      exact hsize

/-- The same, whatever the keys are, where the memory is there: the elements are the same. -/
theorem khMakeRoom_shape (hs : KhShaped h) (hash : κ → Nat) (h30 : h.size < 2 ^ 30) :
    ∃ k h', khMakeRoom hash .all h = .ok () h' ∧ KhShape k h' ∧ h'.size = h.size ∧
      h'.nOccupied < h'.upperBound ∧ (h' = h ∨ Rehashed hash k h h') := by
  rcases khMakeRoom_cases hs hash .all h30 with
    ⟨k, hs', hrun, hroom⟩ | ⟨k, n, hrun, hround, hk, h31, hsize, -⟩
  · exact ⟨k, h, hrun, hs', rfl, hroom, .inl rfl⟩
  · obtain ⟨h', hrun', hs', hsz, hocc, hr⟩ := khResize_shape hs hash n hround hk h31 hsize
    refine ⟨k, h', hrun.trans hrun', hs', hsz, ?_, .inr hr⟩
    rw [hocc, hs'.upperBound]
    exact hsize

theorem khInit_inv [Inhabited κ] [Inhabited ν] : KhInv hash (khInit : Kh κ ν) :=
  .fresh rfl rfl rfl rfl

theorem khInit_holds [Inhabited κ] [Inhabited ν] : (khInit : Kh κ ν).Holds fun _ => none := by
  intro key v
  refine iff_of_false (by simp) ?_
  rintro ⟨i, hlt, -⟩
  exact Nat.not_lt_zero i hlt

theorem khClear_ok (hi : KhInv hash h) :
    KhInv hash (khClear h) ∧ (khClear h).Holds (fun _ => none) ∧ (khClear h).size ≤ h.size := by
  cases hi with
  | fresh h0 hsize hocc hupper =>
    rw [khClear, if_pos h0]
    refine ⟨.fresh h0 hsize hocc hupper, fun key v => ?_, Nat.le_refl _⟩
    refine iff_of_false (by simp) ?_
    rintro ⟨i, hlt, -⟩
    omega
  | buckets k hw =>
    rw [khClear, if_neg hw.pos]
    have hdead : ∀ i, ({ h with flags := .cleared, size := 0, nOccupied := 0 } : Kh κ ν).live i =
        false := by
      intro i
      simp [Kh.live, iseither_eq]
    refine ⟨.buckets k ⟨⟨hw.nBuckets, hw.two_le, hw.le_31, ?_, ?_, hw.upperBound, Nat.zero_le _⟩,
      fun i _ _ _ h1 => ?_, fun i _ h1 => ?_⟩, fun key v => ?_, Nat.zero_le _⟩
    · exact (filled_none fun i _ => hdead i).symm
    · exact (filled_none fun i _ => by simp).symm
    · rw [hdead] at h1
      cases h1
    · rw [hdead] at h1
      cases h1
    · refine iff_of_false (by simp) ?_
      rintro ⟨i, -, h1, -⟩
      rw [hdead] at h1
      cases h1

variable [DecidableEq κ]

/-- The second part of `kh_put`. -/
theorem khPut_at {alloc : KhAlloc} {h₀ : Kh κ ν} (hrun : khMakeRoom hash alloc h = .ok () h₀)
    (hs : KhShape k h₀) (key : κ) : ∃ x, PutAt hash k h₀ key x ∧
    (h₀.live x = true ∧ khPut hash alloc key h = .ok (x, 0) h₀ ∨
      h₀.live x = false ∧ ∃ ret, ret ≠ 0 ∧
        khPut hash alloc key h = .ok (x, ret) (h₀.insert x key)) := by
  obtain ⟨x, hx, hat⟩ := putBucket_ok hs key
  refine ⟨x, hat, ?_⟩
  rw [khPut, bind_of_ok hrun, read_bind, hx, ofLoop, ret_bind]
  cases hlive : h₀.live x with
  | true =>
    obtain ⟨h1, h2⟩ := live_iff.1 hlive
    rw [if_neg (by rw [h1]; decide), if_neg (by rw [h2]; decide)]
    exact .inl ⟨rfl, rfl⟩
  | false =>
    right
    by_cases hempty : h₀.flags.isempty x = true
    · rw [if_pos hempty, modify_bind, Kh.insert, if_pos hempty]
      exact ⟨rfl, 1, by decide, rfl⟩
    · have hdel : h₀.flags.isdel x = true := by
        rw [Kh.live, iseither_eq] at hlive
        simpa [hempty] using hlive
      rw [if_neg hempty, if_pos hdel, modify_bind, Kh.insert, if_neg hempty]
      exact ⟨rfl, 2, by decide, rfl⟩

/-- `kh_put` and the assignment of a value to its bucket: the memory was refused, or the key is
mapped; a bucket that was there already keeps the value of the key until then. -/
theorem khPut_ok (hi : KhInv hash h) (hm : h.Holds m) (alloc : KhAlloc) (h30 : h.size < 2 ^ 30)
    (key : κ) :
    (∃ e, khPut hash alloc key h = .fail e h ∧ ¬alloc.Granted) ∨
    ∃ x ret h', khPut hash alloc key h = .ok (x, ret) h' ∧
      (ret = 0 → m key = some (h'.vals x)) ∧ (ret ≠ 0 → m key = none) ∧
      ∀ val, KhInv hash (h'.setVal x val) ∧
        (h'.setVal x val).Holds (Function.update m key (some val)) ∧ h'.size ≤ h.size + 1 := by
  rcases khMakeRoom_ok hi hm alloc h30 with
    ⟨e, hfail, hrefused⟩ | ⟨k, h₀, hrun, hw, hm₀, hsz, hroom⟩
  · exact .inl ⟨e, bind_of_fail hfail, hrefused⟩
  · right
    obtain ⟨x, hat, ⟨hlive, hput⟩ | ⟨hdead, ret, hret, hput⟩⟩ := khPut_at hrun hw.toKhShape key
    · have hn : x < h₀.nBuckets := by
        rw [hw.nBuckets]
        exact hat.lt
      refine ⟨x, 0, h₀, hput, fun _ => ?_, fun h0 => absurd rfl h0, fun val =>
        ⟨.buckets k (hw.setVal x val), ?_, by omega⟩⟩
      · exact (hm₀ _ _).2 ⟨x, hn, hlive, hat.found hlive, rfl⟩
      · rw [← hat.found hlive]
        exact Holds.setVal hw hm₀ hat.lt hlive val
    · refine ⟨x, ret, h₀.insert x key, hput, fun h0 => absurd h0 hret, fun _ => ?_, fun val =>
        ⟨.buckets k ((hw.insert hat hdead hroom).setVal x val), Holds.insert hw hm₀ hat hdead val,
          Nat.le_of_eq (congrArg (· + 1) hsz)⟩⟩
      cases hmk : m key with
      | none => rfl
      | some v =>
        obtain ⟨i, hi, hlive, hkey, -⟩ := (hm₀ key v).1 hmk
        exact absurd hkey (hw.nowhere (hat.missed hdead) i (hw.nBuckets ▸ hi) hlive)

/-- What `kh_put` does to a table, whatever its keys are: the search for the key leads to bucket
`x`, and the other elements were there before, as that of `x` was where `ret` is 0. -/
structure Putting (hash : κ → Nat) (h h' : Kh κ ν) (key : κ) (x ret k : Nat) : Prop where
  shape : KhShape k h'
  size : h'.size ≤ h.size + 1
  lt : x < 2 ^ k
  live : h'.live x = true
  found : h'.keys x = key
  chained : Chained hash k h'.flags key x
  old : ∀ j < 2 ^ k, h'.live j = true → (j = x → ret = 0) →
    ∃ i < h.nBuckets, h.live i = true ∧ h'.keys j = h.keys i ∧ h'.vals j = h.vals i
  leads : ∀ k' key', h.nBuckets = 2 ^ k' → h.Leads hash k' key' → h'.Leads hash k key'

theorem khPut_shape (hs : KhShaped h) (h30 : h.size < 2 ^ 30) (hash : κ → Nat) (key : κ) :
    ∃ x ret h' k, khPut hash .all key h = .ok (x, ret) h' ∧ Putting hash h h' key x ret k := by
  obtain ⟨k, h₀, hrun, hs₀, hsz, hroom, hsame⟩ := khMakeRoom_shape hs hash h30
  have hold : ∀ j < 2 ^ k, h₀.live j = true →
      ∃ i < h.nBuckets, h.live i = true ∧ h₀.keys j = h.keys i ∧ h₀.vals j = h.vals i := by
    rcases hsame with rfl | hr
    · exact fun j hj hlive => ⟨j, by rwa [hs₀.nBuckets], hlive, rfl, rfl⟩
    · exact hr.only
  have hleads : ∀ k' key', h.nBuckets = 2 ^ k' → h.Leads hash k' key' → h₀.Leads hash k key' := by
    intro k' key' hn hl
    rcases hsame with rfl | hr
    · rwa [Nat.pow_right_injective (Nat.le_refl 2) (hs₀.nBuckets.symm.trans hn)]
    · exact hr.leads hn hl
  obtain ⟨x, hat, ⟨hlive, hput⟩ | ⟨hdead, ret, hret, hput⟩⟩ := khPut_at hrun hs₀ key
  · exact ⟨x, 0, h₀, k, hput, hs₀, by omega, hat.lt, hlive, hat.found hlive, hat.chained,
      fun j hj hj' _ => hold j hj hj', hleads⟩
  · refine ⟨x, ret, h₀.insert x key, k, hput, hs₀.insert hat.lt hdead hroom key,
      Nat.le_of_eq (congrArg (· + 1) hsz), hat.lt, ?_, if_pos rfl, hat.chained.insert x key,
      fun j hj hlive hne => ?_, fun k' key' hn hl => (hleads k' key' hn hl).insert hdead key⟩
    · rw [live_insert, decide_eq_true rfl, Bool.or_true]
    · have hjx : j ≠ x := fun h => hret (hne h)
      obtain ⟨i, hi, hlive', hkey, hval⟩ := hold j hj (live_of_insert hlive hjx)
      exact ⟨i, hi, hlive', (if_neg hjx).trans hkey, hval⟩

/-- `kh_put` with a value: the key is mapped, or the memory was refused. -/
theorem khSet_ok (hi : KhInv hash h) (hm : h.Holds m) (alloc : KhAlloc) (h30 : h.size < 2 ^ 30)
    (key : κ) (val : ν) :
    (∃ e, khSet hash alloc key val h = .fail e h ∧ ¬alloc.Granted) ∨
    ∃ h', khSet hash alloc key val h = .ok () h' ∧ KhInv hash h' ∧
      h'.Holds (Function.update m key (some val)) ∧ h'.size ≤ h.size + 1 := by
  rw [khSet]
  rcases khPut_ok hi hm alloc h30 key with
    ⟨e, hfail, hrefused⟩ | ⟨x, ret, h', hrun, -, -, hset⟩
  · exact .inl ⟨e, bind_of_fail hfail, hrefused⟩
  · obtain ⟨hi', hm', hsize⟩ := hset val
    exact .inr ⟨h'.setVal x val, bind_of_ok hrun, hi', hm', hsize⟩

theorem khLookup_holds (hi : KhInv hash h) (hm : h.Holds m) (key : κ) :
    khLookup hash key h = .ok (m key) h := by
  cases hi with
  | fresh h0 =>
    have hnone : m key = none := by
      cases hmk : m key with
      | none => rfl
      | some v =>
        obtain ⟨i, hlt, -⟩ := (hm key v).1 hmk
        omega
    have hget : khGet hash key h = .ok 0 h := if_pos h0
    rw [khLookup, bind_of_ok hget, read_bind, ret_apply, if_pos h0.symm, hnone]
  | buckets k hw => exact khLookup_ok hw hm key

theorem khRemove_ok (hi : KhInv hash h) (hm : h.Holds m) (key : κ) :
    ∃ h', khRemove hash key h = .ok () h' ∧ KhInv hash h' ∧
      h'.Holds (Function.update m key none) ∧ h'.size ≤ h.size := by
  -- what is not mapped stays so
  have hsame : m key = none → Function.update m key none = m := fun h => by
    rw [← h, Function.update_eq_self]
  have hnone : (∀ v, ¬∃ i < h.nBuckets, h.live i = true ∧ h.keys i = key ∧ h.vals i = v) →
      m key = none := by
    intro hno
    cases hmk : m key with
    | none => rfl
    | some v => exact absurd ((hm key v).1 hmk) (hno v)
  cases hi with
  | fresh h0 hsize hocc hupper =>
    have hget : khGet hash key h = .ok 0 h := if_pos h0
    refine ⟨h, ?_, .fresh h0 hsize hocc hupper, ?_, Nat.le_refl _⟩
    · rw [khRemove, bind_of_ok hget, modify_apply, khDel, if_neg]
      exact fun hc => hc.1 h0.symm
    · rw [hsame (hnone fun v hc => ?_)]
      · exact hm
      · obtain ⟨i, hlt, -⟩ := hc
        omega
  | buckets k hw =>
    obtain ⟨x, hget, hx⟩ := khGet_ok hw.toKhShape key
    rw [khRemove, bind_of_ok hget, modify_apply]
    rcases hx with ⟨rfl, hmisses⟩ | ⟨hlt, hlive, rfl⟩
    · refine ⟨h, ?_, .buckets k hw, ?_, Nat.le_refl _⟩
      · rw [khDel, if_neg]
        exact fun hc => hc.1 rfl
      · rw [hsame (hnone fun v hc => ?_)]
        · exact hm
        · obtain ⟨i, hi, hlive, hkey, -⟩ := hc
          rw [hw.nBuckets] at hi
          exact hw.nowhere hmisses i hi hlive hkey
    · refine ⟨_, rfl, .buckets k (hw.del hlt hlive), Holds.del hw hm hlt hlive, ?_⟩
      unfold khDel
      split
      · exact Nat.sub_le _ _
      · exact Nat.le_refl _

end

/-! ## Runs -/

section
variable {κ ν : Type} [DecidableEq κ]

/-- A call on a table; `set` with what the allocator answers. -/
inductive KhOp (κ ν : Type) where
  | set (alloc : KhAlloc) (key : κ) (val : ν)
  | get (key : κ)
  | remove (key : κ)
  | clear

def KhOp.isSet : KhOp κ ν → Bool
  | .set .. => true
  | _ => false

def KhOp.run (hash : κ → Nat) : KhOp κ ν → Cm Err (Kh κ ν) (Option ν)
  | .set alloc key val => do
    khSet hash alloc key val
    pure none
  | .get key => khLookup hash key
  | .remove key => do
    khRemove hash key
    pure none
  | .clear => do
    modify khClear
    pure none

/-- The answers of a run, `none` for a call that has failed, and the table after it. There are none
if a call does not come back. -/
def khRun (hash : κ → Nat) : List (KhOp κ ν) → Kh κ ν →
    Option (List (Option (Option ν)) × Kh κ ν)
  | [], h => some ([], h)
  | op :: ops, h =>
    match op.run hash h with
    | .ok a h => (khRun hash ops h).map fun (as, h) => (some a :: as, h)
    | .fail _ h => (khRun hash ops h).map fun (as, h) => (none :: as, h)
    | .crash | .spin => none

/-- What a call does to a map. -/
inductive MapStep : KhOp κ ν → (κ → Option ν) → Option (Option ν) → (κ → Option ν) → Prop
  | set {m : κ → Option ν} (alloc : KhAlloc) (key : κ) (val : ν) :
    MapStep (.set alloc key val) m (some none) (Function.update m key (some val))
  | refused {m : κ → Option ν} (alloc : KhAlloc) (key : κ) (val : ν) (h : ¬alloc.Granted) :
    MapStep (.set alloc key val) m none m
  | get {m : κ → Option ν} (key : κ) : MapStep (.get key) m (some (m key)) m
  | remove {m : κ → Option ν} (key : κ) :
    MapStep (.remove key) m (some none) (Function.update m key none)
  | clear {m : κ → Option ν} : MapStep .clear m (some none) fun _ => none

inductive MapRun : List (KhOp κ ν) → (κ → Option ν) → List (Option (Option ν)) →
    (κ → Option ν) → Prop
  | nil {m : κ → Option ν} : MapRun [] m [] m
  | cons {op : KhOp κ ν} {ops : List (KhOp κ ν)} {m m₁ m₂ : κ → Option ν} {a : Option (Option ν)}
    {as : List (Option (Option ν))} (step : MapStep op m a m₁) (rest : MapRun ops m₁ as m₂) :
    MapRun (op :: ops) m (a :: as) m₂

variable {hash : κ → Nat} {h : Kh κ ν} {m : κ → Option ν}

/-- One call: it comes back, and does what it does to the map. -/
theorem khOp_map (hi : KhInv hash h) (hm : h.Holds m) (op : KhOp κ ν)
    (h30 : op.isSet = true → h.size < 2 ^ 30) :
    ∃ a h' m', (op.run hash h = .ok a h' ∧ MapStep op m (some a) m' ∨
        (∃ e, op.run hash h = .fail e h') ∧ MapStep op m none m') ∧
      KhInv hash h' ∧ h'.Holds m' ∧ h'.size ≤ h.size + if op.isSet then 1 else 0 := by
  cases op with
  | set alloc key val =>
    rcases khSet_ok hi hm alloc (h30 rfl) key val with
      ⟨e, hfail, hrefused⟩ | ⟨h', hrun, hi', hm', hsize⟩
    · refine ⟨none, h, m, .inr ⟨⟨e, ?_⟩, .refused alloc key val hrefused⟩, hi, hm,
        Nat.le_add_right _ _⟩
      rw [KhOp.run, bind_of_fail hfail]
    · refine ⟨none, h', _, .inl ⟨?_, .set alloc key val⟩, hi', hm', hsize⟩
      rw [KhOp.run, bind_of_ok hrun, ret_apply]
  | get key =>
    exact ⟨m key, h, m, .inl ⟨khLookup_holds hi hm key, .get key⟩, hi, hm, Nat.le_refl _⟩
  | remove key =>
    obtain ⟨h', hrun, hi', hm', hsize⟩ := khRemove_ok hi hm key
    refine ⟨none, h', _, .inl ⟨?_, .remove key⟩, hi', hm', hsize⟩
    rw [KhOp.run, bind_of_ok hrun, ret_apply]
  | clear =>
    obtain ⟨hi', hm', hsize⟩ := khClear_ok hi
    exact ⟨none, _, _, .inl ⟨rfl, .clear⟩, hi', hm', hsize⟩

theorem khRun_from : ∀ (ops : List (KhOp κ ν)) (h : Kh κ ν) (m : κ → Option ν), KhInv hash h →
    h.Holds m → h.size + ops.countP KhOp.isSet ≤ 2 ^ 30 →
    ∃ as h' m', khRun hash ops h = some (as, h') ∧ MapRun ops m as m' ∧ KhInv hash h' ∧
      h'.Holds m' := by
  intro ops
  induction ops with
  | nil =>
    intro h m hi hm _
    exact ⟨[], h, m, rfl, .nil, hi, hm⟩
  | cons op ops ih =>
    intro h m hi hm h30
    rw [List.countP_cons] at h30
    obtain ⟨a, h₁, m₁, hstep, hi₁, hm₁, hsize⟩ := khOp_map hi hm op fun hset => by
      rw [if_pos hset] at h30
      omega
    obtain ⟨as, h', m', hrun, hmap, hi', hm'⟩ := ih h₁ m₁ hi₁ hm₁ (by omega)
    rcases hstep with ⟨hop, hstep⟩ | ⟨⟨e, hop⟩, hstep⟩
    · refine ⟨some a :: as, h', m', ?_, .cons hstep hmap, hi', hm'⟩
      rw [khRun, hop]
      simp only [hrun, Option.map_some]
    · refine ⟨none :: as, h', m', ?_, .cons hstep hmap, hi', hm'⟩
      rw [khRun, hop]
      simp only [hrun, Option.map_some]

theorem khRun_from_init [Inhabited κ] [Inhabited ν] (hash : κ → Nat)
    (ops : List (KhOp κ ν))
    (h30 : ops.countP KhOp.isSet ≤ 2 ^ 30) :
    ∃ as h m, khRun hash ops khInit = some (as, h) ∧ MapRun ops (fun _ => none) as m ∧
      KhInv hash h ∧ h.Holds m :=
  khRun_from ops khInit _ khInit_inv khInit_holds (by
    rw [show (khInit : Kh κ ν).size = 0 from rfl, Nat.zero_add]
    exact h30)

/-- A run on a new table, with at most `2 ^ 30` puts: no call stops or hangs, and the calls answer
as those on a map. -/
theorem khRun_map [Inhabited κ] [Inhabited ν] (hash : κ → Nat) (ops : List (KhOp κ ν))
    (h30 : ops.countP KhOp.isSet ≤ 2 ^ 30) :
    ∃ as h m, khRun hash ops khInit = some (as, h) ∧ MapRun ops (fun _ => none) as m ∧
      h.Holds m := by
  obtain ⟨as, h, m, hrun, hmap, -, hm⟩ := khRun_from_init hash ops h30
  exact ⟨as, h, m, hrun, hmap, hm⟩

/-- Memory for all arrays. -/
theorem khRun_map_removed : ∃ as h m,
    khRun int64Hash [.set .all 128 7, .set .all 256 8, .remove 128, .get 256] khInit =
      some (as, h) ∧
    MapRun [.set .all 128 7, .set .all 256 8, .remove 128, .get 256] (fun _ => none) as m ∧
      h.Holds m :=
  khRun_map int64Hash [.set .all 128 7, .set .all 256 8, .remove 128, .get (256 : Nat)] (by decide)

end

end Xallib
