import Xallib.Lib.Follow
import Xallib.Xfs.Btree
import Xallib.Xfs.Proof.Entries

/-!
# Reading the blocks of a B+tree

`devRead_block`, `devRead_of_block`: a read succeeds with what the device holds, whatever the buffer
held before; so do the numbers taken from a block that fits (`FileFits`).
-/

namespace Xallib

open Lib Lib.Cm Lib.Run Lib.Buf

section
variable {dev : XnvmeDev} {count offset : Nat} {s s' t block : Buf} {u : Unit}

theorem devRead_block (h : devRead dev count offset s = .ok u s') :
    ∃ block, deviceRead dev count offset = some block ∧ ∀ i < count, s' i = block i := by
  unfold devRead at h
  obtain ⟨hmdts, h⟩ := failIf_bind_ok.1 h
  obtain ⟨hlba, h⟩ := failIf_bind_ok.1 h
  obtain ⟨hofz, h⟩ := failIf_bind_ok.1 h
  obtain ⟨hcount, h⟩ := assert_bind_ok.1 h
  rw [modify_bind] at h
  cases hdata : dev.nvmRead (offset / dev.lbaNbytes) (nlbOf dev count) with
  | none => rw [hdata] at h; cases h
  | some data =>
    rw [hdata] at h
    obtain ⟨hbuf, h⟩ := assert_bind_ok.1 h
    obtain ⟨-, rfl⟩ := Run.ok.inj h
    have hcond : count ≤ dev.mdtsNbytes ∧ count % dev.lbaNbytes = 0 ∧ offset % dev.lbaNbytes = 0 ∧
        count ≤ bufNbytes ∧ (nlbOf dev count + 1) * dev.lbaNbytes ≤ bufNbytes :=
      ⟨by omega, by omega, by omega, hcount, hbuf⟩
    unfold deviceRead
    rw [if_pos hcond, hdata]
    refine ⟨_, rfl, fun i hi => ?_⟩
    by_cases hn : i < (nlbOf dev count + 1) * dev.lbaNbytes
    · simp [Buf.copy, hn, hi]
    · simp [Buf.copy, Buf.zero, hn, hi]

theorem devRead_of_block (h : deviceRead dev count offset = some block) (s : Buf) :
    ∃ s', devRead dev count offset s = .ok () s' ∧ ∀ i < count, s' i = block i := by
  have hrun : ∃ s', devRead dev count offset s = .ok () s' := by
    unfold deviceRead at h
    by_cases hcond : count ≤ dev.mdtsNbytes ∧ count % dev.lbaNbytes = 0 ∧
      offset % dev.lbaNbytes = 0 ∧
        count ≤ bufNbytes ∧ (nlbOf dev count + 1) * dev.lbaNbytes ≤ bufNbytes
    · rw [if_pos hcond] at h
      obtain ⟨data, hdata, -⟩ := Option.map_eq_some_iff.1 h
      obtain ⟨h1, h2, h3, h4, h5⟩ := hcond
      unfold devRead
      rw [bind_of_ok (failIf_false (by omega) _ _), bind_of_ok (failIf_false (by omega) _ _),
        bind_of_ok (failIf_false (by omega) _ _), bind_of_ok (assert_true h4 _), modify_bind, hdata]
      exact ⟨_, bind_of_ok (assert_true h5 _)⟩
    · rw [if_neg hcond] at h
      cases h
  obtain ⟨s', hr⟩ := hrun
  obtain ⟨block', hb, hbytes⟩ := devRead_block hr
  obtain rfl := Option.some.inj (h.symm.trans hb)
  exact ⟨s', hr, hbytes⟩

/-- How a read ends does not depend on it either. -/
theorem devRead_same (b b' : Buf) : Same (fun b b' => ∀ i < count, b' i = b i)
    (devRead dev count offset b) (devRead dev count offset b') := by
  unfold devRead
  refine same_failIf_bind fun _ => same_failIf_bind fun _ => same_failIf_bind fun _ =>
    same_assert_bind .rfl fun _ => ?_
  rw [modify_bind, modify_bind]
  cases dev.nvmRead (offset / dev.lbaNbytes) (nlbOf dev count) with
  | none => exact rfl
  | some data =>
    refine same_assert_bind .rfl fun _ => ⟨rfl, fun i hi => ?_⟩
    simp [Buf.copy, Buf.zero, hi]

theorem devReadInto_same (b b' : Buf) : Same (fun _ _ => True)
    (devReadInto dev count offset b) (devReadInto dev count offset b') := by
  unfold devReadInto
  refine (devRead_same b b').bind fun _ t t' _ ht => same_assert_bind .rfl fun _ => ?_
  rw [read_bind, read_bind]
  refine ⟨funext fun i => ?_, trivial⟩
  by_cases hi : i < count
  · rw [if_pos hi, if_pos hi, ht i hi]
  · rw [if_neg hi, if_neg hi]

/-- Whether a read comes back does not depend on it. -/
theorem devRead_returns_iff : (devRead dev count offset s).Returns ↔
    ¬ReadStops dev count offset := by
  unfold devRead ReadStops
  by_cases h1 : count > dev.mdtsNbytes
  · rw [bind_of_fail (failIf_true h1 _ _)]
    exact ⟨fun _ h => absurd h.1 (by omega), fun _ => returns_fail _ _⟩
  rw [bind_of_ok (failIf_false h1 _ _)]
  by_cases h2 : count % dev.lbaNbytes ≠ 0
  · rw [bind_of_fail (failIf_true h2 _ _)]
    exact ⟨fun _ h => absurd h.2.1 h2, fun _ => returns_fail _ _⟩
  rw [bind_of_ok (failIf_false h2 _ _)]
  by_cases h3 : offset % dev.lbaNbytes ≠ 0
  · rw [bind_of_fail (failIf_true h3 _ _)]
    exact ⟨fun _ h => absurd h.2.2.1 h3, fun _ => returns_fail _ _⟩
  rw [bind_of_ok (failIf_false h3 _ _)]
  by_cases h4 : count ≤ bufNbytes
  case neg =>
    rw [bind_of_crash (assert_false h4 _)]
    exact ⟨fun h => absurd h not_returns_crash, fun h => absurd ⟨by omega, by omega, by omega,
      .inl (by omega)⟩ h⟩
  rw [bind_of_ok (assert_true h4 _), modify_bind]
  cases hdata : dev.nvmRead (offset / dev.lbaNbytes) (nlbOf dev count) with
  | none => exact ⟨fun _ h => by simp at h; omega, fun _ => returns_fail _ _⟩
  | some data =>
    by_cases h5 : (nlbOf dev count + 1) * dev.lbaNbytes ≤ bufNbytes
    · simp only [bind_of_ok (assert_true h5 _)]
      exact ⟨fun _ h => by simp at h; omega, fun _ => returns_ok _ _⟩
    · simp only [bind_of_crash (assert_false h5 _)]
      exact ⟨fun h => absurd h not_returns_crash, fun h => absurd ⟨by omega, by omega, by omega,
        .inr ⟨rfl, by omega⟩⟩ h⟩

theorem devReadInto_of_block (h : blockRead dev count offset = some block) (s : Buf) :
    ∃ s', devReadInto dev count offset s = .ok block s' := by
  have hrun : ∃ block' s', devReadInto dev count offset s = .ok block' s' := by
    unfold blockRead at h
    by_cases hcond : count ≤ dev.mdtsNbytes ∧ count % dev.lbaNbytes = 0 ∧
      offset % dev.lbaNbytes = 0 ∧
        count ≤ blockNbytesMax ∧ (nlbOf dev count + 1) * dev.lbaNbytes ≤ bufNbytes
    · rw [if_pos hcond] at h
      obtain ⟨data, hdata, -⟩ := Option.map_eq_some_iff.1 h
      obtain ⟨h1, h2, h3, h4, h5⟩ := hcond
      have hbuf : count ≤ bufNbytes := Nat.le_trans h4 (by decide)
      have hread : ∃ b, deviceRead dev count offset = some b := by
        rw [deviceRead, if_pos ⟨h1, h2, h3, hbuf, h5⟩, hdata]
        exact ⟨_, rfl⟩
      obtain ⟨b, hb⟩ := hread
      obtain ⟨s₁, hs₁, -⟩ := devRead_of_block hb s
      unfold devReadInto
      rw [bind_of_ok hs₁, bind_of_ok (assert_true h4 _), read_bind]
      exact ⟨_, s₁, rfl⟩
    · rw [if_neg hcond] at h
      cases h
  obtain ⟨block', s', hr⟩ := hrun
  obtain rfl := Option.some.inj (h.symm.trans (devReadInto_block hr))
  exact ⟨s', hr⟩

/-- What is read does not depend on what the buffer held. -/
theorem devReadInto_again (h : devReadInto dev count offset s = .ok block s') (t : Buf) :
    ∃ t', devReadInto dev count offset t = .ok block t' :=
  devReadInto_of_block (devReadInto_block h) t

end

/-! ## Numbers in a block -/

section
variable {E : XfsEnv} {b b' : Buf} (hb : ∀ i < E.sb.blocksize, b' i = b i)
include hb

theorem header_congr (h : 72 ≤ E.sb.blocksize) :
    be32 b' 0 = be32 b 0 ∧ blockLevel b' = blockLevel b ∧ blockNumrecs b' = blockNumrecs b :=
  ⟨be32_congr fun i _ h2 => hb i (by omega), be16_congr fun i _ h2 => hb i (by omega),
    be16_congr fun i _ h2 => hb i (by omega)⟩

theorem xfsExtentAt_congr {ofz : Nat} (h : ofz + 16 ≤ E.sb.blocksize) :
    xfsExtentAt b' ofz = xfsExtentAt b ofz := by
  rw [xfsExtentAt, xfsExtentAt, be64_congr fun i hi => hb _ (by omega),
    be64_congr fun i hi => hb _ (by omega)]

/-- Only what is in the block is copied. -/
theorem lblockPointer_congr (i : Nat) : lblockPointer E b' i = lblockPointer E b i := by
  have hcopy : nodePointers E.dev E.sb b' (btreeLblockMeta E.sb).2 =
      nodePointers E.dev E.sb b (btreeLblockMeta E.sb).2 := by
    funext j
    unfold nodePointers
    by_cases hj : j < E.sb.blocksize - (btreeLblockMeta E.sb).2
    · rw [if_pos hj, if_pos hj]
      exact hb _ (by omega)
    · rw [if_neg hj, if_neg hj]
  rw [lblockPointer, hcopy]
  rfl

end

end Xallib
