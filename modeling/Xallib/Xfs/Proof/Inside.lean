import Xallib.Xfs.Checked
import Xallib.Xfs.Proof.Extents
import Xallib.Xfs.Proof.Retrieve

/-!
# Record counts and the buffers

What the B+tree readers access is told by the device (`retrieveSteps`, `fileLeafSteps`,
`fileNodeSteps`): the records and pointers of the blocks, by where they end in their block, and the
slots that inodes are stored in, up to where the readers stop. `accesses_inside_iff`: no access is
outside exactly if the blocks and the slots have room for what is counted (`RetrieveFits`,
`FileFit`). The readers do not see to that: `accesses_outside`.
-/

namespace Xallib

open Lib Lib.Cm Lib.Run Lib.Buf

/-! ## Inodes -/

/-- A record or a pointer that ends `last` bytes into its block is read, or an inode is stored. -/
inductive IabStep where
  | access (last : Nat)
  | store
  | stop
  deriving DecidableEq

/-- The steps in a file system with the geometry `sb`, when `index` inodes are stored. -/
def iabExec (sb : XalSb) : IabStep → Nat → StepEnd Nat
  | .access last, index => if last ≤ sb.blocksize then .next index else .outside
  | .store, index =>
    if index < sb.nallocated ∧ (index + 1) * sb.inodesize ≤ dinodesRoom sb then .next (index + 1)
    else .outside
  | .stop, _ => .stop

section
variable (E : IabEnv)

/-- The chunk of a record is not read. -/
def recordSteps (ag : XalAg) (r : XalOdfInobtRec) : List IabStep :=
  if (xalInoDecodeRelative E.sb r.startino).2 = 0 ∧ chunkNbytes E.sb < bufNbytes then
    match chunkAt E ag r with
    | none => [.stop]
    | some chunk => (copied r).flatMap fun i =>
        .store :: if E.khPut (be64 chunk (i * E.sb.inodesize + 152)) then [] else [.stop]
  else [.stop]

def iabLeafSteps (ag : XalAg) (block : Buf) : List IabStep :=
  (List.range (blockNumrecs block)).flatMap fun i =>
    .access (56 + 16 * i + 16) :: recordSteps E ag (inobtRecAt block i)

/-- The steps at the block `blkno`; where the bound on the depth is used up, there are no more. -/
def iabSteps (ag : XalAg) : Nat → Nat → List IabStep
  | 0, _ => [.stop]
  | fuel + 1, blkno =>
    match iabBlockAt E ag blkno with
    | none => [.stop]
    | some block =>
      if blockLevel block = 1 then (List.range (blockNumrecs block)).flatMap fun i =>
        .access ((btreeSblockMeta E.sb).2 + 4 * i + 4) :: iabSteps ag fuel (sblockPointer E block i)
      else if blockLevel block = 0 then iabLeafSteps E ag block
      else [.stop]

def retrieveSteps (fuel : Nat) : List IabStep :=
  if E.khInit = true ∧ E.calloc = true then (List.range E.sb.agcount).flatMap fun seqno =>
    iabSteps E (E.ags seqno) fuel (E.ags seqno).agiRoot
  else [.stop]

/-- The steps that are taken before one stops. -/
def stepsBefore (steps : List IabStep) : List IabStep := steps.takeWhile fun k => decide (k ≠ .stop)

/-- The records and pointers are in their blocks, and the inodes are no more than were counted. -/
structure RetrieveFits (fuel : Nat) : Prop where
  inBlock : ∀ last, .access last ∈ stepsBefore (retrieveSteps E fuel) → last ≤ E.sb.blocksize
  counted : (stepsBefore (retrieveSteps E fuel)).count .store ≤ E.sb.nallocated
  room : (stepsBefore (retrieveSteps E fuel)).count .store * E.sb.inodesize ≤ dinodesRoom E.sb

end

theorem stepsBefore_stop (l : List IabStep) : stepsBefore (.stop :: l) = [] := rfl

theorem stepsBefore_cons {k : IabStep} (h : k ≠ .stop) (l : List IabStep) :
    stepsBefore (k :: l) = k :: stepsBefore l := List.takeWhile_cons_of_pos (decide_eq_true h)

section
variable {sb : XalSb} {last index : Nat}

theorem iabExec_access (h : last ≤ sb.blocksize) :
    iabExec sb (.access last) index = .next index := if_pos h

theorem iabExec_access_outside (h : ¬last ≤ sb.blocksize) :
    iabExec sb (.access last) index = .outside := if_neg h

theorem iabExec_store (h : index < sb.nallocated ∧ (index + 1) * sb.inodesize ≤ dinodesRoom sb) :
    iabExec sb .store index = .next (index + 1) := if_pos h

theorem iabExec_store_outside
    (h : ¬(index < sb.nallocated ∧ (index + 1) * sb.inodesize ≤ dinodesRoom sb)) :
    iabExec sb .store index = .outside := if_neg h

theorem iabExec_stop : iabExec sb .stop index = .stop := rfl

end

/-- Steps are inside if those are that are taken. -/
theorem perform_iab_iff (sb : XalSb) (l : List IabStep) : ∀ index,
    index ≤ sb.nallocated ∧ index * sb.inodesize ≤ dinodesRoom sb →
    (perform (iabExec sb) l index ≠ .outside ↔
      (∀ last, .access last ∈ stepsBefore l → last ≤ sb.blocksize) ∧
        index + (stepsBefore l).count .store ≤ sb.nallocated ∧
        (index + (stepsBefore l).count .store) * sb.inodesize ≤ dinodesRoom sb) := by
  induction l with
  | nil =>
    intro index hindex
    exact ⟨fun _ => ⟨fun _ h => (List.not_mem_nil h).elim, hindex⟩, fun _ h => nomatch h⟩
  | cons k l ih =>
    intro index hindex
    cases k with
    | access last =>
      rw [stepsBefore_cons (by simp), List.count_cons_of_ne (by simp)]
      by_cases hlast : last ≤ sb.blocksize
      · rw [perform_next (iabExec_access hlast), ih index hindex]
        refine and_congr_left fun _ => ⟨fun h last' hmem => ?_, fun h last' hmem => ?_⟩
        · rcases List.mem_cons.1 hmem with heq | hmem
          · cases heq; exact hlast
          · exact h last' hmem
        · exact h last' (List.mem_cons_of_mem _ hmem)
      · rw [perform_outside (iabExec_access_outside hlast)]
        exact ⟨fun h => absurd rfl h, fun h => absurd (h.1 last List.mem_cons_self) hlast⟩
    | store =>
      rw [stepsBefore_cons (by simp), List.count_cons_self]
      by_cases hroom : index < sb.nallocated ∧ (index + 1) * sb.inodesize ≤ dinodesRoom sb
      · rw [perform_next (iabExec_store hroom), ih (index + 1) hroom, Nat.add_right_comm index,
          Nat.add_assoc index]
        refine and_congr_left' ⟨fun h last hmem => ?_, fun h last hmem => ?_⟩
        · rcases List.mem_cons.1 hmem with heq | hmem
          · cases heq
          · exact h last hmem
        · exact h last (List.mem_cons_of_mem _ hmem)
      · rw [perform_outside (iabExec_store_outside hroom)]
        refine ⟨fun h => absurd rfl h, fun ⟨_, hcount, hbytes⟩ => absurd ⟨by omega, ?_⟩ hroom⟩
        exact Nat.le_trans (Nat.mul_le_mul_right _ (by omega)) hbytes
    | stop =>
      rw [perform_stop iabExec_stop, stepsBefore_stop]
      exact ⟨fun _ => ⟨fun _ h => (List.not_mem_nil h).elim, hindex⟩, fun _ h => nomatch h⟩

section
variable {E : IabEnv} {ag : XalAg} {s s' : Retrieval}

/-- A checked run ends as the steps, for the number of inodes that are stored. -/
abbrev IabEndsAs (E : IabEnv) (s : Retrieval) (r : Run (Option Err) Retrieval Unit)
    (l : List IabStep) : Prop :=
  r.EndsAs (·.index) (perform (iabExec E.sb) l s.index)

theorem copyDinodeChecked_ends (hsize : 160 ≤ E.sb.inodesize) (chunk : Buf) (i : Nat)
    (s : Retrieval) : IabEndsAs E s (copyDinodeChecked E chunk i s)
      (.store :: if E.khPut (be64 chunk (i * E.sb.inodesize + 152)) then [] else [.stop]) := by
  unfold copyDinodeChecked IabEndsAs
  rw [read_bind]
  by_cases hroom : s.index < E.sb.nallocated ∧ (s.index + 1) * E.sb.inodesize ≤ dinodesRoom E.sb
  · rw [inside, bind_of_ok (failIf_false (not_not.2 hroom) _ _), perform_next (iabExec_store hroom)]
    have hspec := copyDinode_spec hsize chunk i s
    cases hput : E.khPut (be64 chunk (i * E.sb.inodesize + 152)) with
    | true =>
      have hslot : s.index + 1 ≤ dinodesSlots E.sb :=
        (Nat.le_div_iff_mul_le (by omega)).2 hroom.2
      obtain ⟨u, t, ht, hstored⟩ := hspec.ok ⟨hput, hslot⟩
      refine ⟨u, t, ?_, hstored.index⟩
      rw [unchecked, ht, checked]
    | false =>
      refine endsAs_stop (fun u t ht => ?_) rfl
      rw [(hspec.only ht).1] at hput
      cases hput
  · rw [inside, bind_of_fail (failIf_true hroom _ _), perform_outside (iabExec_store_outside hroom)]
    exact ⟨s, rfl⟩

theorem decodeChunkChecked_ends (hsize : 160 ≤ E.sb.inodesize) (chunk : Buf) (r : XalOdfInobtRec)
    (s : Retrieval) : IabEndsAs E s (decodeChunkChecked E chunk r s) ((copied r).flatMap fun i =>
      .store :: if E.khPut (be64 chunk (i * E.sb.inodesize + 152)) then [] else [.stop]) := by
  unfold decodeChunkChecked
  rw [forUp_range, forM_filter]
  exact endsAs_forM _ (fun i _ s => copyDinodeChecked_ends hsize chunk i s) s

/-- A call that is checked but for nothing, and does not end with a result. -/
theorem iabEndsAs_stop {x : Cm Err Retrieval Unit} (h : ∀ u t, x s ≠ .ok u t) :
    IabEndsAs E s (unchecked x s) [.stop] := endsAs_stop h iabExec_stop

theorem recordChecked_ends (hg : Geometry E.sb) (r : XalOdfInobtRec) (s : Retrieval) :
    IabEndsAs E s (decodeIab3LeafRecordChecked E ag r s) (recordSteps E ag r) := by
  have hsize : 160 ≤ E.sb.inodesize := Nat.le_trans (by decide) hg.inodesize_ge
  have hin : E.sb.inopblock ≠ 0 := by
    rw [hg.inopblock]
    exact Nat.ne_of_gt (Nat.two_pow_pos _)
  have hstop : perform (iabExec E.sb) [.stop] s.index = .stop := perform_stop iabExec_stop
  unfold decodeIab3LeafRecordChecked recordSteps
  refine endsAs_assert_bind (fun h => ?_) fun haligned => ?_
  · rw [if_neg fun hc => h hc.1, hstop]
  refine endsAs_assert_bind (fun h => absurd hin h) fun _ => ?_
  refine endsAs_assert_bind (fun h => ?_) fun hchunk => ?_
  · rw [if_neg fun hc => h hc.2, hstop]
  rw [if_pos ⟨haligned, hchunk⟩]
  refine endsAs_unchecked_bind (fun h => absurd rfl (h () _)) fun _ s₁ hzero => ?_
  obtain ⟨b₁, -, rfl⟩ := zoom_ok.1 hzero
  refine endsAs_unchecked_bind (fun h => ?_) fun _ s₂ hread => ?_
  · -- the chunk is not read
    have hnone : chunkAt E ag r = none := by
      rw [chunkAt, Option.map_eq_none_iff, Option.eq_none_iff_forall_ne_some]
      intro block hblock
      obtain ⟨b, hb, -⟩ := devRead_of_block hblock b₁
      exact h () _ (zoom_of_ok hb)
    rw [hnone, hstop]
  obtain ⟨b, hdev, rfl⟩ := zoom_ok.1 hread
  obtain ⟨block, hblock, hbytes⟩ := devRead_block hdev
  rw [chunkAt_of_read hblock hbytes]
  exact decodeChunkChecked_ends hsize (localChunk E b) r _

theorem leafChecked_ends (hg : Geometry E.sb) (block : Buf) (s : Retrieval) :
    IabEndsAs E s (decodeIab3LeafRecordsChecked E ag block s) (iabLeafSteps E ag block) := by
  have hle : E.sb.blocksize ≤ blockNbytesMax := hg.blocksize_le
  unfold decodeIab3LeafRecordsChecked
  rw [forUp_range]
  refine endsAs_forM _ (fun i _ s => ?_) s
  refine endsAs_inside_bind iabExec_access iabExec_access_outside fun hin => ?_
  exact endsAs_assert_bind (fun h => absurd (by omega) h) fun _ => recordChecked_ends hg _ s

/-- The pointers of a node are in its block, if its header is. -/
theorem Geometry.sblockOfz {sb : XalSb} (hg : Geometry sb) :
    (btreeSblockMeta sb).2 ≤ sb.blocksize := by
  have hle := hg.blocksize_le
  have hge := hg.blocksize_ge
  simp only [btreeSblockMeta, usub]
  omega

theorem retrieveChecked_ends (hg : Geometry E.sb) (fuel : Nat) : ∀ (blkno : Nat) (s : Retrieval),
    IabEndsAs E s (retrieveDinodesViaIab3Checked E ag fuel blkno s) (iabSteps E ag fuel blkno) := by
  induction fuel with
  | zero =>
    intro _ s
    refine iabEndsAs_stop (x := fun _ => .spin) fun _ _ h => ?_
    cases h
  | succ fuel ih =>
    intro blkno s
    unfold retrieveDinodesViaIab3Checked iabSteps
    refine endsAs_unchecked_bind (fun h => ?_) fun block s₁ hread => ?_
    · have hnone : iabBlockAt E ag blkno = none := by
        rw [Option.eq_none_iff_forall_ne_some]
        intro block hblock
        obtain ⟨b, hb⟩ := readIab3Block_of_block hblock s
        exact h _ _ hb
      rw [hnone]
      exact perform_stop iabExec_stop
    obtain ⟨hblock, -⟩ := readIab3Block_ok hread
    obtain ⟨b, hb⟩ := readIab3Block_of_block hblock s
    obtain rfl : { s with buf := b } = s₁ := (Run.ok.inj (hb.symm.trans hread)).2
    rw [hblock]
    by_cases h1 : blockLevel block = 1
    · simp only [if_pos h1]
      refine endsAs_assert_bind (fun h => absurd hg.sblockOfz h) fun _ => ?_
      rw [forUp_range]
      refine endsAs_forM _ (fun i _ s => ?_) { s with buf := b }
      exact endsAs_inside_bind iabExec_access iabExec_access_outside fun _ => ih _ s
    · simp only [if_neg h1]
      by_cases h0 : blockLevel block = 0
      · simp only [if_pos h0]
        exact leafChecked_ends hg block { s with buf := b }
      · simp only [if_neg h0]
        refine iabEndsAs_stop (x := Cm.fail _) (s := { s with buf := b }) fun _ _ h => ?_
        cases h

theorem dropDinodesChecked_ends {y : Cm (Option Err) Retrieval Unit} {l : List IabStep}
    (h : IabEndsAs E s (y s) l) : IabEndsAs E s (dropDinodesChecked y s) l := by
  unfold dropDinodesChecked
  cases hy : y s with
  | fail e t =>
    rw [hy] at h
    unfold IabEndsAs at h ⊢
    cases he : perform (iabExec E.sb) l s.index with
    | next n =>
      rw [he] at h
      obtain ⟨_, _, hok, -⟩ := h
      cases hok
    | stop =>
      rw [he] at h
      refine ⟨fun _ _ hok => (nomatch hok), ?_⟩
      rintro ⟨_, hout⟩
      cases hout
      exact h.2 ⟨_, rfl⟩
    | outside =>
      rw [he] at h
      obtain ⟨_, hout⟩ := h
      cases hout
      exact ⟨_, rfl⟩
  | ok _ _ => rwa [hy] at h
  | crash => rwa [hy] at h
  | spin => rwa [hy] at h

/-- The retrieval accesses nothing outside exactly if the blocks and the slots have room. -/
theorem retrieve_inside_iff (hg : Geometry E.sb) (fuel : Nat) (s : Retrieval) :
    xalDinodesRetrieveChecked E fuel s = (xalDinodesRetrieve E fuel s).checked ↔
      RetrieveFits E fuel := by
  have hends : (xalDinodesRetrieveChecked E fuel s).EndsAs (·.index)
      (perform (iabExec E.sb) (retrieveSteps E fuel) 0) := by
    have hstop : perform (iabExec E.sb) [.stop] 0 = .stop := perform_stop iabExec_stop
    unfold xalDinodesRetrieveChecked retrieveSteps
    refine endsAs_unchecked_bind (fun h => ?_) fun _ s₁ hinit => ?_
    · rw [if_neg fun hc => h () s (failIf_ok.2 ⟨by simp [hc.1], rfl⟩), hstop]
    obtain ⟨hkh, rfl⟩ := failIf_ok.1 hinit
    rw [modify_bind]
    refine endsAs_unchecked_bind (fun h => ?_) fun _ s₂ hroom => ?_
    · rw [if_neg fun hc => h () _ (failIf_ok.2 ⟨by simp [hc.2], rfl⟩), hstop]
    obtain ⟨hcalloc, rfl⟩ := failIf_ok.1 hroom
    rw [modify_bind, forUp_range, if_pos ⟨by simpa using hkh, by simpa using hcalloc⟩]
    have hgroup : ∀ g ∈ List.range E.sb.agcount, ∀ s, IabEndsAs E s (dropDinodesChecked
        (retrieveDinodesViaIab3Checked E (E.ags g) fuel (E.ags g).agiRoot) s)
        (iabSteps E (E.ags g) fuel (E.ags g).agiRoot) :=
      fun g _ s => dropDinodesChecked_ends (retrieveChecked_ends hg fuel _ s)
    exact endsAs_forM _ hgroup _
  rw [(xalDinodesRetrieveChecked_guards E fuel).eq_iff, hends.outside_iff]
  rw [← ne_eq, perform_iab_iff E.sb _ 0 ⟨Nat.zero_le _, by simp⟩, Nat.zero_add]
  exact ⟨fun h => ⟨h.1, h.2.1, h.2.2⟩, fun h => ⟨h.inBlock, h.counted, h.room⟩⟩

end

/-! ## Extents -/

/-- A record or a pointer is read, as above, or extents are claimed. -/
inductive FileStep where
  | access (last : Nat)
  | claim (count : Nat)
  | stop

/-- A pool, without what is in it. -/
def poolShape {α : Type} (p : XalPool α) : XalPool Unit :=
  ⟨p.reserved, p.allocated, p.growby, p.free, p.elementSize, fun _ => ()⟩

section
variable (E : XfsEnv)

/-- The steps for the pool of the extents. -/
def fileExec : FileStep → XalPool Unit → StepEnd (XalPool Unit)
  | .access last, p => if last ≤ E.sb.blocksize then .next p else .outside
  | .claim count, p =>
    match xalPoolClaimExtents E.mpExtents count p with
    | .ok _ p' => .next p'
    | _ => .stop
  | .stop, _ => .stop

def fileLeafSteps (fsbno : Nat) : List FileStep :=
  match fileBlockAt E fsbno with
  | none => [.stop]
  | some block =>
    if blockLevel block = 0 then .claim (blockNumrecs block) ::
      (List.range' 0 (blockNumrecs block)).map fun rec => .access (72 + 16 * rec + 16)
    else [.stop]

def fileNodeSteps : Nat → Nat → List FileStep
  | 0, _ => [.stop]
  | fuel + 1, fsbno =>
    match fileBlockAt E fsbno with
    | none => [.stop]
    | some block =>
      if blockLevel block = 0 then [.stop]
      else (List.range (blockNumrecs block)).flatMap fun i =>
        .access ((btreeLblockMeta E.sb).2 + 8 * i + 8) ::
          if blockLevel block = 1 then fileLeafSteps E (lblockPointer E block i)
          else fileNodeSteps fuel (lblockPointer E block i)

/-- The records and pointers are in their blocks that are come to, which is not so behind a claim
that fails. -/
def FileFit : List FileStep → XalPool Unit → Prop
  | [], _ => True
  | .access last :: l, p => last ≤ E.sb.blocksize ∧ FileFit l p
  | .claim count :: l, p => ∀ idx p', xalPoolClaimExtents E.mpExtents count p = .ok idx p' →
      FileFit l p'
  | .stop :: _, _ => True

variable {E}

theorem fileExec_access {last : Nat} {p : XalPool Unit} (h : last ≤ E.sb.blocksize) :
    fileExec E (.access last) p = .next p := if_pos h

theorem fileExec_access_outside {last : Nat} {p : XalPool Unit} (h : ¬last ≤ E.sb.blocksize) :
    fileExec E (.access last) p = .outside := if_neg h

theorem fileExec_stop {p : XalPool Unit} : fileExec E .stop p = .stop := rfl

theorem fileExec_claim {count idx : Nat} {p p' : XalPool Unit}
    (h : xalPoolClaimExtents E.mpExtents count p = .ok idx p') :
    fileExec E (.claim count) p = .next p' := by rw [fileExec, h]

theorem fileExec_claim_fails {count : Nat} {p : XalPool Unit}
    (h : ∀ idx p', xalPoolClaimExtents E.mpExtents count p ≠ .ok idx p') :
    fileExec E (.claim count) p = .stop := by
  rw [fileExec]
  cases hp : xalPoolClaimExtents E.mpExtents count p with
  | ok idx p' => exact absurd hp (h idx p')
  | fail _ _ => rfl
  | crash => rfl
  | spin => rfl

/-- Reading is inside where each record is. -/
theorem fileFit_accesses {f : Nat → Nat} {p : XalPool Unit} (l : List Nat) :
    FileFit E (l.map fun i => .access (f i)) p ↔ ∀ i ∈ l, f i ≤ E.sb.blocksize := by
  induction l with
  | nil => exact ⟨fun _ _ h => (List.not_mem_nil h).elim, fun _ => trivial⟩
  | cons i l ih =>
    rw [List.forall_mem_cons, ← ih]
    exact Iff.rfl

theorem perform_file_iff (l : List FileStep) : ∀ p, perform (fileExec E) l p ≠ .outside ↔
    FileFit E l p := by
  induction l with
  | nil => exact fun p => ⟨fun _ => trivial, fun _ h => nomatch h⟩
  | cons k l ih =>
    intro p
    cases k with
    | access last =>
      by_cases hlast : last ≤ E.sb.blocksize
      · rw [perform_next (fileExec_access hlast), ih p]
        exact ⟨fun h => ⟨hlast, h⟩, fun h => h.2⟩
      · rw [perform_outside (fileExec_access_outside hlast)]
        exact ⟨fun h => absurd rfl h, fun h => absurd h.1 hlast⟩
    | claim count =>
      by_cases hclaim : ∃ idx p', xalPoolClaimExtents E.mpExtents count p = .ok idx p'
      · obtain ⟨idx, p', hp⟩ := hclaim
        rw [perform_next (fileExec_claim hp), ih p']
        refine ⟨fun h idx' p'' hp' => ?_, fun h => h idx p' hp⟩
        obtain ⟨-, rfl⟩ := Run.ok.inj (hp.symm.trans hp')
        exact h
      · rw [perform_stop (fileExec_claim_fails fun idx p' hp => hclaim ⟨idx, p', hp⟩)]
        exact ⟨fun _ idx p' hp => absurd ⟨idx, p', hp⟩ hclaim, fun _ h => nomatch h⟩
    | stop =>
      rw [perform_stop fileExec_stop]
      exact ⟨fun _ => trivial, fun _ h => nomatch h⟩

end

/-- A claim does not look at what is in the pool. -/
theorem claimExtents_shape (mp : Mprotect) (count : Nat) (p : XalPool XalExtent) :
    (∀ {idx p'}, xalPoolClaimExtents mp count p = .ok idx p' →
      xalPoolClaimExtents mp count (poolShape p) = .ok idx (poolShape p')) ∧
    ((∀ idx p', xalPoolClaimExtents mp count p ≠ .ok idx p') →
      ∀ idx q, xalPoolClaimExtents mp count (poolShape p) ≠ .ok idx q) := by
  by_cases hfails : ClaimFails mp count p
  · obtain ⟨e, he, -⟩ := claimExtents_of_fails hfails
    obtain ⟨e', he', -⟩ := claimExtents_of_fails (p := poolShape p) hfails
    exact ⟨fun h => (nomatch he.symm.trans h), fun _ idx q h => nomatch he'.symm.trans h⟩
  · obtain ⟨memory, hp⟩ := claimExtents_of_not_fails hfails
    obtain ⟨memory', hq⟩ := claimExtents_of_not_fails (p := poolShape p) hfails
    refine ⟨fun h => ?_, fun h => absurd hp (h _ _)⟩
    obtain ⟨rfl, rfl⟩ := Run.ok.inj (hp.symm.trans h)
    exact hq

/-- A leaf fits if its records are in its block, or no extents can be claimed for them. -/
theorem fileLeafFit_iff {E : XfsEnv} {fsbno : Nat} {p : XalPool XalExtent} :
    FileFit E (fileLeafSteps E fsbno) (poolShape p) ↔
      ∀ block, fileBlockAt E fsbno = some block → blockLevel block = 0 →
        ¬ClaimFails E.mpExtents (blockNumrecs block) p →
          ∀ rec < blockNumrecs block, 72 + 16 * rec + 16 ≤ E.sb.blocksize := by
  unfold fileLeafSteps
  cases hat : fileBlockAt E fsbno with
  | none => exact ⟨fun _ _ h => (nomatch h), fun _ => trivial⟩
  | some block =>
    simp only [Option.some.injEq, forall_eq']
    by_cases h0 : blockLevel block = 0
    · have hrecords : ∀ q, FileFit E ((List.range' 0 (blockNumrecs block)).map fun rec =>
          .access (72 + 16 * rec + 16)) q ↔
            ∀ rec < blockNumrecs block, 72 + 16 * rec + 16 ≤ E.sb.blocksize := by
        intro q
        rw [fileFit_accesses]
        simp
      simp only [h0, if_true, true_implies]
      constructor
      · intro h hclaim
        obtain ⟨_, hp⟩ := claimExtents_of_not_fails hclaim
        exact (hrecords _).1 (h _ _ ((claimExtents_shape _ _ _).1 hp))
      · intro h idx p' hp
        refine (hrecords p').2 (h fun hfails => ?_)
        obtain ⟨e, he, -⟩ := claimExtents_of_fails (p := poolShape p) hfails
        cases he.symm.trans hp
    · simp only [h0, false_implies]
      exact ⟨fun _ => trivial, fun _ => trivial⟩

section
variable {E : XfsEnv} {self : Nat} {s : Store Buf}

/-- A checked run ends as the steps, for the pool of extents. -/
abbrev FileEndsAs (E : XfsEnv) (s : Store Buf) (r : Run (Option Err) (Store Buf) Unit)
    (l : List FileStep) : Prop :=
  r.EndsAs (fun s => poolShape s.extents) (perform (fileExec E) l (poolShape s.extents))

theorem decodeExtentsChecked_ends {room : Nat} (hroom : E.sb.blocksize ≤ room) (buf : Buf)
    (ofz start n : Nat) : ∀ (i : Nat) (s : Store Buf),
    FileEndsAs E s (decodeExtentsChecked E room buf ofz start n i s)
      ((List.range' i n).map fun rec => .access (ofz + 16 * rec + 16)) := by
  induction n with
  | zero => exact fun i s => endsAs_nil rfl
  | succ n ih =>
    intro i s
    unfold decodeExtentsChecked
    rw [List.range'_succ, List.map_cons]
    refine endsAs_inside_bind fileExec_access fileExec_access_outside fun hin => ?_
    exact endsAs_assert_bind (fun h => absurd (by omega) h) fun _ => ih (i + 1) _

/-- A block of the B+tree that is read, or one where the readers stop. -/
theorem fileBlockAt_of_read (hg : Geometry E.sb) {fsbno : Nat} {b : Buf} {u : Unit}
    (h : devRead E.dev E.sb.blocksize (xalFsbnoOffset .xfs E.sb fsbno) s.be = .ok u b) :
    (be32 b 0 ≠ bmapCrcMagic ∧ fileBlockAt E fsbno = none) ∨
      be32 b 0 = bmapCrcMagic ∧ ∃ block, fileBlockAt E fsbno = some block ∧
        blockLevel b = blockLevel block ∧ blockNumrecs b = blockNumrecs block ∧
          ∀ i, lblockPointer E b i = lblockPointer E block i := by
  obtain ⟨block, hblock, hbytes⟩ := devRead_block h
  obtain ⟨hm, hl, hn⟩ := header_congr hbytes (Nat.le_trans (by decide) hg.blocksize_ge)
  rw [fileBlockAt, hblock, hm]
  by_cases hmagic : be32 block 0 = bmapCrcMagic
  · rw [Option.filter_some, if_pos (by simpa using hmagic)]
    exact .inr ⟨hmagic, block, rfl, hl, hn, lblockPointer_congr hbytes⟩
  · rw [Option.filter_some, if_neg (by simpa using hmagic)]
    exact .inl ⟨hmagic, rfl⟩

theorem fileBlockAt_of_not {fsbno : Nat}
    (h : ∀ u t, onBe (devRead E.dev E.sb.blocksize (xalFsbnoOffset .xfs E.sb fsbno)) s ≠ .ok u t) :
    fileBlockAt E fsbno = none := by
  rw [Option.eq_none_iff_forall_ne_some]
  intro block hblock
  obtain ⟨b, hb, -⟩ := devRead_of_block (Option.filter_eq_some_iff.1 hblock).1 s.be
  exact h () _ (zoom_of_ok hb)

theorem claimChecked_ends (count : Nat) (s : Store Buf) :
    (unchecked (onExtents (xalPoolClaimExtents E.mpExtents count)) s).EndsAs
      (fun s => poolShape s.extents)
      (perform (fileExec E) [.claim count] (poolShape s.extents)) := by
  obtain ⟨hok, hfails⟩ := claimExtents_shape E.mpExtents count s.extents
  by_cases hclaim : ∃ idx p', xalPoolClaimExtents E.mpExtents count s.extents = .ok idx p'
  · obtain ⟨idx, p', hp⟩ := hclaim
    rw [perform_next (fileExec_claim (hok hp))]
    exact ⟨idx, { s with extents := p' }, checked_ok.2 (zoom_of_ok hp), rfl⟩
  · refine endsAs_stop (fun idx t ht => ?_)
      (fileExec_claim_fails (hfails fun idx p' hp => hclaim ⟨idx, p', hp⟩))
    obtain ⟨p', hp, -⟩ := zoom_ok.1 ht
    exact hclaim ⟨idx, p', hp⟩

theorem leafFileChecked_ends (hg : Geometry E.sb) (fsbno self : Nat) (s : Store Buf) :
    FileEndsAs E s (processFileBtreeLeafChecked E fsbno self s) (fileLeafSteps E fsbno) := by
  have hstop : perform (fileExec E) [.stop] (poolShape s.extents) = .stop :=
    perform_stop fileExec_stop
  unfold processFileBtreeLeafChecked fileLeafSteps
  refine endsAs_unchecked_bind (fun h => ?_) fun _ s₁ hread => ?_
  · rw [fileBlockAt_of_not h, hstop]
  obtain ⟨b, hb, rfl⟩ := zoom_ok.1 hread
  rw [read_bind]
  rcases fileBlockAt_of_read hg hb with ⟨hmagic, hat⟩ | ⟨hmagic, block, hat, hl, hn, -⟩
  · rw [hat]
    refine endsAs_unchecked_bind (fun _ => hstop) fun _ s₂ hm => ?_
    exact absurd hmagic (failIf_ok.1 hm).1
  simp only [hat]
  refine endsAs_unchecked_bind (fun h => ?_) fun _ s₂ hm => ?_
  · exact absurd (failIf_false (not_not.2 hmagic) _ _) (h () _)
  obtain ⟨-, rfl⟩ := failIf_ok.1 hm
  refine endsAs_unchecked_bind (fun h => ?_) fun _ s₃ hlevel => ?_
  · rw [if_neg fun h0 => h () _ (failIf_false (not_not.2 (hl.trans h0)) _ _), hstop]
  obtain ⟨h0, rfl⟩ := failIf_ok.1 hlevel
  rw [if_pos (hl.symm.trans (not_not.1 h0)), hn]
  refine EndsAs.bind (l := [FileStep.claim (blockNumrecs block)]) ?_ fun idx s₄ hclaim => ?_
  · exact claimChecked_ends _ { s with be := b }
  · refine endsAs_unchecked_bind (fun h => absurd rfl (h () _)) fun _ s₅ hset => ?_
    obtain ⟨-, rfl⟩ := Run.ok.inj hset
    exact decodeExtentsChecked_ends (Nat.le_trans hg.blocksize_le (by decide)) b 72 idx _ 0 _

theorem nodeFileChecked_ends (hg : Geometry E.sb) (self fuel : Nat) :
    ∀ (fsbno : Nat) (s : Store Buf),
    FileEndsAs E s (processFileBtreeNodeChecked E self fuel fsbno s)
      (fileNodeSteps E fuel fsbno) := by
  induction fuel with
  | zero => exact fun _ s => endsAs_stop (r := .spin) (fun _ _ h => nomatch h) fileExec_stop
  | succ fuel ih =>
    intro fsbno s
    have hstop : perform (fileExec E) [.stop] (poolShape s.extents) = .stop :=
      perform_stop fileExec_stop
    have hsize : ¬E.sb.blocksize > blockNbytesMax := Nat.not_lt.2 hg.blocksize_le
    unfold processFileBtreeNodeChecked fileNodeSteps
    refine endsAs_unchecked_bind (fun h => ?_) fun _ s₀ hmax => ?_
    · exact absurd (failIf_false hsize _ _) (h () _)
    obtain rfl := (failIf_ok.1 hmax).2
    refine endsAs_unchecked_bind (fun h => ?_) fun _ s₁ hread => ?_
    · rw [fileBlockAt_of_not h, hstop]
    obtain ⟨b, hb, rfl⟩ := zoom_ok.1 hread
    refine endsAs_assert_bind (fun h => ?_) fun _ => ?_
    · have hle := (lblockOfz_le_iff hg.blocksize_le).2 (Nat.le_trans (by decide) hg.blocksize_ge)
      exact absurd hle h
    rw [read_bind]
    rcases fileBlockAt_of_read hg hb with ⟨hmagic, hat⟩ | ⟨hmagic, block, hat, hl, hn, hpointer⟩
    · rw [hat]
      refine endsAs_unchecked_bind (fun _ => hstop) fun _ s₂ hm => ?_
      exact absurd hmagic (failIf_ok.1 hm).1
    simp only [hat]
    refine endsAs_unchecked_bind (fun h => ?_) fun _ s₂ hm => ?_
    · exact absurd (failIf_false (not_not.2 hmagic) _ _) (h () _)
    obtain ⟨-, rfl⟩ := failIf_ok.1 hm
    refine endsAs_unchecked_bind (fun h => ?_) fun _ s₃ hlevel => ?_
    · by_cases h0 : blockLevel block = 0
      · simp only [if_pos h0, hstop]
      · exact absurd (failIf_false (fun hb => h0 (hl.symm.trans hb)) _ _) (h () _)
    obtain ⟨h0, rfl⟩ := failIf_ok.1 hlevel
    simp only [hl, hn, hpointer] at h0 ⊢
    rw [if_neg h0, forUp_range]
    have hround : ∀ i ∈ List.range (blockNumrecs block), ∀ s, FileEndsAs E s
        ((inside ((btreeLblockMeta E.sb).2 + 8 * i + 8 ≤ E.sb.blocksize) >>= fun _ =>
          if blockLevel block = 1 then processFileBtreeLeafChecked E (lblockPointer E block i) self
          else processFileBtreeNodeChecked E self fuel (lblockPointer E block i)) s)
        (.access ((btreeLblockMeta E.sb).2 + 8 * i + 8) ::
          if blockLevel block = 1 then fileLeafSteps E (lblockPointer E block i)
          else fileNodeSteps E fuel (lblockPointer E block i)) := by
      intro i _ s
      refine endsAs_inside_bind fileExec_access fileExec_access_outside fun _ => ?_
      by_cases h1 : blockLevel block = 1
      · rw [if_pos h1, if_pos h1]
        exact leafFileChecked_ends hg _ self s
      · rw [if_neg h1, if_neg h1]
        exact ih _ s
    exact endsAs_forM _ hround _

end

/-- The accesses of the readers are inside exactly if there is room for what the device counts. -/
theorem accesses_inside_iff (I : IabEnv) (E : XfsEnv) (hI : Geometry I.sb) (hE : Geometry E.sb) :
    (∀ fuel s, xalDinodesRetrieveChecked I fuel s = (xalDinodesRetrieve I fuel s).checked ↔
      RetrieveFits I fuel) ∧
    (∀ fsbno self s, processFileBtreeLeafChecked E fsbno self s =
      (processFileBtreeLeaf E fsbno self s).checked ↔
        FileFit E (fileLeafSteps E fsbno) (poolShape s.extents)) ∧
    ∀ fuel fsbno self s, processFileBtreeNodeChecked E self fuel fsbno s =
      (processFileBtreeNode E self fuel fsbno s).checked ↔
        FileFit E (fileNodeSteps E fuel fsbno) (poolShape s.extents) := by
  refine ⟨retrieve_inside_iff hI, fun fsbno self s => ?_, fun fuel fsbno self s => ?_⟩
  · rw [(processFileBtreeLeafChecked_guards E fsbno self).eq_iff,
      (leafFileChecked_ends hE fsbno self s).outside_iff, ← ne_eq, perform_file_iff]
  · rw [(processFileBtreeNodeChecked_guards E self fuel fsbno).eq_iff,
      (nodeFileChecked_ends hE self fuel fsbno s).outside_iff, ← ne_eq, perform_file_iff]

/-! ## A leaf that counts more than it holds -/

/-- Blocks of 512 bytes. -/
def leafSb : XalSb :=
  { (default : XalSb) with blocksize := 512, inodesize := 256, inopblock := 2, inopblog := 1 }

theorem leafSb_geometry : Geometry leafSb := by
  constructor <;> decide

/-- A leaf that counts `numrecs` records, of which there is room for 27. -/
def countingLeaf (numrecs : Nat) : XfsEnv :=
  { xfsTableEnv leafSb (fun _ => 0) fun _ => none with
    dev := ⟨bufNbytes, 512, fun _ _ => some
      (ofList 0 ([0x42, 0x4d, 0x41, 0x33, 0, 0] ++ beBytes 2 numrecs)), fun _ => 0⟩ }

/-- A chunk of two inodes, where `nallocated` have been counted. -/
def countedInodes (nallocated : Nat) : IabEnv :=
  { twoInodes with sb := { twoInodes.sb with nallocated } }

theorem countedInodes_geometry (nallocated : Nat) : Geometry (countedInodes nallocated).sb where
  inodesize_ge := show 256 ≤ 512 by decide
  inodesize_le := show 512 ≤ 2048 by decide
  inopblock := show 8 = 2 ^ 3 by decide
  blocksize := show 4096 = 8 * 512 by decide
  blocksize_le := show 4096 ≤ 65536 by decide

/-- An inode is stored behind the only slot, and a record is read behind its block. -/
theorem accesses_outside :
    (Geometry (countedInodes 1).sb ∧ xalDinodesRetrieveChecked (countedInodes 1) 2 noneRetrieved ≠
      (xalDinodesRetrieve (countedInodes 1) 2 noneRetrieved).checked) ∧
    Geometry (countingLeaf 28).sb ∧ processFileBtreeLeafChecked (countingLeaf 28) 0 0 blankStore ≠
      (processFileBtreeLeaf (countingLeaf 28) 0 0 blankStore).checked := by
  refine ⟨⟨countedInodes_geometry 1, fun h => ?_⟩, leafSb_geometry, fun h => ?_⟩
  · have hout : (xalDinodesRetrieveChecked (countedInodes 1) 2 noneRetrieved).Outside := by
      decide +kernel
    exact (xalDinodesRetrieveChecked_guards (countedInodes 1) 2).eq_iff.1 h hout
  · have hout : (processFileBtreeLeafChecked (countingLeaf 28) 0 0 blankStore).Outside := by
      decide +kernel
    exact (processFileBtreeLeafChecked_guards (countingLeaf 28) 0 0).eq_iff.1 h hout

/-- With two slots, and 27 records, all is inside. -/
theorem accesses_inside_two :
    xalDinodesRetrieveChecked (countedInodes 2) 2 noneRetrieved =
      (xalDinodesRetrieve (countedInodes 2) 2 noneRetrieved).checked ∧
    processFileBtreeLeafChecked (countingLeaf 27) 0 0 blankStore =
      (processFileBtreeLeaf (countingLeaf 27) 0 0 blankStore).checked := by
  obtain ⟨hretrieve, hleaf, -⟩ := accesses_inside_iff (countedInodes 2) (countingLeaf 27)
    (countedInodes_geometry 2) leafSb_geometry
  refine ⟨(hretrieve 2 noneRetrieved).2 ?_, (hleaf 0 0 blankStore).2 ?_⟩
  · have hsteps : stepsBefore (retrieveSteps (countedInodes 2) 2) =
        [.access 2080, .access 72, .store, .store] := by decide +kernel
    exact ⟨by rw [hsteps]; simp [countedInodes, twoInodes], by rw [hsteps]; decide,
      by rw [hsteps]; decide⟩
  · have hat : (fileBlockAt (countingLeaf 27) 0).any fun block => blockNumrecs block == 27 := by
      decide +kernel
    obtain ⟨block, hblock, hn⟩ := (Option.any_eq_true _ _).1 hat
    rw [beq_iff_eq] at hn
    refine fileLeafFit_iff.2 fun b hb _ _ rec hrec => ?_
    obtain rfl := Option.some.inj (hblock.symm.trans hb)
    show 72 + 16 * rec + 16 ≤ 512
    omega

end Xallib
