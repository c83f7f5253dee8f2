import Xallib.Base.Proof.Pool
import Xallib.Xfs.Open

/-!
# Opening an XFS device

* `FailsAt E s step`: the call of `xal_be_xfs_open` gets as far as `step`, and that fails.
* `XfsOpened E s'`: what a successful call has done; its `*xal` is one that indexing may begin with
  (`XfsOpened.justOpened`).
* `xalBeXfsOpen_loud_iff`: every failure comes out as a negative status, exactly where `errno` tells
  it (`Told`) at the four steps whose failure is returned through `errno`, and `xal_close` comes
  back for the candidate at the later ones.
-/

namespace Xallib

open Lib Lib.Cm Lib.Run Lib.Buf

/-! ## Statuses -/

section
variable {σ : Type} {x : Cm Err σ Unit} {s s' : σ}

theorem statusOf_of_ok (h : x s = .ok () s') : statusOf x s = .ok 0 s' := by rw [statusOf, h]

theorem statusOf_of_fail {e : Err} (h : x s = .fail e s') : statusOf x s = .ok e.code s' := by
  rw [statusOf, h]

end

/-- The statuses of a call are negative. -/
def Negative {σ α : Type} (r : Run Err σ α) : Prop := r.Sat (fun _ _ => True) fun e _ => e.code < 0

theorem negative_failIf {σ : Type} {c : Prop} [Decidable c] {e : Err} {s : σ}
    (h : c → e.code < 0) : Negative ((failIf c e : Cm Err σ Unit) s) :=
  sat_failIf h fun _ => trivial

theorem Negative.bind {σ α β : Type} {x : Cm Err σ α} {f : α → Cm Err σ β} {s : σ}
    (hx : Negative (x s)) (hf : ∀ a s', Negative (f a s')) : Negative ((x >>= f) s) :=
  Sat.bind hx fun a s' _ => hf a s'

theorem neg_natCast {n : Nat} (h : n ≠ 0) : -(n : Int) < 0 := by omega

theorem devRead_negative (dev : XnvmeDev) (count offset : Nat) (s : Buf) :
    Negative (devRead dev count offset s) := by
  unfold devRead
  refine (negative_failIf fun _ => by decide).bind fun _ s₁ => ?_
  refine (negative_failIf fun _ => by decide).bind fun _ s₂ => ?_
  refine (negative_failIf fun _ => by decide).bind fun _ s₃ => ?_
  refine sat_assert_bind fun _ => ?_
  rw [modify_bind]
  cases dev.nvmRead (offset / dev.lbaNbytes) (nlbOf dev count) with
  | none => exact (by decide : (⟨.read, - EIO⟩ : Err).code < 0)
  | some data => exact sat_assert_bind fun _ => trivial

section
variable {α : Type} [Inhabited α]

theorem xalPoolGrow_negative (mp : Mprotect) (growby : Nat) (p : XalPool α) :
    Negative (xalPoolGrow mp growby p) := by
  unfold xalPoolGrow
  rw [read_bind]
  exact (negative_failIf neg_natCast).bind fun _ _ => trivial

theorem xalPoolMap_negative (os : MapAnswers) (mp : Mprotect) (reserved allocated elementSize : Nat)
    (shm : Bool) (p : XalPool α) :
    Negative (xalPoolMap os mp reserved allocated elementSize shm p) := by
  unfold xalPoolMap
  rw [read_bind]
  refine (negative_failIf fun _ => by decide).bind fun _ p₁ => ?_
  rw [modify_bind]
  cases shm with
  | true =>
    refine (negative_failIf neg_natCast).bind fun _ p₂ => ?_
    refine (negative_failIf neg_natCast).bind fun _ p₃ => ?_
    exact (negative_failIf neg_natCast).bind fun _ p₄ => trivial
  | false =>
    refine (negative_failIf fun _ => by decide).bind fun _ p₂ => ?_
    rw [modify_bind]
    refine (negative_failIf neg_natCast).bind fun _ p₃ => ?_
    rw [modify_bind]
    exact xalPoolGrow_negative _ _ _

end

theorem xalMapPools_negative (osI osX : MapAnswers) (mpI mpX : Mprotect) (nallocated : Nat)
    (shm : Bool) (s : Store Buf) : Negative (xalMapPools osI osX mpI mpX nallocated shm s) := by
  refine Negative.bind (sat_zoom ?_) fun _ t => sat_zoom ?_
  · exact xalPoolMap_negative _ _ _ _ _ _ _
  · exact xalPoolMap_negative _ _ _ _ _ _ _

/-! ## The steps -/

inductive OpenStep
  | bufAlloc | superblock | callocXal | callocAgs | header (seqno : Nat) | shmName | pools

section
variable (E : XfsOpenEnv) (s : XfsOpening)

/-- The I/O buffer has been asked for. -/
def bufAsked : XfsOpening :=
  { s with cand := false, errno := E.errnoAfter .bufAlloc s.errno }

/-- The superblock has been decoded to the candidate in `s₁`. -/
def Candidate (s₁ : XfsOpening) : Prop :=
  E.bufAlloc = true ∧ retrieveAndDecodePrimarySuperblock E (bufAsked E s) = .ok 0 s₁ ∧
    s₁.cand = true

def shmNameLength : Nat := (E.shmName.map List.length).getD 0

def mapPools (nallocated : Nat) : Cm Err (Store Buf) Unit :=
  xalMapPools E.osInodes E.osExtents E.mpInodes E.mpExtents nallocated E.shmName.isSome

/-- The pool that cannot be mapped is left with a null pointer. -/
def PoolLeftNull : Prop :=
  E.osInodes.LeavesNull E.shmName.isSome ∨
    E.osInodes.mmap = 0 ∧ E.osExtents.LeavesNull E.shmName.isSome

/-- The step is the one that fails, all before it having succeeded. -/
inductive FailsAt : OpenStep → Prop
  | bufAlloc : E.bufAlloc = false → FailsAt .bufAlloc
  | superblock {e : Err} {b : Buf} : E.bufAlloc = true → devRead E.dev 4096 0 s.buf = .fail e b →
      FailsAt .superblock
  | callocXal {b : Buf} : E.bufAlloc = true → devRead E.dev 4096 0 s.buf = .ok () b →
      E.callocXal = false → FailsAt .callocXal
  | callocAgs {b : Buf} : E.bufAlloc = true → devRead E.dev 4096 0 s.buf = .ok () b →
      E.callocXal = true → E.callocAgs = false → FailsAt .callocAgs
  | header {s₁ s₂ : XfsOpening} {seqno : Nat} {e : Err} {b : Buf} : Candidate E s s₁ →
      seqno < s₁.sb.agcount → retrieveAllocationGroups E seqno 0 s₁ = .ok 0 s₂ →
      devRead E.dev (s₂.sb.sectsize * 4) (agOffset s₂.sb seqno) s₂.buf = .fail e b →
      FailsAt (.header seqno)
  | shmName {s₁ s₂ : XfsOpening} : Candidate E s s₁ →
      retrieveAllocationGroups E s₁.sb.agcount 0 s₁ = .ok 0 s₂ → shmNameMaxlen < shmNameLength E →
      FailsAt .shmName
  | pools {s₁ s₂ : XfsOpening} {e : Err} {t : Store Buf} : Candidate E s s₁ →
      retrieveAllocationGroups E s₁.sb.agcount 0 s₁ = .ok 0 s₂ → shmNameLength E ≤ shmNameMaxlen →
      mapPools E s₂.sb.nallocated s₂.store = .fail e t → FailsAt .pools

/-- The failure of the step gets through to the caller: by `errno`, which is positive where the
function reads it, and not 0 where it is taken for a status; or by a call of `xal_close` that comes
back, with a pool that was not mapped too. -/
def Told : OpenStep → Prop
  | .bufAlloc => 0 < E.errnoAfter .bufAlloc s.errno
  | .superblock =>
    E.errnoAfter .superblock (E.errnoAfter .bufAlloc s.errno) ≠ 0 ∧
      0 < E.errnoAfter .bufFree (E.errnoAfter .superblock (E.errnoAfter .bufAlloc s.errno))
  | .callocXal => 0 < E.errnoAfter .bufFree ENOMEM
  | .callocAgs => 0 < E.errnoAfter .bufFree ENOMEM
  | .pools => E.bufFreeNull = true ∧ (PoolLeftNull E → E.munmapNull = true)
  | _ => E.bufFreeNull = true

end

/-- The headers of an allocation group have been read. -/
def HeaderRead (E : XfsOpenEnv) (sb : XalSb) (ags : Nat → XalAgHeader) (seqno : Nat) : Prop :=
  ∃ b b', devRead E.dev (sb.sectsize * 4) (agOffset sb seqno) b = .ok () b' ∧
    ags seqno = agDecode sb seqno b'

/-- What a successful call has done: all headers are read, and both pools are mapped. -/
structure XfsOpened (E : XfsOpenEnv) (s' : XfsOpening) (xal : Xal Buf) : Prop where
  xal_eq : s'.xal = some xal
  headers : ∀ seqno < xal.sb.agcount, HeaderRead E xal.sb s'.ags seqno
  pools : ∃ b t, mapPools E xal.sb.nallocated ⟨default, default, b⟩ = .ok () t ∧
    xal.store = { t with be := s'.buf }
  plain : xal = { xal with
    type := .xfs, rootIdx := poolIdxNone, dirty := false, seqLock := 0, sharedView := false }

/-- Opening fails loudly. -/
structure OpensLoudly (E : XfsOpenEnv) (s : XfsOpening) : Prop where
  fails : ∀ step, FailsAt E s step →
    ∃ err s', xalBeXfsOpen E s = .ok err s' ∧ err < 0 ∧ s'.xal = s.xal
  opens : ∀ s', xalBeXfsOpen E s = .ok 0 s' → ∃ xal, XfsOpened E s' xal

section
variable {E : XfsOpenEnv} {s s₁ s₂ s' : XfsOpening}

/-- A read to the I/O buffer, with its status. -/
theorem ioRead_of_ok {count offset : Nat} {b : Buf}
    (h : devRead E.dev count offset s.buf = .ok () b) :
    statusOf (onIobuf (devRead E.dev count offset)) s = .ok 0 { s with buf := b } :=
  statusOf_of_ok (zoom_of_ok h)

theorem ioRead_of_fail {count offset : Nat} {e : Err} {b : Buf}
    (h : devRead E.dev count offset s.buf = .fail e b) :
    statusOf (onIobuf (devRead E.dev count offset)) s = .ok e.code { s with buf := b } :=
  statusOf_of_fail (zoom_of_fail h)

theorem ioRead_spec (E : XfsOpenEnv) (count offset : Nat) (s : XfsOpening) :
    (statusOf (onIobuf (devRead E.dev count offset)) s).Sat
      (fun err s' => (err < 0 ∧ ∃ b, s' = { s with buf := b }) ∨
        err = 0 ∧ ∃ b, devRead E.dev count offset s.buf = .ok () b ∧ s' = { s with buf := b })
      (fun _ _ => False) := by
  have hneg := devRead_negative E.dev count offset s.buf
  unfold statusOf onIobuf zoom
  cases hr : devRead E.dev count offset s.buf with
  | ok u b => exact .inr ⟨rfl, b, rfl, rfl⟩
  | fail e b => exact .inl ⟨hneg.fail hr, b, rfl⟩
  | crash => trivial
  | spin => trivial

theorem ioRead_cases {count offset : Nat} {err : Int}
    (h : statusOf (onIobuf (devRead E.dev count offset)) s = .ok err s') :
    (∃ b, devRead E.dev count offset s.buf = .ok () b) ∨
      ∃ e b, devRead E.dev count offset s.buf = .fail e b := by
  unfold statusOf onIobuf zoom at h
  cases hr : devRead E.dev count offset s.buf with
  | ok u b => exact .inl ⟨b, rfl⟩
  | fail e b => exact .inr ⟨e, b, rfl⟩
  | crash => simp only [hr] at h; cases h
  | spin => simp only [hr] at h; cases h

/-! ## The superblock -/

/-- The function has returned what `errno` says; there is no candidate. -/
def ErrnoReturned (E : XfsOpenEnv) (s : XfsOpening) (errno : Int) : Prop :=
  E.bufAlloc = true ∧ ∃ b, retrieveAndDecodePrimarySuperblock E (bufAsked E s) =
    .ok (-errno) { bufAsked E s with buf := b, errno }

theorem superblock_failed {e : Err} {b : Buf} (ha : E.bufAlloc = true)
    (h : devRead E.dev 4096 0 s.buf = .fail e b) :
    ErrnoReturned E s (E.errnoAfter .superblock (E.errnoAfter .bufAlloc s.errno)) := by
  have hneg : e.code ≠ 0 := Int.ne_of_lt ((devRead_negative E.dev 4096 0 s.buf).fail h)
  refine ⟨ha, b, ?_⟩
  unfold retrieveAndDecodePrimarySuperblock
  refine (bind_of_ok (ioRead_of_fail (s := bufAsked E s) h)).trans ?_
  rw [setErrno, modify_bind, if_pos hneg]
  rfl

theorem callocXal_failed {b : Buf} (ha : E.bufAlloc = true)
    (h : devRead E.dev 4096 0 s.buf = .ok () b) (hc : E.callocXal = false) :
    ErrnoReturned E s ENOMEM := by
  refine ⟨ha, b, ?_⟩
  unfold retrieveAndDecodePrimarySuperblock
  refine (bind_of_ok (ioRead_of_ok (s := bufAsked E s) h)).trans ?_
  rw [setErrno, modify_bind, if_neg (not_not.2 rfl), if_pos hc]
  rfl

theorem callocAgs_failed {b : Buf} (ha : E.bufAlloc = true)
    (h : devRead E.dev 4096 0 s.buf = .ok () b) (hx : E.callocXal = true)
    (hc : E.callocAgs = false) : ErrnoReturned E s ENOMEM := by
  refine ⟨ha, b, ?_⟩
  unfold retrieveAndDecodePrimarySuperblock
  refine (bind_of_ok (ioRead_of_ok (s := bufAsked E s) h)).trans ?_
  rw [setErrno, modify_bind, if_neg (not_not.2 rfl), if_neg (by rw [hx]; decide), setErrno,
    modify_bind, if_pos hc]
  rfl

/-- Without a candidate, the caller returns what `errno` says by then, or writes through a null
pointer. -/
theorem ErrnoReturned.loud_iff {errno : Int} (h : ErrnoReturned E s errno) :
    (∃ err s', xalBeXfsOpen E s = .ok err s' ∧ err < 0 ∧ s'.xal = s.xal) ↔
      errno ≠ 0 ∧ 0 < E.errnoAfter .bufFree errno := by
  obtain ⟨ha, b, h⟩ := h
  have hopen : xalBeXfsOpen E s = if -errno ≠ 0 then
      .ok (-E.errnoAfter .bufFree errno)
        { bufAsked E s with buf := b, errno := E.errnoAfter .bufFree errno }
      else .crash := by
    unfold xalBeXfsOpen
    rw [modify_bind, setErrno, modify_bind, if_neg (by rw [ha]; decide)]
    refine (bind_of_ok h).trans ?_
    by_cases he : -errno ≠ 0
    · rw [if_pos he, if_pos he]
      rfl
    · rw [if_neg he, if_neg he]
      rfl
  rw [hopen]
  by_cases he : -errno ≠ 0
  · rw [if_pos he]
    constructor
    · rintro ⟨err, s', hr, hneg, -⟩
      obtain ⟨rfl, -⟩ := Run.ok.inj hr
      exact ⟨by omega, by omega⟩
    · rintro ⟨-, hpos⟩
      exact ⟨_, _, rfl, by omega, rfl⟩
  · rw [if_neg he]
    constructor
    · rintro ⟨err, s', hr, -⟩
      cases hr
    · rintro ⟨h0, -⟩
      exact absurd (by omega) he

/-- The candidate, once the superblock has been read to `b`. -/
def candidate (E : XfsOpenEnv) (s : XfsOpening) (b : Buf) : XfsOpening :=
  { bufAsked E s with
    buf := b
    errno := E.errnoAfter .callocAgs (E.errnoAfter .callocXal
      (E.errnoAfter .superblock (E.errnoAfter .bufAlloc s.errno)))
    cand := true
    sb := psbDecode b
    store := ⟨default, default, b⟩ }

theorem superblock_decoded {b : Buf} (h : devRead E.dev 4096 0 s.buf = .ok () b)
    (hx : E.callocXal = true) (ha : E.callocAgs = true) :
    retrieveAndDecodePrimarySuperblock E (bufAsked E s) = .ok 0 (candidate E s b) := by
  unfold retrieveAndDecodePrimarySuperblock
  refine (bind_of_ok (ioRead_of_ok (s := bufAsked E s) h)).trans ?_
  rw [setErrno, modify_bind, if_neg (not_not.2 rfl), if_neg (by rw [hx]; decide), setErrno,
    modify_bind, if_neg (by rw [ha]; decide), setErrno, modify_bind]
  rfl

/-- The superblock is decoded, unless one of its steps has failed. -/
theorem superblock_cases (ha : E.bufAlloc = true) {err : Int}
    (h : retrieveAndDecodePrimarySuperblock E (bufAsked E s) = .ok err s₁) :
    (∃ b, err = 0 ∧ s₁ = candidate E s b) ∨ s₁.cand = false ∧ ∃ step, FailsAt E s step := by
  have hfailed {errno : Int} (hr : ErrnoReturned E s errno) : s₁.cand = false := by
    obtain ⟨-, b, hr⟩ := hr
    obtain ⟨-, rfl⟩ := Run.ok.inj (hr.symm.trans h)
    rfl
  obtain ⟨err', t, hio, -⟩ := bind_ok.1 h
  rcases ioRead_cases (s := bufAsked E s) hio with ⟨b, hread⟩ | ⟨e, b, hread⟩
  · cases hx : E.callocXal with
    | false => exact .inr ⟨hfailed (callocXal_failed ha hread hx), _, .callocXal ha hread hx⟩
    | true =>
      cases hg : E.callocAgs with
      | false =>
        exact .inr ⟨hfailed (callocAgs_failed ha hread hx hg), _, .callocAgs ha hread hx hg⟩
      | true =>
        obtain ⟨rfl, rfl⟩ := Run.ok.inj ((superblock_decoded (s := s) hread hx hg).symm.trans h)
        exact .inl ⟨b, rfl, rfl⟩
  · exact .inr ⟨hfailed (superblock_failed ha hread), _, .superblock ha hread⟩

theorem Candidate.eq (h : Candidate E s s₁) : ∃ b, s₁ = candidate E s b := by
  obtain ⟨ha, hr, hc⟩ := h
  rcases superblock_cases ha hr with ⟨b, -, hb⟩ | ⟨hn, -⟩
  · exact ⟨b, hb⟩
  · rw [hc] at hn
    cases hn

/-! ## The allocation groups -/

theorem allocationGroup_spec (E : XfsOpenEnv) (seqno : Nat) (s : XfsOpening) :
    (retrieveAndDecodeAllocationGroup E seqno s).Sat
      (fun err s' => (err < 0 ∧ ∃ b, s' = { s with buf := b }) ∨
        (err = 0 ∧ HeaderRead E s.sb s'.ags seqno ∧ (∀ i, i ≠ seqno → s'.ags i = s.ags i) ∧
          ∃ b ags, s' = { s with buf := b, ags }))
      (fun _ _ => False) := by
  unfold retrieveAndDecodeAllocationGroup
  rw [read_bind]
  refine (ioRead_spec E _ _ s).bind fun err s₁ h₁ => ?_
  rcases h₁ with ⟨hneg, hs₁⟩ | ⟨rfl, b, hb, rfl⟩
  · rw [if_pos (Int.ne_of_lt hneg)]
    exact .inl ⟨hneg, hs₁⟩
  · rw [if_neg (not_not.2 rfl), modify_bind, read_bind]
    refine sat_assert_bind fun _ => sat_assert_bind fun _ => ?_
    refine sat_assert_bind fun _ => sat_assert_bind fun _ => ?_
    refine .inr ⟨rfl, ⟨s.buf, b, hb, if_pos rfl⟩, fun i hi => if_neg hi, b, _, rfl⟩

theorem groups_succ (E : XfsOpenEnv) (n k : Nat) :
    retrieveAllocationGroups E (n + 1) k = (retrieveAndDecodeAllocationGroup E k >>= fun err =>
      if err ≠ 0 then pure err
      else do
        modify fun s => { s with
          sb := { s.sb with nallocated := (s.sb.nallocated + (s.ags k).agiCount) % 2 ^ 64 } }
        retrieveAllocationGroups E n (k + 1)) := rfl

/-- The first rounds, and the others. -/
theorem groups_add (E : XfsOpenEnv) (m : Nat) : ∀ (n k : Nat) (s : XfsOpening),
    retrieveAllocationGroups E (n + m) k s = (retrieveAllocationGroups E n k >>= fun err =>
      if err ≠ 0 then pure err else retrieveAllocationGroups E m (k + n)) s := by
  intro n
  induction n with
  | zero =>
    intro k s
    rw [Nat.zero_add]
    rfl
  | succ n ih =>
    intro k s
    rw [show n + 1 + m = (n + m) + 1 by omega, groups_succ, groups_succ, bind_assoc_apply]
    refine bind_congr_apply s fun err s' => ?_
    by_cases he : err ≠ 0
    · rw [if_pos he, if_pos he, ret_bind, if_pos he]
    · rw [if_neg he, if_neg he, modify_bind, bind_assoc_apply, modify_bind, ih,
        show k + (n + 1) = k + 1 + n by omega]

/-- The loop returns a negative status, or all headers are read. -/
theorem groups_spec (E : XfsOpenEnv) (n : Nat) : ∀ (k : Nat) (s : XfsOpening),
    (retrieveAllocationGroups E n k s).Sat
      (fun err s' => err ≤ 0 ∧
        (err = 0 → (∀ i, k ≤ i → i < k + n → HeaderRead E s.sb s'.ags i) ∧
          ∀ i < k, s'.ags i = s.ags i) ∧
        ∃ b ags nallocated, s' = { s with buf := b, ags, sb := { s.sb with nallocated } })
      (fun _ _ => False) := by
  induction n with
  | zero =>
    intro k s
    exact ⟨Int.le_refl _, fun _ => ⟨fun i h1 h2 => by omega, fun _ _ => rfl⟩, s.buf, s.ags,
      s.sb.nallocated, rfl⟩
  | succ n ih =>
    intro k s
    unfold retrieveAllocationGroups
    refine (allocationGroup_spec E k s).bind fun err s₁ h₁ => ?_
    rcases h₁ with ⟨hneg, b, rfl⟩ | ⟨rfl, hread, hother, b, ags, rfl⟩
    · rw [if_pos (Int.ne_of_lt hneg)]
      exact ⟨Int.le_of_lt hneg, fun h => absurd h (Int.ne_of_lt hneg), b, s.ags,
        s.sb.nallocated, rfl⟩
    · rw [if_neg (not_not.2 rfl), modify_bind]
      refine (ih (k + 1) _).mono ?_ fun _ _ h => h
      rintro err s' ⟨hle, hdone, b', ags', nallocated, rfl⟩
      refine ⟨hle, fun he => ?_, b', ags', nallocated, rfl⟩
      obtain ⟨hhead, hkeep⟩ := hdone he
      refine ⟨fun i h1 h2 => ?_, fun i hi => ?_⟩
      · by_cases hi : i = k
        · obtain ⟨b₁, b₂, hr, ha⟩ := hread
          rw [hi]
          exact ⟨b₁, b₂, hr, (hkeep k (Nat.lt_succ_self k)).trans ha⟩
        · exact hhead i (by omega) (by omega)
      · exact (hkeep i (by omega)).trans (hother i (by omega))

/-! ## Behind the superblock -/

/-- `xal_be_xfs_open` from the candidate on. -/
def openCandidate (E : XfsOpenEnv) (sb : XalSb) : Om Int := do
  let err ← retrieveAllocationGroups E sb.agcount 0
  if err ≠ 0 then openFailed E err
  else if shmNameMaxlen < shmNameLength E then openFailed E (-EINVAL)
  else do
    let s ← read
    let err ← statusOf (onPools (mapPools E s.sb.nallocated))
    if err ≠ 0 then openFailed E err
    else do
      modify fun s => { s with xal := some {
        type := .xfs
        sb := s.sb
        rootIdx := poolIdxNone
        store := { s.store with be := s.buf }
        dirty := false
        seqLock := 0
        sharedView := false } }
      pure 0

theorem Candidate.open_eq (h : Candidate E s s₁) :
    xalBeXfsOpen E s = openCandidate E s₁.sb s₁ := by
  obtain ⟨ha, hr, hc⟩ := h
  unfold xalBeXfsOpen
  rw [modify_bind, setErrno, modify_bind, if_neg (by rw [ha]; decide)]
  refine (bind_of_ok hr).trans ?_
  rw [if_neg (not_not.2 rfl), read_bind]
  exact bind_of_ok (assert_true hc s₁)

/-- `xal_close` of a candidate comes back. -/
theorem openFailed_ok {err err' : Int} : openFailed E err s = .ok err' s' ↔
    ((UnmapsNull E.osInodes E.osExtents E.shmName.isSome s.store → E.munmapNull = true) ∧
      E.bufFreeNull = true) ∧ err' = err ∧ s' = { s with cand := false } := by
  unfold openFailed
  constructor
  · intro h
    obtain ⟨_, t, h₁, h⟩ := bind_ok.1 h
    obtain ⟨_, hi₁, rfl⟩ := zoom_ok.1 h₁
    obtain ⟨_, hi₂, rfl⟩ := zoom_ok.1 hi₁
    obtain ⟨hi, rfl⟩ := poolUnmap_ok.1 hi₂
    obtain ⟨_, t, h₂, h⟩ := bind_ok.1 h
    obtain ⟨_, hx₁, rfl⟩ := zoom_ok.1 h₂
    obtain ⟨_, hx₂, rfl⟩ := zoom_ok.1 hx₁
    obtain ⟨hx, rfl⟩ := poolUnmap_ok.1 hx₂
    obtain ⟨hb, h⟩ := assert_bind_ok.1 h
    obtain ⟨rfl, rfl⟩ := Run.ok.inj h
    exact ⟨⟨fun hnull => hnull.elim hi hx, hb⟩, rfl, rfl⟩
  · rintro ⟨⟨hnull, hb⟩, rfl, rfl⟩
    have hi : onPools (onInodes (xalPoolUnmap E.osInodes E.shmName.isSome E.munmapNull)) s =
        .ok () s := zoom_of_ok (zoom_of_ok (poolUnmap_ok.2 ⟨fun h => hnull (.inl h), rfl⟩))
    have hx : onPools (onExtents (xalPoolUnmap E.osExtents E.shmName.isSome E.munmapNull)) s =
        .ok () s := zoom_of_ok (zoom_of_ok (poolUnmap_ok.2 ⟨fun h => hnull (.inr h), rfl⟩))
    rw [bind_of_ok hi, bind_of_ok hx, bind_of_ok (assert_true hb _)]
    rfl

/-- A failure behind the superblock gets through if `xal_close` comes back. -/
theorem openFailed_loud_iff {err : Int} (s₂ : XfsOpening) (hneg : err < 0) (hx : s₂.xal = s.xal)
    (h : xalBeXfsOpen E s = openFailed E err s₂) :
    (∃ err s', xalBeXfsOpen E s = .ok err s' ∧ err < 0 ∧ s'.xal = s.xal) ↔
      (UnmapsNull E.osInodes E.osExtents E.shmName.isSome s₂.store → E.munmapNull = true) ∧
        E.bufFreeNull = true := by
  rw [h]
  constructor
  · rintro ⟨err', s', hr, -⟩
    exact (openFailed_ok.1 hr).1
  · intro hclose
    exact ⟨err, _, openFailed_ok.2 ⟨hclose, rfl, rfl⟩, hneg, hx⟩

/-- Where the pools cannot be mapped, one of them is left with a null pointer or none is. -/
theorem mapPools_unmapsNull {n : Nat} {e : Err} {t₀ t : Store Buf} (hi : t₀.inodes.reserved = 0)
    (hx : t₀.extents.reserved = 0) (h : mapPools E n t₀ = .fail e t) :
    UnmapsNull E.osInodes E.osExtents E.shmName.isSome t ↔ PoolLeftNull E := by
  have hne : poolReserved ≠ 0 := by decide
  unfold UnmapsNull PoolLeftNull
  rcases bind_fail.1 h with h | ⟨_, t₁, hmap, h⟩
  · unfold onInodes zoom at h
    cases hmap : xalPoolMap E.osInodes E.mpInodes poolReserved n inodeNbytes E.shmName.isSome
      t₀.inodes with
    | fail e p =>
      rw [hmap] at h
      obtain ⟨-, rfl⟩ := Run.fail.inj h
      obtain ⟨hres, hnull⟩ := (xalPoolMap_null _ _ _ _ _ _ hi).fail hmap
      have hres : p.reserved ≠ 0 := by rw [hres]; exact hne
      constructor
      · rintro (h | h)
        · exact .inl h.2
        · exact absurd hx h.1
      · rintro (h | ⟨h0, hshm, -⟩)
        · exact .inl ⟨hres, h⟩
        · exact .inl ⟨hres, hnull hshm h0⟩
    | ok u p => rw [hmap] at h; cases h
    | crash => rw [hmap] at h; cases h
    | spin => rw [hmap] at h; cases h
  · obtain ⟨p, hmapped, rfl⟩ := zoom_ok.1 hmap
    obtain ⟨hno, hzero⟩ := (xalPoolMap_null _ _ _ _ _ _ hi).ok hmapped
    unfold onExtents zoom at h
    cases hmap' : xalPoolMap E.osExtents E.mpExtents poolReserved n extentNbytes E.shmName.isSome
      t₀.extents with
    | fail e q =>
      rw [hmap'] at h
      obtain ⟨-, rfl⟩ := Run.fail.inj h
      obtain ⟨hres, -⟩ := (xalPoolMap_null _ _ _ _ _ _ hx).fail hmap'
      have hres : q.reserved ≠ 0 := by rw [hres]; exact hne
      constructor
      · rintro (h | h)
        · exact absurd h.2 hno
        · exact .inr ⟨hzero h.2.1, h.2⟩
      · rintro (h | h)
        · exact absurd h hno
        · exact .inr ⟨hres, h.2⟩
    | ok u q => rw [hmap'] at h; cases h
    | crash => rw [hmap'] at h; cases h
    | spin => rw [hmap'] at h; cases h

theorem poolsMap_of_fail {n : Nat} {e : Err} {t : Store Buf}
    (h : mapPools E n s.store = .fail e t) :
    statusOf (onPools (mapPools E n)) s = .ok e.code { s with store := t } :=
  statusOf_of_fail (zoom_of_fail h)

theorem poolsMap_cases {n : Nat} {err : Int}
    (h : statusOf (onPools (mapPools E n)) s = .ok err s') :
    (∃ t, mapPools E n s.store = .ok () t ∧ err = 0 ∧ s' = { s with store := t }) ∨
      ∃ e t, mapPools E n s.store = .fail e t := by
  unfold statusOf onPools zoom at h
  cases hr : mapPools E n s.store with
  | ok u t =>
    simp only [hr] at h
    obtain ⟨rfl, rfl⟩ := Run.ok.inj h
    exact .inl ⟨t, rfl, rfl, rfl⟩
  | fail e t => exact .inr ⟨e, t, rfl⟩
  | crash => simp only [hr] at h; cases h
  | spin => simp only [hr] at h; cases h

theorem Candidate.xal_eq (h : Candidate E s s₁) : s₁.xal = s.xal := by
  obtain ⟨b, rfl⟩ := h.eq
  rfl

/-- The header of a group cannot be read: the loop ends with its status. -/
theorem header_failed {seqno : Nat} {e : Err} {b : Buf} (hlt : seqno < s₁.sb.agcount)
    (hg : retrieveAllocationGroups E seqno 0 s₁ = .ok 0 s₂)
    (h : devRead E.dev (s₂.sb.sectsize * 4) (agOffset s₂.sb seqno) s₂.buf = .fail e b) :
    retrieveAllocationGroups E s₁.sb.agcount 0 s₁ = .ok e.code { s₂ with buf := b } := by
  have hneg : e.code ≠ 0 := Int.ne_of_lt ((devRead_negative _ _ _ _).fail h)
  obtain ⟨m, hm⟩ : ∃ m, s₁.sb.agcount = seqno + (m + 1) := ⟨s₁.sb.agcount - seqno - 1, by omega⟩
  rw [hm, groups_add, bind_of_ok hg, if_neg (not_not.2 rfl), Nat.zero_add, groups_succ]
  have hround : retrieveAndDecodeAllocationGroup E seqno s₂ = .ok e.code { s₂ with buf := b } := by
    unfold retrieveAndDecodeAllocationGroup
    rw [read_bind, bind_of_ok (ioRead_of_fail h), if_pos hneg, ret_apply]
  rw [bind_of_ok hround, if_pos hneg, ret_apply]

theorem groups_xal {n k : Nat} {err : Int} (h : retrieveAllocationGroups E n k s₁ = .ok err s₂) :
    s₂.xal = s₁.xal := by
  obtain ⟨-, -, b, ags, nallocated, rfl⟩ := (groups_spec E n k s₁).ok h
  rfl

/-- While the headers are read nothing is mapped. -/
theorem Candidate.unmapped {n : Nat} {err : Int} (hc : Candidate E s s₁)
    (h : retrieveAllocationGroups E n 0 s₁ = .ok err s₂) :
    s₂.store.inodes.reserved = 0 ∧ s₂.store.extents.reserved = 0 := by
  obtain ⟨-, -, b, ags, nallocated, rfl⟩ := (groups_spec E n 0 s₁).ok h
  obtain ⟨b', rfl⟩ := hc.eq
  exact ⟨rfl, rfl⟩

/-- The failure of a step gets through exactly where it is told. -/
theorem step_loud_iff {step : OpenStep} (h : FailsAt E s step) :
    (∃ err s', xalBeXfsOpen E s = .ok err s' ∧ err < 0 ∧ s'.xal = s.xal) ↔ Told E s step := by
  cases h with
  | bufAlloc ha =>
    have hr : xalBeXfsOpen E s = .ok (-E.errnoAfter .bufAlloc s.errno) (bufAsked E s) := by
      unfold xalBeXfsOpen
      rw [modify_bind, setErrno, modify_bind, if_pos ha]
      rfl
    rw [hr]
    constructor
    · rintro ⟨err, s', he, hneg, -⟩
      obtain ⟨rfl, -⟩ := Run.ok.inj he
      show 0 < E.errnoAfter .bufAlloc s.errno
      omega
    · intro (hpos : 0 < E.errnoAfter .bufAlloc s.errno)
      exact ⟨_, _, rfl, by omega, rfl⟩
  | superblock ha hread => exact (superblock_failed ha hread).loud_iff
  | callocXal ha hread hx =>
    rw [(callocXal_failed ha hread hx).loud_iff]
    exact and_iff_right (by decide)
  | callocAgs ha hread hx hg =>
    rw [(callocAgs_failed ha hread hx hg).loud_iff]
    exact and_iff_right (by decide)
  | @header s₁ s₂ seqno e b hc hlt hg hread =>
    have hneg := (devRead_negative _ _ _ _).fail hread
    obtain ⟨hi, hx⟩ := hc.unmapped hg
    refine (openFailed_loud_iff { s₂ with buf := b } hneg ((groups_xal hg).trans hc.xal_eq)
      ?_).trans (and_iff_right fun h => absurd h (not_unmapsNull hi hx))
    rw [hc.open_eq, openCandidate, bind_of_ok (header_failed hlt hg hread),
      if_pos (Int.ne_of_lt hneg)]
  | shmName hc hg hlong =>
    obtain ⟨hi, hx⟩ := hc.unmapped hg
    refine (openFailed_loud_iff _ (by decide : -EINVAL < 0) ((groups_xal hg).trans hc.xal_eq)
      ?_).trans (and_iff_right fun h => absurd h (not_unmapsNull hi hx))
    rw [hc.open_eq, openCandidate, bind_of_ok hg, if_neg (not_not.2 rfl), if_pos hlong]
  | @pools s₁ s₂ e t hc hg hshort hmap =>
    have hneg := (xalMapPools_negative _ _ _ _ _ _ _).fail hmap
    obtain ⟨hi, hx⟩ := hc.unmapped hg
    refine (openFailed_loud_iff { s₂ with store := t } hneg ((groups_xal hg).trans hc.xal_eq)
      ?_).trans ?_
    rotate_left
    · show (UnmapsNull E.osInodes E.osExtents E.shmName.isSome t → _) ∧ _ ↔
        _ ∧ (PoolLeftNull E → _)
      rw [mapPools_unmapsNull hi hx hmap, and_comm]
    rw [hc.open_eq, openCandidate, bind_of_ok hg, if_neg (not_not.2 rfl),
      if_neg (Nat.not_lt.2 hshort), read_bind, bind_of_ok (poolsMap_of_fail hmap),
      if_pos (Int.ne_of_lt hneg)]

/-- Where no step fails, a call that returns 0 has read all headers and mapped both pools. -/
theorem opened_of_no_failure (hno : ∀ step, ¬FailsAt E s step)
    (h : xalBeXfsOpen E s = .ok 0 s') : ∃ xal, XfsOpened E s' xal := by
  have ha : E.bufAlloc = true := by
    by_contra hc
    exact hno _ (.bufAlloc (Bool.eq_false_iff.2 hc))
  obtain ⟨s₁, hc⟩ : ∃ s₁, Candidate E s s₁ := by
    unfold xalBeXfsOpen at h
    rw [modify_bind, setErrno, modify_bind, if_neg (by rw [ha]; decide)] at h
    obtain ⟨err, s₁, hr, -⟩ := bind_ok.1 h
    have hr : retrieveAndDecodePrimarySuperblock E (bufAsked E s) = .ok err s₁ := hr
    rcases superblock_cases ha hr with ⟨b, rfl, rfl⟩ | ⟨-, step, hf⟩
    · exact ⟨_, ha, hr, rfl⟩
    · exact absurd hf (hno step)
  obtain ⟨b, hb⟩ := hc.eq
  rw [hc.open_eq, openCandidate] at h
  obtain ⟨err, s₂, hg, h⟩ := bind_ok.1 h
  obtain ⟨hle, hdone, b₂, ags, nallocated, hs₂⟩ := (groups_spec E _ _ s₁).ok hg
  by_cases herr : err ≠ 0
  · rw [if_pos herr] at h
    exact absurd (openFailed_ok.1 h).2.1.symm herr
  rw [if_neg herr] at h
  obtain rfl := not_not.1 herr
  by_cases hlong : shmNameMaxlen < shmNameLength E
  · exact absurd (.shmName hc hg hlong) (hno _)
  rw [if_neg hlong, read_bind] at h
  obtain ⟨err, s₃, hstatus, h⟩ := bind_ok.1 h
  rcases poolsMap_cases hstatus with ⟨t, hmap, rfl, rfl⟩ | ⟨e, t, hmap⟩
  · rw [if_neg (not_not.2 rfl), modify_bind, ret_apply] at h
    obtain ⟨-, rfl⟩ := Run.ok.inj h
    subst hs₂ hb
    refine ⟨_, rfl, fun seqno hlt => ?_, ⟨b, t, hmap, rfl⟩, rfl⟩
    exact (hdone rfl).1 seqno (Nat.zero_le _) (by rw [Nat.zero_add]; exact hlt)
  · exact absurd (.pools hc hg (Nat.not_lt.1 hlong) hmap) (hno _)

/-- A device that takes no reads of more than 2048 bytes; `errno` is what it was. -/
def smallReads (errno : Int) : XfsOpenEnv × XfsOpening :=
  ({ dev := ⟨2048, 512, fun _ _ => none, fun _ => 0⟩
     bufAlloc := true
     callocXal := true
     callocAgs := true
     errnoAfter := fun _ errno => errno
     bufFreeNull := true
     munmapNull := true
     osInodes := ⟨0, 0, 0⟩
     osExtents := ⟨0, 0, 0⟩
     mpInodes := ⟨fun _ => 0, 0⟩
     mpExtents := ⟨fun _ => 0, 0⟩
     shmName := none },
   { errno, buf := fun _ => 0, cand := false, sb := default, ags := default,
     store := ⟨default, default, fun _ => 0⟩, xal := none })

/-- What a pool maps to does not depend on the buffer. -/
theorem xalMapPools_be {osI osX : MapAnswers} {mpI mpX : Mprotect} {n : Nat} {shm : Bool}
    {p : XalPool XalInode} {q : XalPool XalExtent} {b : Buf} {t : Store Buf}
    (h : xalMapPools osI osX mpI mpX n shm ⟨p, q, b⟩ = .ok () t) (b' : Buf) :
    xalMapPools osI osX mpI mpX n shm ⟨p, q, b'⟩ = .ok () { t with be := b' } := by
  unfold xalMapPools at h ⊢
  obtain ⟨_, t₁, hi, hx⟩ := bind_ok.1 h
  obtain ⟨p', hp, rfl⟩ := zoom_ok.1 hi
  obtain ⟨q', hq, rfl⟩ := zoom_ok.1 hx
  refine (bind_of_ok (zoom_of_ok (s := (⟨p, q, b'⟩ : Store Buf)) hp)).trans ?_
  exact zoom_of_ok (s := (⟨p', q, b'⟩ : Store Buf)) hq

/-- A `struct xal` that has been opened is one that indexing may begin with. -/
theorem XfsOpened.justOpened {xal : Xal Buf} (h : XfsOpened E s' xal)
    (hI : E.mpInodes.Bounded poolReserved inodeNbytes)
    (hX : E.mpExtents.Bounded poolReserved extentNbytes) :
    JustOpened .xfs E.shmName.isSome xal := by
  obtain ⟨b, t, hmap, hstore⟩ := h.pools
  have hplain := h.plain
  refine ⟨congrArg Xal.type hplain, congrArg Xal.rootIdx hplain, congrArg Xal.dirty hplain,
    congrArg Xal.seqLock hplain, congrArg Xal.sharedView hplain, ?_⟩
  refine ⟨E.osInodes, E.osExtents, E.mpInodes, E.mpExtents, xal.sb.nallocated, s'.buf, hI, hX, ?_⟩
  rw [hstore]
  exact xalMapPools_be hmap s'.buf

end

end Xallib
