import Xallib.Xfs.Index

/-!
# `xal_be_xfs_open`

The statuses of the functions here are the C values (0, or what else a function returns), since some
of them return `-errno` for whatever `errno` holds. `errno` is part of the state; what a call leaves
in it is a parameter (`errnoAfter`), except for `calloc`, which sets `ENOMEM` where it fails. On its
error path the function calls `xal_close` for a candidate that has no device handle yet; whether
`xnvme_buf_free` comes back without one is a parameter too (`bufFreeNull`), and so is what happens
where a pool is unmapped through a null pointer (`munmapNull`).
-/

namespace Xallib

open Lib Lib.Cm Lib.Buf

/-- `XAL_ODF_AGF_MAGIC`, `XAL_ODF_AGI_MAGIC` -/
def agfMagic : Nat := 0x58414746
def agiMagic : Nat := 0x58414749

/-- `XAL_PATH_MAXLEN` as the limit of `shm_name`. -/
def shmNameMaxlen : Nat := 255

/-- `struct xal_ag`, with what the retrieval of inodes does not read. -/
structure XalAgHeader extends XalAg where
  agfLength : Nat
  agiCount : Nat
  agiLevel : Nat
  deriving DecidableEq, Repr, Inhabited

/-- The calls after which `errno` may be read. -/
inductive OpenCall
  | bufAlloc | superblock | callocXal | callocAgs | bufFree
  deriving DecidableEq, Repr

structure XfsOpenEnv where
  dev : XnvmeDev
  bufAlloc : Bool
  callocXal : Bool
  callocAgs : Bool
  errnoAfter : OpenCall → Int → Int
  bufFreeNull : Bool
  munmapNull : Bool
  osInodes : MapAnswers
  osExtents : MapAnswers
  mpInodes : Mprotect
  mpExtents : Mprotect
  shmName : Option CStr

/-- `errno`, the I/O buffer, the candidate (whether there is one, and its fields) and `*xal`. -/
structure XfsOpening where
  errno : Int
  buf : Buf
  cand : Bool
  sb : XalSb
  ags : Nat → XalAgHeader
  store : Store Buf
  xal : Option (Xal Buf)

abbrev Om (α : Type) := Cm Err XfsOpening α

/-- The status of a call, as a value. -/
def statusOf {σ : Type} (x : Cm Err σ Unit) : Cm Err σ Int := fun s =>
  match x s with
  | .ok _ s' => .ok 0 s'
  | .fail e s' => .ok e.code s'
  | .crash => .crash
  | .spin => .spin

def onIobuf {α : Type} (x : Cm Err Buf α) : Om α :=
  zoom (·.buf) (fun s b => { s with buf := b }) x

def onPools {α : Type} (x : Cm Err (Store Buf) α) : Om α :=
  zoom (·.store) (fun s t => { s with store := t }) x

/-- The superblock, from the buffer it has been read to. -/
def psbDecode (psb : Buf) : XalSb :=
  { (default : XalSb) with
    blocksize := be32 psb 4
    sectsize := be16 psb 102
    inodesize := be16 psb 104
    inopblock := be16 psb 106
    inopblog := (psb 123).toNat
    icount := be64 psb 128
    rootino := be64 psb 56
    agblocks := be32 psb 84
    agblklog := (psb 124).toNat
    agcount := be32 psb 88
    -- the processor takes the count of the shift modulo 32
    dirblocksize := be32 psb 4 * 2 ^ ((psb 192).toNat % 32) % 2 ^ 32 }

/-- `(off_t)seqno * (off_t)agblocks * (off_t)blocksize` -/
def agOffset (sb : XalSb) (seqno : Nat) : Nat := seqno * sb.agblocks * sb.blocksize % 2 ^ 64

/-- The headers of an allocation group, from the buffer they have been read to: the AGF in the
second sector, the AGI in the third. -/
def agDecode (sb : XalSb) (seqno : Nat) (buf : Buf) : XalAgHeader where
  seqno
  offset := agOffset sb seqno
  agfLength := be32 buf (sb.sectsize + 12)
  agiCount := be32 buf (sb.sectsize * 2 + 16)
  agiLevel := be32 buf (sb.sectsize * 2 + 24)
  agiRoot := be32 buf (sb.sectsize * 2 + 20)

section
variable (E : XfsOpenEnv)

/-- What the call leaves in `errno`. -/
def setErrno (call : OpenCall) : Om Unit :=
  modify fun s => { s with errno := E.errnoAfter call s.errno }

/-- `return -errno` -/
def retErrno : Om Int := do
  let s ← read
  pure (-s.errno)

def retrieveAndDecodeAllocationGroup (seqno : Nat) : Om Int := do
  let s ← read
  let err ← statusOf (onIobuf (devRead E.dev (s.sb.sectsize * 4) (agOffset s.sb seqno)))
  if err ≠ 0 then pure err
  else do
    modify fun s => { s with
      ags := fun i => if i = seqno then agDecode s.sb seqno s.buf else s.ags i }
    let s ← read
    assert (be32 s.buf s.sb.sectsize = agfMagic)
    assert (be32 s.buf (s.sb.sectsize * 2) = agiMagic)
    assert (seqno = be32 s.buf (s.sb.sectsize * 2 + 8))
    assert (seqno = be32 s.buf (s.sb.sectsize + 8))
    pure 0

/-- The loop over the allocation groups, from `seqno` on. -/
def retrieveAllocationGroups : Nat → Nat → Om Int
  | 0, _ => pure 0
  | n + 1, seqno => do
    let err ← retrieveAndDecodeAllocationGroup E seqno
    if err ≠ 0 then pure err
    else do
      modify fun s => { s with
        sb := { s.sb with nallocated := (s.sb.nallocated + (s.ags seqno).agiCount) % 2 ^ 64 } }
      retrieveAllocationGroups n (seqno + 1)

def retrieveAndDecodePrimarySuperblock : Om Int := do
  let err ← statusOf (onIobuf (devRead E.dev 4096 0))
  setErrno E .superblock
  -- `return -errno`, not `err`
  if err ≠ 0 then retErrno
  else if E.callocXal = false then do
    modify fun s => { s with errno := ENOMEM }
    retErrno
  else do
    setErrno E .callocXal
    if E.callocAgs = false then do
      modify fun s => { s with errno := ENOMEM }
      retErrno
    else do
      setErrno E .callocAgs
      modify fun s => { s with
        cand := true
        sb := psbDecode s.buf
        store := ⟨default, default, s.buf⟩ }
      pure 0

/-- `xal_close(cand)`, whose device handle is not set, and `return err`. -/
def openFailed (err : Int) : Om Int := do
  onPools (onInodes (xalPoolUnmap E.osInodes E.shmName.isSome E.munmapNull))
  onPools (onExtents (xalPoolUnmap E.osExtents E.shmName.isSome E.munmapNull))
  assert (E.bufFreeNull = true)
  modify fun s => { s with cand := false }
  pure err

def xalBeXfsOpen : Om Int := do
  modify fun s => { s with cand := false }
  setErrno E .bufAlloc
  if E.bufAlloc = false then retErrno
  else do
    let err ← retrieveAndDecodePrimarySuperblock E
    if err ≠ 0 then do
      setErrno E .bufFree
      retErrno
    else do
      let s ← read
      -- the functions of the backend are written to `cand->be`
      assert (s.cand = true)
      let err ← retrieveAllocationGroups E s.sb.agcount 0
      if err ≠ 0 then openFailed E err
      else if shmNameMaxlen < (E.shmName.map List.length).getD 0 then openFailed E (-EINVAL)
      else do
        let s ← read
        let err ← statusOf (onPools (xalMapPools E.osInodes E.osExtents E.mpInodes E.mpExtents
          s.sb.nallocated E.shmName.isSome))
        if err ≠ 0 then openFailed E err
        else do
          modify fun s => { s with xal := some {
            type := .xfs
            sb := s.sb
            rootIdx := poolIdxNone
            store := { s.store with be := s.buf }
            dirty := false
            seqLock := 0
            sharedView := false } }
          pure 0

end

end Xallib
