import Xallib.Xfs.Btree

/-!
# What is read behind the local arrays

The decoders copy a block to a local array of `blockNbytesMax` bytes, and do not look where it ends:
what they read behind it is what is on the stack (`XnvmeDev.stray`). `DirInside`: nothing that is
decoded of a directory is read there, neither an entry of a directory block nor a record of a leaf,
as far as the decoders come. `decodeDentry_congr`, `blockRead_stray`: then it plays no part.
-/

namespace Xallib

open Lib Lib.Buf

/-- The same device with other bytes behind the arrays. -/
def XnvmeDev.withStray (dev : XnvmeDev) (stray : Buf) : XnvmeDev := { dev with stray }

/-- What `decodeDentry` reads at `ofz` is in the array. -/
def DentryInside (dblock : Buf) (ofz : Nat) : Prop :=
  if be16 dblock ofz = 0xffff then ofz + 4 ≤ blockNbytesMax
  else ofz + 10 + (dblock (ofz + 8)).toNat ≤ blockNbytesMax

instance (dblock : Buf) (ofz : Nat) : Decidable (DentryInside dblock ofz) := by
  unfold DentryInside
  infer_instance

section
variable (E : XfsEnv)

/-- So is what is decoded of a directory block, from offset `ofz` on. -/
def EntriesInside (dblock : Buf) : Nat → Nat → Prop
  | 0, _ => True
  | fuel + 1, ofz => ofz < E.sb.dirblocksize → DentryInside dblock ofz ∧
    (¬((decodeDentry dblock ofz).2.ino = 0 ∨ (decodeDentry dblock ofz).2.namelen = 0) →
      EntriesInside dblock fuel (ofz + (decodeDentry dblock ofz).1))

def DblockInside (fsbno : Nat) : Prop := ∀ dblock, dblockAt E fsbno = some dblock →
  dblockMagicOk dblock = true → EntriesInside E dblock (E.sb.dirblocksize + 1) 64

/-- The directory blocks of an extent, block `k` on, up to the first that does not go on; `next`
is about what comes after them. -/
def BlocksInside (start nblocks : Nat) (goesOn : Nat → Prop) (next : Prop) : Nat → Nat → Prop
  | 0, _ => next
  | n + 1, k =>
    if k * fsblkPerDblk E < nblocks then DblockInside E (start + k * fsblkPerDblk E) ∧
      (goesOn (start + k * fsblkPerDblk E) → BlocksInside start nblocks goesOn next n (k + 1))
    else next

/-- A directory block that does not end the decoding of a leaf. -/
def DblockPasses (fsbno : Nat) : Prop :=
  ∃ dblock, dblockAt E fsbno = some dblock ∧ dblockMagicOk dblock = true

/-- The records of a leaf, record `i` on. -/
def RecordsInside (block : Buf) : Nat → Nat → Prop
  | 0, _ => True
  | n + 1, i => 72 + 16 * i + 16 ≤ blockNbytesMax ∧
    BlocksInside E (xfsExtentAt block (72 + 16 * i)).startBlock
      (xfsExtentAt block (72 + 16 * i)).nblocks (DblockPasses E) (RecordsInside block n (i + 1))
      (xfsExtentAt block (72 + 16 * i)).nblocks 0

def LblockInside (fsbno : Nat) : Prop := ∀ block, lblockAt E fsbno = some block →
  be32 block 0 = bmapCrcMagic → blockLevel block = 0 →
    RecordsInside E block (blockNumrecs block) 0

variable (dinode : Nat)

/-- The extents of the data fork, extent `i` on, with the bytes left of the directory. -/
def ForkInside : Nat → Nat → Int → Prop
  | 0, _, _ => True
  | n + 1, i, nbytes => nbytes > 0 →
    let extent := xfsExtentAt E.dinodes (dfork dinode + 16 * i)
    BlocksInside E extent.startBlock extent.nblocks (fun _ => True)
      (ForkInside n (i + 1) (nbytes - extent.nblocks * E.sb.blocksize)) extent.nblocks 0

/-- What is decoded of a directory is read in the arrays (module doc). -/
structure DirInside : Prop where
  btree : diFormat E dinode = fmtBtree → ∀ p ∈ dirFsbnos E dinode, LblockInside E p
  extents : diFormat E dinode = fmtExtents →
    ForkInside E dinode (diNextents E dinode) 0 (signed64 (diSize E dinode))

end

section
variable {dev : XnvmeDev} {count offset : Nat} {b b' : Buf}

/-- The blocks that are read are the same in the arrays. -/
theorem blockRead_stray (stray : Buf) (h : blockRead dev count offset = some b) :
    ∃ b', blockRead (dev.withStray stray) count offset = some b' ∧
      ∀ i < blockNbytesMax, b' i = b i := by
  unfold blockRead at h ⊢
  by_cases hc : count ≤ dev.mdtsNbytes ∧ count % dev.lbaNbytes = 0 ∧ offset % dev.lbaNbytes = 0 ∧
      count ≤ blockNbytesMax ∧ (nlbOf dev count + 1) * dev.lbaNbytes ≤ bufNbytes
  · rw [if_pos hc, Option.map_eq_some_iff] at h
    obtain ⟨data, hdata, rfl⟩ := h
    have hnlb : nlbOf (dev.withStray stray) count = nlbOf dev count := rfl
    refine ⟨_, (if_pos hc).trans (Option.map_eq_some_iff.2 ⟨data, hdata, rfl⟩), fun i hi => ?_⟩
    simp only [hnlb, hi, if_true]
    rfl
  · rw [if_neg hc] at h
    cases h

theorem decodeDentry_congr {ofz : Nat} (hb : ∀ i < blockNbytesMax, b' i = b i)
    (h : DentryInside b ofz) : decodeDentry b' ofz = decodeDentry b ofz := by
  unfold DentryInside at h
  by_cases htag : be16 b ofz = 0xffff
  · rw [if_pos htag] at h
    have htag' : be16 b' ofz = 0xffff :=
      (be16_congr fun i _ hi => hb i (by omega)).trans htag
    simp only [decodeDentry, htag, htag', if_true]
    rw [be16_congr fun i _ hi => hb i (by omega)]
  · rw [if_neg htag] at h
    have htag' : be16 b' ofz = be16 b ofz := be16_congr fun i _ hi => hb i (by omega)
    have hlen : b' (ofz + 8) = b (ofz + 8) := hb _ (by omega)
    have hino : be64 b' ofz = be64 b ofz := be64_congr fun i hi => hb _ (by omega)
    have htype : b' (ofz + 9 + (b (ofz + 8)).toNat) = b (ofz + 9 + (b (ofz + 8)).toNat) :=
      hb _ (by omega)
    have hname : b'.slice (ofz + 9) (b (ofz + 8)).toNat = b.slice (ofz + 9) (b (ofz + 8)).toNat :=
      slice_congr fun i _ hi => hb i (by omega)
    simp only [decodeDentry, htag', htag, if_false, hlen, hino, htype, hname]

/-- A record of a leaf that is in the array. -/
theorem xfsExtentAt_inside {ofz : Nat} (hb : ∀ i < blockNbytesMax, b' i = b i)
    (h : ofz + 16 ≤ blockNbytesMax) : xfsExtentAt b' ofz = xfsExtentAt b ofz := by
  rw [xfsExtentAt, xfsExtentAt, be64_congr fun i hi => hb _ (by omega),
    be64_congr fun i hi => hb _ (by omega)]

/-- A pointer of a node that is in the array. -/
theorem lblockPointer_stray {E : XfsEnv} {i : Nat} (h : 8 * i + 8 ≤ blockNbytesMax) (b : Buf) :
    lblockPointer { E with dev := E.dev.withStray stray } b i = lblockPointer E b i := by
  refine be64_congr fun j hj => ?_
  simp only [nodePointers, XnvmeDev.withStray]
  rw [if_pos (show i * 8 + j < blockNbytesMax by omega),
    if_pos (show i * 8 + j < blockNbytesMax by omega)]

/-- The blocks of an extent that all go on. -/
theorem BlocksInside.next {E : XfsEnv} {start nblocks : Nat} {goesOn : Nat → Prop} {next : Prop}
    {body : Nat → Xm Bool} (hgo : ∀ fsbno s s', body fsbno s = .ok true s' → goesOn fsbno)
    (n : Nat) : ∀ {k : Nat} {s s' : Store Buf}, BlocksInside E start nblocks goesOn next n k →
      forDblocks E start nblocks body n k s = .ok true s' → next := by
  induction n with
  | zero => exact fun h _ => h
  | succ n ih =>
    intro k s s' h hr
    unfold BlocksInside at h
    unfold forDblocks at hr
    by_cases hk : k * fsblkPerDblk E < nblocks
    · rw [if_pos hk] at h hr
      obtain ⟨more, t, hbody, hr⟩ := Cm.bind_ok.1 hr
      cases more with
      | false => cases hr
      | true => exact ih (h.2 (hgo _ _ _ hbody)) hr
    · rwa [if_neg hk] at h

end

end Xallib
