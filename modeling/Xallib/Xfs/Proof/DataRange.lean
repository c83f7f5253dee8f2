import Xallib.Xfs.Entries

/-!
# The data range of a directory

`InDataRange E dinode b`: the decoder of the directory goes over the block `b`, which lies before
the end of the directory. The mapping of a directory to blocks is in the order of their offsets, so
that these are its blocks up to the first one at or past `di_size`; what follows are the blocks of
its hash index.

`decodedIn_iff`: where a directory is listed, the entries of each block of its data range are among
those listed exactly if the magic numbers of these blocks are right.
-/

namespace Xallib

open Lib Lib.Buf

/-! ## Blocks -/

/-- A directory block: where it is in the directory and where in the file system, in blocks of the
latter. -/
structure DirBlock where
  offset : Nat
  fsbno : Nat
  deriving DecidableEq, Repr

section
variable (E : XfsEnv)

/-- The directory blocks of an extent, block `k` on, at most `n`. -/
def extentBlocks (e : XalExtent) : Nat → Nat → List DirBlock
  | 0, _ => []
  | n + 1, k =>
    if k * fsblkPerDblk E < e.nblocks then
      ⟨e.startOffset + k * fsblkPerDblk E, e.startBlock + k * fsblkPerDblk E⟩ ::
        extentBlocks e n (k + 1)
    else []

/-- Those of `n` records of a leaf, record `i` on. -/
def leafBlocks (block : Buf) : Nat → Nat → List DirBlock
  | 0, _ => []
  | n + 1, i =>
    let extent := xfsExtentAt block (72 + 16 * i)
    extentBlocks E extent extent.nblocks 0 ++ leafBlocks block n (i + 1)

variable (dinode : Nat)

/-- Those of the data fork, extent `i` on, with the bytes left of the directory. -/
def forkBlocks : Nat → Nat → Int → List DirBlock
  | 0, _, _ => []
  | n + 1, i, nbytes =>
    if nbytes > 0 then
      let extent := xfsExtentAt E.dinodes (dfork dinode + 16 * i)
      extentBlocks E extent extent.nblocks 0 ++
        forkBlocks n (i + 1) (nbytes - extent.nblocks * E.sb.blocksize)
    else []

/-- The blocks up to the first one at or past the end of the directory. -/
def dataBlocks (bs : List DirBlock) : List DirBlock :=
  bs.takeWhile fun b => decide (b.offset * E.sb.blocksize < diSize E dinode)

/-- A block of the data range (module doc). -/
inductive InDataRange : DirBlock → Prop
  | leaf {p : Nat} {block : Buf} {b : DirBlock} : diFormat E dinode = fmtBtree →
      p ∈ dirFsbnos E dinode → lblockAt E p = some block →
      b ∈ dataBlocks E dinode (leafBlocks E block (blockNumrecs block) 0) → InDataRange b
  | fork {b : DirBlock} : diFormat E dinode = fmtExtents →
      b ∈ dataBlocks E dinode
        (forkBlocks E dinode (diNextents E dinode) 0 (signed64 (diSize E dinode))) → InDataRange b

/-- The magic number of a directory block is right. -/
def MagicOk (fsbno : Nat) : Prop := ∀ dblock, dblockAt E fsbno = some dblock →
  dblockMagicOk dblock = true

/-- A directory block whose magic number is right, and whose entries are among `l`. -/
def DecodedIn (l : List XalInode) (fsbno : Nat) : Prop :=
  ∃ dblock m, dblockAt E fsbno = some dblock ∧
  dblockMagicOk dblock = true ∧ dblockYield E 0 dblock (E.sb.dirblocksize + 1) 64 = some (m, ()) ∧
    m <:+: l

/-- The entries of blocks, until `step` ends it. -/
def blocksYield (step : Nat → Yield Bool) : List DirBlock → Yield Bool
  | [] => pure true
  | b :: bs => do
    let more ← step b.fsbno
    if more then blocksYield step bs else pure false

/-- `process_dinode_dir_extents_dblock`, after which the loop always goes on. -/
def forkDblockYield (self fsbno : Nat) : Yield Bool := do
  dirDblockYield E self fsbno
  pure true

end

section
variable {E : XfsEnv} {dinode fsbno : Nat} {l m : List XalInode}

theorem DecodedIn.magicOk (h : DecodedIn E l fsbno) : MagicOk E fsbno := by
  obtain ⟨dblock, -, hd, hmagic, -, -⟩ := h
  intro dblock' hd'
  obtain rfl := Option.some.inj (hd.symm.trans hd')
  exact hmagic

theorem DecodedIn.mono (h : DecodedIn E l fsbno) (hl : l <:+: m) : DecodedIn E m fsbno := by
  obtain ⟨dblock, k, hd, hmagic, hy, hk⟩ := h
  exact ⟨dblock, k, hd, hmagic, hy, hk.trans hl⟩

/-! ## The loops -/

theorem yield_ret {α : Type} {a b : α} (h : (pure a : Yield α) = some (l, b)) : l = [] ∧ a = b := by
  obtain ⟨hl, hb⟩ := Prod.mk.inj (Option.some.inj h)
  exact ⟨hl.symm, hb⟩

theorem yield_bind_some {α β : Type} {y : Yield α} {f : α → Yield β} {b : β}
    (h : (y >>= f) = some (l, b)) :
    ∃ l₁ a l₂, y = some (l₁, a) ∧ f a = some (l₂, b) ∧ l = l₁ ++ l₂ := by
  cases y with
  | none => cases h
  | some la =>
    obtain ⟨l₁, a⟩ := la
    have h : Yield.bind (some (l₁, a)) f = some (l, b) := h
    rw [Yield.bind] at h
    cases hf : f a with
    | none => rw [hf] at h; cases h
    | some mb =>
      rw [hf] at h
      obtain ⟨rfl, rfl⟩ := Prod.mk.inj (Option.some.inj h)
      exact ⟨l₁, a, mb.1, rfl, hf, rfl⟩

theorem yield_bind_of_some {α β : Type} {y : Yield α} {f : α → Yield β} {a : α} {b : β}
    (hy : y = some (l, a)) (hf : f a = some (m, b)) : (y >>= f) = some (l ++ m, b) := by
  subst hy
  show Yield.bind (some (l, a)) f = _
  rw [Yield.bind, hf]

variable {step : Nat → Yield Bool} {more : Bool}

theorem blocksYield_append {bs cs : List DirBlock} (h : blocksYield step bs = some (l, true))
    (hcs : blocksYield step cs = some (m, more)) :
    blocksYield step (bs ++ cs) = some (l ++ m, more) := by
  induction bs generalizing l with
  | nil =>
    obtain ⟨rfl, -⟩ := yield_ret h
    exact hcs
  | cons b bs ih =>
    obtain ⟨l₁, a, l₂, hb, h, rfl⟩ := yield_bind_some h
    rw [List.append_assoc]
    refine yield_bind_of_some hb ?_
    cases a with
    | true => exact ih h
    | false => cases h

theorem blocksYield_append_stop {bs : List DirBlock} (h : blocksYield step bs = some (l, false))
    (cs : List DirBlock) : blocksYield step (bs ++ cs) = some (l, false) := by
  induction bs generalizing l with
  | nil => cases h
  | cons b bs ih =>
    obtain ⟨l₁, a, l₂, hb, h, rfl⟩ := yield_bind_some h
    refine yield_bind_of_some hb ?_
    cases a with
    | true => exact ih h
    | false => exact h

/-- The loop over an extent. -/
theorem dblocksYield_blocks (e : XalExtent) (n : Nat) : ∀ (k : Nat) {r : List XalInode × Bool},
    dblocksYield E e.startBlock e.nblocks step n k = some r →
      blocksYield step (extentBlocks E e n k) = some r := by
  induction n with
  | zero =>
    intro k r h
    unfold dblocksYield at h
    by_cases hk : k * fsblkPerDblk E < e.nblocks
    · rw [if_pos hk] at h
      cases h
    · rw [if_neg hk] at h
      exact h
  | succ n ih =>
    intro k r h
    obtain ⟨l, more⟩ := r
    unfold dblocksYield at h
    unfold extentBlocks
    by_cases hk : k * fsblkPerDblk E < e.nblocks
    · rw [if_pos hk] at h ⊢
      obtain ⟨l₁, a, l₂, hb, h, rfl⟩ := yield_bind_some h
      refine yield_bind_of_some hb ?_
      cases a with
      | true => exact ih (k + 1) h
      | false => exact h
    · rw [if_neg hk] at h ⊢
      exact h

/-- The loop over the records of a leaf. -/
theorem leafRecordsYield_blocks {self : Nat} {block : Buf} (n : Nat) :
    ∀ (i : Nat) {l : List XalInode},
    leafRecordsYield E self block n i = some (l, ()) →
      ∃ more, blocksYield (leafDblockYield E self) (leafBlocks E block n i) = some (l, more) := by
  induction n with
  | zero =>
    intro i l h
    obtain ⟨rfl, -⟩ := yield_ret h
    exact ⟨true, rfl⟩
  | succ n ih =>
    intro i l h
    obtain ⟨l₁, a, l₂, hb, h, rfl⟩ := yield_bind_some h
    have hb := dblocksYield_blocks _ _ _ hb
    cases a with
    | true =>
      obtain ⟨more, h⟩ := ih (i + 1) h
      exact ⟨more, blocksYield_append hb h⟩
    | false =>
      obtain ⟨rfl, -⟩ := yield_ret h
      rw [List.append_nil]
      exact ⟨false, blocksYield_append_stop hb _⟩

theorem forkDblockYield_goes {self : Nat} (h : forkDblockYield E self fsbno = some (l, more)) :
    dirDblockYield E self fsbno = some (l, ()) ∧ more = true := by
  obtain ⟨l₁, a, l₂, hb, hret, rfl⟩ := yield_bind_some h
  obtain ⟨rfl, rfl⟩ := yield_ret hret
  rw [List.append_nil]
  exact ⟨hb, rfl⟩

theorem forkBlocksYield_goes {self : Nat} {bs : List DirBlock}
    (h : blocksYield (forkDblockYield E self) bs = some (l, more)) : more = true := by
  induction bs generalizing l with
  | nil => exact (yield_ret h).2.symm
  | cons b bs ih =>
    obtain ⟨l₁, a, l₂, hb, hbs, rfl⟩ := yield_bind_some h
    obtain ⟨-, rfl⟩ := forkDblockYield_goes hb
    exact ih hbs

/-- The loop over the extents of the data fork. -/
theorem dirExtentsYield_blocks {self : Nat} (n : Nat) :
    ∀ (i : Nat) (nbytes : Int) {l : List XalInode}
    {ran : Bool}, dirExtentsYield E self dinode n i nbytes = some (l, ran) →
      blocksYield (forkDblockYield E self) (forkBlocks E dinode n i nbytes) = some (l, true) := by
  induction n with
  | zero =>
    intro i nbytes l ran h
    obtain ⟨rfl, -⟩ := yield_ret h
    rfl
  | succ n ih =>
    intro i nbytes l ran h
    unfold dirExtentsYield at h
    unfold forkBlocks
    by_cases hb : nbytes > 0
    · rw [if_pos hb] at h ⊢
      obtain ⟨l₁, a, l₂, hext, hrest, rfl⟩ := yield_bind_some h
      obtain ⟨l₃, ran', l₄, hloop, hret, rfl⟩ := yield_bind_some hrest
      obtain ⟨rfl, -⟩ := yield_ret hret
      have hext : blocksYield (forkDblockYield E self) _ = _ := dblocksYield_blocks _ _ _ hext
      obtain rfl := forkBlocksYield_goes hext
      rw [List.append_nil]
      exact blocksYield_append hext (ih _ _ hloop)
    · rw [if_neg hb] at h ⊢
      obtain ⟨rfl, -⟩ := yield_ret h
      rfl

/-! ## What is decoded -/

/-- Where the magic numbers are right up to a block, the loop gets to it. -/
theorem blocksYield_decoded (hstep : ∀ fsbno l more, step fsbno = some (l, more) → MagicOk E fsbno →
      DecodedIn E l fsbno ∧ more = true) {P : DirBlock → Bool} {bs : List DirBlock}
    (h : blocksYield step bs = some (l, more)) (hok : ∀ b ∈ bs.takeWhile P, MagicOk E b.fsbno) :
    ∀ b ∈ bs.takeWhile P, DecodedIn E l b.fsbno := by
  induction bs generalizing l with
  | nil => exact fun b hb => absurd hb List.not_mem_nil
  | cons b bs ih =>
    cases hP : P b with
    | false =>
      rw [List.takeWhile_cons_of_neg (by rw [hP]; exact Bool.false_ne_true)]
      exact fun b hb => absurd hb List.not_mem_nil
    | true =>
      rw [List.takeWhile_cons_of_pos hP, List.forall_mem_cons] at hok ⊢
      obtain ⟨l₁, a, l₂, hb, h, rfl⟩ := yield_bind_some h
      obtain ⟨hdec, rfl⟩ := hstep _ _ _ hb hok.1
      exact ⟨hdec.mono (List.prefix_append _ _).isInfix,
        fun c hc => (ih h hok.2 c hc).mono (List.suffix_append _ _).isInfix⟩

/-- Reading one block. -/
theorem ofOption_bind_some {α : Type} {x : Option Buf} {f : Buf → Yield α} {a : α}
    (h : (Yield.ofOption x >>= f) = some (l, a)) : ∃ block, x = some block ∧
      f block = some (l, a) := by
  cases x with
  | none => cases h
  | some block =>
    obtain ⟨l₁, b, l₂, hb, hf, rfl⟩ := yield_bind_some h
    obtain ⟨rfl, rfl⟩ := Prod.mk.inj (Option.some.inj hb)
    exact ⟨block, rfl, hf⟩

theorem leafDblockYield_decoded (h : leafDblockYield E 0 fsbno = some (l, more))
    (hok : MagicOk E fsbno) : DecodedIn E l fsbno ∧ more = true := by
  obtain ⟨dblock, hd, h⟩ := ofOption_bind_some h
  rw [if_pos (hok dblock hd)] at h
  obtain ⟨l₁, a, l₂, hb, hret, rfl⟩ := yield_bind_some h
  obtain ⟨rfl, rfl⟩ := yield_ret hret
  rw [List.append_nil]
  exact ⟨⟨dblock, l₁, hd, hok dblock hd, hb, List.infix_refl l₁⟩, rfl⟩

theorem forkDblockYield_decoded (h : forkDblockYield E 0 fsbno = some (l, more))
    (hok : MagicOk E fsbno) : DecodedIn E l fsbno ∧ more = true := by
  obtain ⟨hy, rfl⟩ := forkDblockYield_goes h
  obtain ⟨dblock, hd, hy⟩ := ofOption_bind_some hy
  rw [if_pos (hok dblock hd)] at hy
  exact ⟨⟨dblock, l, hd, hok dblock hd, hy, List.infix_refl l⟩, rfl⟩

theorem mapM_infix {ls : List Nat} {f : Nat → Option (List XalInode)} :
    ∀ {ms : List (List XalInode)}, ls.mapM f = some ms → ∀ p ∈ ls, ∃ m, f p = some m ∧
      m <:+: ms.flatten := by
  induction ls with
  | nil => exact fun _ p hp => absurd hp List.not_mem_nil
  | cons q ls ih =>
    intro ms h
    rw [List.mapM_cons] at h
    obtain ⟨m, hq, h⟩ := Option.bind_eq_some_iff.1 h
    obtain ⟨ms', hls, h⟩ := Option.bind_eq_some_iff.1 h
    obtain rfl := Option.some.inj h
    rw [List.flatten_cons, List.forall_mem_cons]
    refine ⟨⟨m, hq, (List.prefix_append _ _).isInfix⟩, fun p hp => ?_⟩
    obtain ⟨m', hp', hm'⟩ := ih hls p hp
    exact ⟨m', hp', hm'.trans (List.suffix_append _ _).isInfix⟩

/-- The blocks of a leaf. -/
theorem lblockYield_blocks {p : Nat} {block : Buf} (hblock : lblockAt E p = some block)
    (h : (lblockYield E 0 p).list = some l) :
    ∃ more, blocksYield (leafDblockYield E 0) (leafBlocks E block (blockNumrecs block) 0) =
      some (l, more) := by
  obtain ⟨la, hy, rfl⟩ := Option.map_eq_some_iff.1 h
  obtain ⟨block', hblock', hy⟩ := ofOption_bind_some hy
  obtain rfl := Option.some.inj (hblock.symm.trans hblock')
  unfold leafYield at hy
  split at hy
  · exact leafRecordsYield_blocks _ _ hy
  · cases hy

/-- A listed directory has decoded its data range exactly if no magic number there is wrong. -/
theorem decodedIn_iff (h : dirListing E dinode = some l) :
    (∀ b, InDataRange E dinode b → DecodedIn E l b.fsbno) ↔
      ∀ b, InDataRange E dinode b → MagicOk E b.fsbno := by
  constructor
  · exact fun hall b hb => (hall b hb).magicOk
  · intro hok b hb
    cases hb with
    | @leaf p block b hfmt hp hblock hb =>
      rw [dirListing, if_pos hfmt] at h
      obtain ⟨ms, hms, rfl⟩ := Option.map_eq_some_iff.1 h
      obtain ⟨m, hm, hin⟩ := mapM_infix hms p hp
      obtain ⟨more, hy⟩ := lblockYield_blocks hblock hm
      exact (blocksYield_decoded (fun _ _ _ => leafDblockYield_decoded) hy
        (fun c hc => hok c (.leaf hfmt hp hblock hc)) b hb).mono hin
    | fork hfmt hb =>
      rw [dirListing, if_neg (by rw [hfmt]; decide), if_pos hfmt] at h
      obtain ⟨la, hy, rfl⟩ := Option.map_eq_some_iff.1 h
      exact blocksYield_decoded (fun _ _ _ => forkDblockYield_decoded)
        (dirExtentsYield_blocks _ _ _ hy) (fun c hc => hok c (.fork hfmt hc)) b hb

end

end Xallib
