import Xallib.Base.Types

/-!
# `xal_pool.c`

A pool is an array of `reserved` elements of which the first `free` are claimed. Elements are
mapped `growby` at a time with `mprotect`, whose answers are a parameter (`Mprotect`: 0, or the
error number, for the growth to a number of bytes and for the clearing of the whole pool).
`memory` is the array; `default` is the element of all zero bytes. The byte counts are plain numbers
here, so that wherever `reserved` is a variable, `reserved * elementSize` stands for one that fits
`size_t`; both backends reserve 40 million elements of less than 2 ^ 9 bytes.
-/

namespace Xallib

open Lib Lib.Cm

/-- `struct xal_pool` -/
structure XalPool (α : Type) where
  reserved : Nat
  allocated : Nat
  growby : Nat
  free : Nat
  elementSize : Nat
  memory : Nat → α

/-- A `struct xal_pool` of zero bytes. -/
instance {α : Type} [Inhabited α] : Inhabited (XalPool α) := ⟨⟨0, 0, 0, 0, 0, fun _ => default⟩⟩

/-- What `mprotect` answers on the memory of a pool: 0, or the error number. -/
structure Mprotect where
  grow : Nat → Nat
  clear : Nat

/-- `mprotect` fails beyond the reservation. -/
def Mprotect.Bounded (mp : Mprotect) (reserved elementSize : Nat) : Prop :=
  ∀ n, mp.grow n = 0 → n ≤ reserved * elementSize

/-- An `mprotect` that grows a pool within its reservation. -/
def mprotectWithin (reserved elementSize clear : Nat) : Mprotect where
  grow n := if n ≤ reserved * elementSize then 0 else 12
  clear

theorem mprotectWithin_bounded (reserved elementSize clear : Nat) :
    (mprotectWithin reserved elementSize clear).Bounded reserved elementSize := by
  intro n h
  by_contra hn
  simp [mprotectWithin, hn] at h

/-- What `shm_open`, `ftruncate` and `mmap` answer when a pool is mapped: 0, or the error number. -/
structure MapAnswers where
  shmOpen : Nat
  ftruncate : Nat
  mmap : Nat

/-- The memory of the pool is left a null pointer, with the reservation already set. -/
def MapAnswers.LeavesNull (os : MapAnswers) (shm : Bool) : Prop :=
  shm = true ∧ (os.shmOpen ≠ 0 ∨ os.ftruncate ≠ 0)

instance (os : MapAnswers) (shm : Bool) : Decidable (os.LeavesNull shm) := instDecidableAnd

section
variable {α : Type} [Inhabited α]

/-- Write one element. -/
def XalPool.set (p : XalPool α) (i : Nat) (v : α) : XalPool α :=
  { p with memory := fun j => if j = i then v else p.memory j }

def xalPoolGrow (mp : Mprotect) (growby : Nat) : Cm Err (XalPool α) Unit := do
  let pool ← read
  let growbyNbytes := growby * pool.elementSize
  let allocatedNbytes := growbyNbytes + pool.allocated * pool.elementSize
  failIf (mp.grow allocatedNbytes ≠ 0) ⟨.mprotect, -(mp.grow allocatedNbytes : Int)⟩
  modify fun pool => { pool with
    memory := fun i => if pool.free ≤ i ∧ i < pool.free + growby then default else pool.memory i
    allocated := pool.allocated + growby }

/-- `shm` tells whether a `shm_name` was given. -/
def xalPoolMap (os : MapAnswers) (mp : Mprotect) (reserved allocated elementSize : Nat)
    (shm : Bool) : Cm Err (XalPool α) Unit := do
  let pool ← read
  failIf (pool.reserved ≠ 0) ⟨.argument, -EINVAL⟩
  modify fun pool => { pool with reserved, elementSize, free := 0 }
  if shm then
    failIf (os.shmOpen ≠ 0) ⟨.shm, -(os.shmOpen : Int)⟩
    failIf (os.ftruncate ≠ 0) ⟨.shm, -(os.ftruncate : Int)⟩
    failIf (os.mmap ≠ 0) ⟨.map, -(os.mmap : Int)⟩
    modify fun pool => { pool with memory := fun _ => default, allocated := reserved,
                                   growby := reserved }
  else
    failIf (allocated > reserved) ⟨.argument, -EINVAL⟩
    modify fun pool => { pool with allocated := 0, growby := allocated }
    failIf (os.mmap ≠ 0) ⟨.map, -(os.mmap : Int)⟩
    modify fun pool => { pool with memory := fun _ => default }
    xalPoolGrow mp allocated

/-- `xal_pool_unmap`, after what `xal_pool_map` has left. To unmap nothing, or what `mmap` has not
mapped, is refused; through a null pointer the first bytes of the address space are unmapped, as
many as were to be reserved, and whether the process goes on without what was there is a
parameter. -/
def xalPoolUnmap (os : MapAnswers) (shm munmapNull : Bool) : Cm Err (XalPool α) Unit := do
  let pool ← read
  assert (pool.reserved ≠ 0 ∧ os.LeavesNull shm → munmapNull = true)

/-- The part the two claims share: the limit on one claim, and the growth. -/
def claimRoom (mp : Mprotect) (count : Nat) : Cm Err (XalPool α) Unit := do
  let pool ← read
  failIf (count > pool.growby) ⟨.claim, -EINVAL⟩
  if pool.allocated ≤ pool.free + count then xalPoolGrow mp pool.growby else pure ()

def xalPoolClaimInodes (mp : Mprotect) (count : Nat) : Cm Err (XalPool α) Nat := do
  claimRoom mp count
  let pool ← read
  failIf (pool.free + count > UINT32_MAX) ⟨.claim, -EOVERFLOW⟩
  modify fun pool => { pool with free := pool.free + count }
  pure (pool.free % 2 ^ 32)

/-- Unlike `xalPoolClaimInodes`, this does not check that the index fits 32 bits. -/
def xalPoolClaimExtents (mp : Mprotect) (count : Nat) : Cm Err (XalPool α) Nat := do
  claimRoom mp count
  let pool ← read
  modify fun pool => { pool with free := pool.free + count }
  pure (pool.free % 2 ^ 32)

def xalPoolClear (mp : Mprotect) : Cm Err (XalPool α) Unit := do
  failIf (mp.clear ≠ 0) ⟨.mprotect, -(mp.clear : Int)⟩
  modify fun pool => { pool with
    memory := fun i => if i < pool.reserved then default else pool.memory i
    free := 0
    allocated := 0 }

end

/-! ## The storage of a `struct xal` -/

/-- The two pools, and what the backend writes while it indexes. -/
structure Store (δ : Type) where
  inodes : XalPool XalInode
  extents : XalPool XalExtent
  be : δ

section
variable {δ α : Type}

def Store.putInode (s : Store δ) (i : Nat) (v : XalInode) : Store δ :=
  { s with inodes := s.inodes.set i v }

def Store.putExtent (s : Store δ) (i : Nat) (v : XalExtent) : Store δ :=
  { s with extents := s.extents.set i v }

def onInodes (x : Cm Err (XalPool XalInode) α) : Cm Err (Store δ) α :=
  zoom (·.inodes) (fun s p => { s with inodes := p }) x

def onExtents (x : Cm Err (XalPool XalExtent) α) : Cm Err (Store δ) α :=
  zoom (·.extents) (fun s p => { s with extents := p }) x

def onBe (x : Cm Err δ α) : Cm Err (Store δ) α :=
  zoom (·.be) (fun s b => { s with be := b }) x

/-- The number of elements both backends reserve. -/
def poolReserved : Nat := 40000000

/-- The sizes of `struct xal_inode` and `struct xal_extent`. -/
def inodeNbytes : Nat := 312
def extentNbytes : Nat := 25

/-- The part of `xal_be_xfs_open` and of `xal_be_fiemap_open` that maps the pools. -/
def xalMapPools (osI osX : MapAnswers) (mpI mpX : Mprotect) (nallocated : Nat) (shm : Bool) :
    Cm Err (Store δ) Unit := do
  onInodes (xalPoolMap osI mpI poolReserved nallocated inodeNbytes shm)
  onExtents (xalPoolMap osX mpX poolReserved nallocated extentNbytes shm)

/-- `*xal_inode_at(xal, idx)` -/
def inodeAt (idx : Nat) : Cm Err (Store δ) XalInode := do
  let s ← read
  pure (s.inodes.memory idx)

/-- A write to fields of `*xal_inode_at(xal, idx)`. -/
def setInode (idx : Nat) (f : XalInode → XalInode) : Cm Err (Store δ) Unit :=
  modify fun s => s.putInode idx (f (s.inodes.memory idx))

/-- `*xal_extent_at(xal, idx) = extent` -/
def setExtent (idx : Nat) (extent : XalExtent) : Cm Err (Store δ) Unit :=
  modify fun s => s.putExtent idx extent

/-! ## Reads and writes of single elements -/

theorem XalPool.set_same {β : Type} (p : XalPool β) (i : Nat) (v : β) :
    (p.set i v).memory i = v := if_pos rfl
theorem XalPool.set_other {β : Type} (p : XalPool β) {i j : Nat} (v : β) (h : j ≠ i) :
    (p.set i v).memory j = p.memory j := if_neg h

section
variable (s : Store δ) (i : Nat) (v : XalInode) (x : XalExtent)

@[simp] theorem putInode_free : (s.putInode i v).inodes.free = s.inodes.free := rfl
@[simp] theorem putInode_extents : (s.putInode i v).extents = s.extents := rfl
@[simp] theorem putInode_be : (s.putInode i v).be = s.be := rfl
@[simp] theorem putInode_same : (s.putInode i v).inodes.memory i = v := XalPool.set_same _ _ _
theorem putInode_other {j : Nat} (h : j ≠ i) :
    (s.putInode i v).inodes.memory j = s.inodes.memory j := XalPool.set_other _ _ h
theorem putInode_self : s.putInode i (s.inodes.memory i) = s := by
  have hmem : (fun j => if j = i then s.inodes.memory i else s.inodes.memory j) =
      s.inodes.memory := by
    funext j
    by_cases h : j = i
    · rw [if_pos h, h]
    · rw [if_neg h]
  show { s with inodes := { s.inodes with memory := _ } } = s
  rw [hmem]
theorem putInode_twice (w : XalInode) : (s.putInode i w).putInode i v = s.putInode i v := by
  have hmem : (s.inodes.set i w).set i v = s.inodes.set i v := by
    rw [XalPool.set, XalPool.set, XalPool.set]
    congr 1
    funext j
    by_cases h : j = i <;> simp [h]
  rw [Store.putInode, Store.putInode, Store.putInode, hmem]

@[simp] theorem putExtent_inodes : (s.putExtent i x).inodes = s.inodes := rfl
@[simp] theorem putExtent_free : (s.putExtent i x).extents.free = s.extents.free := rfl
@[simp] theorem putExtent_be : (s.putExtent i x).be = s.be := rfl
@[simp] theorem putExtent_same : (s.putExtent i x).extents.memory i = x := XalPool.set_same _ _ _
theorem putExtent_other {j : Nat} (h : j ≠ i) :
    (s.putExtent i x).extents.memory j = s.extents.memory j := XalPool.set_other _ _ h

end

@[simp] theorem inodeAt_bind {ε : Type} (idx : Nat) (f : XalInode → Cm Err (Store δ) ε)
    (s : Store δ) : (inodeAt idx >>= f) s = f (s.inodes.memory idx) s := rfl
@[simp] theorem setInode_apply (idx : Nat) (f : XalInode → XalInode) (s : Store δ) :
    setInode idx f s = .ok () (s.putInode idx (f (s.inodes.memory idx))) := rfl
@[simp] theorem setInode_bind {ε : Type} (idx : Nat) (f : XalInode → XalInode)
    (g : Unit → Cm Err (Store δ) ε) (s : Store δ) :
    (setInode idx f >>= g) s = g () (s.putInode idx (f (s.inodes.memory idx))) := rfl
@[simp] theorem setExtent_bind {ε : Type} (idx : Nat) (v : XalExtent)
    (g : Unit → Cm Err (Store δ) ε) (s : Store δ) :
    (setExtent idx v >>= g) s = g () (s.putExtent idx v) := rfl

end

end Xallib
