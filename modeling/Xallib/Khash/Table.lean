import Xallib.Base.Types
import Xallib.Lib.Probe

/-!
# `khash.h`

The hash table that both backends keep their maps in: open addressing with triangular probing. A
bucket has two flags, *empty* and *deleted*, sixteen pairs to a word. `kh_resize` hashes the table
again in place: a bucket of the new table that still holds an element of the old one is kicked out,
and placed next.

Keys are compared by `=`; `hash` is the hash function. The allocations of a call are a parameter
(`KhAlloc`, `true`: the memory was there). A loop that would not end is `spin`: a search comes back
to where it began after `2 * nBuckets` steps, and each kick takes an element out of the old table.
-/

namespace Xallib

open Lib Lib.Cm

/-! ## Flags -/

structure KhFlags where
  words : Nat → BitVec 32

namespace KhFlags

variable (flag : KhFlags) (i : Nat)

/-- The word of a bucket, shifted to its pair. -/
def pair : BitVec 32 := flag.words (i >>> 4) >>> ((i &&& 0xf) <<< 1)

def isempty : Bool := flag.pair i &&& 2 != 0

def isdel : Bool := flag.pair i &&& 1 != 0

def iseither : Bool := flag.pair i &&& 3 != 0

def putWord (word : BitVec 32) : KhFlags where
  words w := if w = i >>> 4 then word else flag.words w

def setIsdelTrue : KhFlags :=
  flag.putWord i (flag.words (i >>> 4) ||| (1 : BitVec 32) <<< ((i &&& 0xf) <<< 1))

def setIsemptyFalse : KhFlags :=
  flag.putWord i (flag.words (i >>> 4) &&& ~~~((2 : BitVec 32) <<< ((i &&& 0xf) <<< 1)))

def setIsbothFalse : KhFlags :=
  flag.putWord i (flag.words (i >>> 4) &&& ~~~((3 : BitVec 32) <<< ((i &&& 0xf) <<< 1)))

/-- What `memset(flags, 0xaa, ..)` leaves. -/
def cleared : KhFlags where
  words _ := 0xaaaaaaaa

end KhFlags

/-! ## Tables -/

/-- `kh_name_t`. What the arrays hold beyond `nBuckets` is of no meaning. -/
structure Kh (κ ν : Type) where
  nBuckets : Nat
  size : Nat
  nOccupied : Nat
  upperBound : Nat
  flags : KhFlags
  keys : Nat → κ
  vals : Nat → ν

structure KhAlloc where
  flags : Bool
  keys : Bool
  vals : Bool

def KhAlloc.all : KhAlloc := ⟨true, true, true⟩

def kroundup32 (x : BitVec 32) : BitVec 32 :=
  let x := x - 1
  let x := x ||| x >>> 1
  let x := x ||| x >>> 2
  let x := x ||| x >>> 4
  let x := x ||| x >>> 8
  let x := x ||| x >>> 16
  x + 1

/-- `(khint_t)(nBuckets * __ac_HASH_UPPER + 0.5)`: the constant is `0.77` as a double,
`6935543426150564 / 2 ^ 53`, and for a power of two up to `2 ^ 31` product and sum are exact. -/
def hashUpper (nBuckets : Nat) : Nat := (nBuckets * 6935543426150564 + 2 ^ 52) / 2 ^ 53

/-- `i = (i + step) & mask` -/
def nextBucket (mask i step : Nat) : Nat := (i + step) % 2 ^ 32 &&& mask

/-- The loop of a search from bucket `i` on: while `go` holds it sees a bucket, which may change
`site`, and steps to the next one. `last`: where it breaks, if it does. What is returned are the
bucket, `site`, and whether it broke. -/
def probeWhile (mask : Nat) (last : Option Nat) (go : Nat → Bool) (see : Nat → Nat → Nat) :
    Nat → Nat → Nat → Nat → Option (Nat × Nat × Bool)
  | 0, _, _, _ => none
  | fuel + 1, i, step, site =>
    if go i then
      let site := see site i
      let i := nextBucket mask i (step + 1)
      if last = some i then some (i, site, true)
      else probeWhile mask last go see fuel i (step + 1) site
    else some (i, site, false)

section
variable {κ ν : Type}

/-- `kh_init` -/
def khInit [Inhabited κ] [Inhabited ν] : Kh κ ν :=
  ⟨0, 0, 0, 0, ⟨fun _ => 0⟩, fun _ => default, fun _ => default⟩

/-- `kh_clear`. A table without buckets has no flags to reset. -/
def khClear (h : Kh κ ν) : Kh κ ν :=
  if h.nBuckets = 0 then h else { h with flags := .cleared, size := 0, nOccupied := 0 }

/-- `kh_del` -/
def khDel (x : Nat) (h : Kh κ ν) : Kh κ ν :=
  if x ≠ h.nBuckets ∧ h.flags.iseither x = false then
    { h with flags := h.flags.setIsdelTrue x, size := h.size - 1 }
  else h

variable [DecidableEq κ] (hash : κ → Nat)

/-- A search for `key` goes on at bucket `i`. -/
def Kh.goesOn (h : Kh κ ν) (key : κ) (i : Nat) : Bool :=
  !h.flags.isempty i && (h.flags.isdel i || h.keys i != key)

/-- `kh_get`: the bucket of `key`, or else `nBuckets`. -/
def khGet (key : κ) : Cm Err (Kh κ ν) Nat := fun h =>
  if h.nBuckets = 0 then .ok 0 h
  else
    let mask := h.nBuckets - 1
    let i := hash key &&& mask
    match probeWhile mask (some i) (h.goesOn key) (fun site _ => site) (2 * h.nBuckets) i 0 0 with
    | none => .spin
    | some (_, _, true) => .ok h.nBuckets h
    | some (i, _, false) => .ok (if h.flags.iseither i then h.nBuckets else i) h

/-! ## Resizing -/

/-- The arrays while `kh_resize` hashes again: flags of the old table and of the new one. -/
structure Rehash (κ ν : Type) where
  old : KhFlags
  new : KhFlags
  keys : Nat → κ
  vals : Nat → ν

def Rehash.write (r : Rehash κ ν) (i : Nat) (key : κ) (val : ν) : Rehash κ ν :=
  { r with
    keys := fun j => if j = i then key else r.keys j
    vals := fun j => if j = i then val else r.vals j }

/-- The kick-out process: place an element, and then the one it has displaced. -/
def kickOut (nBuckets newMask : Nat) : Nat → κ → ν → Rehash κ ν → Option (Rehash κ ν)
  | 0, _, _, _ => none
  | fuel + 1, key, val, r =>
    match probeWhile newMask none (fun i => !r.new.isempty i) (fun site _ => site)
        (2 * (newMask + 1)) (hash key &&& newMask) 0 0 with
    | none => none
    | some (i, _, _) =>
      let placed := { r.write i key val with new := r.new.setIsemptyFalse i }
      if i < nBuckets ∧ r.old.iseither i = false then
        kickOut nBuckets newMask fuel (r.keys i) (r.vals i)
          { placed with old := r.old.setIsdelTrue i }
      else some placed

/-- The round of the loop for bucket `j` of the old table. -/
def rehashBucket (nBuckets newMask : Nat) (r : Rehash κ ν) (j : Nat) : Option (Rehash κ ν) :=
  if r.old.iseither j = false then
    kickOut hash nBuckets newMask (nBuckets + 1) (r.keys j) (r.vals j)
      { r with old := r.old.setIsdelTrue j }
  else some r

/-- The result of a loop, unless it would not end. -/
def ofLoop {σ α : Type} : Option α → Cm Err σ α
  | some a => pure a
  | none => fun _ => .spin

/-- The number of buckets that `kh_resize` takes for the one it is asked for. -/
def roundedBuckets (newNBuckets : Nat) : Nat :=
  let rounded := (kroundup32 (BitVec.ofNat 32 newNBuckets)).toNat
  if rounded < 4 then 4 else rounded

/-- `kh_resize`. Where a smaller array is refused, the table is left with none, and the call is
treated as a crash. -/
def khResize (alloc : KhAlloc) (newNBuckets : Nat) : Cm Err (Kh κ ν) Unit := do
  let h ← read
  let newNBuckets := roundedBuckets newNBuckets
  if h.size ≥ hashUpper newNBuckets then pure ()
  else do
    failIf (alloc.flags = false) ⟨.khPut, -1⟩
    failIf (h.nBuckets < newNBuckets ∧ (alloc.keys = false ∨ alloc.vals = false)) ⟨.khPut, -1⟩
    let r ← ofLoop ((List.range h.nBuckets).foldlM (rehashBucket hash h.nBuckets (newNBuckets - 1))
      ⟨h.flags, .cleared, h.keys, h.vals⟩)
    assert (h.nBuckets ≤ newNBuckets ∨ alloc.keys = true ∧ alloc.vals = true)
    modify fun _ => ⟨newNBuckets, h.size, h.size, hashUpper newNBuckets, r.new, r.keys, r.vals⟩

/-! ## Insertion -/

/-- The bucket that `kh_put` chooses: that of `key`, else the first deleted bucket of the search,
else the empty one it has ended at. -/
def putBucket (key : κ) (h : Kh κ ν) : Option Nat :=
  let mask := h.nBuckets - 1
  let i := hash key &&& mask
  if h.flags.isempty i then some i
  else
    match probeWhile mask (some i) (h.goesOn key)
        (fun site i => if h.flags.isdel i then i else site) (2 * h.nBuckets) i 0 h.nBuckets with
    | none => none
    | some (i, site, around) =>
      let x := if around then site else h.nBuckets
      some (if x = h.nBuckets then
          if h.flags.isempty i ∧ site ≠ h.nBuckets then site else i
        else x)

/-- The first part of `kh_put`: a table that is full is cleaned of deleted elements, or expanded. -/
def khMakeRoom (alloc : KhAlloc) : Cm Err (Kh κ ν) Unit := do
  let h ← read
  if h.nOccupied ≥ h.upperBound then
    if h.nBuckets > (h.size <<< 1) % 2 ^ 32 then khResize hash alloc (h.nBuckets - 1)
    else khResize hash alloc ((h.nBuckets + 1) % 2 ^ 32)
  else pure ()

/-- `kh_put`: the bucket, and what is stored through `ret`. -/
def khPut (alloc : KhAlloc) (key : κ) : Cm Err (Kh κ ν) (Nat × Nat) := do
  khMakeRoom hash alloc
  let h ← read
  let x ← ofLoop (putBucket hash key h)
  let keys := fun j => if j = x then key else h.keys j
  if h.flags.isempty x then do
    modify fun h => { h with
      keys, flags := h.flags.setIsbothFalse x, size := h.size + 1, nOccupied := h.nOccupied + 1 }
    pure (x, 1)
  else if h.flags.isdel x then do
    modify fun h => { h with keys, flags := h.flags.setIsbothFalse x, size := h.size + 1 }
    pure (x, 2)
  else pure (x, 0)

/-! ## How the library uses it -/

/-- `kh_put` and the assignment to `kh_value`. -/
def khSet (alloc : KhAlloc) (key : κ) (val : ν) : Cm Err (Kh κ ν) Unit := do
  let (x, _) ← khPut hash alloc key
  modify fun h => { h with vals := fun j => if j = x then val else h.vals j }

/-- `kh_get`, and the value of the bucket unless that is `kh_end`. -/
def khLookup (key : κ) : Cm Err (Kh κ ν) (Option ν) := do
  let x ← khGet hash key
  let h ← read
  pure (if x = h.nBuckets then none else some (h.vals x))

/-- `kh_get` and `kh_del`. -/
def khRemove (key : κ) : Cm Err (Kh κ ν) Unit := do
  let x ← khGet hash key
  modify (khDel x)

end

/-- `kh_int64_hash_func` -/
def int64Hash (key : Nat) : Nat := (key >>> 33 ^^^ key ^^^ key <<< 11) % 2 ^ 32

/-- `__ac_X31_hash_string`. Where `char` is signed a byte from 128 on counts as negative. -/
def x31Hash (s : CStr) : Nat :=
  let char (c : UInt8) : Nat := if c.toNat < 128 then c.toNat else 2 ^ 32 - 256 + c.toNat
  match s with
  | [] => 0
  | c :: s => s.foldl (fun h c => (h * 31 + char c) % 2 ^ 32) (char c)

end Xallib
