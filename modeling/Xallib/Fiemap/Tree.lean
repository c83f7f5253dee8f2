import Xallib.E2E.Machine
import Xallib.Lib.Label

/-!
# A FIEMAP index stands for what the operating system lists

The tree below the mountpoint, as `opendir` and `stat` report it. A node has its path, the name that
is stored for it (the path, but none for the root), the name its directory lists it under, and
whether it is a directory; `fiemapKids` are the entries below it. `FiemapRooted.tree`: a complete
index stands for this tree, with `IsNode` between an inode and its node.
-/

namespace Xallib

open Lib Lib.Forest

structure FiemapNode where
  path : CStr
  stored : CStr
  base : CStr
  dir : Bool

section
variable (K : Kernel)

/-- The entries of a directory in the order of the index; none where it cannot be read. -/
def entriesAt (path : CStr) : List CStr :=
  match K.opendir path with
  | .ok names => sortEntries names
  | .error _ => []

def isDirAt (path : CStr) : Bool :=
  match K.stat path with
  | .ok st => isDirMode st.stMode
  | .error _ => false

def fiemapEntry (path name : CStr) : FiemapNode :=
  ⟨joinPath path name, joinPath path name, name, isDirAt K (joinPath path name)⟩

def fiemapKids (c : FiemapNode) : List FiemapNode :=
  if c.dir then (entriesAt K c.path).map (fiemapEntry K c.path) else []

def fiemapRoot (mountpoint : CStr) : FiemapNode := ⟨mountpoint, [], [], true⟩

/-- The slot holds what the index stores for the node. -/
structure IsNode (sb : XalSb) (X : Nat → XalExtent) (v : XalInode) (c : FiemapNode) : Prop where
  name : v.name = c.stored
  namelen : v.namelen = c.stored.length
  fits : c.stored.length ≤ pathMaxlen
  stat : ∃ st, K.stat c.path = .ok st ∧ v.ino = st.stIno ∧ v.size = st.stSize
  kind : v.ftype = ftDir ∧ c.dir = true ∧ (∃ names, K.opendir c.path = .ok names) ∨
    v.ftype = ftRegFile ∧ c.dir = false ∧ extentsOf X v = reported K sb c.path

/-- What the operating system has at a path below the mountpoint, as its directories list it. -/
abbrev FiemapListed (mountpoint : CStr) : List CStr → FiemapNode → Prop :=
  Found (fiemapKids K) FiemapNode.base (fiemapRoot mountpoint)

end

/-- The strings of the operating system are C strings: no byte before the terminator is zero. -/
structure CStrings (E : FiemapEnv) : Prop where
  mountpoint : 0 ∉ E.mountpoint
  entry : ∀ path names, E.kernel.opendir path = .ok names → ∀ n ∈ names, 0 ∉ n

variable {K : Kernel} {sb : XalSb} {X : Nat → XalExtent}

theorem fiemapKids_dir {path stored base : CStr} {names : List CStr}
    (h : K.opendir path = .ok names) : fiemapKids K ⟨path, stored, base, true⟩ =
      (sortEntries names).map (fiemapEntry K path) := by
  rw [fiemapKids, if_pos rfl, entriesAt, h]

theorem Mirrors.labels {f : Forest XalInode} {path : CStr} {names : List CStr}
    (h : Mirrors K sb X f path names) :
    Labels (fiemapKids K) (IsNode K sb X) f (names.map (fiemapEntry K path)) := by
  induction f generalizing path names with
  | nil =>
    obtain rfl : names = [] := h
    rfl
  | cons v k r ihk ihr =>
    obtain ⟨n, rest, rfl, hname, hlen, hmax, hmode, ⟨⟨st, hst, hino, hsize⟩, hkind⟩, hr⟩ := h
    rw [hname] at hmode hst hkind hmax
    have hdir : isDirAt K (joinPath path n) = isDirMode st.stMode := by rw [isDirAt, hst]
    refine ⟨_, _, rfl, ⟨hname, by rw [hlen, hname]; rfl, hmax, ⟨st, hst, hino, hsize⟩, ?_⟩, ?_,
      ihr hr⟩
    · rcases hkind with ⟨hd, names', hop, -⟩ | ⟨hf, -, he⟩
      · exact .inl ⟨hd, hdir.trans ((hmode st hst).1 hd), names', hop⟩
      · refine .inr ⟨hf, hdir.trans (Bool.eq_false_iff.2 fun h0 => ?_), he⟩
        have := (hmode st hst).2 h0
        rw [hf] at this
        exact absurd this (by decide)
    · rcases hkind with ⟨hd, names', hop, hk⟩ | ⟨hf, rfl, -⟩
      · rw [fiemapEntry, hdir.trans ((hmode st hst).1 hd), fiemapKids_dir hop]
        exact ihk hk
      · have hno : isDirAt K (joinPath path n) = false := by
          rw [hdir]
          refine Bool.eq_false_iff.2 fun h0 => ?_
          have := (hmode st hst).2 h0
          rw [hf] at this
          exact absurd this (by decide)
        rw [fiemapKids, fiemapEntry, hno]
        rfl

/-- The inodes of a complete index, from the root on, stand for what is listed from the
mountpoint. -/
abbrev FiemapTree (E : FiemapEnv) (x : Xal FiemapBe) : Forest XalInode → Prop :=
  LabelTree (fiemapKids E.kernel) (IsNode E.kernel E.sb x.store.extents.memory) (·.parentIdx)
    (fun v => (dents v).1) (fun v => (dents v).2) x.store.inodes.memory x.rootIdx poolIdxNone
    (fiemapRoot E.mountpoint)

/-- A finished FIEMAP index stands for the tree the kernel reports. -/
theorem FiemapRooted.tree {E : FiemapEnv} {be : FiemapBe} {slot : Nat} {x : Xal FiemapBe}
    {k : Forest XalInode} (h : FiemapRooted E be slot x k) (hroot : x.rootIdx = slot) :
    FiemapTree E x k := by
  subst hroot
  obtain ⟨hst, hkind⟩ := h.isInode
  rcases hkind with ⟨hd, names, hop, hk⟩ | ⟨hf, -, -⟩
  · refine ⟨h.placed, fiemapRoot E.mountpoint, [], rfl, ⟨h.name, by rw [h.namelen]; rfl,
      Nat.zero_le _, hst, .inl ⟨hd, rfl, names, hop⟩⟩, ?_, rfl⟩
    rw [fiemapRoot, fiemapKids_dir hop]
    exact hk.labels
  · rw [h.ftype] at hf
    exact absurd hf (by decide)

end Xallib
