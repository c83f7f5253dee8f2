import Xallib.Base.Proof.Claims
import Xallib.Fiemap.Proof.Count
import Xallib.Fiemap.Proof.Refresh
import Xallib.Lib.Settle

/-!
# Where an index finds room

A pool that is not shared grows by the number it was mapped with, and refuses a larger claim with
`-EINVAL`, however much it has reserved. `processInoFiemap_settles`: where no call fails
(`Served`) and the reservations are large enough, indexing a node succeeds exactly if every
directory below it has at most as many entries, and every file at most as many extents, as the pools
grow by (`RoomFor`).
-/

namespace Xallib

open Lib Lib.Cm Lib.Run

theorem Mprotect.Exact.bounded {mp : Mprotect} {reserved elementSize : Nat}
    (h : mp.Exact reserved elementSize) : mp.Bounded reserved elementSize := fun n => (h.grow n).1

/-! ## Claims -/

/-- The pool grows by `g`, and is at most that far ahead. -/
structure Growing {α : Type} (g : Nat) (p : XalPool α) : Prop where
  growby : p.growby = g
  allocated_le : p.allocated ≤ p.free + g

section
variable {α : Type} [Inhabited α] {mp : Mprotect} {reserved elementSize g : Nat} {p : XalPool α}

theorem claimRoom_settles (hmp : mp.Exact reserved elementSize)
    (hp : PoolOk reserved elementSize p) (h : Growing g p) {count : Nat}
    (hroom : p.free + count + g ≤ reserved) :
    (claimRoom mp count p).Settles (count ≤ g)
      (fun _ p' => p'.growby = g ∧ p'.allocated ≤ p.free + count + g ∧ p'.free = p.free)
      (fun e _ => e.code = -EINVAL) := by
  unfold claimRoom
  rw [read_bind, h.growby]
  have hle := h.allocated_le
  have hcond : ¬count > g ∧ True ↔ count ≤ g := (and_iff_left trivial).trans Nat.not_lt
  refine Settles.congr (settles_failIf_bind (fun _ => rfl) fun _ => ?_) hcond
  by_cases ha : p.allocated ≤ p.free + count
  · rw [if_pos ha]
    unfold xalPoolGrow
    rw [read_bind, hp.elementSize_eq, ← Nat.add_mul]
    have hgrow : mp.grow ((g + p.allocated) * elementSize) = 0 :=
      (hmp.grow _).2 (Nat.mul_le_mul_right _ (by omega))
    rw [bind_of_ok (failIf_false (not_not.2 hgrow) _ _)]
    refine settles_ok trivial ⟨h.growby, ?_, rfl⟩
    show p.allocated + g ≤ _
    omega
  · rw [if_neg ha]
    exact settles_ok trivial ⟨h.growby, by omega, rfl⟩

theorem claimExtents_settles (hmp : mp.Exact reserved elementSize)
    (hp : PoolOk reserved elementSize p) (h : Growing g p) {count : Nat}
    (hroom : p.free + count + g ≤ reserved) :
    (xalPoolClaimExtents mp count p).Settles (count ≤ g)
      (fun _ p' => Growing g p' ∧ p'.free = p.free + count) (fun e _ => e.code = -EINVAL) := by
  unfold xalPoolClaimExtents
  refine (claimRoom_settles hmp hp h hroom).bind_ok fun _ p' hp' => ?_
  obtain ⟨hgrow, hle, hfree⟩ := hp'
  refine settles_ok trivial ⟨⟨hgrow, ?_⟩, ?_⟩
  · show p'.allocated ≤ p'.free + count + g
    omega
  · show p'.free + count = _
    omega

theorem claimInodes_settles (hmp : mp.Exact reserved elementSize) (hr : reserved < 2 ^ 32)
    (hp : PoolOk reserved elementSize p) (h : Growing g p) {count : Nat}
    (hroom : p.free + count + g ≤ reserved) :
    (xalPoolClaimInodes mp count p).Settles (count ≤ g)
      (fun _ p' => Growing g p' ∧ p'.free = p.free + count) (fun e _ => e.code = -EINVAL) := by
  unfold xalPoolClaimInodes
  refine (claimRoom_settles hmp hp h hroom).bind_ok fun _ p' hp' => ?_
  obtain ⟨hgrow, hle, hfree⟩ := hp'
  have hfits : ¬p'.free + count > UINT32_MAX := by
    unfold UINT32_MAX
    omega
  rw [read_bind, bind_of_ok (failIf_false hfits _ _)]
  refine settles_ok trivial ⟨⟨hgrow, ?_⟩, ?_⟩
  · show p'.allocated ≤ p'.free + count + g
    omega
  · show p'.free + count = _
    omega

end

/-! ## Calls that do not fail -/

section
variable (F : FiemapEnv)

/-- The calls about a node do not fail. -/
structure Served (c : FiemapNode) : Prop where
  stat : ∃ st, F.kernel.stat c.path = .ok st ∧ isDirMode st.stMode = c.dir ∧
    (c.dir = false → isRegMode st.stMode = true)
  opendir : c.dir = true → ∃ names, F.kernel.opendir c.path = .ok names
  dirMemory : F.kernel.dirMemory c.path = true
  watch : c.dir = true → ∃ wd, F.kernel.addWatch c.path = .ok wd ∧ F.kernel.khPutWd wd = true
  file : c.dir = false → ∃ mapped n extents, HasRead F.kernel c.path mapped n extents
  khPutPath : F.kernel.khPutPath c.stored = true
  fits : c.stored.length ≤ pathMaxlen

/-- The number of extents of a node. -/
def nodeExtents (c : FiemapNode) : Nat :=
  if c.dir then 0 else (reported F.kernel F.sb c.path).length

/-- What a node claims at once is not more than `g`. -/
def RoomFor (g : Nat) (c : FiemapNode) : Prop :=
  (fiemapKids F.kernel c).length ≤ g ∧ nodeExtents F c ≤ g

/-- The inodes below a node, and the extents of the files from it on. -/
def inodesBelow : Nat → FiemapNode → Nat :=
  summed (fiemapKids F.kernel) fun c => (fiemapKids F.kernel c).length

def extentsBelow : Nat → FiemapNode → Nat := summed (fiemapKids F.kernel) (nodeExtents F)

end

theorem Served.answered {F : FiemapEnv} {c : FiemapNode} (h : Served F c) :
    Answered F.kernel c := by
  obtain ⟨st, hst, hmode, -⟩ := h.stat
  exact ⟨⟨st, hst, hmode⟩, h.opendir⟩

/-- Both pools grow by `g`. -/
structure Roomy (g : Nat) (s : Store FiemapBe) : Prop where
  inodes : Growing g s.inodes
  extents : Growing g s.extents

/-- `i` inodes and `e` extents have been claimed. -/
structure Taken (g i e : Nat) (s s' : Store FiemapBe) : Prop extends Roomy g s' where
  inodes_free : s'.inodes.free = s.inodes.free + i
  extents_free : s'.extents.free = s.extents.free + e

/-- `i` more inodes and `e` more extents may be claimed. -/
def Spare (g i e : Nat) (s : Store FiemapBe) : Prop :=
  s.inodes.free + i + g ≤ poolReserved ∧ s.extents.free + e + g ≤ poolReserved

/-- The slot of a node that is processed: it has the name, and no type or that of the root. -/
def StartsAs (c : FiemapNode) (v : XalInode) : Prop :=
  v.name = c.stored ∧ (v.ftype = 0 ∨ v.ftype = ftDir ∧ c.dir = true)

/-- Processing the node succeeds exactly if there is room (module doc). -/
def SettlesAs (F : FiemapEnv) (g n : Nat) (c : FiemapNode) (s : Store FiemapBe)
    (r : Run Err (Store FiemapBe) Unit) : Prop :=
  r.Settles (∀ b, Linked (fiemapKids F.kernel) c b → RoomFor F g b)
    (fun _ => Taken g (inodesBelow F n c) (extentsBelow F n c) s) fun e _ => e.code = -EINVAL

variable {F : FiemapEnv} {g n self : Nat} {c : FiemapNode} {s : Store FiemapBe}

theorem Taken.trans {i e i' e' : Nat} {s₁ s₂ : Store FiemapBe} (h : Taken g i e s s₁)
    (h' : Taken g i' e' s₁ s₂) : Taken g (i + i') (e + e') s s₂ where
  toRoomy := h'.toRoomy
  inodes_free := by rw [h'.inodes_free, h.inodes_free, Nat.add_assoc]
  extents_free := by rw [h'.extents_free, h.extents_free, Nat.add_assoc]

theorem Roomy.taken (h : Roomy g s) : Taken g 0 0 s s := ⟨h, rfl, rfl⟩

theorem Spare.after {i e i' e' : Nat} {s' : Store FiemapBe} (h : Spare g (i + i') (e + e') s)
    (hs : Taken g i e s s') : Spare g i' e' s' := by
  have h1 := hs.inodes_free
  have h2 := hs.extents_free
  obtain ⟨h3, h4⟩ := h
  exact ⟨by omega, by omega⟩

/-! ## Files -/

theorem storeExtents_memory (extents : Nat → FiemapExtent) (idx m : Nat) : ∀ (i : Nat)
    (s : Store FiemapBe), ∃ memory, storeExtents F extents idx m i s =
      .ok () { s with extents := { s.extents with memory } } := by
  induction m with
  | zero => exact fun _ s => ⟨s.extents.memory, rfl⟩
  | succ m ih =>
    intro i s
    unfold storeExtents
    rw [setExtent_bind]
    obtain ⟨memory, h⟩ := ih (i + 1) (s.putExtent (idx + i) (storedExtent F.sb (extents i)))
    exact ⟨memory, h⟩

theorem onExtents_settles (hX : F.mpExtents.Exact poolReserved extentNbytes) (hok : StoreOk s)
    (h : Roomy g s) {e : Nat} (hroom : s.extents.free + e + g ≤ poolReserved) :
    (onExtents (xalPoolClaimExtents F.mpExtents e) s).Settles (e ≤ g)
      (fun _ s' => Taken g 0 e s s') (fun e _ => e.code = -EINVAL) := by
  refine settles_zoom ((claimExtents_settles hX hok.extents h.extents hroom).mono Iff.rfl
    (fun _ _ p hp => ?_) fun _ _ h => h)
  exact ⟨⟨h.inodes, hp.1⟩, rfl, hp.2⟩

theorem onInodes_settles (hI : F.mpInodes.Exact poolReserved inodeNbytes) (hok : StoreOk s)
    (h : Roomy g s) {i : Nat} (hroom : s.inodes.free + i + g ≤ poolReserved) :
    (onInodes (xalPoolClaimInodes F.mpInodes i) s).Settles (i ≤ g)
      (fun _ s' => Taken g i 0 s s') (fun e _ => e.code = -EINVAL) := by
  refine settles_zoom ((claimInodes_settles hI (by decide) hok.inodes h.inodes hroom).mono Iff.rfl
    (fun _ _ p hp => ?_) fun _ _ h => h)
  exact ⟨⟨hp.1, h.extents⟩, hp.2, rfl⟩

theorem storeReported_settles (hX : F.mpExtents.Exact poolReserved extentNbytes)
    (hsb : F.sb.blocksize ≠ 0) (hok : StoreOk s) (h : Roomy g s) (m : Nat)
    (extents : Nat → FiemapExtent) (hroom : s.extents.free + m + g ≤ poolReserved) :
    (storeReported F self m extents s).Settles (m ≤ g) (fun _ s' => Taken g 0 m s s')
      fun e _ => e.code = -EINVAL := by
  unfold storeReported
  by_cases h0 : 0 < m
  · rw [if_pos h0]
    refine (onExtents_settles hX hok h hroom).bind_ok fun idx s₁ h₁ => ?_
    rw [setInode_bind, bind_of_ok (assert_true hsb _)]
    obtain ⟨memory, hs⟩ := storeExtents_memory (F := F) extents idx m 0 (s₁.putInode self
      { s₁.inodes.memory self with content := ⟨idx, m % 2 ^ 32⟩ })
    rw [hs]
    exact settles_ok trivial ⟨⟨⟨h₁.inodes.growby, h₁.inodes.allocated_le⟩,
      ⟨h₁.extents.growby, h₁.extents.allocated_le⟩⟩, h₁.inodes_free, h₁.extents_free⟩
  · have h0 : m = 0 := by omega
    rw [if_neg (by omega), h0]
    exact settles_ok (Nat.zero_le g) h.taken

/-- A write to an inode, or to the maps, takes no room. -/
theorem Taken.of_memory {i e : Nat} {s₁ s' : Store FiemapBe} (h : Taken g i e s₁ s')
    (hi : s₁.inodes.free = s.inodes.free) (hx : s₁.extents.free = s.extents.free) :
    Taken g i e s s' :=
  ⟨h.toRoomy, by rw [h.inodes_free, hi], by rw [h.extents_free, hx]⟩

theorem Roomy.putInode (h : Roomy g s) (i : Nat) (v : XalInode) : Roomy g (s.putInode i v) :=
  ⟨⟨h.inodes.growby, h.inodes.allocated_le⟩, h.extents⟩

theorem processInodeFile_settles (hX : F.mpExtents.Exact poolReserved extentNbytes)
    (hsb : F.sb.blocksize ≠ 0) (hc : Served F c) (hdir : c.dir = false) (hok : StoreOk s)
    (hlt : self < s.inodes.free) (h : Roomy g s) (hft : (s.inodes.memory self).ftype = ftRegFile)
    (hname : (s.inodes.memory self).name = c.stored)
    (hroom : s.extents.free + nodeExtents F c + g ≤ poolReserved) :
    (xalBeFiemapProcessInodeFile F c.path self s).Settles (nodeExtents F c ≤ g)
      (fun _ s' => Taken g 0 (nodeExtents F c) s s') fun e _ => e.code = -EINVAL := by
  obtain ⟨mapped, m, extents, hread⟩ := hc.file hdir
  have hm : nodeExtents F c = m := by
    rw [nodeExtents, hdir, if_neg Bool.false_ne_true, hread.reported, List.length_map,
      List.length_range]
  rw [hm] at hroom ⊢
  rw [hread.process_bind hft, bind_of_ok hread.readFiemap]
  refine ((storeReported_settles hX hsb hok h m extents hroom).and_sat
    (storeReported_spec hX.bounded hok hlt m extents)).bind_ok fun _ s₁ h₁ => ?_
  obtain ⟨h₁, hstored⟩ := h₁
  have hname₁ : (s₁.inodes.memory self).name = c.stored := by rw [hstored.file, hname]
  rw [putPath_ok fun _ => by rw [hname₁]; exact hc.khPutPath]
  exact settles_ok trivial ⟨⟨h₁.inodes, h₁.extents⟩, h₁.inodes_free, h₁.extents_free⟩

/-! ## Directories -/

theorem watchDir_ok (hc : Served F c) (hdir : c.dir = true)
    (hft : (s.inodes.memory self).ftype = ftDir) :
    ∃ be, watchDir F c.path self s = .ok () { s with be } := by
  have hself : xalInodeIsDir (s.inodes.memory self) = true := by
    rw [xalInodeIsDir, hft]
    decide
  unfold watchDir xalBeFiemapInotifyAddWatcher
  by_cases hw : F.watchMode = .none
  · rw [if_pos hw]
    exact ⟨s.be, rfl⟩
  · obtain ⟨wd, hadd, hput⟩ := hc.watch hdir
    rw [if_neg hw, inodeAt_bind, bind_of_ok (failIf_false (by rw [hself]; decide) _ s), if_neg hw,
      hadd]
    show ∃ be, (failIf _ _ >>= _ : Fm Unit) s = _
    rw [hput, bind_of_ok (failIf_false (by decide) _ s)]
    exact ⟨_, rfl⟩

section
variable {procIno : CStr → Nat → Fm Unit} {path : CStr} {inode base : Nat}
  (hI : F.mpInodes.Exact poolReserved inodeNbytes)
  (hspec : ∀ path {d : Nat} {s : Store FiemapBe}, Ready d s →
    IndexesAs F path d s (procIno path d s))
include hspec

/-- The loop over the entries, from the `j`-th on. -/
theorem processEntries_settles (entries : List CStr)
    (hlong : ∀ m ∈ entries, (joinPath path m).length ≤ pathMaxlen)
    (hproc : ∀ m ∈ entries, ∀ {d : Nat} {s : Store FiemapBe}, Ready d s →
      StartsAs (fiemapEntry F.kernel path m) (s.inodes.memory d) → Roomy g s →
      Spare g (inodesBelow F n (fiemapEntry F.kernel path m))
        (extentsBelow F n (fiemapEntry F.kernel path m)) s →
      SettlesAs F g n (fiemapEntry F.kernel path m) s (procIno (joinPath path m) d s)) :
    ∀ {j : Nat} {s : Store FiemapBe}, AtEntry inode base j entries.length s → Roomy g s →
      Spare g ((entries.map (fiemapEntry F.kernel path)).map (inodesBelow F n)).sum
        ((entries.map (fiemapEntry F.kernel path)).map (extentsBelow F n)).sum s →
      (processEntries procIno path inode entries s).Settles
        (∀ c ∈ entries.map (fiemapEntry F.kernel path), ∀ b, Linked (fiemapKids F.kernel) c b →
          RoomFor F g b)
        (fun _ s' => Taken g
          ((entries.map (fiemapEntry F.kernel path)).map (inodesBelow F n)).sum
          ((entries.map (fiemapEntry F.kernel path)).map (extentsBelow F n)).sum s s')
        fun e _ => e.code = -EINVAL := by
  induction entries with
  | nil =>
    intro j s _ h _
    exact settles_ok (fun _ hc => absurd hc List.not_mem_nil) h.taken
  | cons m entries ih =>
    intro j s hat h hspare
    rw [List.forall_mem_cons] at hlong hproc
    simp only [List.map_cons, List.sum_cons, List.forall_mem_cons] at hspare ⊢
    rw [hat.processEntries hlong.1]
    have hready := hat.ready (joinPath path m)
    have hstart : StartsAs (fiemapEntry F.kernel path m)
        ((entryState s inode (base + j) (joinPath path m) ⟨base, j + 1⟩).inodes.memory
          (base + j)) := by
      rw [entryState_dentry hat.ne]
      exact ⟨rfl, .inl rfl⟩
    have hroomy : Roomy g (entryState s inode (base + j) (joinPath path m) ⟨base, j + 1⟩) :=
      (h.putInode _ _).putInode _ _
    have hfits : Spare g (inodesBelow F n (fiemapEntry F.kernel path m))
        (extentsBelow F n (fiemapEntry F.kernel path m))
        (entryState s inode (base + j) (joinPath path m) ⟨base, j + 1⟩) := by
      obtain ⟨h1, h2⟩ := hspare
      refine ⟨?_, ?_⟩
      · show s.inodes.free + _ + _ ≤ _
        omega
      · show s.extents.free + _ + _ ≤ _
        omega
    have hfirst := hproc.1 hready hstart hroomy hfits
    have hmirror := hspec (joinPath path m) hready
    rw [IndexesAs, entryState_parent hat.ne] at hmirror
    refine (hfirst.and_sat hmirror).bind fun _ s₁ h₁ => ?_
    obtain ⟨htaken, k, hk⟩ := h₁
    have htaken : Taken g _ _ s s₁ := htaken.of_memory rfl rfl
    exact (ih hlong.2 hproc.2 (hat.next hlong.1 hk) htaken.toRoomy (hspare.after htaken)).mono
      Iff.rfl (fun _ _ _ h₂ => htaken.trans h₂) fun _ _ h => h

theorem processInodeDir_settles (hI : F.mpInodes.Exact poolReserved inodeNbytes)
    (hserved : ∀ b, Linked (fiemapKids F.kernel) c b → Served F b) (hdir : c.dir = true)
    (hproc : ∀ c' ∈ fiemapKids F.kernel c, ∀ {d : Nat} {s : Store FiemapBe}, Ready d s →
      StartsAs c' (s.inodes.memory d) → Roomy g s →
      Spare g (inodesBelow F n c') (extentsBelow F n c') s →
      SettlesAs F g n c' s (procIno c'.path d s))
    (hready : Ready self s) (hft : (s.inodes.memory self).ftype = ftDir)
    (hname : (s.inodes.memory self).name = c.stored) (h : Roomy g s)
    (hspare : Spare g (inodesBelow F (n + 1) c) (extentsBelow F (n + 1) c) s) :
    SettlesAs F g (n + 1) c s (xalBeFiemapProcessInodeDir F procIno c.path self s) := by
  have hc := hserved c .refl
  obtain ⟨names, hnames⟩ := hc.opendir hdir
  have hkids : fiemapKids F.kernel c = (sortEntries names).map (fiemapEntry F.kernel c.path) := by
    rw [fiemapKids, if_pos hdir, entriesAt, hnames]
  have hlen : (fiemapKids F.kernel c).length = (sortEntries names).length := by
    rw [hkids, List.length_map]
  have hnone : nodeExtents F c = 0 := if_pos hdir
  have hself : xalInodeIsDir (s.inodes.memory self) = true := by
    rw [xalInodeIsDir, hft]
    decide
  have hsumI : inodesBelow F (n + 1) c =
      (sortEntries names).length + ((fiemapKids F.kernel c).map (inodesBelow F n)).sum := by
    rw [← hlen]
    rfl
  have hsumX : extentsBelow F (n + 1) c = 0 +
      ((fiemapKids F.kernel c).map (extentsBelow F n)).sum := by
    rw [← hnone]
    rfl
  have hfit : RoomFor F g c ↔ (sortEntries names).length ≤ g := by
    rw [RoomFor, hlen, hnone]
    exact and_iff_left (Nat.zero_le g)
  rw [hsumI, hsumX] at hspare
  obtain ⟨be, hwatch⟩ := watchDir_ok (s := s) hc hdir hft
  unfold SettlesAs xalBeFiemapProcessInodeDir
  rw [inodeAt_bind, bind_of_ok (failIf_false (by rw [hself]; decide) _ s), bind_of_ok hwatch,
    hnames, hsumI, hsumX]
  show Run.Settles ((failIf _ _ >>= _ : Fm Unit) _) _ _ _
  rw [hc.dirMemory, bind_of_ok (failIf_false (by decide) _ _)]
  have hok : StoreOk { s with be } := ⟨hready.ok.inodes, hready.ok.extents⟩
  have hroomy : Roomy g { s with be } := ⟨h.inodes, h.extents⟩
  have hspare' : Spare g _ _ { s with be } := hspare
  have hclaim := onInodes_settles hI hok hroomy (i := (sortEntries names).length)
    (by have := hspare.1; show s.inodes.free + _ + _ ≤ _; omega)
  refine Settles.congr ((hclaim.and_sat (onInodes_claim hI.bounded hok _)).bind fun idx s₁ h₁ => ?_)
    ((and_congr_left' hfit.symm).trans forall_linked_iff.symm)
  obtain ⟨htaken, hok₁, rfl, hfree, hmem, -⟩ := h₁
  simp only at hfree hmem
  have hself₁ : s₁.inodes.memory self = s.inodes.memory self := by rw [hmem]
  rw [setInode_bind, hself₁]
  have hlt := hready.lt
  -- none of the entries is processed yet
  have hat : AtEntry self s.inodes.free 0 (sortEntries names).length (s₁.putInode self
      { s.inodes.memory self with content := ⟨s.inodes.free, 0⟩ }) := by
    refine ⟨hok₁.putInode (by omega) _, hlt, by rw [putInode_same], ?_, fun i h1 h2 => ?_⟩
    · rw [putInode_free, hfree, Nat.add_zero]
    · rw [putInode_other _ _ _ (by omega), hmem]
      exact hready.ok.inodes.clean i (by omega)
  have hfits : ∀ m ∈ sortEntries names, (joinPath c.path m).length ≤ pathMaxlen := fun m hm =>
    (hserved _ (.single (hkids ▸ List.mem_map_of_mem hm))).fits
  have hbegun : Taken g (sortEntries names).length 0 { s with be } (s₁.putInode self
      { s.inodes.memory self with content := ⟨s.inodes.free, 0⟩ }) :=
    ⟨htaken.toRoomy.putInode _ _, htaken.inodes_free, htaken.extents_free⟩
  have hloop := processEntries_settles (n := n) hspec (sortEntries names) hfits
    (fun m hm => hproc _ (hkids ▸ List.mem_map_of_mem hm)) hat hbegun.toRoomy
    (by rw [← hkids]; exact hspare'.after hbegun)
  rw [← hkids] at hloop
  refine (hloop.and_sat (processEntries_spec hspec (sortEntries names) hat)).bind_ok
    fun _ s₂ h₂ => ?_
  obtain ⟨htaken₂, hdir₂, -⟩ := h₂
  have hname₂ : (s₂.inodes.memory self).name = c.stored := by rw [hdir₂, putInode_same, hname]
  rw [putPath_ok fun _ => by rw [hname₂]; exact hc.khPutPath]
  have hall := hbegun.trans htaken₂
  exact settles_ok trivial ⟨⟨hall.inodes, hall.extents⟩, hall.inodes_free, hall.extents_free⟩

end

/-! ## The whole tree -/

/-- The type is derived. -/
theorem StartsAs.deriveFtype (h : StartsAs c (s.inodes.memory self)) (hready : Ready self s)
    (hroomy : Roomy g s) {st : Stat} (hmode : isDirMode st.stMode = c.dir)
    (hreg : c.dir = false → isRegMode st.stMode = true) : ∃ t,
      deriveFtype st.stMode self s = .ok () t ∧ Ready self t ∧ Taken g 0 0 s t ∧
        (t.inodes.memory self).name = c.stored ∧
        (t.inodes.memory self).ftype = if c.dir then ftDir else ftRegFile := by
  obtain ⟨hname, h0 | ⟨hft, hdir⟩⟩ := h
  · have hput (ft : Nat) : Ready self (s.putInode self { s.inodes.memory self with ftype := ft }) ∧
        Taken g 0 0 s (s.putInode self { s.inodes.memory self with ftype := ft }) :=
      ⟨hready.put hready.blank, hroomy.putInode _ _, rfl, rfl⟩
    cases hdir : c.dir with
    | true =>
      refine ⟨_, deriveFtype_dir h0 (hmode.trans hdir), (hput ftDir).1, (hput ftDir).2, ?_, ?_⟩
      · rw [putInode_same]
        exact hname
      · rw [putInode_same]
        rfl
    | false =>
      have hnot : ¬isDirMode st.stMode = true := by rw [hmode, hdir]; decide
      refine ⟨_, deriveFtype_reg h0 hnot (hreg hdir), (hput ftRegFile).1, (hput ftRegFile).2, ?_,
        ?_⟩
      · rw [putInode_same]
        exact hname
      · rw [putInode_same]
        rfl
  · refine ⟨s, deriveFtype_known (by rw [hft]; decide), hready, hroomy.taken, hname, ?_⟩
    rw [hft, hdir, if_pos rfl]

/-- Indexing a node, where the calls do not fail: it succeeds, if there is room (module doc). -/
theorem processInoFiemap_settles (hI : F.mpInodes.Exact poolReserved inodeNbytes)
    (hX : F.mpExtents.Exact poolReserved extentNbytes) (hsb : F.sb.blocksize ≠ 0) (n : Nat) :
    ∀ (c : FiemapNode) {self : Nat} {s : Store FiemapBe}, HasDepth (fiemapKids F.kernel) n c →
      (∀ b, Linked (fiemapKids F.kernel) c b → Served F b) → Ready self s →
      StartsAs c (s.inodes.memory self) → Roomy g s →
      Spare g (inodesBelow F n c) (extentsBelow F n c) s →
      SettlesAs F g n c s (processInoFiemap F n c.path self s) := by
  induction n with
  | zero => exact fun _ _ _ h => h.elim
  | succ n ih =>
    intro c self s hdepth hserved hready hstart hroomy hspare
    have hc := hserved c .refl
    obtain ⟨st, hst, hmode, hreg⟩ := hc.stat
    unfold processInoFiemap
    rw [hst]
    obtain ⟨t, ht, hready, htaken, hname, hft⟩ := hstart.deriveFtype hready hroomy hmode hreg
    have hspare : Spare g (inodesBelow F (n + 1) c) (extentsBelow F (n + 1) c) t := by
      have h1 := htaken.inodes_free
      have h2 := htaken.extents_free
      exact ⟨by rw [h1]; exact hspare.1, by rw [h2]; exact hspare.2⟩
    have hback {i e : Nat} {s' : Store FiemapBe} (h : Taken g i e (t.putInode self
        { t.inodes.memory self with ino := st.stIno, size := st.stSize }) s') : Taken g i e s s' :=
      h.of_memory htaken.inodes_free htaken.extents_free
    show Run.Settles ((Xallib.deriveFtype st.stMode self >>= fun _ =>
      processTyped F (processInoFiemap F n) st c.path self) s) _ _ _
    rw [bind_of_ok ht]
    unfold processTyped
    rw [setInode_bind, inodeAt_bind, putInode_same]
    have hput : Ready self (t.putInode self { t.inodes.memory self with
        ino := st.stIno, size := st.stSize }) := hready.put hready.blank
    cases hdir : c.dir with
    | true =>
      rw [hdir, if_pos rfl] at hft
      rw [if_pos hft]
      have hdone := processInodeDir_settles (n := n) (g := g)
        (fun path => processInoFiemap_spec hI.bounded hX.bounded n path) hI hserved hdir
        (fun c' hc' _ _ hr hs => ih c' (hdepth c' hc') (fun b hb => hserved b (.head hc' hb)) hr hs)
        hput (by rw [putInode_same]; exact hft) (by rw [putInode_same]; exact hname)
        (htaken.toRoomy.putInode _ _) hspare
      exact hdone.mono Iff.rfl (fun _ _ _ h => hback h) fun _ _ h => h
    | false =>
      rw [hdir, if_neg Bool.false_ne_true] at hft
      have hne : (t.inodes.memory self).ftype ≠ ftDir := by rw [hft]; decide
      rw [if_neg hne, if_pos hft]
      have hnil : fiemapKids F.kernel c = [] := by
        rw [fiemapKids, if_neg (by rw [hdir]; decide)]
      have hsumI : inodesBelow F (n + 1) c = 0 := by
        unfold inodesBelow
        rw [summed, hnil]
        rfl
      have hsumX : extentsBelow F (n + 1) c = nodeExtents F c := by
        unfold extentsBelow
        rw [summed, hnil]
        rfl
      have hdone := processInodeFile_settles (g := g) hX hsb hc hdir hput.ok hput.lt
        (htaken.toRoomy.putInode _ _) (by rw [putInode_same]; exact hft)
        (by rw [putInode_same]; exact hname) (by rw [← hsumX]; exact hspare.2)
      rw [hsumI, hsumX]
      refine hdone.mono ?_ (fun _ _ _ h => hback h) fun _ _ h => h
      rw [forall_linked_iff, hnil, RoomFor, hnil]
      simp

end Xallib
