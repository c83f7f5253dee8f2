import Xallib.Fiemap.Proof.Growth
import Xallib.Fiemap.Proof.Room

/-!
# What an open file system can be indexed for

The pools of the FIEMAP backend grow by the number of entries that was counted when the file system
was opened, for as long as it is open. `capacity_of_open`: an index, at any time, of a file system
whose calls do not fail succeeds exactly if that number is not 0, and no directory has more entries
and no file more extents than that; otherwise it fails with `-EINVAL`.
-/

namespace Xallib

open Lib Lib.Cm Lib.Run

/-! ## One index -/

section
variable {α : Type} [Inhabited α] {mp : Mprotect} {reserved elementSize g : Nat} {p : XalPool α}

def XalPool.cleared (p : XalPool α) : XalPool α := { p with
  memory := fun i => if i < p.reserved then default else p.memory i
  free := 0
  allocated := 0 }

theorem xalPoolClear_eq (h : mp.clear = 0) : xalPoolClear mp p = .ok () p.cleared := by
  unfold xalPoolClear
  rw [bind_of_ok (failIf_false (not_not.2 h) _ _)]
  rfl

theorem PoolOk.cleared (hp : PoolOk reserved elementSize p) (h : mp.clear = 0) :
    PoolOk reserved elementSize p.cleared :=
  ((clear_spec hp : (xalPoolClear mp p).Sat _ _).ok (xalPoolClear_eq h)).2.1

theorem growing_cleared (h : p.growby = g) : Growing g p.cleared := ⟨h, Nat.zero_le _⟩

end

variable {F : FiemapEnv} {g n : Nat} {x : Xal FiemapBe}

/-- The file system below the mountpoint, whose calls do not fail. -/
structure ServedTree (F : FiemapEnv) (n : Nat) : Prop where
  nonempty : F.mountpoint ≠ []
  blocksize : F.sb.blocksize ≠ 0
  inodes : F.mpInodes.Exact poolReserved inodeNbytes
  extents : F.mpExtents.Exact poolReserved extentNbytes
  served : ∀ b, Linked (fiemapKids F.kernel) (fiemapRoot F.mountpoint) b → Served F b
  depth : HasDepth (fiemapKids F.kernel) n (fiemapRoot F.mountpoint)

/-- The reservations have room for it, and for a step more. -/
def Reserved (F : FiemapEnv) (n g : Nat) : Prop :=
  1 + inodesBelow F n (fiemapRoot F.mountpoint) + g ≤ poolReserved ∧
    extentsBelow F n (fiemapRoot F.mountpoint) + g ≤ poolReserved

/-- The file system can be indexed with pools that grow by `g`. -/
def Fits (F : FiemapEnv) (g : Nat) : Prop :=
  0 < g ∧ ∀ b, Linked (fiemapKids F.kernel) (fiemapRoot F.mountpoint) b → RoomFor F g b

/-- The store as the root is claimed. -/
def clearedStore (F : FiemapEnv) (s : Store FiemapBe) : Store FiemapBe :=
  ⟨s.inodes.cleared, s.extents.cleared, beCleared F s.be⟩

theorem fiemapIndexBody_settles (hF : ServedTree F n) (hok : StoreOk x.store)
    (hg : GrowsBy g x.store) (hroom : Reserved F n g) :
    (fiemapIndexBody F n x).Settles (Fits F g) (fun _ _ => True) fun e _ => e.code = -EINVAL := by
  have hI := hF.inodes.clear
  have hX := hF.extents.clear
  have hclearI : onStore (ignore (onInodes (xalPoolClear F.mpInodes))) x = .ok ()
      { x with store := { x.store with inodes := x.store.inodes.cleared } } := by
    refine zoom_of_ok ?_
    rw [ignore, onInodes, zoom_of_ok (xalPoolClear_eq hI)]
  have hclearX (x : Xal FiemapBe) : onStore (ignore (onExtents (xalPoolClear F.mpExtents))) x =
      .ok () { x with store := { x.store with extents := x.store.extents.cleared } } := by
    refine zoom_of_ok ?_
    rw [ignore, onExtents, zoom_of_ok (xalPoolClear_eq hX)]
  have hmaps (x : Xal FiemapBe) : onStore (clearInodeMap F) x = .ok () { x with
      store := { x.store with be := beCleared F x.store.be } } := zoom_of_ok clearInodeMap_eq
  have hok₀ : StoreOk (clearedStore F x.store) := ⟨hok.inodes.cleared hI, hok.extents.cleared hX⟩
  have hroomy : Roomy g (clearedStore F x.store) := ⟨growing_cleared hg.1, growing_cleared hg.2⟩
  have hclaim := (onInodes_settles hF.inodes hok₀ hroomy (i := 1)
    (by have := hroom.1; show 0 + 1 + g ≤ poolReserved; omega)).and_sat
      (onInodes_claim hF.inodes.bounded hok₀ 1)
  have hclaim : (onStore (onInodes (xalPoolClaimInodes F.mpInodes 1))
      { x with store := clearedStore F x.store }).Settles (0 < g) (fun idx x' => idx = 0 ∧
        ∃ s, x' = { x with store := s } ∧ StoreOk s ∧
          s.inodes.memory = (clearedStore F x.store).inodes.memory ∧
          Taken g 1 0 (clearedStore F x.store) s) fun e _ => e.code = -EINVAL :=
    settles_zoom (hclaim.mono Iff.rfl
      (fun _ _ s h => ⟨h.2.2.1, s, rfl, h.2.1, h.2.2.2.2.1, h.1⟩) fun _ _ h => h)
  unfold fiemapIndexBody
  rw [bind_of_ok hclearI, bind_of_ok (hclearX _), bind_of_ok (hmaps _)]
  refine hclaim.bind fun idx x' h => ?_
  obtain ⟨rfl, s, rfl, hok, hmem, htaken⟩ := h
  have hfree : s.inodes.free = 1 := htaken.inodes_free
  have hblank : s.inodes.memory 0 = default := by
    rw [hmem]
    exact hok₀.inodes.clean 0 (Nat.le_refl 0)
  rw [modify_bind]
  -- the root is a directory without a name
  have hput : onStore (setInode 0 (initRoot F.sb)) { x with store := s, rootIdx := 0 } =
      .ok () { x with store := s.putInode 0 (initRoot F.sb default), rootIdx := 0 } := by
    refine zoom_of_ok ?_
    rw [setInode_apply, hblank]
  rw [bind_of_ok hput]
  have hready : Ready 0 (s.putInode 0 (initRoot F.sb default)) :=
    ⟨hok.putInode (by omega) _, by rw [putInode_free]; omega, by rw [putInode_same]; rfl⟩
  have hstart : StartsAs (fiemapRoot F.mountpoint)
      ((s.putInode 0 (initRoot F.sb default)).inodes.memory 0) := by
    rw [putInode_same]
    exact ⟨rfl, .inr ⟨rfl, rfl⟩⟩
  have hspare : Spare g (inodesBelow F n (fiemapRoot F.mountpoint))
      (extentsBelow F n (fiemapRoot F.mountpoint)) (s.putInode 0 (initRoot F.sb default)) := by
    have hfreeX : s.extents.free = 0 := htaken.extents_free
    refine ⟨?_, ?_⟩
    · rw [putInode_free, hfree]
      exact hroom.1
    · rw [putInode_extents, hfreeX, Nat.zero_add]
      exact hroom.2
  have hproc := processInoFiemap_settles hF.inodes hF.extents hF.blocksize n
    (fiemapRoot F.mountpoint) hF.depth hF.served hready hstart (htaken.toRoomy.putInode _ _) hspare
  refine Settles.bind_ok (Q := fun _ _ => True) (settles_zoom (hproc.mono Iff.rfl
    (fun _ _ _ _ => trivial) fun _ _ h => h)) fun _ _ _ => ?_
  exact settles_ok trivial trivial

/-- An index, at any time (module doc). -/
theorem xalIndex_settles (hF : ServedTree F n) (hok : StoreOk x.store)
    (hshared : x.sharedView = false) (hg : XalGrowsBy g x) (hroom : Reserved F n g) :
    (xalIndex (xalBeFiemapIndex F n) x).Settles (Fits F g) (fun _ _ => True)
      fun e _ => e.code = -EINVAL := by
  have hne : ¬F.mountpoint.length = 0 := fun h => hF.nonempty (List.length_eq_zero_iff.1 h)
  unfold xalIndex xalBeFiemapIndex
  rw [read_bind, bind_of_ok (failIf_false (by rw [hshared]; decide) _ x),
    bind_of_ok (failIf_false hne _ x), modify_bind]
  exact settles_onExit (fiemapIndexBody_settles (x := addSeqLock x) hF hok hg hroom)

/-! ## From the opening on -/

theorem xalPoolMap_growby {α : Type} [Inhabited α] {os : MapAnswers} {mp : Mprotect}
    {reserved allocated elementSize : Nat} (p : XalPool α) :
    (xalPoolMap os mp reserved allocated elementSize false p).Sat
      (fun _ p' => p'.growby = allocated) fun _ _ => True := by
  unfold xalPoolMap
  rw [read_bind]
  refine sat_failIf_bind (fun _ => trivial) fun _ => ?_
  rw [modify_bind]
  refine sat_failIf_bind (fun _ => trivial) fun _ => ?_
  rw [modify_bind]
  refine sat_failIf_bind (fun _ => trivial) fun _ => ?_
  rw [modify_bind]
  exact (grow_growth allocated _ rfl).mono (fun _ _ h => h) fun _ _ _ => trivial

theorem xalMapPools_growsBy {osI osX : MapAnswers} {mpI mpX : Mprotect} {total : Nat}
    {s s' : Store FiemapBe} (h : xalMapPools osI osX mpI mpX total false s = .ok () s') :
    GrowsBy total s' := by
  unfold xalMapPools at h
  obtain ⟨_, s₁, hi, hx⟩ := bind_ok.1 h
  obtain ⟨p, hp, rfl⟩ := zoom_ok.1 hi
  obtain ⟨q, hq, rfl⟩ := zoom_ok.1 hx
  exact ⟨(xalPoolMap_growby _).ok hp, (xalPoolMap_growby _).ok hq⟩

section
variable {E : FiemapOpenEnv} {fuel : Nat} {mountpoint : CStr} {s₀ s : FiemapOpening}
  {x₀ : Xal FiemapBe} {total : Nat}

/-- What holds of the open file system, whatever has happened to it. -/
theorem JustOpened.reach_growth (h : JustOpened .fiemap false x₀) (hg : XalGrowsBy total x₀)
    (hx : Reach (· = x₀) FiemapStep x) :
    StoreOk x.store ∧ x.sharedView = false ∧ XalGrowsBy total x := by
  have hinv : Alive .fiemap x ∧ XalGrowsBy total x := by
    refine Reach.invariant (I := fun x => Alive .fiemap x ∧ XalGrowsBy total x) ?_ ?_ hx
    · rintro _ rfl
      exact ⟨h.alive, hg⟩
    · exact fun _ _ hi hs => ⟨hs.alive hi.1, hs.growth hi.2⟩
  exact ⟨hinv.1.storeOk, hinv.1.sharedView, hinv.2⟩

/-- A file system that has been opened, and is indexed at any time (module doc). -/
theorem capacity_of_open (herr : E.Errnos) (hI : E.mpInodes.Bounded poolReserved inodeNbytes)
    (hX : E.mpExtents.Bounded poolReserved extentNbytes) (h₀ : NothingHeld s₀)
    (hopen : xalBeFiemapOpen E fuel (some mountpoint) s₀ = .ok () s) (hshm : E.shmName = none) :
    ∃ x₀ total t, s.xal = some x₀ ∧
      retrieveTotalEntries E fuel mountpoint t = .ok ((total : Nat) : Int) t ∧
      ∀ F n x, Reach (· = x₀) FiemapStep x → ServedTree F n → Reserved F n total →
        ((∃ y, xalIndex (xalBeFiemapIndex F n) x = .ok () y) ↔ Fits F total) ∧
        (¬Fits F total → ∃ e y, xalIndex (xalBeFiemapIndex F n) x = .fail e y ∧
          e.code = -EINVAL) := by
  obtain ⟨path, x₀, hpath, hx₀⟩ :=
    (xalBeFiemapOpen_sat herr hI hX h₀ fuel (some mountpoint)).ok hopen
  cases hpath
  obtain ⟨t, total, hcount, hmap⟩ := hx₀.sized
  have hopened := hx₀.opened
  rw [hshm] at hmap hopened
  refine ⟨x₀, total, t, hx₀.xal, hcount, fun F n x hx hF hroom => ?_⟩
  obtain ⟨hok, hshared, hg⟩ := hopened.reach_growth (xalMapPools_growsBy hmap) hx
  have hsettles := xalIndex_settles hF hok hshared hg hroom
  refine ⟨Iff.trans ?_ hsettles.ok_iff, fun hno => hsettles.fails hno⟩
  exact ⟨fun ⟨y, hy⟩ => ⟨(), y, hy⟩, fun ⟨_, y, hy⟩ => ⟨y, hy⟩⟩

/-- A file system that does not change, with the right types in its directories: where it is opened
and then indexed, this succeeds exactly if there is an entry, and no file has more extents than
there are entries. -/
theorem capacity_unchanged (herr : E.Errnos) (hI : E.mpInodes.Bounded poolReserved inodeNbytes)
    (hX : E.mpExtents.Bounded poolReserved extentNbytes) (h₀ : NothingHeld s₀) {F : FiemapEnv}
    (hopen : xalBeFiemapOpen E n (some F.mountpoint) s₀ = .ok () s) (hshm : E.shmName = none)
    (hkernel : F.kernel = E.kernel) (hF : ServedTree F n)
    (htypes : ∀ q c, q ≠ [] → FiemapListed F.kernel F.mountpoint q c → E.isDtDir c.path = c.dir)
    (hroom : Reserved F n (inodesBelow F n (fiemapRoot F.mountpoint))) :
    ∃ x₀, s.xal = some x₀ ∧ ((∃ y, xalIndex (xalBeFiemapIndex F n) x₀ = .ok () y) ↔
      0 < inodesBelow F n (fiemapRoot F.mountpoint) ∧
        ∀ q c, FiemapListed F.kernel F.mountpoint q c → c.dir = false →
          (reported F.kernel F.sb c.path).length ≤ inodesBelow F n (fiemapRoot F.mountpoint)) := by
  obtain ⟨path, x₀, hpath, hx₀⟩ :=
    (xalBeFiemapOpen_sat herr hI hX h₀ n (some F.mountpoint)).ok hopen
  cases hpath
  obtain ⟨t, total, hcount, hmap⟩ := hx₀.sized
  have hopened := hx₀.opened
  rw [hshm] at hmap hopened
  -- all entries are counted
  have hbelow : below (fiemapKids F.kernel) E.enters n (fiemapRoot F.mountpoint) =
      inodesBelow F n (fiemapRoot F.mountpoint) := by
    refine below_eq_summed n _ fun c hc b hb hne => ?_
    obtain ⟨q, hq, hfound⟩ := (found_below_iff FiemapNode.base).2 ⟨c, hc, hb⟩
    show E.isDtDir b.path = true
    rw [htypes q b hq hfound]
    by_contra hdir
    exact hne (if_neg hdir)
  have hsmall := hroom.1
  unfold poolReserved at hsmall
  have hdepth := hF.depth
  have hserved := hF.served
  rw [hkernel] at hdepth hserved hbelow
  have happly := retrieveTotalEntries_apply (E := E) n (fiemapRoot F.mountpoint) t hdepth
    (fun b hb => by rw [← hkernel]; exact (hserved b hb).answered) (by omega)
  have htotal : total = inodesBelow F n (fiemapRoot F.mountpoint) := by
    rw [hbelow] at happly
    have := hcount.symm.trans happly
    injection this with h
    exact Int.ofNat_inj.1 h
  obtain ⟨hok, hshared, hg⟩ := hopened.reach_growth (xalMapPools_growsBy hmap) (.init rfl)
  rw [htotal] at hg
  have hsettles := xalIndex_settles hF hok hshared hg hroom
  refine ⟨x₀, hx₀.xal, Iff.trans ⟨fun ⟨y, hy⟩ => ⟨(), y, hy⟩, fun ⟨_, y, hy⟩ => ⟨y, hy⟩⟩
    (hsettles.ok_iff.trans (and_congr_right fun _ => ?_))⟩
  constructor
  · intro h q c hq hfile
    have := (h c ((found_iff_linked FiemapNode.base).1 ⟨q, hq⟩)).2
    rw [nodeExtents, if_neg (by rw [hfile]; decide)] at this
    exact this
  · intro h b hb
    refine ⟨hF.depth.le_summed (w := fun c => (fiemapKids F.kernel c).length) hb, ?_⟩
    unfold nodeExtents
    split
    · exact Nat.zero_le _
    · next hdir =>
      obtain ⟨q, hq⟩ := (found_iff_linked FiemapNode.base).2 hb
      exact h q b hq (Bool.eq_false_iff.2 hdir)

end

/-! ## One file -/

/-- The file `/m/a` with its extents. -/
def fragmented (extents : List FiemapExtent) : FiemapEnv := tableEnv
  (tableKernel [([47, 109], [[97]])] [([47, 109, 47, 97], extents)]) [47, 109] smallSb
  .dirtyDetection 0

def fragmentedOpen (extents : List FiemapExtent) : FiemapOpenEnv :=
  { watchedOpenEnv with kernel := (fragmented extents).kernel }

theorem fragmentedOpen_errnos (extents : List FiemapExtent) : (fragmentedOpen extents).Errnos := by
  refine ⟨fun path errno h => ?_, fun path errno h => ?_, fun errno h => by cases h⟩
  · simp only [fragmentedOpen, fragmented, tableEnv, tableKernel] at h
    split_ifs at h
    cases h
    decide
  · simp only [fragmentedOpen, fragmented, tableEnv, tableKernel] at h
    split at h <;> cases h
    decide

theorem fragmented_served (extents : List FiemapExtent) (hsmall : extents.length ≤ 2) :
    ServedTree (fragmented extents) 2 := by
  have hroot : fiemapKids (fragmented extents).kernel (fiemapRoot [47, 109]) =
      [fiemapEntry (fragmented extents).kernel [47, 109] [97]] := rfl
  have hfile : fiemapKids (fragmented extents).kernel
      (fiemapEntry (fragmented extents).kernel [47, 109] [97]) = [] := rfl
  have hlen : (joinPath [47, 109] [97]).length ≤ pathMaxlen := by decide
  refine ⟨List.cons_ne_nil _ _, show smallSb.blocksize ≠ 0 by decide, mprotectWithin_exact _ _,
    mprotectWithin_exact _ _, ?_, ?_⟩
  · show ∀ b, Linked _ (fiemapRoot [47, 109]) b → _
    rw [forall_linked_iff, hroot, List.forall_mem_singleton, forall_linked_iff, hfile]
    refine ⟨⟨⟨_, rfl, rfl, by decide⟩, fun _ => ⟨_, rfl⟩, rfl, fun _ => ⟨_, rfl, rfl⟩,
      fun h => absurd h (by decide), rfl, by decide⟩, ⟨⟨_, rfl, rfl, fun _ => rfl⟩,
      fun h => absurd h Bool.false_ne_true, rfl, fun h => absurd h Bool.false_ne_true, fun _ => ?_,
      rfl, hlen⟩, fun _ hc => absurd hc List.not_mem_nil⟩
    have hsize : extentsSize extents.length = 56 * extents.length :=
      Nat.mod_eq_of_lt (by omega)
    exact ⟨extents.length, extents.length, _, ⟨⟨⟨rfl, rfl, rfl, by omega⟩, by omega, rfl⟩, rfl,
      by omega⟩⟩
  · show ∀ c' ∈ fiemapKids _ (fiemapRoot [47, 109]), _
    rw [hroot, List.forall_mem_singleton]
    show ∀ c' ∈ fiemapKids _ _, _
    rw [hfile]
    exact fun _ hc => absurd hc List.not_mem_nil

/-- The file is all there is below the mountpoint. -/
theorem fragmented_below {extents : List FiemapExtent} {q : List CStr} {c : FiemapNode}
    (hq : q ≠ []) (hc : FiemapListed (fragmented extents).kernel [47, 109] q c) :
    c = fiemapEntry (fragmented extents).kernel [47, 109] [97] := by
  obtain ⟨c₀, h₀, hl⟩ := (found_below_iff FiemapNode.base).1 ⟨q, hq, hc⟩
  obtain rfl := List.mem_singleton.1 h₀
  rcases Relation.ReflTransGen.cases_head hl with h | ⟨_, h, -⟩
  · exact h.symm
  · exact absurd h List.not_mem_nil

/-- A file of two extents. -/
def splitFile : List FiemapExtent := [⟨0, 0, 4096, 0⟩, ⟨4096, 8192, 4096, 0⟩]

/-- There is one entry, and the pools grow by one. -/
theorem capacity_of_open_fragmented : ∃ s x₀,
    xalBeFiemapOpen (fragmentedOpen splitFile) 2 (some [47, 109]) beforeOpening = .ok () s ∧
      s.xal = some x₀ ∧ ∃ e y, xalIndex (xalBeFiemapIndex (fragmented splitFile) 2) x₀ = .fail e y ∧
        e.code = -EINVAL := by
  have hrun : (xalBeFiemapOpen (fragmentedOpen splitFile) 2 (some [47, 109]) beforeOpening).okWith
      (fun _ => true) = true := by decide +kernel
  obtain ⟨_, s, hopen, -⟩ := exists_of_okWith hrun
  obtain ⟨x₀, total, t, hx₀, hcount, hindex⟩ := capacity_of_open (fragmentedOpen_errnos splitFile)
    (mprotectWithin_bounded _ _ 0) (mprotectWithin_bounded _ _ 0)
    (show NothingHeld beforeOpening from rfl) hopen rfl
  have htotal : total = 1 := by
    have happly : retrieveTotalEntries (fragmentedOpen splitFile) 2 [47, 109] t = .ok 1 t := by
      have hF := fragmented_served splitFile (by decide)
      exact retrieveTotalEntries_apply 2 (fiemapRoot [47, 109]) t hF.depth
        (fun b hb => (hF.served b hb).answered) (by decide +kernel)
    have := hcount.symm.trans happly
    injection this with h
    omega
  subst htotal
  have hF := fragmented_served splitFile (by decide)
  have hno : ¬Fits (fragmented splitFile) 1 := by
    intro h
    have hfile := (h.2 (fiemapEntry (fragmented splitFile).kernel [47, 109] [97])
      (.single (List.mem_singleton.2 rfl))).2
    exact absurd hfile (by decide +kernel)
  exact ⟨s, x₀, hopen, hx₀, (hindex _ 2 x₀ (.init rfl) hF
    ⟨by decide +kernel, by decide +kernel⟩).2 hno⟩

/-- With one extent, it is indexed. -/
theorem capacity_unchanged_file : ∃ s x₀,
    xalBeFiemapOpen (fragmentedOpen [⟨0, 0, 4096, 0⟩]) 2 (some [47, 109]) beforeOpening = .ok () s ∧
      s.xal = some x₀ ∧
      ∃ y, xalIndex (xalBeFiemapIndex (fragmented [⟨0, 0, 4096, 0⟩]) 2) x₀ = .ok () y := by
  have hrun : (xalBeFiemapOpen (fragmentedOpen [⟨0, 0, 4096, 0⟩]) 2 (some [47, 109])
      beforeOpening).okWith (fun _ => true) = true := by decide +kernel
  obtain ⟨_, s, hopen, -⟩ := exists_of_okWith hrun
  have hF := fragmented_served [⟨0, 0, 4096, 0⟩] (by decide)
  obtain ⟨x₀, hx₀, hiff⟩ := capacity_unchanged (fragmentedOpen_errnos [⟨0, 0, 4096, 0⟩])
    (mprotectWithin_bounded _ _ 0) (mprotectWithin_bounded _ _ 0)
    (show NothingHeld beforeOpening from rfl) (F := fragmented [⟨0, 0, 4096, 0⟩]) hopen rfl rfl hF
    (fun q c hq hc => by rw [fragmented_below hq hc]; rfl) ⟨by decide +kernel, by decide +kernel⟩
  refine ⟨s, x₀, hopen, hx₀, hiff.2 ⟨by decide +kernel, fun q c hc hfile => ?_⟩⟩
  cases hc with
  | root => exact absurd hfile (by decide)
  | kid hb hc =>
    rw [fragmented_below (by simp) (hb.kid hc)]
    decide +kernel

end Xallib
