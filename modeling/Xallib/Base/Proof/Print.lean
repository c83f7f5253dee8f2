import Xallib.Base.Print
import Xallib.Base.Proof.IndexTree
import Xallib.Base.Proof.Root

/-!
# The printer and the walk

`WellIndexed xal`: what indexing leaves, a tree of directories and regular files below the root.

`xal_inode_pp` does at an inode what it does, and calls itself for the children (`ppCall_recurses`),
if there are fewer of them than its counter has values. Where it returns, it has printed all inodes
below, so each directory has fewer (`Prints.small`). `inodePp_iff`: it prints what the walk visits
exactly if they have.
-/

namespace Xallib

open Lib Lib.Forest Lib.Cm Lib.Run

variable {δ : Type}

/-- The index is a tree (module doc). -/
structure WellIndexed (xal : Xal δ) : Prop where
  tree : ∃ k, Placed Node xal.store.inodes.memory
    (.cons (xal.store.inodes.memory xal.rootIdx) k .nil)
    poolIdxNone xal.rootIdx (xal.rootIdx + 1)
  typed : ∀ i, Listed xal.store.inodes.memory xal.rootIdx i → Typed (xal.store.inodes.memory i)

/-- So it is after a call of `xal_index` that has returned 0. -/
theorem Rooted.wellIndexed {slot : Nat} {x x' : Xal δ} (h : Rooted slot x x')
    (ht : ∀ i, Listed x'.store.inodes.memory x'.rootIdx i → Typed (x'.store.inodes.memory i)) :
    WellIndexed x' := by
  obtain ⟨k, -, hp, -, -⟩ := h.tree
  rw [← h.rootIdx] at hp
  exact ⟨⟨k, hp⟩, ht⟩

/-- From `i` on, the inodes below are printed, each once, as the walk visits them. -/
structure PrintsBelow (xal : Xal δ) (printf : PpLine → Int) (i : Nat) (calls : List (Nat × Nat)) :
    Prop where
  once : (calls.map Prod.fst).Nodup
  below : ∀ j, j ∈ calls.map Prod.fst ↔ Listed xal.store.inodes.memory i j
  walk : xal.dirty = false → ∃ n, ∀ fuel ≥ n, xalWalk xal i (some noteCalls) fuel [] = .ok () calls
  prints : ∃ n, ∀ rounds ≥ n, ∀ fuel ≥ n, ∃ wrtn, xalInodePp xal printf rounds fuel (some i) [] =
    .ok wrtn (calls.flatMap fun c => ppLines xal c.1)

/-! ## The slots of a tree -/

section
variable {mem : Nat → XalInode} {v : XalInode} {k : Forest XalInode} {p slot lo i : Nat}

theorem occ_of_listed (hp : Placed Node mem (.cons v k .nil) p slot lo) (hlo : slot + 1 ≤ lo)
    (h : Listed mem slot i) : Occ (.cons v k .nil) slot lo i := by
  induction h with
  | root => exact .inl ⟨Nat.le_refl _, Nat.lt_succ_self _⟩
  | child _ hi ih => exact .inr (hp.child hlo ih hi).2.1

theorem listed_of_occ (hp : Placed Node mem (.cons v k .nil) p slot lo) (hlo : slot + 1 ≤ lo) :
    Occ (.cons v k .nil) slot lo i → Listed mem slot i := by
  induction i using Nat.strongRecOn with
  | ind i ih =>
    intro hi
    by_cases h0 : i = slot
    · rw [h0]
      exact .root
    · have hdeep : lo ≤ i ∧ i < lo + (Forest.cons v k .nil).deep := by
        rcases hi with hi | hi
        · simp only [width_cons, width_nil] at hi
          omega
        · exact hi
      obtain ⟨hocc, hin⟩ := hp.covered hlo hdeep
      exact .child (ih _ (hp.child hlo hocc hin).2.2 hocc) hin

/-- The visited slots are those that are listed. -/
theorem mem_visits_listed (hp : Placed Node mem (.cons v k .nil) p slot lo) (hlo : slot + 1 ≤ lo) :
    i ∈ (visits (.cons v k .nil) slot lo 0).map Prod.fst ↔ Listed mem slot i := by
  have hvisit := mem_visits (f := .cons v k .nil) (d := 0) (i := i) (by simpa using hlo)
  rw [List.mem_map]
  constructor
  · rintro ⟨⟨j, l⟩, hj, rfl⟩
    exact listed_of_occ hp hlo (hvisit.1 ⟨l, hj⟩)
  · intro h
    obtain ⟨l, hl⟩ := hvisit.2 (occ_of_listed hp hlo h)
    exact ⟨(i, l), hl, rfl⟩

theorem Listed.trans {root d : Nat} (h : Listed mem root d) (hi : Listed mem d i) :
    Listed mem root i := by
  induction hi with
  | root => exact h
  | child _ hc ih => exact .child ih hc

end

/-! ## The recursion -/

section
variable {xal : Xal δ} {printf : PpLine → Int} {rounds fuel slot : Nat}

/-- A call for which the result is not looked at. -/
def ppCall (xal : Xal δ) (printf : PpLine → Int) (rounds fuel slot _depth : Nat) :
    Cm Err (List PpLine) Unit :=
  xalInodePp xal printf rounds fuel (some slot) >>= fun _ => pure ()

/-- A directory that the loop over the children gets to the end of. -/
def Small (rounds : Nat) (v : XalInode) : Prop :=
  v.ftype = ftDir → v.content.count < 2 ^ 8 ∧ v.content.count ≤ rounds

theorem ppCall_dir (hdir : (xal.store.inodes.memory slot).ftype = ftDir) (depth : Nat)
    (s : List PpLine) : ppCall xal printf rounds (fuel + 1) slot depth s =
      forUp (fun _ i => decide (i % 2 ^ 8 < (xal.store.inodes.memory slot).content.count))
        (fun i => ppCall xal printf rounds fuel
          ((xal.store.inodes.memory slot).content.idx + i % 2 ^ 8) (depth + 1)) rounds 0
        (s ++ ppLines xal slot) := by
  unfold ppCall
  rw [xalInodePp]
  simp only [if_pos hdir]
  rw [bind_assoc_apply, modify_bind, bind_assoc_apply]
  exact bind_ret_apply _ _

theorem ppCall_file (hdir : (xal.store.inodes.memory slot).ftype ≠ ftDir) (depth : Nat)
    (s : List PpLine) : ppCall xal printf rounds (fuel + 1) slot depth s =
      .ok () (s ++ ppLines xal slot) := by
  unfold ppCall
  rw [xalInodePp]
  simp only [if_neg hdir]
  rfl

variable (xal printf rounds) in
/-- The printer puts out the lines of the inode, and calls itself for the children. -/
theorem ppCall_recurses : Recurses (fun v => (dents v).1) (fun v => (dents v).2)
    xal.store.inodes.memory (Small rounds) (fun slot _ => modify (· ++ ppLines xal slot))
    (ppCall xal printf rounds) := by
  intro fuel slot depth s hsmall
  show _ = forUp (fun _ j => decide (j < (dents (xal.store.inodes.memory slot)).2))
    (fun j => ppCall xal printf rounds fuel ((dents (xal.store.inodes.memory slot)).1 + j)
      (depth + 1))
    (dents (xal.store.inodes.memory slot)).2 0 (s ++ ppLines xal slot)
  by_cases hdir : (xal.store.inodes.memory slot).ftype = ftDir
  · obtain ⟨hlt, hle⟩ := hsmall hdir
    rw [ppCall_dir hdir, dents_dir hdir]
    rw [forUp_narrow (fun i => ppCall xal printf rounds fuel
      ((xal.store.inodes.memory slot).content.idx + i) (depth + 1)) hlt _ _ (Nat.zero_le _)]
    rw [forUp_range' _ (by omega), forUp_range' _ (by omega)]
  · rw [ppCall_file hdir, dents_of_ne hdir]
    exact (forUp_stop (by simp) 0).symm

/-- The call for the slot returns. -/
def Prints (xal : Xal δ) (printf : PpLine → Int) (rounds fuel slot : Nat) : Prop :=
  ∃ depth s s', ppCall xal printf rounds fuel slot depth s = .ok () s'

/-- A call that returns is for a small directory, and its calls for the children have returned. -/
theorem Prints.step (h : Prints xal printf rounds fuel slot)
    (hdir : (xal.store.inodes.memory slot).ftype = ftDir) :
    (xal.store.inodes.memory slot).content.count < 2 ^ 8 ∧
      ∀ i, InDents (xal.store.inodes.memory slot) i → ∃ m, Prints xal printf rounds m i := by
  obtain ⟨depth, s, s', h⟩ := h
  cases fuel with
  | zero => cases h
  | succ fuel =>
    rw [ppCall_dir hdir] at h
    have hlt := forUp_narrow_lt (fun i => ppCall xal printf rounds fuel
      ((xal.store.inodes.memory slot).content.idx + i) (depth + 1)) (by decide) h
    refine ⟨hlt, fun i hi => ?_⟩
    rw [inDents_dir hdir] at hi
    obtain ⟨j, rfl⟩ := Nat.exists_eq_add_of_le hi.1
    rw [forUp_narrow (fun i => ppCall xal printf rounds fuel
      ((xal.store.inodes.memory slot).content.idx + i) (depth + 1)) hlt _ _ (Nat.zero_le _)] at h
    obtain ⟨_, t, t', hround⟩ := forUp_ok_round h j (Nat.zero_le _) (by omega)
    exact ⟨fuel, depth + 1, t, t', hround⟩

/-- Where a call returns, all directories below are small. -/
theorem Prints.small {i : Nat} (h : Prints xal printf rounds fuel slot)
    (hi : Listed xal.store.inodes.memory slot i)
    (hdir : (xal.store.inodes.memory i).ftype = ftDir) :
    (xal.store.inodes.memory i).content.count < 2 ^ 8 := by
  have hprints : ∃ m, Prints xal printf rounds m i := by
    clear hdir
    induction hi with
    | root => exact ⟨fuel, h⟩
    | child _ hin ih =>
      obtain ⟨m, hm⟩ := ih
      refine (hm.step ?_).2 _ hin
      by_contra hne
      exact not_inDents_of_ne hne hin
  obtain ⟨m, hm⟩ := hprints
  exact (hm.step hdir).1

theorem PrintsBelow.small {i j : Nat} {calls : List (Nat × Nat)}
    (h : PrintsBelow xal printf i calls)
    (hj : Listed xal.store.inodes.memory i j) (hdir : (xal.store.inodes.memory j).ftype = ftDir) :
    (xal.store.inodes.memory j).content.count < 2 ^ 8 := by
  obtain ⟨n, hn⟩ := h.prints
  obtain ⟨wrtn, hr⟩ := hn n (Nat.le_refl _) n (Nat.le_refl _)
  have hprints : Prints xal printf n n i := ⟨0, [], _, bind_of_ok hr⟩
  exact hprints.small hj hdir

theorem forM_lines (calls : List (Nat × Nat)) (s : List PpLine) :
    calls.forM (fun c => (modify (· ++ ppLines xal c.1) : Cm Err (List PpLine) Unit)) s =
      .ok () (s ++ calls.flatMap fun c => ppLines xal c.1) := by
  induction calls generalizing s with
  | nil => simp
  | cons c calls ih =>
    show (modify (· ++ ppLines xal c.1) >>= fun _ => calls.forM _) s = _
    rw [modify_bind, ih, List.flatMap_cons, List.append_assoc]

/-- Over a tree of small directories, the printer puts out the lines of the slots in preorder. -/
theorem xalInodePp_visits {v : XalInode} {k : Forest XalInode} {p lo : Nat}
    (hp : Placed Node xal.store.inodes.memory (.cons v k .nil) p slot lo)
    (hsmall : ∀ u ∈ (Forest.cons v k .nil).nodes, u.ftype = ftDir → u.content.count < 2 ^ 8)
    (hrounds : 2 ^ 8 ≤ rounds) (hfuel : k.size + 1 ≤ fuel) :
    ∃ wrtn, xalInodePp xal printf rounds fuel (some slot) [] =
      .ok wrtn ((visits (.cons v k .nil) slot lo 0).flatMap fun c => ppLines xal c.1) := by
  have hcall : ppCall xal printf rounds fuel slot 0 [] = _ :=
    (ppCall_recurses xal printf rounds).visits [] hp (fun u hu hdir =>
      ⟨hsmall u hu hdir, Nat.le_trans (Nat.le_of_lt (hsmall u hu hdir)) hrounds⟩) hfuel
  rw [forM_lines] at hcall
  obtain ⟨wrtn, s', hr, hs'⟩ := bind_ok.1 hcall
  obtain ⟨-, rfl⟩ := Run.ok.inj hs'
  exact ⟨wrtn, hr⟩

end

/-- The printer prints each inode below once, as the walk visits them, exactly if no directory has
more children than its counter counts. -/
theorem inodePp_iff (xal : Xal δ) (printf : PpLine → Int) (hx : WellIndexed xal) (i : Nat)
    (hi : Listed xal.store.inodes.memory xal.rootIdx i) :
    (∃ calls, PrintsBelow xal printf i calls) ↔
      ∀ j, Listed xal.store.inodes.memory i j → (xal.store.inodes.memory j).ftype = ftDir →
        (xal.store.inodes.memory j).content.count < 2 ^ 8 := by
  constructor
  · rintro ⟨calls, h⟩ j hj hdir
    exact h.small hj hdir
  · intro hsmall
    obtain ⟨k₀, hp₀⟩ := hx.tree
    obtain ⟨k, q, lo, hp, hlo⟩ := hp₀.subtree (Nat.le_refl _)
      (occ_of_listed hp₀ (Nat.le_refl _) hi)
    have hmem := fun j => mem_visits_listed (i := j) hp hlo
    have hnodes : ∀ u ∈ (Forest.cons (xal.store.inodes.memory i) k .nil).nodes,
        ∃ j, Listed xal.store.inodes.memory i j ∧ xal.store.inodes.memory j = u := by
      intro u hu
      rw [← hp.map_visits 0] at hu
      obtain ⟨c, hc, rfl⟩ := List.mem_map.1 hu
      exact ⟨c.1, (hmem c.1).1 (List.mem_map.2 ⟨c, hc, rfl⟩), rfl⟩
    refine ⟨visits (.cons (xal.store.inodes.memory i) k .nil) i lo 0, ?_, hmem, fun hd => ?_, ?_⟩
    · exact nodup_visits (by simpa using hlo)
    · refine ⟨k.size + 1, fun fuel hfuel => ?_⟩
      have htyped : ∀ u ∈ (Forest.cons (xal.store.inodes.memory i) k .nil).nodes, Typed u := by
        intro u hu
        obtain ⟨j, hj, rfl⟩ := hnodes u hu
        exact hx.typed j (hi.trans hj)
      rw [xalWalk, walk_visits hd hp htyped hfuel]
      exact runCalls_note _ []
    · refine ⟨max (2 ^ 8) (k.size + 1), fun rounds hrounds fuel hfuel => ?_⟩
      refine xalInodePp_visits hp (fun u hu hdir => ?_) (by omega) (by omega)
      obtain ⟨j, hj, rfl⟩ := hnodes u hu
      exact hsmall j hj hdir

/-! ## A directory of files -/

/-- A root directory with `n` empty files. -/
def flatInode (n i : Nat) : XalInode :=
  if i = 0 then
    { (default : XalInode) with ftype := ftDir, content := ⟨1, n⟩, parentIdx := poolIdxNone }
  else { (default : XalInode) with ftype := ftRegFile, parentIdx := 0 }

def flatDir (n : Nat) : Xal Unit :=
  { openedXal .xfs default () with
    rootIdx := 0
    store := ⟨
      { (sharedPool inodeNbytes : XalPool XalInode) with free := n + 1, memory := flatInode n },
      sharedPool extentNbytes, ()⟩ }

theorem flatInode_file {n i : Nat} (h : i ≠ 0) :
    flatInode n i = { (default : XalInode) with ftype := ftRegFile, parentIdx := 0 } := if_neg h

theorem flatDir_wellIndexed (n : Nat) : WellIndexed (flatDir n) where
  tree := by
    refine ⟨leaves (flatInode n) 1 n, rfl, ⟨rfl, ?_, fun _ => rfl⟩, ?_, trivial⟩
    · rw [width_leaves]
      rfl
    · refine placed_leaves n fun i h1 _ => ?_
      rw [show (flatDir n).store.inodes.memory i = _ from flatInode_file (Nat.ne_of_gt h1)]
      exact ⟨rfl, rfl, fun h => absurd rfl h⟩
  typed i _ := by
    show Typed (flatInode n i)
    by_cases h0 : i = 0
    · rw [h0]
      exact .inl rfl
    · rw [flatInode_file h0]
      exact .inr rfl

/-- With 255 files, all are printed. -/
theorem inodePp_iff_255 : ∃ calls, PrintsBelow (flatDir 255) (fun _ => 0) 0 calls := by
  refine (inodePp_iff (flatDir 255) (fun _ => 0) (flatDir_wellIndexed 255) 0 .root).2
    fun j _ hdir => ?_
  by_cases h0 : j = 0
  · rw [h0]
    decide
  · have hfile := flatInode_file (n := 255) h0
    rw [show (flatDir 255).store.inodes.memory j = _ from hfile] at hdir
    cases hdir

/-- With 256, the loop does not end. -/
theorem inodePp_256 : ¬∃ calls, PrintsBelow (flatDir 256) (fun _ => 0) 0 calls := by
  rintro ⟨calls, h⟩
  exact absurd (h.small .root rfl) (by decide)

end Xallib
