import Xallib.Base.Proof.Walk
import Xallib.Fiemap.Lookup
import Xallib.Fiemap.Proof.PathTable

/-!
# What is put into the map of paths

Indexing puts the names of the directories and of the files that are read (`mem_pathEntries`), the
root under the empty name. `buildHashmapWalk_ok`: building the map from an index puts what has a
name.
-/

namespace Xallib

open Lib Lib.Forest Lib.Cm Lib.Run

/-! ## At index time -/

section
variable {E : FiemapEnv} {path : CStr}

theorem length_pathEntries (f : Forest XalInode) :
    ∀ slot lo, (pathEntries E f slot lo).length ≤ f.size := by
  induction f with
  | nil => exact fun _ _ => Nat.le_refl 0
  | cons v k r ihk ihr =>
    intro slot lo
    have hself : (leaveEntry E v.name v slot).length ≤ 1 := by
      unfold leaveEntry
      split
      · exact Nat.le_refl 1
      · exact Nat.zero_le 1
    have hk := ihk lo (lo + k.width)
    have hr := ihr (slot + 1) (lo + k.size)
    rw [pathEntries, List.length_append, List.length_append, size]
    omega

/-- The entries are those of the inodes of the tree. -/
theorem mem_pathEntries {mem : Nat → XalInode} {f : Forest XalInode} {p slot lo i : Nat}
    (hp : Placed Node mem f p slot lo) (hs : slot + f.width ≤ lo) :
    (path, i) ∈ pathEntries E f slot lo ↔ Occ f slot lo i ∧ (mem i).name = path ∧
      ((mem i).ftype = ftDir ∨ E.kernel.fiemapMemory path = true) := by
  induction f generalizing p slot lo with
  | nil =>
    simp only [pathEntries, List.not_mem_nil, Occ, width_nil, deep_nil, false_iff]
    rintro ⟨hocc, -⟩
    omega
  | cons v k r ihk ihr =>
    obtain ⟨hv, -, hk, hr⟩ := hp
    have hks := size_eq k
    simp only [width_cons] at hs
    have hself : (path, i) ∈ leaveEntry E v.name v slot ↔ i = slot ∧ (mem i).name = path ∧
        ((mem i).ftype = ftDir ∨ E.kernel.fiemapMemory path = true) := by
      unfold leaveEntry
      constructor
      · intro h
        by_cases hput : v.ftype = ftDir ∨ E.kernel.fiemapMemory v.name = true
        · rw [if_pos hput, List.mem_singleton, Prod.mk.injEq] at h
          obtain ⟨rfl, rfl⟩ := h
          rw [hv]
          exact ⟨rfl, rfl, hput⟩
        · rw [if_neg hput] at h
          cases h
      · rintro ⟨rfl, rfl, hput⟩
        rw [hv] at hput ⊢
        rw [if_pos hput]
        exact List.mem_singleton.2 rfl
    rw [pathEntries, List.mem_append, List.mem_append, ihk hk (Nat.le_refl _),
      ihr hr (by omega), hself,
      ← or_and_right, ← or_and_right]
    refine and_congr_left fun _ => ?_
    simp only [Occ, width_cons, deep_cons]
    omega

end

/-! ## From an index -/

section
variable {K : Kernel} {x : Xal FiemapBe} {path : CStr} {i slot : Nat} {t t' : PathTable}
  {map : PathMap}

/-- The entry of an inode that has a name. -/
def namedEntry (v : XalInode) (slot : Nat) : List (CStr × Nat) :=
  if 0 < v.namelen then [(v.name, slot)] else []

theorem mem_namedEntry {v : XalInode} :
    (path, i) ∈ namedEntry v slot ↔ i = slot ∧ 0 < v.namelen ∧ v.name = path := by
  unfold namedEntry
  by_cases hlen : 0 < v.namelen
  · rw [if_pos hlen, List.mem_singleton, Prod.mk.injEq, and_iff_right hlen, and_comm,
      eq_comm (a := path)]
  · rw [if_neg hlen]
    exact iff_of_false List.not_mem_nil fun h => hlen h.2.1

/-- The table, filled from the index `x`. -/
abbrev MapsFrom (x : Xal FiemapBe) : PathTable → PathMap → Prop :=
  Maps (inodeNames x.store) x.store.inodes.free

theorem putNamed_ok {u : Unit} (hok : StoreOk x.store) (hlt : slot < x.store.inodes.free)
    (hm : MapsFrom x t map) (h : putNamed K x slot t = .ok u t') :
    MapsFrom x t' (putPaths (namedEntry (x.store.inodes.memory slot) slot) map) := by
  have hbound := Nat.le_trans hok.inodes.free_le hok.inodes.allocated_le
  rw [show poolReserved = 40000000 from rfl] at hbound
  unfold putNamed at h
  unfold namedEntry
  by_cases hlen : 0 < (x.store.inodes.memory slot).namelen
  · simp only [if_pos hlen] at h ⊢
    obtain ⟨-, h⟩ := failIf_bind_ok.1 h
    obtain ⟨-, rfl⟩ := Run.ok.inj h
    exact hm.put hlt (by omega)
  · simp only [if_neg hlen] at h ⊢
    obtain ⟨-, rfl⟩ := Run.ok.inj h
    exact hm

theorem putNamed_all (hok : StoreOk x.store) {l : List (Nat × Nat)}
    (hlt : ∀ c ∈ l, c.1 < x.store.inodes.free) : ∀ {t : PathTable} {map : PathMap} {u : Unit},
    MapsFrom x t map → l.forM (fun c => putNamed K x c.1) t = .ok u t' →
      MapsFrom x t'
        (putPaths (l.flatMap fun c => namedEntry (x.store.inodes.memory c.1) c.1) map) := by
  induction l with
  | nil =>
    intro t map u hm h
    obtain ⟨-, rfl⟩ := Run.ok.inj h
    exact hm
  | cons c l ih =>
    intro t map u hm h
    obtain ⟨hc, hl⟩ := List.forall_mem_cons.1 hlt
    rw [forM_cons] at h
    obtain ⟨_, t₁, hput, h⟩ := bind_ok.1 h
    rw [List.flatMap_cons, putPaths_append]
    exact ih hl (putNamed_ok hok hc hm hput) h

theorem buildHashmapWalk_recurses (K : Kernel) (x : Xal FiemapBe) : Recurses (fun v => (dents v).1)
    (fun v => (dents v).2) x.store.inodes.memory (fun _ => True) (fun slot _ => putNamed K x slot)
    (fun fuel slot _ => buildHashmapWalk K x fuel slot) := by
  intro fuel slot depth map _
  show (putNamed K x slot >>= fun _ => if xalInodeIsDir (x.store.inodes.memory slot) = true then
      forUp (fun _ i => decide (i < (x.store.inodes.memory slot).content.count))
        (fun i => buildHashmapWalk K x fuel ((x.store.inodes.memory slot).content.idx + i))
        (x.store.inodes.memory slot).content.count 0 else pure ()) map =
    (putNamed K x slot >>= fun _ =>
      forUp (fun _ i => decide (i < (dents (x.store.inodes.memory slot)).2))
        (fun i => buildHashmapWalk K x fuel ((dents (x.store.inodes.memory slot)).1 + i))
        (dents (x.store.inodes.memory slot)).2 0) map
  refine bind_congr_apply map fun _ map₁ => ?_
  by_cases hd : xalInodeIsDir (x.store.inodes.memory slot) = true
  · have hdir : (x.store.inodes.memory slot).ftype = ftDir := by simpa [xalInodeIsDir] using hd
    rw [if_pos hd, dents_dir hdir]
  · have hdir : (x.store.inodes.memory slot).ftype ≠ ftDir := by simpa [xalInodeIsDir] using hd
    rw [if_neg hd, dents_of_ne hdir, forUp_stop (by simp), ret_apply]

/-- Building the map puts the inodes of the tree that have a name. -/
theorem buildHashmapWalk_ok {k : Forest XalInode} {p fuel : Nat} {u : Unit}
    (hok : StoreOk x.store) (hfree : x.store.inodes.free = slot + 1 + k.size)
    (hp : Placed Node x.store.inodes.memory (.cons (x.store.inodes.memory slot) k .nil) p slot
      (slot + 1)) (hm : MapsFrom x t map) (h : buildHashmapWalk K x fuel slot t = .ok u t') :
    MapsFrom x t' (putPaths ((visits (.cons (x.store.inodes.memory slot) k .nil) slot (slot + 1)
      0).flatMap fun c => namedEntry (x.store.inodes.memory c.1) c.1) map) := by
  refine putNamed_all hok (fun c hc => ?_) hm
    ((buildHashmapWalk_recurses K x).visits_of_ok (fun _ _ _ => rfl) hp h)
  have hocc := (mem_visits (by simp)).1 ⟨c.2, hc⟩
  simp only [Occ, width_cons, width_nil, deep_cons, deep_nil] at hocc
  have hks := size_eq k
  omega

end

end Xallib
