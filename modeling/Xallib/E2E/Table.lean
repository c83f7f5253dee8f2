import Xallib.E2E.Agree
import Xallib.Khash.Proof.Run

/-!
# The map of paths and its memory

`buildTableWalk` is `build_hashmap_walk` with an answer to each request of `khash.h` for memory; the
pool is not written while it runs, so that the keys are the names themselves. `built_table`: what it
builds from an index answers at every path as `xal_get_inode` does after
`xal_build_lookup_hashmap`, whose puts are refused as a whole or not at all.
-/

namespace Xallib

open Lib Lib.Forest Lib.Cm Lib.Run

/-! ## The walk -/

section
variable (alloc : Nat → KhAlloc) (x : Xal FiemapBe)

/-- `kh_put` and `kh_value` of an inode; a negative status becomes `-EIO`. -/
def khPutInode (inode : Nat) : Cm Err (Kh CStr Nat) Unit := fun h =>
  match khSet x31Hash (alloc inode) (x.store.inodes.memory inode).name inode h with
  | .fail _ h => .fail ⟨.khPut, - EIO⟩ h
  | r => r

def putNamedTable (inode : Nat) : Cm Err (Kh CStr Nat) Unit :=
  if 0 < (x.store.inodes.memory inode).namelen then khPutInode alloc x inode else pure ()

/-- `build_hashmap_walk`; `fuel` bounds the depth. -/
def buildTableWalk : Nat → Nat → Cm Err (Kh CStr Nat) Unit
  | 0, _ => fun _ => .spin
  | fuel + 1, inode => do
    putNamedTable alloc x inode
    let v := x.store.inodes.memory inode
    if xalInodeIsDir v then
      forUp (fun _ i => i < v.content.count) (fun i => buildTableWalk fuel (v.content.idx + i))
        v.content.count 0
    else pure ()

end

/-! ## Its puts -/

section
variable {alloc : Nat → KhAlloc} {x : Xal FiemapBe} {h : Kh CStr Nat} {map : PathMap} {i : Nat}

theorem buildTableWalk_recurses (alloc : Nat → KhAlloc) (x : Xal FiemapBe) :
    Recurses (fun v => (dents v).1) (fun v => (dents v).2) x.store.inodes.memory (fun _ => True)
      (fun slot _ => putNamedTable alloc x slot)
        (fun fuel slot _ => buildTableWalk alloc x fuel slot) := by
  intro fuel slot depth h _
  show (putNamedTable alloc x slot >>= fun _ =>
      if xalInodeIsDir (x.store.inodes.memory slot) = true then
        forUp (fun _ i => decide (i < (x.store.inodes.memory slot).content.count))
          (fun i => buildTableWalk alloc x fuel ((x.store.inodes.memory slot).content.idx + i))
          (x.store.inodes.memory slot).content.count 0 else pure ()) h =
    (putNamedTable alloc x slot >>= fun _ =>
      forUp (fun _ i => decide (i < (dents (x.store.inodes.memory slot)).2))
        (fun i => buildTableWalk alloc x fuel ((dents (x.store.inodes.memory slot)).1 + i))
        (dents (x.store.inodes.memory slot)).2 0) h
  refine bind_congr_apply h fun _ h₁ => ?_
  by_cases hd : xalInodeIsDir (x.store.inodes.memory slot) = true
  · have hdir : (x.store.inodes.memory slot).ftype = ftDir := by simpa [xalInodeIsDir] using hd
    rw [if_pos hd, dents_dir hdir]
  · have hdir : (x.store.inodes.memory slot).ftype ≠ ftDir := by simpa [xalInodeIsDir] using hd
    rw [if_neg hd, dents_of_ne hdir, forUp_stop (by simp), ret_apply]

/-- One inode. -/
theorem putNamedTable_ok (alloc : Nat → KhAlloc) (x : Xal FiemapBe) (i : Nat)
    (hi : KhInv x31Hash h) (hm : h.Holds map) (h30 : h.size < 2 ^ 30) :
    (∃ h', putNamedTable alloc x i h = .fail ⟨.khPut, - EIO⟩ h' ∧ ¬(alloc i).Granted) ∨
    ∃ h', putNamedTable alloc x i h = .ok () h' ∧ KhInv x31Hash h' ∧
      h'.Holds (putPaths (namedEntry (x.store.inodes.memory i) i) map) ∧ h'.size ≤ h.size + 1 := by
  unfold putNamedTable namedEntry
  by_cases hlen : 0 < (x.store.inodes.memory i).namelen
  · rw [if_pos hlen, if_pos hlen, khPutInode]
    rcases khSet_ok hi hm (alloc i) h30 (x.store.inodes.memory i).name i with
      ⟨e, hfail, hrefused⟩ | ⟨h', hrun, hi', hm', hsize⟩
    · rw [hfail]
      exact .inl ⟨h, rfl, hrefused⟩
    · rw [hrun]
      refine .inr ⟨h', rfl, hi', ?_, hsize⟩
      have hput : putPaths [((x.store.inodes.memory i).name, i)] map =
          Function.update map (x.store.inodes.memory i).name (some i) := by
        funext path
        rw [Function.update_apply]
        rfl
      rw [hput]
      exact hm'
  · rw [if_neg hlen, if_neg hlen]
    exact .inr ⟨h, rfl, hi, hm, Nat.le_succ _⟩

/-- A list of inodes. -/
theorem putNamedTable_all (alloc : Nat → KhAlloc) (x : Xal FiemapBe) (l : List (Nat × Nat)) :
    ∀ (h : Kh CStr Nat) (map : PathMap), KhInv x31Hash h → h.Holds map →
      h.size + l.length ≤ 2 ^ 30 →
    (∃ h', l.forM (fun c => putNamedTable alloc x c.1) h = .fail ⟨.khPut, - EIO⟩ h' ∧
      ∃ i, ¬(alloc i).Granted) ∨
    ∃ h', l.forM (fun c => putNamedTable alloc x c.1) h = .ok () h' ∧ KhInv x31Hash h' ∧
      h'.Holds (putPaths (l.flatMap fun c => namedEntry (x.store.inodes.memory c.1) c.1) map) := by
  induction l with
  | nil => exact fun h map hi hm _ => .inr ⟨h, rfl, hi, hm⟩
  | cons c l ih =>
    intro h map hi hm h30
    rw [List.length_cons] at h30
    rw [forM_cons, List.flatMap_cons, putPaths_append]
    rcases putNamedTable_ok alloc x c.1 hi hm (by omega) with
      ⟨h', hfail, hrefused⟩ | ⟨h₁, hrun, hi₁, hm₁, hsize⟩
    · rw [bind_of_fail hfail]
      exact .inl ⟨h', rfl, c.1, hrefused⟩
    · rw [bind_of_ok hrun]
      exact ih h₁ _ hi₁ hm₁ (by omega)

theorem length_visits {β : Type} (f : Forest β) (slot lo d : Nat) :
    (visits f slot lo d).length = f.size := by
  induction f generalizing slot lo d with
  | nil => rfl
  | cons v k r ihk ihr =>
    rw [visits, List.length_cons, List.length_append, ihk, ihr]
    rfl

end

/-- The table built from an index answers as the map that `xal_build_lookup_hashmap` leaves, unless
it is refused memory. -/
theorem built_table (shm : Bool) (fuel : Nat) (E : FiemapEnv) (x x' x'' : Xal FiemapBe)
    (hx : FiemapReach shm x) (hE : FiemapCall E x)
    (h : xalIndex (xalBeFiemapIndex E fuel) x = .ok () x') (K : Kernel) (kh : Bool) (fuel' : Nat)
    (hbuild : xalBuildLookupHashmap K kh fuel' x' = .ok () x'') (alloc : Nat → KhAlloc) :
    (∃ t, buildTableWalk alloc x' x'.store.inodes.free x'.rootIdx khInit =
        .fail ⟨.khPut, - EIO⟩ t ∧ ∃ i, ¬(alloc i).Granted) ∨
    ∃ t, buildTableWalk alloc x' x'.store.inodes.free x'.rootIdx khInit = .ok () t ∧
      ∀ path, khLookup x31Hash path t = .ok (xalGetInode E.mountpoint x'' path).toOption t := by
  have halive := (hx.index hE h).alive
  obtain ⟨⟨-, -, hroot, -, -⟩, k, hk⟩ := hx.done hE h
  rw [← hroot] at hk
  have hfree := hk.free
  have hle := halive.storeOk.inodes.free_le
  have hle' := halive.storeOk.inodes.allocated_le
  rw [show poolReserved = 40000000 from rfl] at hle'
  have hwalk : buildTableWalk alloc x' x'.store.inodes.free x'.rootIdx khInit =
      (visits (.cons (x'.store.inodes.memory x'.rootIdx) k .nil) x'.rootIdx (x'.rootIdx + 1)
        0).forM (fun c => putNamedTable alloc x' c.1) khInit :=
    (buildTableWalk_recurses alloc x').visits khInit hk.placed (fun _ _ => trivial) (by omega)
  have hlen := length_visits (.cons (x'.store.inodes.memory x'.rootIdx) k .nil) x'.rootIdx
    (x'.rootIdx + 1) 0
  obtain ⟨u, rfl, hmaps⟩ := built_map hk halive.storeOk hbuild
  rw [hwalk]
  rcases putNamedTable_all alloc x' _ khInit _ khInit_inv khInit_holds (by
    rw [hlen, show (khInit : Kh CStr Nat).size = 0 from rfl]
    simp only [size_cons, size_nil]
    omega) with hfail | ⟨t, hrun, hi, hm⟩
  · exact .inl hfail
  · refine .inr ⟨t, hrun, fun path => ?_⟩
    have hget : khGetPath (inodeNames (setPathMap (some u) x').store) path u = _ := hmaps.get
    rw [xalGetInode_map (x := setPathMap (some u) x') halive.type_eq rfl, hget]
    exact khLookup_holds hi hm path

/-- The index of one file, and its map. -/
theorem built_table_file :
    ∃ x' x'' t, xalIndex (xalBeFiemapIndex twoExtents 2) (fiemapOpened smallSb false) = .ok () x' ∧
      xalBuildLookupHashmap twoExtents.kernel true 2 x' = .ok () x'' ∧
      buildTableWalk (fun _ => .all) x' x'.store.inodes.free x'.rootIdx khInit = .ok () t ∧
      khLookup x31Hash [47, 109, 47, 97] t = .ok (some 1) t := by
  have hrun : (xalIndex (xalBeFiemapIndex twoExtents 2) (fiemapOpened smallSb false)).okWith
      (fun x => (xalBuildLookupHashmap twoExtents.kernel true 2 x).okWith fun x' =>
        (xalGetInode twoExtents.mountpoint x' [47, 109, 47, 97]).toOption == some 1) = true := by
    decide +kernel
  obtain ⟨_, x', hr, hp⟩ := exists_of_okWith hrun
  obtain ⟨_, x'', hr', hp'⟩ := exists_of_okWith hp
  rcases built_table true 2 twoExtents _ _ _ (fiemapOpened_reach _ _) (tableEnv_call rfl) hr _ _ _
    hr' fun _ => .all with ⟨t, -, i, hrefused⟩ | ⟨t, ht, hall⟩
  · exact absurd ⟨rfl, rfl, rfl⟩ hrefused
  · refine ⟨x', x'', t, hr, hr', ht, ?_⟩
    rw [hall, beq_iff_eq.1 hp']

end Xallib
