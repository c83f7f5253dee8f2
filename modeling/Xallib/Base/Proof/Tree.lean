import Xallib.Base.Proof.Pool
import Xallib.Lib.Arena

/-!
# The tree of an index

`dents v`, `exts v`: the ranges of children and of extents an inode has. `Node v p lo w` is what an
inode with parent `p` and `w` children at `lo` looks like when it has been indexed, `Partial` what
it may look like where indexing stopped.

`Block K p slot s s' g`: between `s` and `s'` the siblings from `slot` on, children of `p`, were
indexed, and have become the forest `g`; what they claimed lies from `s.inodes.free` on, and the
other inodes are as before. Blocks compose (`Block.cons`), and the loop over the children of a
directory builds a block (`children_spec`) if each of its rounds indexes one child.
-/

namespace Xallib

open Lib Lib.Forest Lib.Cm Run

variable {δ : Type}

/-- The first child and the number of children. -/
def dents (v : XalInode) : Nat × Nat :=
  if v.ftype = ftDir then (v.content.idx, v.content.count) else (0, 0)

/-- The first extent and the number of extents. -/
def exts (v : XalInode) : Nat × Nat :=
  if v.ftype = ftRegFile then (v.content.idx, v.content.count) else (0, 0)

theorem dents_dir {v : XalInode} (h : v.ftype = ftDir) :
    dents v = (v.content.idx, v.content.count) := by rw [dents, if_pos h]

theorem dents_of_ne {v : XalInode} (h : v.ftype ≠ ftDir) : dents v = (0, 0) := by
  rw [dents, if_neg h]

theorem exts_file {v : XalInode} (h : v.ftype = ftRegFile) :
    exts v = (v.content.idx, v.content.count) := by rw [exts, if_pos h]

theorem exts_of_ne {v : XalInode} (h : v.ftype ≠ ftRegFile) : exts v = (0, 0) := by
  rw [exts, if_neg h]

/-- `i` lies in the range of children of the directory `v`. -/
def InDents (v : XalInode) (i : Nat) : Prop :=
  InRange (fun v => (dents v).1) (fun v => (dents v).2) v i

theorem inDents_dir {v : XalInode} (h : v.ftype = ftDir) {i : Nat} :
    InDents v i ↔ v.content.idx ≤ i ∧ i < v.content.idx + v.content.count := by
  simp only [InDents, InRange, dents_dir h]

theorem not_inDents_of_ne {v : XalInode} (h : v.ftype ≠ ftDir) {i : Nat} : ¬InDents v i := by
  simp only [InDents, InRange, dents_of_ne h]
  omega

theorem ftDir_ne_ftRegFile : ftDir ≠ ftRegFile := by decide

/-- An inode without content. -/
def Blank (v : XalInode) : Prop := v.content = default

theorem Blank.dents {v : XalInode} (h : Blank v) : dents v = (0, 0) := by
  unfold Blank at h
  unfold Xallib.dents
  rw [h]
  split <;> rfl

theorem Blank.exts {v : XalInode} (h : Blank v) : exts v = (0, 0) := by
  unfold Blank at h
  unfold Xallib.exts
  rw [h]
  split <;> rfl

abbrev Node : XalInode → Nat → Nat → Nat → Prop :=
  Fits (·.parentIdx) (fun v => (dents v).1) (fun v => (dents v).2)

theorem Node.count {v : XalInode} {p lo w : Nat} (h : Node v p lo w) : (dents v).2 = w := h.2.1

theorem Node.first {v : XalInode} {p lo w : Nat} (h : Node v p lo w) (hw : w ≠ 0) :
    (dents v).1 = lo := h.2.2 hw

/-- The children are the first of those claimed for them, or claiming them has failed. -/
def Partial (v : XalInode) (_p lo w : Nat) : Prop :=
  (dents v).2 = 0 ∨ (dents v).1 = 0 ∨ ((dents v).1 = lo ∧ (dents v).2 ≤ w)

theorem Node.toPartial {v : XalInode} {p lo w : Nat} (h : Node v p lo w) : Partial v p lo w := by
  obtain ⟨-, hc, hf⟩ := h
  by_cases hw : w = 0
  · exact .inl (hc.trans hw)
  · exact .inr (.inr ⟨hf hw, Nat.le_of_eq hc⟩)

theorem Blank.toPartial {v : XalInode} (h : Blank v) (p lo w : Nat) : Partial v p lo w :=
  .inl (by rw [h.dents])

/-! ## Blocks -/

/-- Siblings that were indexed between `s` and `s'` (module doc). -/
structure Block (K : XalInode → Nat → Nat → Nat → Prop) (p slot : Nat) (s s' : Store δ)
    (g : Forest XalInode) : Prop where
  ok : StoreOk s'
  placed : Placed K s'.inodes.memory g p slot s.inodes.free
  room : s.inodes.free + g.deep ≤ s'.inodes.free
  keep : ∀ i < s.inodes.free, i ≠ p → ¬(slot ≤ i ∧ i < slot + g.width) →
    s'.inodes.memory i = s.inodes.memory i
  extents_le : s.extents.free ≤ s'.extents.free
  extents_keep : ∀ i < s.extents.free, s'.extents.memory i = s.extents.memory i

/-- Siblings that were indexed to the end. -/
structure Indexed (p slot : Nat) (s s' : Store δ) (g : Forest XalInode) : Prop
    extends Block Node p slot s s' g where
  free_eq : s'.inodes.free = s.inodes.free + g.deep
  staged : Staged exts g s.extents.free s'.extents.free

variable {K : XalInode → Nat → Nat → Nat → Prop} {p slot : Nat} {s s₁ s' : Store δ}

theorem Block.mono {K' : XalInode → Nat → Nat → Nat → Prop} {g : Forest XalInode}
    (hK : ∀ v p lo w, K v p lo w → K' v p lo w) (h : Block K p slot s s' g) :
    Block K' p slot s s' g :=
  { h with placed := h.placed.mono hK }

theorem Indexed.toPartial {g : Forest XalInode} (h : Indexed p slot s s' g) :
    Block Partial p slot s s' g :=
  h.toBlock.mono fun _ _ _ _ => Node.toPartial

/-- No siblings. -/
theorem Indexed.nil (hs : StoreOk s) : Indexed p slot s s .nil where
  ok := hs
  placed := trivial
  room := Nat.le_refl _
  keep _ _ _ _ := rfl
  extents_le := Nat.le_refl _
  extents_keep _ _ := rfl
  free_eq := rfl
  staged := Nat.le_refl _

/-- One sibling, then the ones after it. -/
theorem Block.cons {v : XalInode} {k g : Forest XalInode}
    (hv : Block K p slot s s₁ (.cons v k .nil)) (hfree : s₁.inodes.free = s.inodes.free + k.size)
    (hg : Block K p (slot + 1) s₁ s' g) (hp : p < slot)
    (hroom : slot + 1 + g.width ≤ s.inodes.free) : Block K p slot s s' (.cons v k g) := by
  have hr := hg.room
  have hks := size_eq k
  obtain ⟨hmem, hK, hkids, -⟩ := hv.placed
  refine ⟨hg.ok, ⟨?_, hK, ?_, ?_⟩, ?_, ?_, ?_, ?_⟩
  · rw [hg.keep slot (by omega) (by omega) (by omega), hmem]
  · refine hkids.congr fun i hi => hg.keep i ?_ ?_ ?_ <;> simp only [Occ] at hi <;> omega
  · rw [← hfree]; exact hg.placed
  · simp only [deep_cons]; omega
  · intro i hi hip hn
    simp only [width_cons] at hn
    rw [hg.keep i (by omega) hip (by omega),
      hv.keep i hi hip (by simp only [width_cons, width_nil]; omega)]
  · exact Nat.le_trans hv.extents_le hg.extents_le
  · intro i hi
    rw [hg.extents_keep i (Nat.lt_of_lt_of_le hi hv.extents_le), hv.extents_keep i hi]

theorem Indexed.cons {v : XalInode} {k g : Forest XalInode}
    (hv : Indexed p slot s s₁ (.cons v k .nil)) (hg : Indexed p (slot + 1) s₁ s' g) (hp : p < slot)
    (hroom : slot + 1 + g.width ≤ s.inodes.free) : Indexed p slot s s' (.cons v k g) := by
  have hfree := hv.free_eq
  simp only [deep_cons, deep_nil, Nat.add_zero] at hfree
  refine { hv.toBlock.cons hfree hg.toBlock hp hroom with free_eq := ?_, staged := ?_ }
  · simp only [deep_cons, hg.free_eq, hfree, Nat.add_assoc]
  · exact Staged.cons_nil hv.staged hg.staged

/-- A sibling at which indexing stopped, and the ones after it, which are blank. -/
theorem Block.stop {v : XalInode} {k : Forest XalInode} {n : Nat}
    (hv : Block Partial p slot s s' (.cons v k .nil)) (hp : p < slot)
    (hroom : slot + 1 + n ≤ s.inodes.free)
    (hb : ∀ i, slot + 1 ≤ i → i < slot + 1 + n → Blank (s.inodes.memory i)) :
    Block Partial p slot s s' (.cons v k (leaves s'.inodes.memory (slot + 1) n)) := by
  obtain ⟨hmem, hK, hkids, -⟩ := hv.placed
  refine ⟨hv.ok, ⟨hmem, hK, hkids, ?_⟩, ?_, ?_, hv.extents_le, hv.extents_keep⟩
  · refine placed_leaves n fun i h1 h2 => ?_
    rw [hv.keep i (by omega) (by omega) (by simp only [width_cons, width_nil]; omega)]
    exact (hb i h1 h2).toPartial _ _ _
  · have := hv.room
    simp only [deep_cons, deep_leaves, deep_nil] at this ⊢
    exact this
  · intro i hi hip hn
    simp only [width_cons, width_leaves] at hn
    exact hv.keep i hi hip (by simp only [width_cons, width_nil]; omega)

/-- The loop over the children `base`, `base + 1`, … of the directory `p`. `Q` is what holds of a
child before its round. -/
theorem children_spec {cond : Store δ → Nat → Bool} {body : Nat → Cm Err (Store δ) Unit}
    {Q : XalInode → Prop} {base n : Nat} {v : XalInode} (hpb : p < base) (hQ : ∀ u, Q u → Blank u)
    (hcond : ∀ s i, s.inodes.memory p = v → cond s i = decide (i < n))
    (hbody : ∀ s i, StoreOk s → s.inodes.memory p = v → i < n → base + n ≤ s.inodes.free →
      Q (s.inodes.memory (base + i)) →
      (body i s).Sat
        (fun _ s' => s'.inodes.memory p = v ∧ ∃ u k, Indexed p (base + i) s s' (.cons u k .nil))
        (fun _ s' => s'.inodes.memory p = v ∧
          ∃ u k, Block Partial p (base + i) s s' (.cons u k .nil)))
    (m : Nat) (hok : StoreOk s) (hv : s.inodes.memory p = v) (hroom : base + n ≤ s.inodes.free)
    (hkids : ∀ i, base ≤ i → i < base + n → Q (s.inodes.memory i)) :
    (forUp cond body m 0 s).Sat
      (fun _ s' => s'.inodes.memory p = v ∧ ∃ g, g.width = n ∧ Indexed p base s s' g)
      (fun _ s' => s'.inodes.memory p = v ∧ ∃ g, g.width = n ∧ Block Partial p base s s' g) := by
  have key := @sat_forUp_rel _ _ cond body
    (fun i s => i ≤ n ∧ StoreOk s ∧ s.inodes.memory p = v ∧ base + n ≤ s.inodes.free ∧
      ∀ j, base + i ≤ j → j < base + n → Q (s.inodes.memory j))
    (fun i s s' => s'.inodes.memory p = v ∧ ∃ g, g.width = n - i ∧ Indexed p (base + i) s s' g)
    (fun i s _ s' => s'.inodes.memory p = v ∧
      ∃ g, g.width = n - i ∧ Block Partial p (base + i) s s' g)
    ?_ ?_ m 0 s ⟨Nat.zero_le n, hok, hv, hroom, fun j h1 h2 => hkids j h1 h2⟩
  · simpa using key
  · rintro i s ⟨hin, hok, hv, -, -⟩ hc
    rw [hcond s i hv, decide_eq_false_iff_not] at hc
    exact ⟨hv, .nil, by simp only [width_nil]; omega, Indexed.nil hok⟩
  · rintro i s ⟨-, hok, hv, hroom, hkids⟩ hc
    rw [hcond s i hv, decide_eq_true_iff] at hc
    refine (hbody s i hok hv hc hroom (hkids _ (Nat.le_refl _) (by omega))).mono ?_ ?_
    · rintro _ s₁ ⟨hv₁, u, k, hu⟩
      have hfree := hu.free_eq
      have hkeep : ∀ j, base + (i + 1) ≤ j → j < base + n →
          s₁.inodes.memory j = s.inodes.memory j :=
        fun j h1 h2 => hu.keep j (by omega) (by omega) (by simp only [width_cons, width_nil]; omega)
      refine ⟨⟨hc, hu.ok, hv₁, by omega, fun j h1 h2 => ?_⟩, ?_, ?_⟩
      · rw [hkeep j h1 h2]
        exact hkids j (by omega) h2
      · rintro t ⟨ht, g, hw, hg⟩
        exact ⟨ht, .cons u k g, by simp only [width_cons]; omega, hu.cons hg (by omega) (by omega)⟩
      · rintro e t ⟨ht, g, hw, hg⟩
        simp only [deep_cons, deep_nil, Nat.add_zero] at hfree
        exact ⟨ht, .cons u k g, by simp only [width_cons]; omega,
          hu.toPartial.cons hfree hg (by omega) (by omega)⟩
    · rintro e s₁ ⟨hv₁, u, k, hu⟩
      refine ⟨hv₁, _, ?_, hu.stop (n := n - i - 1) (by omega) (by omega) fun j h1 h2 => ?_⟩
      · simp only [width_cons, width_leaves]; omega
      · exact hQ _ (hkids j (by omega) (by omega))

/-! ## One inode -/

/-- What is assumed of the slot `d` when `process_ino` is called. -/
structure Ready (d : Nat) (s : Store δ) : Prop where
  ok : StoreOk s
  lt : d < s.inodes.free
  blank : Blank (s.inodes.memory d)

/-- A write to the fields of the slot that leaves its content. -/
theorem Ready.put {d : Nat} {s : Store δ} (h : Ready d s) {v : XalInode}
    (hc : v.content = default) :
    Ready d (s.putInode d v) :=
  ⟨h.ok.putInode h.lt v, h.lt, by rw [putInode_same]; exact hc⟩

/-- `process_ino` has indexed `self`, a child of `p`, with what is below it. -/
def Processed (p self : Nat) (s s' : Store δ) : Prop :=
  (∀ i < s.inodes.free, i ≠ self → s'.inodes.memory i = s.inodes.memory i) ∧
    ∃ k, Indexed p self s s' (.cons (s'.inodes.memory self) k .nil)

/-- `process_ino` has stopped at `self` or below it. -/
def Stopped (p self : Nat) (s s' : Store δ) : Prop :=
  (∀ i < s.inodes.free, i ≠ self → s'.inodes.memory i = s.inodes.memory i) ∧
    ∃ k, Block Partial p self s s' (.cons (s'.inodes.memory self) k .nil)

section
variable {self : Nat} {g : Forest XalInode}

/-- What has happened between `s` and `s₁`, when the children of `d` have been claimed: only
`d` and the children have changed. -/
structure Opened (d : Nat) (s s₁ : Store δ) : Prop where
  ok : StoreOk s₁
  lt : d < s.inodes.free
  le : s.inodes.free ≤ s₁.inodes.free
  keep : ∀ i < s.inodes.free, i ≠ d → s₁.inodes.memory i = s.inodes.memory i
  extents_le : s.extents.free ≤ s₁.extents.free
  extents_keep : ∀ i < s.extents.free, s₁.extents.memory i = s.extents.memory i

theorem Opened.refl (hs : StoreOk s) (h : self < s.inodes.free) : Opened self s s :=
  ⟨hs, h, Nat.le_refl _, fun _ _ _ => rfl, Nat.le_refl _, fun _ _ => rfl⟩

theorem Opened.trans {s₂ : Store δ} (h : Opened self s s₁) (h' : Opened self s₁ s₂) :
    Opened self s s₂ where
  ok := h'.ok
  lt := h.lt
  le := Nat.le_trans h.le h'.le
  keep i hi hne := by rw [h'.keep i (Nat.lt_of_lt_of_le hi h.le) hne, h.keep i hi hne]
  extents_le := Nat.le_trans h.extents_le h'.extents_le
  extents_keep i hi := by
    rw [h'.extents_keep i (Nat.lt_of_lt_of_le hi h.extents_le), h.extents_keep i hi]

/-- A directory whose children have been indexed, or where indexing one of them has stopped. -/
theorem Block.dir (h : Opened self s s₁) (hK : K (s'.inodes.memory self) p s.inodes.free g.width)
    (hfree : s₁.inodes.free = s.inodes.free + g.width) (hg : Block K self s.inodes.free s₁ s' g) :
    Block K p self s s' (.cons (s'.inodes.memory self) g .nil) ∧
      ∀ i < s.inodes.free, i ≠ self → s'.inodes.memory i = s.inodes.memory i := by
  have hks := size_eq g
  have hr := hg.room
  have hkeep : ∀ i < s.inodes.free, i ≠ self → s'.inodes.memory i = s.inodes.memory i := by
    intro i hi hne
    rw [hg.keep i (by omega) hne (by omega), h.keep i hi hne]
  refine ⟨⟨hg.ok, ⟨rfl, hK, hfree ▸ hg.placed, trivial⟩, ?_, fun i hi _ hn =>
    hkeep i hi ?_, ?_, ?_⟩,
    hkeep⟩
  · simp only [deep_cons, deep_nil]; omega
  · simp only [width_cons, width_nil] at hn; omega
  · exact Nat.le_trans h.extents_le hg.extents_le
  · intro i hi
    rw [hg.extents_keep i (Nat.lt_of_lt_of_le hi h.extents_le), h.extents_keep i hi]

theorem Indexed.dir (h : Opened self s s₁) (hft : (s'.inodes.memory self).ftype = ftDir)
    (hp : (s'.inodes.memory self).parentIdx = p)
    (hc : (s'.inodes.memory self).content = ⟨s.inodes.free, g.width⟩)
    (hfree : s₁.inodes.free = s.inodes.free + g.width)
    (hext : s₁.extents.free = s.extents.free)
    (hg : Indexed self s.inodes.free s₁ s' g) :
    Indexed p self s s' (.cons (s'.inodes.memory self) g .nil) ∧
      ∀ i < s.inodes.free, i ≠ self → s'.inodes.memory i = s.inodes.memory i := by
  have hks := size_eq g
  have hd : dents (s'.inodes.memory self) = (s.inodes.free, g.width) := by rw [dents_dir hft, hc]
  have he : exts (s'.inodes.memory self) = (0, 0) :=
    exts_of_ne (by rw [hft]; exact ftDir_ne_ftRegFile)
  obtain ⟨hb, hkeep⟩ := hg.toBlock.dir h (p := p)
    ⟨hp, by simp only [hd], fun _ => by simp only [hd]⟩ hfree
  refine ⟨{ hb with free_eq := ?_, staged := ?_ }, hkeep⟩
  · rw [hg.free_eq, hfree]
    simp only [deep_cons, deep_nil]
    omega
  · refine ⟨s.extents.free, s'.extents.free, Nat.le_refl _, fun h0 => ?_, hext ▸ hg.staged,
      Nat.le_refl _⟩
    rw [he] at h0
    exact absurd rfl h0

theorem Stopped.dir (h : Opened self s s₁)
    (hp : Partial (s'.inodes.memory self) p s.inodes.free g.width)
    (hfree : s₁.inodes.free = s.inodes.free + g.width)
    (hg : Block Partial self s.inodes.free s₁ s' g) : Stopped p self s s' :=
  have hb := Block.dir h hp hfree hg
  ⟨hb.2, g, hb.1⟩

theorem Processed.dir (h : Opened self s s₁) (hft : (s'.inodes.memory self).ftype = ftDir)
    (hp : (s'.inodes.memory self).parentIdx = p)
    (hc : (s'.inodes.memory self).content = ⟨s.inodes.free, g.width⟩)
    (hfree : s₁.inodes.free = s.inodes.free + g.width)
    (hext : s₁.extents.free = s.extents.free)
    (hg : Indexed self s.inodes.free s₁ s' g) : Processed p self s s' :=
  have hd := Indexed.dir h hft hp hc hfree hext hg
  ⟨hd.2, g, hd.1⟩

/-- An inode without children. -/
theorem Indexed.leaf (h : Opened self s s') (hfree : s'.inodes.free = s.inodes.free)
    (hp : (s'.inodes.memory self).parentIdx = p) (hd : (dents (s'.inodes.memory self)).2 = 0)
    (he : (exts (s'.inodes.memory self)).2 ≠ 0 →
      s.extents.free ≤ (exts (s'.inodes.memory self)).1 ∧
        (exts (s'.inodes.memory self)).1 + (exts (s'.inodes.memory self)).2 ≤ s'.extents.free) :
    Indexed p self s s' (.cons (s'.inodes.memory self) .nil .nil) := by
  refine ⟨⟨h.ok, ⟨rfl, ⟨hp, hd, fun h0 => absurd rfl h0⟩, trivial, trivial⟩, ?_,
    fun i hi _ hn => h.keep i hi ?_, h.extents_le, h.extents_keep⟩, ?_, ?_⟩
  · exact Nat.le_of_eq hfree.symm
  · simp only [width_cons, width_nil] at hn; omega
  · exact hfree
  · exact ⟨s'.extents.free, s'.extents.free, h.extents_le, he, Nat.le_refl _, Nat.le_refl _⟩

theorem Processed.leaf (h : Opened self s s') (hfree : s'.inodes.free = s.inodes.free)
    (hp : (s'.inodes.memory self).parentIdx = p) (hd : (dents (s'.inodes.memory self)).2 = 0)
    (he : (exts (s'.inodes.memory self)).2 ≠ 0 →
      s.extents.free ≤ (exts (s'.inodes.memory self)).1 ∧
        (exts (s'.inodes.memory self)).1 + (exts (s'.inodes.memory self)).2 ≤ s'.extents.free) :
    Processed p self s s' := ⟨h.keep, .nil, .leaf h hfree hp hd he⟩

theorem Stopped.leaf (h : Opened self s s')
    (hp : Partial (s'.inodes.memory self) p s.inodes.free 0) :
    Stopped p self s s' := by
  refine ⟨h.keep, .nil, h.ok, ⟨rfl, hp, trivial, trivial⟩, h.le, fun i hi _ hn => h.keep i hi ?_,
    h.extents_le, h.extents_keep⟩
  simp only [width_cons, width_nil] at hn; omega

/-- What is written to `self` first makes no difference. -/
theorem Block.of_put {f : Forest XalInode} {v : XalInode} (hw : 0 < f.width)
    (h : Block K p self (s.putInode self v) s' f) : Block K p self s s' f :=
  { h with keep := fun i hi hip hn =>
      (h.keep i hi hip hn).trans (putInode_other _ _ _ (by omega)) }

theorem Processed.of_put {v : XalInode} (h : Processed p self (s.putInode self v) s') :
    Processed p self s s' := by
  obtain ⟨hkeep, k, hk⟩ := h
  refine ⟨fun i hi hne => ?_, k, { hk.toBlock.of_put (by simp) with
    free_eq := hk.free_eq, staged := hk.staged }⟩
  exact (hkeep i hi hne).trans (putInode_other _ _ _ hne)

theorem Stopped.of_put {v : XalInode} (h : Stopped p self (s.putInode self v) s') :
    Stopped p self s s' := by
  obtain ⟨hkeep, k, hk⟩ := h
  refine ⟨fun i hi hne => ?_, k, hk.of_put (by simp)⟩
  exact (hkeep i hi hne).trans (putInode_other _ _ _ hne)

end

/-! ## The file type -/

section
variable {s : Store δ} {self mode : Nat} (h0 : (s.inodes.memory self).ftype = 0)
include h0

theorem deriveFtype_dir (hd : isDirMode mode = true) :
    deriveFtype mode self s =
      .ok () (s.putInode self { s.inodes.memory self with ftype := ftDir }) := by
  unfold deriveFtype
  rw [inodeAt_bind, if_pos h0, if_pos hd, setInode_apply]

theorem deriveFtype_reg (hd : ¬isDirMode mode = true)
    (hr : isRegMode mode = true) : deriveFtype mode self s =
      .ok () (s.putInode self { s.inodes.memory self with ftype := ftRegFile }) := by
  unfold deriveFtype
  rw [inodeAt_bind, if_pos h0, if_neg hd, if_pos hr, setInode_apply]

theorem deriveFtype_fail (hd : ¬isDirMode mode = true)
    (hr : ¬isRegMode mode = true) :
    deriveFtype mode self s = .fail ⟨.ftype, -EINVAL⟩ s := by
  unfold deriveFtype
  rw [inodeAt_bind, if_pos h0, if_neg hd, if_neg hr, fail_apply]

end

theorem deriveFtype_known {s : Store δ} {self mode : Nat} (h0 : (s.inodes.memory self).ftype ≠ 0) :
    deriveFtype mode self s = .ok () s := by
  unfold deriveFtype
  rw [inodeAt_bind, if_neg h0, ret_apply]

/-- It fails, or it has written a type. -/
theorem deriveFtype_cases (mode self : Nat) (s : Store δ) :
    (∃ ft, deriveFtype mode self s =
      .ok () (s.putInode self { s.inodes.memory self with ftype := ft })) ∨
      ∃ e, deriveFtype mode self s = .fail e s := by
  by_cases h0 : (s.inodes.memory self).ftype = 0
  · by_cases hdir : isDirMode mode = true
    · exact .inl ⟨_, deriveFtype_dir h0 hdir⟩
    · by_cases hreg : isRegMode mode = true
      · exact .inl ⟨_, deriveFtype_reg h0 hdir hreg⟩
      · exact .inr ⟨_, deriveFtype_fail h0 hdir hreg⟩
  · refine .inl ⟨(s.inodes.memory self).ftype, ?_⟩
    rw [putInode_self]
    exact deriveFtype_known h0

/-- It leaves the type the inode has, or else writes that of the mode. -/
theorem deriveFtype_ok {s s' : Store δ} {self mode : Nat} {u : Unit}
    (hr : deriveFtype mode self s = .ok u s') :
    s' = s.putInode self { s.inodes.memory self with
      ftype := if (s.inodes.memory self).ftype ≠ 0 then (s.inodes.memory self).ftype
        else if isDirMode mode then ftDir else if isRegMode mode then ftRegFile else 0 } := by
  by_cases h0 : (s.inodes.memory self).ftype = 0
  · rw [if_neg (not_not.2 h0)]
    by_cases hd : isDirMode mode = true
    · rw [if_pos hd]
      exact (Run.ok.inj ((deriveFtype_dir h0 hd).symm.trans hr)).2.symm
    · by_cases hreg : isRegMode mode = true
      · rw [if_neg hd, if_pos hreg]
        exact (Run.ok.inj ((deriveFtype_reg h0 hd hreg).symm.trans hr)).2.symm
      · rw [deriveFtype_fail h0 hd hreg] at hr
        cases hr
  · rw [if_pos h0, putInode_self]
    exact (Run.ok.inj ((deriveFtype_known h0).symm.trans hr)).2.symm

/-- The slot is as it was, but for its type. -/
theorem Ready.deriveFtype {s s' : Store δ} {self mode : Nat} {u : Unit} (h : Ready self s)
    (hr : Xallib.deriveFtype mode self s = .ok u s') : Ready self s' := by
  rw [deriveFtype_ok hr]
  exact h.put h.blank

end Xallib
