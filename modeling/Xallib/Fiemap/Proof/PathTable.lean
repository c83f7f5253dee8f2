import Xallib.Fiemap.Mirror
import Xallib.Khash.Proof.Run

/-!
# What the map of paths maps

`Maps names bound t m`: with the names as they read now the table maps paths as `m` does, and its
keys are the names of slots below `bound`. A put of the name of an inode maps this to its slot
(`Maps.put`); as long as the names of the keys stay, so does what the table maps (`Maps.renamed`).

An index may begin with a table that an earlier one has filled, whose keys then come to read as
other names, so that `Maps` is lost. The search for what is put still leads to an element with this
key (`PathLeads`, `khPutName_shape`).

`PathsPut l s s'`: from one store to the other the entries `l` have been put, unless there is no
map; into a table that maps (`maps`), or into one with whatever keys (`refills`).
-/

namespace Xallib

open Lib Lib.Cm Lib.Run

/-- What a table maps (module doc). -/
structure Maps (names : Nat → CStr) (bound : Nat) (t : PathTable) (m : CStr → Option Nat) :
    Prop where
  inv : KhInv x31Hash (named names t)
  holds : ∃ pairs : CStr → Option (Nat × Nat), (named names t).Holds pairs ∧
    (∀ path, m path = (pairs path).map Prod.snd) ∧
    ∀ path key inode, pairs path = some (key, inode) → key < bound

variable {names names' : Nat → CStr} {bound bound' inode : Nat} {t : PathTable}
  {m : CStr → Option Nat} {path : CStr}

/-- A table that `kh_init` has made. -/
theorem maps_khInit : Maps names bound khInit fun _ => none := by
  refine ⟨.fresh rfl rfl rfl rfl, fun _ => none, fun key v => ?_, fun _ => rfl,
    fun _ _ _ h => nomatch h⟩
  refine iff_of_false (fun h => nomatch h) ?_
  rintro ⟨i, hlt, -⟩
  exact Nat.not_lt_zero i hlt

theorem Maps.get (h : Maps names bound t m) : khGetPath names path t = m path := by
  obtain ⟨pairs, hpairs, hm, -⟩ := h.holds
  rw [khGetPath, khLookup_holds h.inv hpairs path, hm path]

/-- Whatever has been written to the pool, what is found is the name of a slot. -/
theorem khGetPath_name (h : khGetPath names path t = some inode) : ∃ slot, names slot = path := by
  unfold khGetPath at h
  split at h
  · rename_i found _ hr
    obtain ⟨v, rfl, -⟩ := Option.map_eq_some_iff.1 h
    obtain ⟨i, hkey, -⟩ := khLookup_key hr
    exact ⟨_, hkey⟩
  · cases h

/-- The keys are names of different slots. -/
theorem Maps.size_le (h : Maps names bound t m) : t.size ≤ bound := by
  obtain ⟨pairs, hpairs, -, hlt⟩ := h.holds
  rw [show t.size = filled t.nBuckets (named names t).live from h.inv.shaped.size]
  refine filled_le_of_inj (f := t.keys) (fun i hi hlive => ?_) fun i hi j hj h1 h2 he => ?_
  · exact hlt _ _ _ ((hpairs (names (t.keys i)) _).2 ⟨i, hi, hlive, rfl, rfl⟩)
  · exact h.inv.distinct i hi j hj h1 h2 (congrArg names he)

/-- The key of an element. -/
theorem Maps.key (h : Maps names bound t m) {i : Nat} (hi : i < t.nBuckets)
    (hlive : (named names t).live i = true) :
    t.keys i < bound ∧ m (names (t.keys i)) = some (t.vals i) := by
  obtain ⟨pairs, hpairs, hm, hlt⟩ := h.holds
  have hpair := (hpairs (names (t.keys i)) (t.keys i, t.vals i)).2 ⟨i, hi, hlive, rfl, rfl⟩
  exact ⟨hlt _ _ _ hpair, by rw [hm, hpair]; rfl⟩

/-- The keys read as before. -/
theorem Maps.renamed (h : Maps names bound t m) (hle : bound ≤ bound')
    (hsame : ∀ i < bound, m (names i) ≠ none → names' i = names i) : Maps names' bound' t m := by
  obtain ⟨pairs, hpairs, hm, hlt⟩ := h.holds
  have hkeys : ∀ i < (named names t).nBuckets, (named names t).live i = true →
      names' (t.keys i) = (named names t).keys i := by
    intro i hi hlive
    obtain ⟨hbound, hsome⟩ := h.key hi hlive
    exact hsame _ hbound (by rw [hsome]; exact Option.some_ne_none _)
  exact ⟨h.inv.congr_keys hkeys, pairs, hpairs.congr_keys hkeys, hm,
    fun path key inode hp => Nat.lt_of_lt_of_le (hlt path key inode hp) hle⟩

/-- The name of an inode is put. -/
theorem Maps.put (h : Maps names bound t m) (hlt : inode < bound) (hbound : bound < 2 ^ 30) :
    Maps names bound (khPutName names inode t)
      fun path => if path = names inode then some inode else m path := by
  have hsize := h.size_le
  obtain ⟨pairs, hpairs, hm, hkey⟩ := h.holds
  rcases khPut_ok h.inv hpairs .all (Nat.lt_of_le_of_lt hsize hbound) (names inode) with
    ⟨e, -, hrefused⟩ | ⟨x, ret, h', hrun, hfound, hnew, hset⟩
  · exact absurd ⟨rfl, rfl, rfl⟩ hrefused
  · -- the key of the element: the one that was there, or the new one
    obtain ⟨key, hkeyeq, hname, hklt⟩ : ∃ key, (if ret = 0 then (h'.vals x).1 else inode) = key ∧
        names key = names inode ∧ key < bound := by
      by_cases hret : ret = 0
      · have hpair := hfound hret
        obtain ⟨i, -, -, hname, hval⟩ := (hpairs _ _).1 hpair
        refine ⟨_, if_pos hret, ?_, hkey _ _ _ hpair⟩
        rw [← hval]
        exact hname
      · exact ⟨inode, if_neg hret, rfl, hlt⟩
    obtain ⟨hinv, hholds, -⟩ := hset (key, inode)
    have hput : khPutName names inode t = unnamed (h'.setVal x (key, inode)) := by
      unfold khPutName
      rw [hrun]
      simp only [hkeyeq]
      rfl
    -- reading the keys again changes them in dead buckets at most
    have hkeys : ∀ i < (h'.setVal x (key, inode)).nBuckets,
        (h'.setVal x (key, inode)).live i = true →
        names ((h'.setVal x (key, inode)).vals i).1 = (h'.setVal x (key, inode)).keys i := by
      intro i hi hlive
      have hpair := (hholds _ _).2 ⟨i, hi, hlive, rfl, rfl⟩
      rw [Function.update_apply] at hpair
      by_cases he : (h'.setVal x (key, inode)).keys i = names inode
      · rw [if_pos he] at hpair
        rw [← Option.some.inj hpair, he]
        exact hname
      · rw [if_neg he] at hpair
        obtain ⟨j, -, -, hj, hval⟩ := (hpairs _ _).1 hpair
        rw [← hval, ← hj]
        rfl
    rw [hput]
    refine ⟨hinv.congr_keys hkeys, Function.update pairs (names inode) (some (key, inode)),
      hholds.congr_keys hkeys, fun path => ?_, fun path key' inode' hp => ?_⟩
    · rw [Function.update_apply]
      by_cases he : path = names inode
      · rw [if_pos he, if_pos he]
        rfl
      · rw [if_neg he, if_neg he, hm]
    · rw [Function.update_apply] at hp
      by_cases he : path = names inode
      · rw [if_pos he] at hp
        obtain ⟨rfl, -⟩ := Prod.mk.inj (Option.some.inj hp)
        exact hklt
      · rw [if_neg he] at hp
        exact hkey _ _ _ hp

/-! ## Keys that are there already -/

/-- The search for a path leads to an element (module doc). -/
def PathLeads (names : Nat → CStr) (t : PathTable) (path : CStr) : Prop :=
  ∃ k, t.nBuckets = 2 ^ k ∧ (named names t).Leads x31Hash k path

/-- An element has the key. -/
def HasKey (t : PathTable) (key : Nat) : Prop :=
  ∃ i < t.nBuckets, t.live i = true ∧ t.keys i = key

theorem shaped_named : KhShaped (named names t) ↔ KhShaped t := by
  constructor
  · rintro (⟨h0, hsize, hocc, hupper⟩ | ⟨k, hs⟩)
    · exact .fresh h0 hsize hocc hupper
    · exact .buckets k ⟨hs.nBuckets, hs.two_le, hs.le_31, hs.size, hs.nOccupied, hs.upperBound,
        hs.room⟩
  · rintro (⟨h0, hsize, hocc, hupper⟩ | ⟨k, hs⟩)
    · exact .fresh h0 hsize hocc hupper
    · exact .buckets k ⟨hs.nBuckets, hs.two_le, hs.le_31, hs.size, hs.nOccupied, hs.upperBound,
        hs.room⟩

/-- The element that is found has the path as its key. -/
theorem PathLeads.get (hl : PathLeads names t path) (hs : KhShaped t) :
    ∃ i < t.nBuckets, t.live i = true ∧ names (t.keys i) = path ∧
      khGetPath names path t = some (t.vals i) := by
  obtain ⟨k, hk, hl⟩ := hl
  cases hs with
  | fresh h0 => exact absurd (h0.symm.trans hk) (Nat.ne_of_lt (Nat.two_pow_pos k))
  | buckets k' hs =>
    obtain rfl : k' = k := Nat.pow_right_injective (Nat.le_refl 2) (hs.nBuckets.symm.trans hk)
    have hs' : KhShape k' (named names t) := ⟨hs.nBuckets, hs.two_le, hs.le_31, hs.size,
      hs.nOccupied, hs.upperBound, hs.room⟩
    obtain ⟨i, hi, hlive, hkey, hrun⟩ := khLookup_leads hs' hl
    refine ⟨i, hk ▸ hi, hlive, hkey, ?_⟩
    rw [khGetPath, hrun]
    rfl

/-- The keys read as before, where they read as something. -/
theorem PathLeads.renamed (hl : PathLeads names t path) (hne : path ≠ [])
    (hsame : ∀ i, names i ≠ [] → names' i = names i) : PathLeads names' t path := by
  obtain ⟨k, hk, i, hi, hlive, hkey, hchain⟩ := hl
  refine ⟨k, hk, i, hi, hlive, ?_, hchain⟩
  have hread : names (t.keys i) = path := hkey
  exact (hsame _ (by rw [hread]; exact hne)).trans hread

/-- What a put of the name of an inode does to a table, whatever its keys are. -/
structure PutName (names : Nat → CStr) (inode : Nat) (t t' : PathTable) : Prop where
  shaped : KhShaped t'
  size : t'.size ≤ t.size + 1
  found : PathLeads names t' (names inode)
  leads : ∀ path, PathLeads names t path → PathLeads names t' path
  elems : ∀ j < t'.nBuckets, t'.live j = true →
    (∃ i < t.nBuckets, t.live i = true ∧ t'.keys j = t.keys i ∧ t'.vals j = t.vals i) ∨
      t'.vals j = inode ∧ names (t'.keys j) = names inode
  keys : ∀ key, HasKey t' key → HasKey t key ∨ key = inode

theorem khPutName_shape (names : Nat → CStr) (inode : Nat) (hs : KhShaped t)
    (h30 : t.size < 2 ^ 30) : PutName names inode t (khPutName names inode t) := by
  obtain ⟨x, ret, h', k, hrun, hput⟩ := khPut_shape (shaped_named.2 hs)
    (show (named names t).size < 2 ^ 30 from h30) x31Hash (names inode)
  have hn := hput.shape.nBuckets
  -- the elements that were there have kept their keys
  have hold : ∀ j < 2 ^ k, h'.live j = true → (j = x → ret = 0) →
      ∃ i < t.nBuckets, t.live i = true ∧ h'.vals j = (t.keys i, t.vals i) ∧
        names (h'.vals j).1 = h'.keys j := by
    intro j hj hlive hret
    obtain ⟨i, hi, hlive', hkey, hval⟩ := hput.old j hj hlive hret
    refine ⟨i, hi, hlive', hval, ?_⟩
    rw [hval, hkey]
    rfl
  -- the key of the element: the one that was there, or the new one
  obtain ⟨key, hkey, hx, hkey'⟩ : ∃ key, (if ret = 0 then (h'.vals x).1 else inode) = key ∧
      names key = names inode ∧ (HasKey t key ∨ key = inode) := by
    by_cases hret : ret = 0
    · obtain ⟨i, hi, hlive, hval, hname⟩ := hold x hput.lt hput.live fun _ => hret
      exact ⟨_, if_pos hret, hname.trans hput.found, .inl ⟨i, hi, hlive, by rw [hval]⟩⟩
    · exact ⟨_, if_neg hret, rfl, .inr rfl⟩
  have he : khPutName names inode t = unnamed (h'.setVal x (key, inode)) := by
    unfold khPutName
    rw [hrun]
    simp only [hkey]
    rfl
  rw [he]
  have hkeys : ∀ j < 2 ^ k, h'.live j = true →
      names ((unnamed (h'.setVal x (key, inode))).keys j) = h'.keys j := by
    intro j hj hlive
    by_cases hjx : j = x
    · rw [hjx, hput.found, ← hx]
      exact congrArg (fun e : Nat × Nat => names e.1) (if_pos rfl)
    · obtain ⟨-, -, -, -, hname⟩ := hold j hj hlive fun h => absurd h hjx
      rw [← hname]
      exact congrArg (fun e : Nat × Nat => names e.1) (if_neg hjx)
  have hleads : ∀ path, h'.Leads x31Hash k path →
      PathLeads names (unnamed (h'.setVal x (key, inode))) path := by
    rintro path ⟨j, hj, hlive, hpath, hchain⟩
    exact ⟨k, hn, j, hj, hlive, (hkeys j hj hlive).trans hpath, hchain⟩
  refine ⟨.buckets k ⟨hn, hput.shape.two_le, hput.shape.le_31, hput.shape.size,
    hput.shape.nOccupied, hput.shape.upperBound, hput.shape.room⟩, hput.size,
    hleads _ ⟨x, hput.lt, hput.live, hput.found, hput.chained⟩,
    fun path ⟨k', hk', hl⟩ => hleads path (hput.leads k' path hk' hl), fun j hj hlive => ?_, ?_⟩
  · have hj' : j < 2 ^ k := hn ▸ hj
    by_cases hjx : j = x
    · right
      refine ⟨congrArg Prod.snd (show (if j = x then _ else _) = (key, inode) from if_pos hjx), ?_⟩
      rw [hkeys j hj' hlive, hjx, hput.found]
    · left
      obtain ⟨i, hi, hlive', hval, -⟩ := hold j hj' hlive fun h => absurd h hjx
      have hpair : (if j = x then (key, inode) else h'.vals j) = (t.keys i, t.vals i) :=
        (if_neg hjx).trans hval
      exact ⟨i, hi, hlive', congrArg Prod.fst hpair, congrArg Prod.snd hpair⟩
  · rintro _ ⟨j, hj, hlive, rfl⟩
    by_cases hjx : j = x
    · rwa [show (unnamed (h'.setVal x (key, inode))).keys j = key from
        congrArg Prod.fst (show (if j = x then _ else _) = (key, inode) from if_pos hjx)]
    · obtain ⟨i, hi, hlive', hval, -⟩ := hold j (hn ▸ hj) hlive fun h => absurd h hjx
      have hpair : (if j = x then (key, inode) else h'.vals j) = (t.keys i, t.vals i) :=
        (if_neg hjx).trans hval
      exact .inl ⟨i, hi, hlive', (congrArg Prod.fst hpair).symm⟩

/-! ## Between two stores -/

/-- The entries have been put into a table whose keys come to read as other names. -/
structure Refills (l : List (CStr × Nat)) (names names' : Nat → CStr) (t t' : PathTable) :
    Prop where
  shaped : KhShaped t'
  size : t'.size ≤ t.size + l.length
  elems : ∀ j < t'.nBuckets, t'.live j = true →
    (∃ i < t.nBuckets, t.live i = true ∧ t'.keys j = t.keys i ∧ t'.vals j = t.vals i) ∨
      ∃ e ∈ l, t'.vals j = e.2 ∧ names' (t'.keys j) = e.1
  keys : ∀ key, HasKey t' key → HasKey t key ∨ ∃ e ∈ l, key = e.2
  leads : ∀ path ≠ [], PathLeads names t path → PathLeads names' t' path
  put : ∀ e ∈ l, PathLeads names' t' e.1

/-- The entries have been put (module doc). -/
structure PathsPut (l : List (CStr × Nat)) (s s' : Store FiemapBe) : Prop where
  isSome : s'.be.pathInodeMap.isSome = s.be.pathInodeMap.isSome
  same : ∀ i, inodeNames s i ≠ [] → inodeNames s' i = inodeNames s i
  maps : ∀ t m, s.be.pathInodeMap = some t → Maps (inodeNames s) s.inodes.free t m → m [] = none →
    ∃ t', s'.be.pathInodeMap = some t' ∧ Maps (inodeNames s') s'.inodes.free t' (putPaths l m)
  refills : ∀ t, s.be.pathInodeMap = some t → KhShaped t → t.size + l.length < 2 ^ 30 →
    ∃ t', s'.be.pathInodeMap = some t' ∧ Refills l (inodeNames s) (inodeNames s') t t'

section
variable {s s₁ s' : Store FiemapBe} {l l' : List (CStr × Nat)}

/-- Nothing is put, and the names stay. -/
theorem PathsPut.frame (hbe : s'.be.pathInodeMap = s.be.pathInodeMap)
    (hle : s.inodes.free ≤ s'.inodes.free)
    (hsame : ∀ i, inodeNames s i ≠ [] → inodeNames s' i = inodeNames s i) :
    PathsPut [] s s' where
  isSome := by rw [hbe]
  same := hsame
  maps t m ht hm hnil := by
    refine ⟨t, hbe.trans ht, hm.renamed hle fun i _ hsome => hsame i fun h => hsome ?_⟩
    rw [h]
    exact hnil
  refills t ht hs _ :=
    ⟨t, hbe.trans ht, hs, Nat.le_refl _, fun j hj hlive => .inl ⟨j, hj, hlive, rfl, rfl⟩,
      fun _ hkey => .inl hkey, fun _ hne hl => hl.renamed hne hsame,
      fun _ he => absurd he List.not_mem_nil⟩

/-- One inode is put. -/
theorem PathsPut.one (hok : StoreOk s) (hlt : inode < s.inodes.free)
    (hbe : s'.be.pathInodeMap = s.be.pathInodeMap.map (khPutName (inodeNames s) inode))
    (hfree : s'.inodes.free = s.inodes.free)
    (hnames : ∀ i, inodeNames s' i = inodeNames s i) :
    PathsPut [(inodeNames s inode, inode)] s s' where
  isSome := by rw [hbe, Option.isSome_map]
  same i _ := hnames i
  maps t m ht hm _ := by
    have hbound := Nat.le_trans hok.inodes.free_le hok.inodes.allocated_le
    rw [show poolReserved = 40000000 from rfl] at hbound
    refine ⟨khPutName (inodeNames s) inode t, by rw [hbe, ht]; rfl, ?_⟩
    rw [hfree]
    exact (hm.put hlt (by omega)).renamed (Nat.le_refl _) fun i _ _ => hnames i
  refills t ht hs h30 := by
    rw [List.length_singleton] at h30
    have hput := khPutName_shape (inodeNames s) inode hs (by omega)
    refine ⟨khPutName (inodeNames s) inode t, by rw [hbe, ht]; rfl, ?_⟩
    rw [show inodeNames s' = inodeNames s from funext hnames]
    refine ⟨hput.shaped, hput.size, fun j hj hlive => ?_, fun key hkey => ?_,
      fun path _ hl => hput.leads path hl, fun e he => ?_⟩
    · exact (hput.elems j hj hlive).imp_right fun h => ⟨_, List.mem_singleton.2 rfl, h⟩
    · exact (hput.keys key hkey).imp_right fun h => ⟨_, List.mem_singleton.2 rfl, h⟩
    · obtain rfl := List.mem_singleton.1 he
      exact hput.found

theorem PathsPut.trans (h : PathsPut l s s₁) (h' : PathsPut l' s₁ s') (hne : ∀ e ∈ l, e.1 ≠ []) :
    PathsPut (l ++ l') s s' where
  isSome := h'.isSome.trans h.isSome
  same i hi := (h'.same i (by rw [h.same i hi]; exact hi)).trans (h.same i hi)
  maps t m ht hm hnil := by
    obtain ⟨t₁, ht₁, hm₁⟩ := h.maps t m ht hm hnil
    rw [putPaths_append]
    refine h'.maps t₁ _ ht₁ hm₁ ?_
    rcases putPaths_cases l m [] with ⟨i, hi, -⟩ | ⟨-, hput⟩
    · exact absurd rfl (hne _ hi)
    · rw [hput, hnil]
  refills t ht hs h30 := by
    rw [List.length_append] at h30
    obtain ⟨t₁, ht₁, hr⟩ := h.refills t ht hs (by omega)
    have hsize := hr.size
    obtain ⟨t', ht', hr'⟩ := h'.refills t₁ ht₁ hr.shaped (by omega)
    have hsize' := hr'.size
    refine ⟨t', ht', hr'.shaped, by rw [List.length_append]; omega, fun j hj hlive => ?_,
      fun key hkey => ?_, fun path hpath hl => hr'.leads path hpath (hr.leads path hpath hl),
      fun e he => ?_⟩
    · rcases hr'.elems j hj hlive with ⟨i, hi, hlive', hkey, hval⟩ | ⟨e, he, hval, hkey⟩
      · rw [hkey, hval]
        refine (hr.elems i hi hlive').imp_right ?_
        -- the name it was put under stays
        rintro ⟨e, he, hval', hkey'⟩
        refine ⟨e, List.mem_append_left _ he, hval', ?_⟩
        rw [h'.same _ (by rw [hkey']; exact hne e he), hkey']
      · exact .inr ⟨e, List.mem_append_right _ he, hval, hkey⟩
    · rcases hr'.keys key hkey with hkey | ⟨e, he, hkey⟩
      · exact (hr.keys key hkey).imp_right fun ⟨e, he, hkey⟩ =>
          ⟨e, List.mem_append_left _ he, hkey⟩
      · exact .inr ⟨e, List.mem_append_right _ he, hkey⟩
    · rcases List.mem_append.1 he with he | he
      · exact hr'.leads e.1 (hne e he) (hr.put e he)
      · exact hr'.put e he

end

end Xallib
