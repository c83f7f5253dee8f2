import Xallib.Lib.SeqReader
import Xallib.Watch.Proof.SeqLock

/-!
# Readers of the sequence lock

What `xal_get_seq_lock` is for: a reader that finds the lock even, reads the tree, and finds the
lock unchanged, has read one state of the pools, if the steps of the writers meanwhile were allowed
(`reader_consistent`).
-/

namespace Xallib

open Lib

/-- What a step does to the `struct xal`: it writes to the pools in a section only. -/
theorem SeqOp.after_cases (op : SeqOp) (s : SeqState) :
    (∃ dirty, (op.after s).xal = { s.xal with dirty }) ∨ (op.after s).xal = addSeqLock s.xal ∨
      (s.pc.inSection = true ∨ s.index.inSection = true) ∧
        ∃ store rootIdx, (op.after s).xal = { s.xal with store, rootIdx } := by
  have hsame : ∀ {s' : SeqState}, s'.xal = s.xal → ∃ dirty, s'.xal = { s.xal with dirty } :=
    fun h => ⟨s.xal.dirty, h⟩
  have hcancel : ∀ {s' : SeqState}, s'.xal = s.xal → (s.unlessCancelled s').xal = s.xal := by
    intro s' h
    unfold SeqState.unlessCancelled
    by_cases hc : s.cancelled = true
    · rw [if_pos hc]
    · rwa [if_neg hc]
  cases op with
  | cancel => exact .inl (hsame rfl)
  | watcher step =>
    show (∃ dirty, (s.watcherStep step).xal = _) ∨ (s.watcherStep step).xal = _ ∨ _ ∧
      ∃ store rootIdx, (s.watcherStep step).xal = _
    unfold SeqState.watcherStep
    split
    case h_1 =>
      by_cases hd : s.xal.dirty = true
      · rw [if_pos hd]
        exact .inl (hsame rfl)
      · rw [if_neg hd]
        exact .inl (hsame rfl)
    case h_2 events _ =>
      refine .inl (hsame (hcancel ?_))
      by_cases he : events.isEmpty = true
      · rw [if_pos he]
      · rw [if_neg he]
    case h_3 dir _ =>
      cases s.batch with
      | nil => exact .inl (hsame rfl)
      | cons event batch =>
        show (∃ dirty, (s.event event batch dir).xal = _) ∨ (s.event event batch dir).xal = _ ∨ _
        unfold SeqState.event
        cases eventCase .extentUpdate event dir with
        | breaking => exact .inl (hsame rfl)
        | failed => exact .inl (hsame rfl)
        | file dirInode => exact .inr (.inl rfl)
        | skipped => exact .inl (hsame rfl)
    case h_4 child isFile _ =>
      cases child with
      | none => exact .inl (hsame rfl)
      | some inode =>
        cases isFile
        · exact .inl (hsame rfl)
        · exact .inl (hsame rfl)
    case h_5 => exact .inl (hsame (hcancel rfl))
    case h_6 store hpc => exact .inr (.inr ⟨.inl (by rw [hpc]; rfl), store, s.xal.rootIdx, rfl⟩)
    case h_7 => exact .inl (hsame rfl)
    case h_8 => exact .inl (hsame (hcancel rfl))
    case h_9 size hpc =>
      cases size with
      | none => exact .inl (hsame rfl)
      | some size => exact .inr (.inr ⟨.inl (by rw [hpc]; rfl), _, s.xal.rootIdx, rfl⟩)
    case h_10 => exact .inr (.inl rfl)
    case h_11 => exact .inl ⟨true, rfl⟩
    case h_12 => exact .inl (hsame rfl)
  | index step =>
    show (∃ dirty, (s.indexStep step).xal = _) ∨ (s.indexStep step).xal = _ ∨ _ ∧
      ∃ store rootIdx, (s.indexStep step).xal = _
    unfold SeqState.indexStep
    split
    case h_1 mountpoint _ =>
      by_cases hc : s.xal.dirty = false ∨ mountpoint.length = 0
      · rw [if_pos hc]
        exact .inl (hsame rfl)
      · rw [if_neg hc]
        exact .inl (hsame rfl)
    case h_2 => exact .inr (.inl rfl)
    case h_3 store rootIdx hi => exact .inr (.inr ⟨.inr (by rw [hi]; rfl), store, rootIdx, rfl⟩)
    case h_4 => exact .inl ⟨false, rfl⟩
    case h_5 => exact .inl (hsame rfl)
    case h_6 => exact .inr (.inl rfl)
    case h_7 => exact .inl (hsame rfl)

/-- The pools, the maps of the backend and the root. -/
def SeqState.tree (s : SeqState) : Store FiemapBe × Nat := (s.xal.store, s.xal.rootIdx)

/-- The watcher and the index are writers of the lock. -/
theorem seqLock_counted : CountsUp SeqOp.after SeqInv SeqOp.Allowed
    (fun s : SeqState => s.xal.seqLock) SeqState.tree (2 ^ 32) where
  inv o s hs ho := hs.after ho
  counts o s _ _ := by
    rcases o.after_cases s with ⟨dirty, h⟩ | h | ⟨-, store, rootIdx, h⟩
    · exact .inl (by rw [h])
    · right
      rw [h]
      exact Nat.mod_modEq _ _
    · exact .inl (by rw [h])
  writes o s hs _ heven := by
    rcases o.after_cases s with ⟨dirty, h⟩ | h | ⟨hin, -⟩
    · rw [SeqState.tree, h]
      rfl
    · rw [SeqState.tree, h]
      rfl
    · have hodd := hs.bracketed.1 hin
      omega

/-- A reader that loads the same even value before and after it reads, with fewer than `2 ^ 32`
steps of the writers in between, reads one state of the pools. -/
theorem reader_consistent (s : SeqState) (h0 : SeqInit s) (before during : List SeqOp)
    (hall : ∀ x ∈ visited SeqOp.after (before ++ during) s, x.1.Allowed x.2)
    (hlen : during.length < 2 ^ 32) (first last : SeqState)
    (hfirst : before.foldl (fun s o => SeqOp.after o s) s = first)
    (hlast : during.foldl (fun s o => SeqOp.after o s) first = last)
    (heven : first.xal.seqLock % 2 = 0) (hsame : last.xal.seqLock = first.xal.seqLock) :
    (∀ x ∈ visited SeqOp.after during first, x.2.xal.store = first.xal.store ∧
      x.2.xal.rootIdx = first.xal.rootIdx) ∧
    last.xal.store = first.xal.store ∧ last.xal.rootIdx = first.xal.rootIdx := by
  rw [visited_append, List.forall_mem_append] at hall
  have hinv : SeqInv first := by
    rw [← hfirst]
    exact seqLock_counted.run before s h0.inv hall.1
  rw [hfirst] at hall
  rw [← hlast] at hsame ⊢
  obtain ⟨hread, hend⟩ := seqLock_counted.unchanged hinv hall.2 hlen heven hsame
  exact ⟨fun x hx => Prod.mk.inj (hread x hx), Prod.mk.inj hend⟩

theorem allowed_of_bracketed {s : SeqState} {ops : List SeqOp} (hs : SeqInv s)
    (h : ∀ x ∈ visited SeqOp.after ops s, (x.1.after x.2).Bracketed) :
    ∀ x ∈ visited SeqOp.after ops s, x.1.Allowed x.2 :=
  (visited_iff (fun _ _ hs => ⟨hs.allowed, fun hw => (hs.after hw).bracketed⟩)
    (fun _ _ hs hw => hs.after hw) ops s hs).1 h

/-- The application has indexed again. -/
def reindexed : SeqState :=
  (reindexOps ++ [SeqOp.index .unlock]).foldl (fun s (o : SeqOp) => o.after s) seqStart

/-- The watcher receives an event. -/
def receiveOps : List SeqOp := [.watcher .loadDirty, .watcher (.read [writtenEvent])]

/-- The reader reads meanwhile. -/
theorem reader_consistent_reindexed :
    (∀ x ∈ visited SeqOp.after receiveOps reindexed,
      x.2.xal.store = reindexed.xal.store ∧ x.2.xal.rootIdx = reindexed.xal.rootIdx) ∧
    (receiveOps.foldl (fun s (o : SeqOp) => o.after s) reindexed).xal.store =
        reindexed.xal.store ∧
      (receiveOps.foldl (fun s (o : SeqOp) => o.after s) reindexed).xal.rootIdx =
        reindexed.xal.rootIdx := by
  have hall : ∀ x ∈ visited SeqOp.after (reindexOps ++ [SeqOp.index .unlock] ++ receiveOps)
      seqStart, (x.1.after x.2).Bracketed := by decide +kernel
  have heven : reindexed.xal.seqLock % 2 = 0 := by decide +kernel
  have hsame : (receiveOps.foldl (fun s (o : SeqOp) => o.after s) reindexed).xal.seqLock =
      reindexed.xal.seqLock := by decide +kernel
  have hfirst : (reindexOps ++ [SeqOp.index .unlock]).foldl (fun s (o : SeqOp) => o.after s)
      seqStart = reindexed := rfl
  have hlen : receiveOps.length < 2 ^ 32 := by decide
  exact reader_consistent seqStart seqStart_init _ _
    (allowed_of_bracketed seqStart_init.inv hall) hlen _ _ hfirst rfl heven hsame

end Xallib
