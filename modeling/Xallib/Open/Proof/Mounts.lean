import Xallib.Open.Mounts

/-!
# The mountpoint of a device

`MountRow`: a line of `/proc/mounts`, with the two words that count and the rest of the line.
`scanMountLine_row`: one round takes one row from the table. `retrieve_mountpoint`: the result is
the directory of the first row that names the device, but a longer word than the arrays hold is
written behind them if it comes before (`MountRow.Fits`). On any text there are fewer rounds than
bytes.
-/

namespace Xallib

open Lib Lib.Cm Lib.Run

structure MountRow where
  dev : List UInt8
  dir : List UInt8
  rest : List UInt8
  deriving DecidableEq, Repr

def MountRow.text (r : MountRow) : List UInt8 :=
  r.dev ++ 32 :: (r.dir ++ (r.rest ++ [newline]))

/-- The table of the rows. -/
def mountTable (rows : List MountRow) : List UInt8 := rows.flatMap MountRow.text

/-- The row is one line, and its first two words are C strings. -/
structure MountRow.Valid (r : MountRow) : Prop where
  dev : IsWord isspace r.dev
  dir : IsWord isspace r.dir
  devString : 0 ∉ r.dev
  dirString : 0 ∉ r.dir
  rest : EndsWord isspace r.rest
  line : newline ∉ r.rest

/-- The arrays hold the words. -/
def MountRow.Fits (r : MountRow) : Prop := r.dev.length ≤ pathMaxlen ∧ r.dir.length ≤ pathMaxlen

instance (r : MountRow) : Decidable r.Fits := inferInstanceAs (Decidable (_ ∧ _))

/-- The first row that ends the scan. -/
def endingRow (devUri : CStr) (rows : List MountRow) : Option MountRow :=
  rows.find? fun r => r.dev = devUri ∨ ¬r.Fits

theorem cString_eq {s : List UInt8} (h : 0 ∉ s) : cString s = s :=
  List.takeWhile_eq_self_iff.2 fun _ hc => decide_eq_true fun h0 => h (h0 ▸ hc)

/-! ## One word, one line -/

section
variable {input rest w more : List UInt8}

theorem scanMountWord_of_some (h : scanWord isspace input = some (w, rest)) :
    scanMountWord input = if w.length ≤ pathMaxlen then .ok (some w) rest else .crash := by
  unfold scanMountWord
  rw [h]

theorem scanMountWord_of_none (h : scanWord isspace input = none) :
    scanMountWord input = .ok none [] := by
  unfold scanMountWord
  rw [h]

/-- A word makes the text shorter. -/
theorem scanMountWord_lt (h : scanMountWord input = .ok (some w) rest) :
    rest.length < input.length := by
  unfold scanMountWord at h
  cases hw : scanWord isspace input with
  | none =>
    rw [hw] at h
    cases h
  | some p =>
    obtain ⟨w', rest'⟩ := p
    rw [hw] at h
    by_cases hlen : w'.length ≤ pathMaxlen
    · simp only [if_pos hlen] at h
      obtain ⟨-, rfl⟩ := Run.ok.inj h
      exact scanWord_lt hw
    · simp only [if_neg hlen] at h
      cases h

/-- At the end of the table the scan ends. -/
theorem scanMountLine_end (h : skipSpace isspace input = []) :
    scanMountLine input = .ok none [] := by
  have hword : scanWord isspace input = none := by
    unfold scanWord
    rw [if_pos h]
  unfold scanMountLine
  rw [bind_of_ok (scanMountWord_of_none hword)]
  rfl

/-- What is read of a row, where blanks before it do not count. -/
theorem scanMountLine_row {r : MountRow} (hr : r.Valid)
    (h : skipSpace isspace input = skipSpace isspace (r.text ++ more)) :
    (r.Fits → ∃ left, scanMountLine input = .ok (some (r.dev, r.dir)) left ∧
      skipSpace isspace left = skipSpace isspace more) ∧
    (¬r.Fits → scanMountLine input = .crash) := by
  have hblank : EndsWord isspace (32 :: (r.dir ++ (r.rest ++ newline :: more))) := by
    simp [EndsWord, isspace]
  have hends : EndsWord isspace (r.rest ++ newline :: more) := by
    cases hrest : r.rest with
    | nil => simp [EndsWord, isspace, newline]
    | cons b rest =>
      have hb := hr.rest
      rw [hrest] at hb
      exact hb
  have hdev : scanWord isspace input =
      some (r.dev, 32 :: (r.dir ++ (r.rest ++ newline :: more))) := by
    have hword : scanWord isspace ([] ++ (r.dev ++ _)) = _ :=
      scanWord_append (fun _ h => absurd h List.not_mem_nil) hr.dev hblank
    rw [← scanWord_skipSpace, h, scanWord_skipSpace, ← hword]
    simp [MountRow.text]
  have hdir : scanWord isspace ([32] ++ (r.dir ++ (r.rest ++ newline :: more))) =
      some (r.dir, r.rest ++ newline :: more) :=
    scanWord_append (by simp [isspace]) hr.dir hends
  have hnewline : isspace newline = true := rfl
  have hfirst := scanMountWord_of_some hdev
  have hsecond := scanMountWord_of_some hdir
  unfold scanMountLine
  refine ⟨fun hfits => ⟨_, ?_, skipLine_append hnewline hr.line more⟩, fun hfits => ?_⟩
  · rw [if_pos hfits.1] at hfirst
    rw [if_pos hfits.2] at hsecond
    rw [bind_of_ok hfirst]
    exact bind_of_ok hsecond
  · by_cases hlen : r.dev.length ≤ pathMaxlen
    · rw [if_pos hlen] at hfirst
      rw [if_neg fun h => hfits ⟨hlen, h⟩] at hsecond
      rw [bind_of_ok hfirst]
      exact bind_of_crash hsecond
    · rw [if_neg hlen] at hfirst
      exact bind_of_crash hfirst

theorem scanMountWord_ends (input : List UInt8) : scanMountWord input ≠ .spin := by
  unfold scanMountWord
  cases scanWord isspace input with
  | none => exact fun h => nomatch h
  | some p =>
    by_cases hlen : p.1.length ≤ pathMaxlen
    · simp only [if_pos hlen]
      exact fun h => nomatch h
    · simp only [if_neg hlen]
      exact fun h => nomatch h

theorem scanMountLine_ends (input : List UInt8) : scanMountLine input ≠ .spin := by
  refine bind_ne_spin (scanMountWord_ends input) fun d t _ => ?_
  cases d with
  | none => exact fun h => nomatch h
  | some d =>
    refine bind_ne_spin (scanMountWord_ends t) fun m t' _ => ?_
    cases m <;> exact fun h => nomatch h

theorem scanMountLine_lt {p : List UInt8 × List UInt8}
    (h : scanMountLine input = .ok (some p) rest) : rest.length < input.length := by
  unfold scanMountLine at h
  obtain ⟨d, t, hd, h⟩ := bind_ok.1 h
  cases d with
  | none => cases h
  | some d =>
    obtain ⟨m, t', hm, h⟩ := bind_ok.1 h
    cases m with
    | none => cases h
    | some m =>
      obtain ⟨-, rfl⟩ := Run.ok.inj h
      have h1 := scanMountWord_lt hd
      have h2 := scanMountWord_lt hm
      have h3 : (skipLine isspace newline t').length ≤ t'.length := skipLine_le newline t'
      omega

end

/-! ## The scan -/

section
variable (devUri : CStr)

/-- There are fewer rounds than bytes, whatever the text is. -/
theorem scanMounts_ends (fuel : Nat) : ∀ input : List UInt8, input.length < fuel →
    scanMounts devUri fuel input ≠ .spin := by
  induction fuel with
  | zero => exact fun _ h => absurd h (Nat.not_lt_zero _)
  | succ fuel ih =>
    intro input hlt
    refine bind_ne_spin (scanMountLine_ends input) fun entry left hline => ?_
    cases entry with
    | none => exact fun h => nomatch h
    | some entry =>
      have hleft := scanMountLine_lt hline
      show (if cString entry.1 = devUri then pure (some (cString entry.2))
        else scanMounts devUri fuel : Cm Err (List UInt8) (Option CStr)) left ≠ _
      by_cases hd : cString entry.1 = devUri
      · rw [if_pos hd]
        exact fun h => nomatch h
      · rw [if_neg hd]
        exact ih left (by omega)

/-- The scan of a table (module doc). -/
theorem scanMounts_table (rows : List MountRow) (hrows : ∀ r ∈ rows, r.Valid) : ∀ (fuel : Nat)
    (input : List UInt8), rows.length < fuel →
    skipSpace isspace input = skipSpace isspace (mountTable rows) →
    (∀ r, endingRow devUri rows = some r → r.Fits →
      ∃ left, scanMounts devUri fuel input = .ok (some r.dir) left) ∧
    (∀ r, endingRow devUri rows = some r → ¬r.Fits →
      scanMounts devUri fuel input = .crash) ∧
    (endingRow devUri rows = none → ∃ left, scanMounts devUri fuel input = .ok none left) := by
  induction rows with
  | nil =>
    intro fuel input hlt h
    obtain ⟨fuel, rfl⟩ : ∃ n, fuel = n + 1 := ⟨fuel - 1, by simp at hlt; omega⟩
    refine ⟨fun _ h => (nomatch h), fun _ h => (nomatch h), fun _ => ⟨[], ?_⟩⟩
    unfold scanMounts
    exact bind_of_ok (scanMountLine_end h)
  | cons r rows ih =>
    intro fuel input hlt h
    obtain ⟨hr, hrows⟩ := List.forall_mem_cons.1 hrows
    obtain ⟨fuel, rfl⟩ : ∃ n, fuel = n + 1 := ⟨fuel - 1, by simp at hlt; omega⟩
    obtain ⟨hread, hcrash⟩ := scanMountLine_row hr h
    unfold endingRow scanMounts
    rw [List.find?_cons]
    by_cases hfits : r.Fits
    · obtain ⟨left, hline, hleft⟩ := hread hfits
      rw [bind_of_ok hline]
      simp only [cString_eq hr.devString, cString_eq hr.dirString]
      by_cases hd : r.dev = devUri
      · rw [if_pos hd, decide_eq_true (.inl hd)]
        refine ⟨fun r' h' _ => ⟨left, ?_⟩, fun r' h' hn => ?_, fun h' => (nomatch h')⟩
        · obtain rfl := Option.some.inj h'
          rfl
        · obtain rfl := Option.some.inj h'
          exact absurd hfits hn
      · rw [if_neg hd, decide_eq_false (by tauto)]
        exact ih hrows fuel left (by simpa using hlt) hleft
    · rw [bind_of_crash (hcrash hfits), decide_eq_true (.inr hfits)]
      refine ⟨fun r' h' hn => ?_, fun _ _ _ => rfl, fun h' => (nomatch h')⟩
      obtain rfl := Option.some.inj h'
      exact absurd hn hfits

end

theorem length_mountTable (rows : List MountRow) : rows.length ≤ (mountTable rows).length := by
  induction rows with
  | nil => exact Nat.le_refl _
  | cons r rows ih =>
    have htext : 0 < r.text.length := by simp [MountRow.text]
    have htable : mountTable (r :: rows) = r.text ++ mountTable rows := List.flatMap_cons
    rw [htable, List.length_append, List.length_cons]
    omega

/-- The mountpoint of a device (module doc). -/
theorem retrieve_mountpoint (rows : List MountRow) (hrows : ∀ r ∈ rows, r.Valid)
    (devUri mntpnt : CStr) (fuel : Nat) (hfuel : (mountTable rows).length < fuel) :
    ((∀ r, endingRow devUri rows = some r → r.Fits →
      retrieveMountpoint devUri (.ok (mountTable rows)) fuel mntpnt = .ok () r.dir) ∧
    (∀ r, endingRow devUri rows = some r → ¬r.Fits →
      retrieveMountpoint devUri (.ok (mountTable rows)) fuel mntpnt = .crash) ∧
    (endingRow devUri rows = none → retrieveMountpoint devUri (.ok (mountTable rows)) fuel mntpnt =
      .fail ⟨.argument, -EINVAL⟩ mntpnt)) ∧
    ∀ text : List UInt8, text.length < fuel →
      retrieveMountpoint devUri (.ok text) fuel mntpnt ≠ .spin := by
  have hlen := length_mountTable rows
  obtain ⟨h1, h2, h3⟩ := scanMounts_table devUri rows hrows fuel _ (by omega) rfl
  unfold retrieveMountpoint
  refine ⟨⟨fun r h hf => ?_, fun r h hf => ?_, fun h => ?_⟩, fun text ht => ?_⟩
  · obtain ⟨left, hs⟩ := h1 r h hf
    simp only [hs]
    rfl
  · simp only [h2 r h hf]
    rfl
  · obtain ⟨left, hs⟩ := h3 h
    simp only [hs]
    rfl
  · have hs := scanMounts_ends devUri fuel text ht
    cases hscan : scanMounts devUri fuel text with
    | ok found left =>
      cases found with
      | none => simp only [hscan]; exact fun h => nomatch h
      | some m => simp only [hscan]; exact fun h => nomatch h
    | fail _ _ => simp only [hscan]; exact fun h => nomatch h
    | crash => simp only [hscan]; exact fun h => nomatch h
    | spin => exact absurd hscan hs

/-- Two rows, the first without more than its words. -/
def twoRows : List MountRow := [⟨[97], [47], []⟩, ⟨[98], [47, 109], [32, 120]⟩]

theorem twoRows_valid : ∀ r ∈ twoRows, r.Valid := by
  have h (w : List UInt8) (hne : w ≠ []) (hw : w.all (fun c => !isspace c) = true) :
      IsWord isspace w := ⟨hne, fun c hc => by simpa using List.all_eq_true.1 hw c hc⟩
  simp only [twoRows, List.forall_mem_cons]
  refine ⟨⟨h _ (by decide) rfl, h _ (by decide) rfl, by decide, by decide, ?_, by decide⟩,
    ⟨h _ (by decide) rfl, h _ (by decide) rfl, by decide, by decide, ?_, by decide⟩,
    fun _ h => (nomatch h)⟩
  · exact fun c h => (nomatch h)
  · intro c hc
    obtain rfl : 32 = c := Option.some.inj hc
    rfl

theorem retrieve_mountpoint_two :
    retrieveMountpoint [98] (.ok (mountTable twoRows)) 20 [] = .ok () [47, 109] :=
  (retrieve_mountpoint twoRows twoRows_valid [98] [] 20 (by decide)).1.1
    ⟨[98], [47, 109], [32, 120]⟩ (by decide) (by decide)

end Xallib
