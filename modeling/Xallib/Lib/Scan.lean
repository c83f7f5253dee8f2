import Mathlib.Data.List.DropRight

/-!
# The words of a text

What conversions of `scanf` take from a text: `scanWord` is `%s`, the next word behind blanks;
`skipLine` is `%*[^\n]` and `\n`, which take nothing where the line is at its end. A word is taken
as it stands if it is followed by a blank or by nothing (`scanWord_append`); each word makes the
text shorter (`scanWord_lt`). What comes next only depends on the text behind the blanks
(`scanWord_skipSpace`), so that it does not matter which blanks are gone (`skipLine_append`).
-/

namespace Lib

section
variable {α : Type} (isSpace : α → Bool)

def skipSpace (input : List α) : List α := input.dropWhile isSpace

/-- The next word and the text behind it; none at the end of the text. -/
def scanWord (input : List α) : Option (List α × List α) :=
  if skipSpace isSpace input = [] then none
  else some ((skipSpace isSpace input).takeWhile (!isSpace ·),
    (skipSpace isSpace input).dropWhile (!isSpace ·))

/-- The rest of the line, and the blanks that follow it. -/
def skipLine [DecidableEq α] (newline : α) (input : List α) : List α :=
  if input.takeWhile (· ≠ newline) = [] then input
  else skipSpace isSpace (input.dropWhile (· ≠ newline))

/-- A word is not empty and has no blanks. -/
structure IsWord (w : List α) : Prop where
  ne_nil : w ≠ []
  no_space : ∀ c ∈ w, isSpace c = false

/-- A text at whose beginning a word has ended. -/
def EndsWord (rest : List α) : Prop := ∀ c ∈ rest.head?, isSpace c = true

end

section
variable {α : Type} {isSpace : α → Bool} {input rest w blanks : List α}

theorem skipSpace_append (hb : ∀ c ∈ blanks, isSpace c = true) :
    skipSpace isSpace (blanks ++ input) = skipSpace isSpace input :=
  List.dropWhile_append_of_pos hb

theorem skipSpace_skipSpace : skipSpace isSpace (skipSpace isSpace input) =
    skipSpace isSpace input := List.dropWhile_idempotent _ _

theorem scanWord_skipSpace : scanWord isSpace (skipSpace isSpace input) =
    scanWord isSpace input := by
  unfold scanWord
  rw [skipSpace_skipSpace]

theorem skipSpace_word (hw : IsWord isSpace w) : skipSpace isSpace (w ++ rest) = w ++ rest := by
  cases w with
  | nil => exact absurd rfl hw.ne_nil
  | cons c w =>
    have hc := hw.no_space c List.mem_cons_self
    rw [skipSpace, List.cons_append, List.dropWhile_cons, hc]
    rfl

theorem takeWhile_word (hw : IsWord isSpace w) (hrest : EndsWord isSpace rest) :
    (w ++ rest).takeWhile (!isSpace ·) = w ∧ (w ++ rest).dropWhile (!isSpace ·) = rest := by
  have hall : ∀ c ∈ w, (!isSpace c) = true := fun c hc => by rw [hw.no_space c hc]; rfl
  rw [List.takeWhile_append_of_pos hall, List.dropWhile_append_of_pos hall]
  cases rest with
  | nil => exact ⟨List.append_nil w, rfl⟩
  | cons b rest =>
    have hb : isSpace b = true := hrest b rfl
    rw [List.takeWhile_cons, List.dropWhile_cons, hb]
    exact ⟨List.append_nil w, rfl⟩

/-- The next word of a text that begins with it, behind blanks. -/
theorem scanWord_append (hb : ∀ c ∈ blanks, isSpace c = true) (hw : IsWord isSpace w)
    (hrest : EndsWord isSpace rest) :
    scanWord isSpace (blanks ++ (w ++ rest)) = some (w, rest) := by
  obtain ⟨htake, hdrop⟩ := takeWhile_word hw hrest
  have hne : w ++ rest ≠ [] := fun h => hw.ne_nil (List.append_eq_nil_iff.1 h).1
  unfold scanWord
  rw [skipSpace_append hb, skipSpace_word hw, if_neg hne, htake, hdrop]

theorem scanWord_lt (h : scanWord isSpace input = some (w, rest)) :
    rest.length < input.length := by
  unfold scanWord at h
  by_cases hnil : skipSpace isSpace input = []
  · rw [if_pos hnil] at h
    cases h
  rw [if_neg hnil] at h
  obtain ⟨rfl, rfl⟩ := Prod.mk.inj (Option.some.inj h)
  have hskip : (skipSpace isSpace input).length ≤ input.length :=
    (List.dropWhile_suffix _).length_le
  cases hin : skipSpace isSpace input with
  | nil => exact absurd hin hnil
  | cons c tail =>
    -- the text behind the blanks begins with no blank
    have hc : isSpace c = false := by
      have hhead := List.head?_dropWhile_not isSpace input
      rw [show input.dropWhile isSpace = c :: tail from hin] at hhead
      exact hhead
    rw [List.dropWhile_cons, hc]
    have htail : (tail.dropWhile (!isSpace ·)).length ≤ tail.length :=
      (List.dropWhile_suffix _).length_le
    rw [hin, List.length_cons] at hskip
    exact Nat.lt_of_le_of_lt htail hskip

section
variable [DecidableEq α] {newline : α}

theorem skipLine_le (newline : α) (input : List α) :
    (skipLine isSpace newline input).length ≤ input.length := by
  unfold skipLine
  split
  · exact Nat.le_refl _
  · exact Nat.le_trans (List.dropWhile_suffix _).length_le (List.dropWhile_suffix _).length_le

/-- The next line begins behind the line, but for blanks. -/
theorem skipLine_append (hn : isSpace newline = true) {line : List α} (hline : newline ∉ line)
    (more : List α) : skipSpace isSpace (skipLine isSpace newline (line ++ newline :: more)) =
      skipSpace isSpace more := by
  have hall : ∀ c ∈ line, decide (c ≠ newline) = true := fun c hc =>
    decide_eq_true fun h => hline (h ▸ hc)
  have hmore : skipSpace isSpace (newline :: more) = skipSpace isSpace more := by
    rw [skipSpace, List.dropWhile_cons, if_pos hn]
    rfl
  unfold skipLine
  rw [List.takeWhile_append_of_pos hall, List.dropWhile_append_of_pos hall, List.takeWhile_cons,
    List.dropWhile_cons]
  simp only [ne_eq, not_true_eq_false, decide_false, Bool.false_eq_true, if_false, List.append_nil]
  by_cases hnil : line = []
  · rw [if_pos hnil, hnil]
    exact hmore
  · rw [if_neg hnil, skipSpace_skipSpace, hmore]

end

end

end Lib
