import LessSheet.Evaluation
import Mathlib.Data.Nat.Digits.Defs

/-! # Counting a word in a text

`occurrences word s` is the number of places at which `word` stands in the text `s`. A character
that the word does not have cuts a text into parts that can be counted by themselves
(`occurrences_append_cons`), so writing values side by side with a separator between them makes no
new occurrence.

The importance marker is counted this way. Numbers are written without an exclamation mark, and what
a string comes to has one only if the string has it or a value that is filled in.
-/

namespace LessSheet

namespace Text

/-- The number of places at which a word stands in a text. -/
def occurrences (word : List Char) : List Char → Nat
  | [] => 0
  | c :: s => (if word.isPrefixOf (c :: s) then 1 else 0) + occurrences word s

section
variable {word : List Char} {c : Char}

/-- A word does not reach past a character that it does not have. -/
theorem isPrefixOf_append_cons (hc : c ∉ word) (a b : List Char) :
    word.isPrefixOf (a ++ c :: b) = word.isPrefixOf a := by
  induction word generalizing a with
  | nil => simp
  | cons w word ih =>
    obtain ⟨hw, hword⟩ := List.ne_and_not_mem_of_not_mem_cons hc
    cases a with
    | nil => simp [List.isPrefixOf_cons_cons, hw.symm]
    | cons d a =>
      rw [List.cons_append, List.isPrefixOf_cons_cons, ih hword, List.isPrefixOf_cons_cons]

/-- On both sides of a character that a word does not have, it is counted by itself. -/
theorem occurrences_append_cons (hword : word ≠ []) (hc : c ∉ word) (a b : List Char) :
    occurrences word (a ++ c :: b) = occurrences word a + occurrences word b := by
  induction a with
  | nil =>
    have hstart : word.isPrefixOf (c :: b) = false := by
      rw [← List.nil_append (c :: b), isPrefixOf_append_cons hc]
      cases word with
      | nil => exact absurd rfl hword
      | cons w word => rfl
    simp [occurrences, hstart]
  | cons d a ih =>
    have hstart := isPrefixOf_append_cons hc (d :: a) b
    rw [List.cons_append] at hstart
    rw [List.cons_append, occurrences, ih, hstart, occurrences, Nat.add_assoc]

/-- Characters that a word does not have do not count before a text. -/
theorem occurrences_clear_append (hword : word ≠ []) {sep : List Char}
    (hsep : ∀ c ∈ sep, c ∉ word) (b : List Char) :
    occurrences word (sep ++ b) = occurrences word b := by
  induction sep with
  | nil => rfl
  | cons c sep ih =>
    rw [List.forall_mem_cons] at hsep
    have hcut := occurrences_append_cons hword hsep.1 [] (sep ++ b)
    rw [List.nil_append, ih hsep.2, occurrences, Nat.zero_add] at hcut
    rw [List.cons_append, hcut]

/-- Between two texts, characters that a word does not have keep them apart. -/
theorem occurrences_append_append (hword : word ≠ []) {sep : List Char} (hne : sep ≠ [])
    (hsep : ∀ c ∈ sep, c ∉ word) (a b : List Char) :
    occurrences word (a ++ sep ++ b) = occurrences word a + occurrences word b := by
  obtain ⟨c, rest, rfl⟩ := List.exists_cons_of_ne_nil hne
  rw [List.forall_mem_cons] at hsep
  rw [List.append_assoc, List.cons_append, occurrences_append_cons hword hsep.1,
    occurrences_clear_append hword hsep.2]

/-- A word does not stand in a text without its first character. -/
theorem occurrences_eq_zero {w : Char} {s : List Char} (h : w ∉ s) :
    occurrences (w :: word) s = 0 := by
  induction s with
  | nil => rfl
  | cons c s ih =>
    obtain ⟨hc, hs⟩ := List.ne_and_not_mem_of_not_mem_cons h
    simp [occurrences, ih hs, hc]

end

/-! ## Holes -/

/-- A character outside the holes of a text is a character of the text. -/
theorem mem_of_mem_piecesFrom {hole? : List Char → Option Hole} {c : Char} :
    ∀ {skip : Nat} {s : List Char}, .char c ∈ piecesFrom hole? skip s → c ∈ s
  | _, [], h => nomatch h
  | _ + 1, _ :: s, h => .tail _ (@mem_of_mem_piecesFrom hole? c _ s h)
  | 0, d :: s, h => by
    rw [piecesFrom] at h
    split at h
    · rcases List.mem_cons.1 h with h | h
      · cases h
      · exact .tail _ (mem_of_mem_piecesFrom h)
    · rcases List.mem_cons.1 h with h | h
      · cases h
        exact .head _
      · exact .tail _ (mem_of_mem_piecesFrom h)

/-- Whether a text has no placeholders. -/
def Whole (s : List Char) : Prop := ∀ name raw, .hole name raw ∉ pieces braced? s

/-- The pieces of a text without holes are its characters. -/
theorem piecesFrom_eq_map {hole? : List Char → Option Hole} :
    ∀ {s : List Char}, (∀ name raw, .hole name raw ∉ piecesFrom hole? 0 s) →
      piecesFrom hole? 0 s = s.map .char
  | [], _ => rfl
  | c :: s, h => by
    rw [piecesFrom] at h ⊢
    split at h
    · exact absurd (.head _) (h _ _)
    · have hs : ∀ name raw, .hole name raw ∉ piecesFrom hole? 0 s :=
        fun name raw hmem => h name raw (.tail _ hmem)
      rw [piecesFrom_eq_map hs, List.map_cons]

end Text

namespace View

open Text

variable {view : View}

/-- A character that is neither outside the holes nor in what is filled in is not in the text. -/
theorem not_mem_of_fill {c : Char}
    (hview : ∀ name v, view.lookup name = .ok v → c ∉ v.content.toList) :
    ∀ {ps : List Piece} {s : List Char}, .char c ∉ ps → view.fill ps = .ok s → c ∉ s
  | [], _, _, h => by
    cases h
    exact List.not_mem_nil
  | .char d :: ps, s, hc, h => by
    obtain ⟨hd, hps⟩ := List.ne_and_not_mem_of_not_mem_cons hc
    rw [fill] at h
    cases hrest : view.fill ps with
    | error e =>
      rw [hrest] at h
      cases h
    | ok rest =>
      rw [hrest] at h
      cases h
      have hne : c ≠ d := fun heq => hd (heq ▸ rfl)
      exact List.not_mem_cons_of_ne_of_not_mem hne (not_mem_of_fill hview hps hrest)
  | .hole name raw :: ps, s, hc, h => by
    rw [fill] at h
    cases hvalue : view.lookup (String.ofList name) with
    | error e =>
      rw [hvalue] at h
      cases h
    | ok v =>
      rw [hvalue] at h
      cases hrest : view.fill ps with
      | error e =>
        simp only [hrest] at h
        cases h
      | ok rest =>
        simp only [hrest] at h
        cases h
        have hps : c ∉ rest := not_mem_of_fill hview (fun hmem => hc (.tail _ hmem)) hrest
        exact List.not_mem_append (hview _ v hvalue) hps

/-- Characters alone are filled in as they are. -/
theorem fill_map_char (view : View) (s : List Char) : view.fill (s.map .char) = .ok s := by
  induction s with
  | nil => rfl
  | cons c s ih =>
    rw [List.map_cons, fill, ih]
    rfl

/-- Filling in brings no character that neither the text nor a value has. -/
theorem not_mem_of_interpolate {c : Char} {t u : String}
    (hview : ∀ name v, view.lookup name = .ok v → c ∉ v.content.toList) (ht : c ∉ t.toList)
    (h : view.interpolate t = .ok u) : c ∉ u.toList := by
  unfold interpolate at h
  cases hs : view.fill (pieces braced? t.toList) with
  | error e =>
    rw [hs] at h
    cases h
  | ok s =>
    rw [hs] at h
    cases h
    rw [String.toList_ofList]
    exact not_mem_of_fill hview (fun hmem => ht (mem_of_mem_piecesFrom hmem)) hs

/-- A text without placeholders stays as it is. -/
theorem interpolate_of_whole (view : View) {t : String} (ht : Whole t.toList) :
    view.interpolate t = .ok t := by
  rw [interpolate, pieces, piecesFrom_eq_map ht, fill_map_char]
  exact congrArg Except.ok (String.ofList_toList)

end View

/-! ## Numbers -/

namespace Decimal

/-- No digit is an exclamation mark. -/
theorem digit_ne_bang (n : Nat) : digit n ≠ '!' := by
  have hn : n % 10 < 10 := Nat.mod_lt n (by decide)
  have hdigits : ∀ k < 10, Char.ofNat (48 + k) ≠ '!' := by decide
  exact hdigits _ hn

/-- Fraction digits have no exclamation mark. -/
theorem bang_not_mem_fractionDigits (places f : Nat) : '!' ∉ fractionDigits places f := by
  induction places generalizing f with
  | zero => exact List.not_mem_nil
  | succ places ih =>
    rw [fractionDigits]
    split
    · exact List.not_mem_nil
    · exact List.not_mem_cons_of_ne_of_not_mem (digit_ne_bang _).symm (ih _)

/-- A natural number is written without exclamation marks. -/
theorem bang_not_mem_toString (n : Nat) : '!' ∉ (toString n).toList := by
  intro h
  have hdigit := Nat.isDigit_of_mem_toDigits (b := 10) (by decide) (by decide)
    (show '!' ∈ Nat.toDigits 10 n by simpa [Nat.repr] using h)
  cases hdigit

/-- A number with a decimal point is written without exclamation marks. -/
theorem bang_not_mem_scaledText (places n : Nat) : '!' ∉ (scaledText places n).toList := by
  have hwhole := bang_not_mem_toString (n / Nat.pow 10 places)
  have hfraction := bang_not_mem_fractionDigits places (n % Nat.pow 10 places)
  unfold scaledText
  split
  · exact hwhole
  · simp only [String.toList_append, String.toList_ofList, List.mem_append, not_or]
    exact ⟨⟨hwhole, by decide⟩, hfraction⟩

/-- A number is written without an exclamation mark. -/
theorem bang_not_mem_fixedPlaces (places : Nat) (x : Float) :
    '!' ∉ (fixedPlaces places x).toList := by
  unfold fixedPlaces
  split
  · decide
  · split
    · cases isNegative x <;> decide
    · have hscaled := bang_not_mem_scaledText places
        (roundDiv (magnitude x * Nat.pow 10 places) (Nat.pow 2 1074))
      simp only [String.toList_append, List.mem_append, hscaled, or_false]
      split <;> decide

end Decimal

end LessSheet
