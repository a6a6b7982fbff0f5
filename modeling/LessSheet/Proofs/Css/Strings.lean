import LessSheet.Compile
import LessSheet.Proofs.Text.Appearance

/-! # Strings in what is written

The strings of a value stand in its text with their quotes, one after the other
(`Value.appear_strings`). The pretty layout only trims that text, which leaves them as they are. The
minified layout collapses the white space in it, and a string is no exception: it is written as it
is if its white space is a single space everywhere, and otherwise it is not
(`Value.strings_written`).
-/

namespace LessSheet

open Text

namespace Value

mutual

/-- The strings in a value, in order: the text between two quotes, and the quote. -/
def strings : Value → List (String × Char)
  | .quoted t quote => if isQuote quote then [(t, quote)] else []
  | .list _ items => stringsOf items
  | .function _ args => stringsOf args
  | _ => []

/-- The strings in several values. -/
def stringsOf : List Value → List (String × Char)
  | [] => []
  | v :: vs => v.strings ++ stringsOf vs

end

/-- A string with its quotes. -/
def quotedText (s : String × Char) : String := toString s.2 ++ s.1 ++ toString s.2

/-- The strings in a value, with their quotes. -/
def quotedStrings (v : Value) : List String := v.strings.map quotedText

end Value

/-! ## Strings in the text of a value -/

/-- A string stands between two of its quotes. -/
theorem toList_quotedText (s : String × Char) :
    (Value.quotedText s).toList = s.2 :: (s.1.toList ++ [s.2]) := by
  have hquote : (toString s.2).toList = [s.2] := String.toList_singleton s.2
  simp [Value.quotedText, hquote]

mutual

/-- The strings of a value stand in its text. -/
theorem Value.appear_strings : ∀ v : Value, Appear (v.strings.map Value.quotedText) v.text
  | .quoted t quote => by
    rw [Value.strings]
    split
    · exact appear_self _
    · trivial
  | .list separator items => appear_stringsOf separator.glue items
  | .function _ args => ((appear_stringsOf ", " args).append_left _).append_right _
  | .number _ | .keyword _ | .ruleset _ _ _ => trivial

/-- The strings in values appear in the texts of these, joined by anything. -/
theorem appear_stringsOf (glue : String) : ∀ vs : List Value,
    Appear ((Value.stringsOf vs).map Value.quotedText) (glue.intercalate (Value.texts vs))
  | [] => trivial
  | [v] => by
    rw [Value.stringsOf, Value.stringsOf, List.append_nil, Value.texts, Value.texts,
      String.intercalate_singleton]
    exact v.appear_strings
  | v :: w :: vs => by
    have hv := v.appear_strings
    have hrest := appear_stringsOf glue (w :: vs)
    rw [Value.stringsOf, Value.texts, Value.texts, String.intercalate_cons_cons, List.map_append]
    exact (hv.append_right glue).append hrest

end

/-! ## Strings keep their ends -/

/-- A quote is not white space. -/
theorem isBlank_of_isQuote {c : Char} (h : isQuote c = true) : isBlank c = false := by
  simp only [isQuote, Bool.or_eq_true, beq_iff_eq] at h
  rcases h with rfl | rfl <;> rfl

mutual

/-- The strings in a value are in quotes. -/
theorem Value.isQuote_of_mem : ∀ {v : Value} {s : String × Char}, s ∈ v.strings →
    isQuote s.2 = true
  | .quoted t quote, s, hs => by
    rw [Value.strings] at hs
    split at hs
    · next h =>
      cases List.mem_singleton.1 hs
      exact h
    · cases hs
  | .list _ _, s, hs | .function _ _, s, hs => isQuote_of_mem_stringsOf hs
  | .number _, s, hs | .keyword _, s, hs | .ruleset _ _ _, s, hs => nomatch hs

/-- The strings in several values are in quotes. -/
theorem isQuote_of_mem_stringsOf : ∀ {vs : List Value} {s : String × Char},
    s ∈ Value.stringsOf vs → isQuote s.2 = true
  | [], _, hs => nomatch hs
  | _ :: _, _, hs =>
    (List.mem_append.1 hs).elim Value.isQuote_of_mem isQuote_of_mem_stringsOf

end

/-- A string has no white space at its ends, and it is single spaced if the text between its quotes
is. -/
theorem quotedText_firm {s : String × Char} (h : isQuote s.2 = true) :
    FirmStart (Value.quotedText s).toList ∧ FirmEnd (Value.quotedText s).toList ∧
      (SingleSpaced (Value.quotedText s).toList ↔ SingleSpaced s.1.toList) := by
  have hquote := isBlank_of_isQuote h
  rw [toList_quotedText]
  refine ⟨⟨_, _, rfl, hquote⟩, ⟨s.2 :: s.1.toList, s.2, rfl, hquote⟩, fun hs => ?_, fun hs => ?_⟩
  · exact hs.part ⟨[s.2], [s.2], rfl⟩
  · refine SingleSpaced.cons ⟨?_, fun c hc hblank => ?_⟩ hquote
    · refine List.isChain_append.2 ⟨hs.1, .singleton _, fun _ _ c hc _ => ?_⟩
      cases hc
      exact hquote
    · rcases List.mem_append.1 hc with hc | hc
      · exact hs.2 c hc hblank
      · cases List.mem_singleton.1 hc
        rw [hquote] at hblank
        cases hblank

section
variable (v : Value)

/-- A string with its quotes neither begins nor ends with white space, and it is single-spaced if
the text between them is. -/
theorem Value.quotedStrings_firm {t : List Char} (ht : t ∈ v.quotedStrings.map String.toList) :
    ∃ s ∈ v.strings, t = (quotedText s).toList ∧ FirmStart t ∧ FirmEnd t ∧
      (SingleSpaced t ↔ SingleSpaced s.1.toList) := by
  rw [Value.quotedStrings, List.map_map] at ht
  obtain ⟨s, hs, rfl⟩ := List.mem_map.1 ht
  exact ⟨s, hs, rfl, quotedText_firm (Value.isQuote_of_mem hs)⟩

/-- Trimming the text of a value leaves its strings as they are. -/
theorem Value.appear_trim : Appear v.quotedStrings (trimString v.text) := by
  have happear : AppearIn (v.quotedStrings.map String.toList) v.text.toList := v.appear_strings
  rw [Appear, trimString, String.toList_ofList]
  cases hts : v.quotedStrings.map String.toList with
  | nil => trivial
  | cons t ts =>
    have hfirm : ∀ u ∈ t :: ts, FirmStart u ∧ FirmEnd u := fun u hu => by
      obtain ⟨_, _, _, hstart, hend, _⟩ := v.quotedStrings_firm (hts ▸ hu)
      exact ⟨hstart, hend⟩
    rw [hts] at happear
    refine happear.trim ⟨t, rfl, (hfirm t (.head _)).1⟩ ?_
    exact ⟨_, List.getLast?_eq_some_getLast (List.cons_ne_nil _ _),
      (hfirm _ (List.getLast_mem _)).2⟩

/-- Collapsing the text of a value leaves its strings as they are exactly if they are single
spaced. -/
theorem Value.appear_collapse :
    Appear v.quotedStrings (collapseString v.text) ↔
      ∀ s ∈ v.strings, SingleSpaced s.1.toList := by
  have happear : AppearIn (v.quotedStrings.map String.toList) v.text.toList := v.appear_strings
  rw [Appear, collapseString, String.toList_ofList]
  constructor
  · intro h s hs
    have hmem : (quotedText s).toList ∈ v.quotedStrings.map String.toList :=
      List.mem_map_of_mem (List.mem_map_of_mem hs)
    have hspaced := (singleSpaced_collapse _).part (h.part hmem)
    exact (quotedText_firm (Value.isQuote_of_mem hs)).2.2.1 hspaced
  · intro h
    refine (happear.collapse fun t ht => ?_).1
    obtain ⟨s, hs, _, hstart, hend, hspaced⟩ := v.quotedStrings_firm ht
    exact ⟨hstart, hend, hspaced.2 (h s hs)⟩

end

/-! ## Strings in a stylesheet -/

/-- A property with the text of a value. Written pretty, it has the strings of the value as they
are, in order. Written minified, what it shows as its value has them as they are, in order, exactly
if white space is a single space everywhere in each of them. -/
theorem Value.strings_written (v : Value) (name : String) (important : Bool) (comments : Comments)
    (level : Nat) :
    let p : Css.Property := ⟨name, v.text, important, comments⟩
    Appear v.quotedStrings (p.pretty level) ∧
    ∃ shown, p.minified = trimString name ++ ":" ++ shown ++
        (if important then "!important" else "") ∧
      (Appear v.quotedStrings shown ↔ ∀ s ∈ v.strings, SingleSpaced s.1.toList) := by
  intro p
  refine ⟨?_, collapseString v.text, rfl, v.appear_collapse⟩
  have hvalue := v.appear_trim.append_left
    (Css.leadingText level comments ++ Css.indent level ++ trimString name ++ ": ")
  exact (((hvalue.append_right _).append_right _).append_right _).append_right _

/-- A string with two spaces in it has one when it is minified. -/
theorem string_collapses :
    let v : Value := .quoted "x  y" '"'
    let p : Css.Property := ⟨"content", v.text, false, {}⟩
    (compile ".a \x7b content: \"x  y\"; \x7d" { minify := true }).toOption.map (·.css) =
        some ".a\x7bcontent:\"x y\"\x7d" ∧
      p.minified = "content:\"x y\"" ∧ v.quotedStrings = ["\"x  y\""] ∧
      ¬ Appear v.quotedStrings p.minified := by
  intro v p
  refine ⟨by decide +kernel, by decide +kernel, by decide +kernel, fun h => ?_⟩
  have hspaced : SingleSpaced p.minified.toList := by
    have hcollapsed : p.minified.toList = collapse p.minified.toList := by decide +kernel
    exact hcollapsed ▸ singleSpaced_collapse _
  have hstring : "\"x  y\"".toList <:+: p.minified.toList := AppearIn.part h (.head _)
  have hspaces : [' ', ' '] <:+: "\"x  y\"".toList := ⟨['"', 'x'], ['y', '"'], rfl⟩
  have hblank : isBlank ' ' = false :=
    (List.isChain_cons_cons.1 ((hspaced.part hstring).part hspaces).1).1 rfl
  cases hblank

end LessSheet
