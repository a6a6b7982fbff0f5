import LessSheet.Compile
import LessSheet.Proofs.Grammar.StatementText
import LessSheet.Proofs.Text.Interpolation

/-! # Variables in placeholders

Two classes of characters decide what a variable's name is: that of identifiers where it is declared
or stands by itself, and that of placeholders where it stands in a string. A name whose characters
are of both classes means the same variable either way. With any other character in it there is no
placeholder, and the string keeps the text as it is (`Stylesheet.parse_placeholder`). Such
characters are numerals that are no decimal digits, as in `@a²`, and letters and numerals that only
the newer edition of the standard has.
-/

namespace LessSheet

open Grammar Text

/-! ## Names that no placeholder has -/

/-- A character of an identifier is one of a placeholder, or a numeral that is no decimal digit, or
a letter that edition 17 brings. -/
theorem Text.isHoleChar_or {c : Char} (h : isIdentChar c = true) : isHoleChar c = true ∨
    (isNumeral c = true ∧ isDecimalDigit c = false) ∨ isRecentLetter c = true := by
  simp only [isIdentChar, isLetter, Bool.or_eq_true, beq_iff_eq] at h
  rcases h with (((hsettled | hrecent) | hnumeral) | rfl) | rfl
  · exact .inl (by simp [isHoleChar, hsettled])
  · exact .inr (.inr hrecent)
  · cases hdigit : isDecimalDigit c with
    | true => exact .inl (by simp [isHoleChar, hdigit])
    | false => exact .inr (.inl ⟨hnumeral, rfl⟩)
  · exact .inl (by decide)
  · exact .inl (by decide)

section
variable {name : String} {view : View} {c : Char}

/-- A character that no identifier has is not in this one. -/
theorem Grammar.IsIdentifier.not_mem (hname : IsIdentifier name) (hc : isIdentChar c = false) :
    c ∉ name.toList := fun hmem => Bool.false_ne_true (hc.symm.trans (hname.chars c hmem))

/-- An identifier with a character that no placeholder has makes none: the only `@` is in front, and
what follows it up to the brace is not the name of one. -/
theorem Grammar.IsIdentifier.whole (hname : IsIdentifier name) (hc : c ∈ name.toList)
    (hhole : isHoleChar c = false) : Whole (placeholder name).toList := by
  refine whole_iff.2 fun before found after hfound heq => ?_
  rw [toList_placeholder] at heq
  cases before with
  | cons d before =>
    have hat : '@' ∈ '{' :: (name.toList ++ '}' :: []) := by
      rw [(List.cons.inj heq).2]
      simp
    simp [hname.not_mem (c := '@') rfl] at hat
  | nil =>
    have htext : name.toList ++ '}' :: [] = found ++ '}' :: after :=
      (List.cons.inj (List.cons.inj heq).2).2
    have hsame : name.toList = found := by
      have hcut : ∀ {s : List Char}, '}' ∉ s → ∀ r, (s ++ '}' :: r).takeWhile (· != '}') = s := by
        intro s hs r
        rw [List.takeWhile_append_of_pos fun d hd => by
          rw [bne_iff_ne]
          rintro rfl
          exact hs hd]
        simp
      rw [← hcut (hname.not_mem (c := '}') rfl) [], htext, hcut (hfound.not_mem rfl)]
    exact hfound.not_mem hhole (hsame ▸ hc)

/-! ## Both ways to a variable -/

/-- A placeholder by itself, as an expression. -/
def placeholderExpr (name : String) : Expr := .quoted (placeholder name) '"' true

/-- A keyword is the same in a placeholder, if there is one. -/
theorem eval_placeholderExpr {k : String} (hname : IsHoleName name.toList)
    (hk : view.lookup name = .ok (.keyword k)) :
    (placeholderExpr name).eval view = .ok (.keyword k) := by
  rw [placeholderExpr, Expr.eval, view.interpolate_placeholder hname, View.filling_eq, hk]
  rfl

/-- Without a placeholder the text stays, whatever the variables are. -/
theorem eval_placeholderExpr_of_whole (h : Whole (placeholder name).toList) :
    (placeholderExpr name).eval view = .ok (.keyword (placeholder name)) := by
  rw [placeholderExpr, Expr.eval, view.interpolate_of_whole h]
  rfl

/-- Both ways give the same keyword in every view exactly if every character of the name may be in a
placeholder: if one may not, they differ in the view in which the variable is empty. -/
theorem eval_placeholderExpr_iff (hname : IsIdentifier name) :
    (∀ (view : View) (k : String), view.lookup name = .ok (.keyword k) →
      (placeholderExpr name).eval view = (Expr.ref name).eval view) ↔
      ∀ c ∈ name.toList, isHoleChar c = true := by
  constructor
  · intro h c hc
    cases hhole : isHoleChar c with
    | true => rfl
    | false =>
      have hblank : (blankView [name]).lookup name = .ok (.keyword "") :=
        lookup_blankView (List.mem_singleton_self name)
      have hsame := h _ _ hblank
      rw [eval_placeholderExpr_of_whole (hname.whole hc hhole), Expr.eval, hblank] at hsame
      have hempty := congrArg String.toList (Value.keyword.inj (Except.ok.inj hsame))
      rw [toList_placeholder] at hempty
      cases hempty
  · intro h view k hk
    rw [eval_placeholderExpr ⟨hname.ne_nil, h⟩ hk, Expr.eval, hk]

end

/-! ## As they are written -/

namespace Grammar

section
variable (document : Nat) {name : String} {text : List Char}

/-- A variable by itself is a value. -/
theorem value_ref (hname : IsIdentifier name) (r : List Char) :
    value (unbounded document) true ('@' :: (name.toList ++ ';' :: r)) =
      .ok (.ref name, ';' :: r) := by
  have hbegins : Begins ('@' :: name.toList) := ⟨'@', _, rfl, rfl, by decide, rfl⟩
  have hread : ∀ r, EndsTerm r →
      signedTerm (unbounded document) ('@' :: name.toList ++ r) = .ok (.ref name, r) :=
    fun r hr => term_identifier (L := unbounded document) hname hr.name
  exact value_of_signedTerm hbegins hread ⟨';', r, rfl, rfl⟩ (by simp)

/-- An escaped string is a value. -/
theorem value_escapedString (hquote : '"' ∉ text) (hescape : '\\' ∉ text) (r : List Char) :
    value (unbounded document) true ('~' :: '"' :: (text ++ '"' :: ';' :: r)) =
      .ok (.quoted (String.ofList text) '"' true, ';' :: r) := by
  have hbegins : Begins ('~' :: '"' :: (text ++ ['"'])) := ⟨'~', _, rfl, rfl, by decide, rfl⟩
  have hread : ∀ r, EndsTerm r →
      signedTerm (unbounded document) ('~' :: '"' :: (text ++ ['"']) ++ r) =
        .ok (.quoted (String.ofList text) '"' true, r) := by
    intro r _
    show quotedString true ('"' :: (text ++ ['"'] ++ r)) = _
    rw [List.append_assoc, List.singleton_append, quotedString, stringBody_plain hquote hescape]
  simpa using value_of_signedTerm hbegins hread ⟨';', r, rfl, rfl⟩ (by simp)

end

end Grammar

/-- A variable and an escaped string with nothing but the placeholder of that variable, each as the
value of another one. Whatever the name is, both are read. Where the variable is a keyword, both
give that keyword exactly if every character of the name may be in a placeholder. If one may not,
the string keeps its text, whether the variable has a value or not, and that character is a numeral
that is no decimal digit or a letter that edition 17 brings. -/
theorem Stylesheet.parse_placeholder (document : Nat) {other name : String} (hother : IsName other)
    (himport : other.toList.map Char.toLower ≠ "import".toList) (hname : IsIdentifier name) :
    let plain : Expr := .ref name
    let filled : Expr := .quoted (placeholder name) '"' true
    Stylesheet.parse ("@" ++ other ++ ": @" ++ name ++ ";") document =
        .ok ⟨[], [.assign other plain]⟩ ∧
    Stylesheet.parse ("@" ++ other ++ ": ~\"" ++ placeholder name ++ "\";") document =
        .ok ⟨[], [.assign other filled]⟩ ∧
    ((∀ (view : View) (k : String), view.lookup name = .ok (.keyword k) →
        filled.eval view = plain.eval view) ↔ ∀ c ∈ name.toList, isHoleChar c = true) ∧
    ∀ c ∈ name.toList, isHoleChar c = false →
      (∀ view : View, filled.eval view = .ok (.keyword (placeholder name))) ∧
      ((isNumeral c = true ∧ isDecimalDigit c = false) ∨ isRecentLetter c = true) := by
  have hplain : "@" ++ other ++ ": @" ++ name ++ ";" =
      String.ofList ('@' :: (other.toList ++ ':' :: ' ' :: '@' :: (name.toList ++ [';']))) := by
    apply String.toList_inj.1
    simp
  have hfilled : "@" ++ other ++ ": ~\"" ++ placeholder name ++ "\";" = String.ofList
      ('@' :: (other.toList ++
        ':' :: ' ' :: '~' :: '"' :: ((placeholder name).toList ++ ['"', ';']))) := by
    apply String.toList_inj.1
    simp
  have hquote : '"' ∉ (placeholder name).toList := by
    simp [toList_placeholder, hname.not_mem (c := '"') rfl]
  have hescape : '\\' ∉ (placeholder name).toList := by
    simp [toList_placeholder, hname.not_mem (c := '\\') rfl]
  intro plain filled
  have hvalue : value (unbounded document) true
      ('~' :: '"' :: ((placeholder name).toList ++ ['"', ';'])) = .ok (filled, [';']) := by
    have hread := value_escapedString document hquote hescape []
    rwa [String.ofList_toList] at hread
  refine ⟨?_, ?_, eval_placeholderExpr_iff hname, fun c hc hhole => ⟨fun view => ?_, ?_⟩⟩
  · rw [hplain]
    exact parse_assign hother himport ⟨'@', _, rfl, rfl, by decide⟩ (by simp)
      (value_ref document hname [])
  · rw [hfilled]
    exact parse_assign hother himport ⟨'~', _, rfl, rfl, by decide⟩ (by simp) hvalue
  · exact eval_placeholderExpr_of_whole (hname.whole hc hhole)
  · exact (isHoleChar_or (hname.chars c hc)).resolve_left (by simp [hhole])

/-- A name with letters beyond ASCII, a digit and both signs. -/
theorem Stylesheet.parse_placeholder_letters :
    let view : View := ⟨Arena.empty.define Arena.root "größe-2_b" (.keyword "k"), Arena.root, none⟩
    let filled : Expr := .quoted "@\x7bgröße-2_b\x7d" '"' true
    Stylesheet.parse "@v: ~\"@\x7bgröße-2_b\x7d\";" = .ok ⟨[], [.assign "v" filled]⟩ ∧
      filled.eval view = .ok (.keyword "k") := by
  intro view filled
  have hname : IsIdentifier "größe-2_b" := by decide
  have hhole : IsHoleName "größe-2_b".toList := by decide
  have hlookup : view.lookup "größe-2_b" = .ok (.keyword "k") := by cbv
  obtain ⟨-, hparse, hsame, -⟩ := Stylesheet.parse_placeholder 0
    (show IsName "v" by decide) (by decide) hname
  exact ⟨hparse, (hsame.2 hhole.chars view "k" hlookup).trans hlookup⟩

/-- A variable with a superscript in its name: it can be declared and used, and in a string its
placeholder stays as it is. -/
theorem superscript_left_in_place :
    (compile "@a²: q;\n.x \x7b w: @a²; v: ~\"@\x7ba²\x7d\"; \x7d").toOption.map (·.css) =
      some ".x \x7b\n  w: q;\n  v: @\x7ba²\x7d;\n\x7d" := by decide +kernel

end LessSheet
