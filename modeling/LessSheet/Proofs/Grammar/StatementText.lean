import LessSheet.Proofs.Grammar.Arithmetic
import LessSheet.Proofs.Grammar.CallText
import LessSheet.Proofs.Grammar.Shape

/-! # Statements with a text of their own

Three kinds of statement are written with a text in them that may be nearly anything: a declaration
with a string, an at-rule with parameters, and an import with its target. Each is read back with
that text as it is, except where a scan that does not know what it looks at comes first. The
theorems say exactly where that is.

* What kind a statement is shows at its first brace or semicolon, in a string or not. If the first
  such sign in a string is an opening brace, the declaration around it is taken for a rule
  (`Stylesheet.parse_string`).
* A name after an `@` with a colon behind it is a variable. An at-rule whose parameters start with a
  colon is taken for an assignment (`Stylesheet.parse_atRule`).
* An import ends at its first semicolon, in its target or not (`Stylesheet.parse_import`).

A stylesheet starts with what was read first (`parse_starts`), so where the first statement is taken
for another one, the source is not read as it was meant, whatever comes of the rest.
-/

namespace LessSheet

namespace Grammar

open Text

/-! ## What comes first -/

section
variable {α : Type} {document : Nat} {body : Parse (Option α)} {s r : List Char}

/-- What has been found comes first in what is collected. -/
theorem collecting_yields (found : List α) :
    Yields (fun items => ∃ rest, items = found.reverse ++ rest) (loop (collecting body) found) := by
  refine Yields.loop (I := fun more => ∃ rest, more.reverse = found.reverse ++ rest) ?_
    ⟨[], (List.append_nil _).symm⟩
  rintro more ⟨rest, hmore⟩
  refine Yields.after fun x => ?_
  cases x with
  | some a => exact .pure ⟨rest ++ [a], by simp [hmore]⟩
  | none => exact .pure ⟨rest, hmore⟩

/-- What is collected starts with what the first round answers, unless that is nothing. -/
theorem collect_starts (hrep : Repetition (unbounded document) (collecting body))
    {items : List α} (h : collect body s = .ok (items, r)) :
    (∃ t, body s = .ok (none, t)) ∨ ∃ x t rest, body s = .ok (some x, t) ∧ items = x :: rest := by
  rw [collect_eq] at h
  cases hbody : body s with
  | error e =>
    have hround : collecting body [] s = .error e := by rw [collecting_apply, hbody]
    rw [hrep.loop_eq, bind_of_error hround] at h
    cases h
  | ok x =>
    obtain ⟨_ | x, t⟩ := x
    · exact .inl ⟨t, rfl⟩
    · rw [collect_next hrep hbody] at h
      obtain ⟨rest, rfl⟩ := collecting_yields [x] t items r h
      exact .inr ⟨x, t, rest, rfl, rfl⟩

end

section
variable {document : Nat} {sheet : Stylesheet} {s t : List Char}

/-- A stylesheet starts with the statement that its source starts with. -/
theorem parse_starts (hs : Firm s)
    (h : Stylesheet.parse (String.ofList s) document = .ok sheet) :
    ∃ x r rest, topStatement (unbounded document) [] s = .ok (x, r) ∧
      sheet = ⟨(x :: rest).filterMap Sum.getLeft?, (x :: rest).filterMap Sum.getRight?⟩ := by
  rw [parse_eq_unbounded, String.toList_ofList, stylesheet] at h
  cases hitems : collect (topItem (unbounded document)) s with
  | error e =>
    rw [bind_of_error hitems] at h
    cases h
  | ok x =>
    obtain ⟨items, u⟩ := x
    rw [bind_of_ok hitems] at h
    cases h
    have hfirst := topItem_of_firm (unbounded document) hs
    rcases collect_starts .stylesheet hitems with ⟨t, hnone⟩ | ⟨x, t, rest, hsome, rfl⟩
    · obtain ⟨y, -, hy⟩ := ok_of_map (hfirst.symm.trans hnone)
      cases hy
    · obtain ⟨y, hstatement, hy⟩ := ok_of_map (hfirst.symm.trans hsome)
      cases hy
      exact ⟨x, t, rest, hstatement, rfl⟩

/-- A stylesheet that does not begin with an import has for its first statement what an item reads
at the start. -/
theorem parse_starts_item (hs : Firm s) (himport : importHead? s = none)
    (h : Stylesheet.parse (String.ofList s) document = .ok sheet) :
    ∃ x r, item (unbounded document) [] s = .ok (x, r) ∧ sheet.body.head? = some x := by
  obtain ⟨x, r, rest, hstatement, rfl⟩ := parse_starts hs h
  rw [topStatement, himport] at hstatement
  obtain ⟨y, hitem, rfl⟩ := ok_of_map hstatement
  exact ⟨y, r, hitem, rfl⟩

/-- A stylesheet that begins with an import has that for its first import. -/
theorem parse_starts_import (hs : Firm s) (himport : importHead? s = some t)
    (h : Stylesheet.parse (String.ofList s) document = .ok sheet) :
    ∃ raw r, importStatement t = .ok (raw, r) ∧ sheet.imports.head? = some raw := by
  obtain ⟨x, r, rest, hstatement, rfl⟩ := parse_starts hs h
  rw [topStatement, himport] at hstatement
  obtain ⟨raw, hraw, rfl⟩ := ok_of_map hstatement
  exact ⟨raw, r, hraw, rfl⟩

/-- What is read as a rule is one. -/
theorem rule_yields (L : Level) : Yields (fun x => ∃ r, x = .rule r) (rule L) := by
  intro s
  rw [rule_eq, ruleFrom]
  split
  · exact Yields.after (fun _ => Yields.after fun _ => Yields.after fun _ => .pure ⟨_, rfl⟩) _
  · exact Yields.after (fun _ => Yields.after fun _ => .pure ⟨_, rfl⟩) _

/-- What is read as an assignment is one. -/
theorem assignment_yields (L : Level) (name : String) :
    Yields (fun x => ∃ v, x = .assign name v) (assignment L name) :=
  Yields.after fun _ => Yields.after fun v => Yields.after fun _ => .pure ⟨v, rfl⟩

end

end Grammar

open Grammar

/-! ## Strings in declarations -/

/-- A declaration with a string for its value, as it is written. -/
def stringText (property : String) (text : List Char) : List Char :=
  property.toList ++ ':' :: ' ' :: '"' :: (text ++ ['"', ';'])

/-- The declaration that it stands for. -/
def stringDeclaration (property text : String) : Declaration :=
  ⟨property, .quoted text '"' false, false, {}⟩

/-- Whether the first brace or semicolon of a text is an opening brace. -/
def BraceFirst (text : List Char) : Prop :=
  text.find? (fun c => c = '{' || c = '}' || c = ';') = some '{'

instance (text : List Char) : Decidable (BraceFirst text) :=
  inferInstanceAs (Decidable (_ = _))

namespace Grammar

open Text

/-- A statement that starts with a letter is a declaration or a rule. -/
theorem item_of_isAlpha {c : Char} (hc : c.isAlpha = true) (L : Level) (leading : List String)
    (s : List Char) :
    item L leading (c :: s) =
      match statementKindFrom false .plain (c :: s) with
      | some .declaration => declaration L leading (c :: s)
      | some .rule => rule L (c :: s)
      | none => .error ⟨.unknownStatement, c :: s⟩ := by
  have hname := atName?_of_isAlpha hc s
  have hsegment : segment? (c :: s) = none := by
    simp [segment?, ne_of_isAlpha hc (d := '.') rfl, ne_of_isAlpha hc (d := '#') rfl]
  simp only [item, assignHead?, importHead?, detachedHead?, atRuleHead?, hname, plainItem,
    mixinHead?, callHead?, path?, hsegment]
  rfl

/-- Where a letter comes first, a round over statements is the reading of an item. -/
theorem statementRound_of_isAlpha {c : Char} (hc : c.isAlpha = true) (L : Level) (s : List Char) :
    statementRound L (c :: s) = (some <$> item L []) (c :: s) := by
  have hfirm : Firm (c :: s) := ⟨c, s, rfl, isBlank_of_isAlpha hc, ne_of_isAlpha hc rfl⟩
  rw [statementRound, bind_of_ok (leadingComments_of_firm hfirm), get_bind]
  refine congrFun ?_ (c :: s)
  split
  · next heq => cases heq
  · next heq => exact absurd (List.cons.inj heq).1 (ne_of_isAlpha hc rfl)
  · rfl

/-- No character of a name is a control character. -/
theorem isControl_of_isNameChar {c : Char} (h : isNameChar c = true) : isControl c = false := by
  simp only [isNameChar, Char.isAlphanum, Bool.or_eq_true, beq_iff_eq] at h
  simp only [isControl, Bool.or_eq_false_iff, Bool.and_eq_false_iff, decide_eq_false_iff_not]
  rcases h with ((h | h) | rfl) | rfl
  · have := toNat_of_isAlpha h
    omega
  · have := toNat_of_isDigit h
    omega
  · decide
  · decide

/-- The name of a property ends at its colon. -/
theorem propertyNameFrom_name {name : List Char} (hname : ∀ c ∈ name, isNameChar c = true)
    (s : List Char) : propertyNameFrom .plain (name ++ ':' :: s) = (name, ':' :: s) := by
  induction name with
  | nil => rfl
  | cons c name ih =>
    have hc := hname c (.head _)
    have hne : ∀ d, isNameChar d = false → c ≠ d := by
      rintro d hd rfl
      exact Bool.false_ne_true (hd.symm.trans hc)
    rw [List.cons_append, propertyNameFrom]
    · simp [hne ':' rfl, hne ';' rfl, hne '{' rfl, hne '@' rfl, isControl_of_isNameChar hc,
        isBlank_of_isNameChar hc, ih fun d hd => hname d (.tail _ hd)]
    · simp

section
variable {document : Nat} {property : String} {text s r : List Char} {e : Expr}

/-- A property with a value, up to the end of the block around it. -/
theorem declaration_value (hproperty : IsName property) (hs : Firm s)
    (h : value (unbounded document) true s = .ok (e, ';' :: ' ' :: '}' :: r)) :
    declaration (unbounded document) [] (property.toList ++ ':' :: ' ' :: s) =
      .ok (.declaration ⟨property, e, false, {}⟩, ' ' :: '}' :: r) := by
  have hname := propertyNameFrom_name hproperty.ascii (' ' :: s)
  have hskip : skipTrivia (' ' :: s) = s := (skipTrivia_space s).trans (skipTrivia_of_firm hs)
  have htrim : trim property.toList = property.toList :=
    trim_of_forall fun c hc => isBlank_of_isNameChar (hproperty.ascii c hc)
  rw [declaration, get_bind, hname]
  simp only [set_bind, trivia_bind, skipTrivia_cons (c := ':') rfl (by decide), expect_bind, hskip,
    htrim, String.ofList_toList]
  rw [bind_of_ok h]
  rfl

/-- A string without quotes and escapes ends at the first quote. -/
theorem stringBody_plain (hquote : '"' ∉ text) (hescape : '\\' ∉ text) (r : List Char) :
    stringBody '"' (text ++ '"' :: r) = some (text, r) := by
  induction text with
  | nil => rfl
  | cons c text ih =>
    have hc : c ≠ '\\' := fun heq => hescape (heq ▸ .head _)
    have hne : c ≠ '"' := fun heq => hquote (heq ▸ .head _)
    have hrest := ih (fun hmem => hquote (.tail _ hmem)) fun hmem => hescape (.tail _ hmem)
    rw [List.cons_append, stringBody]
    · simp [hne, hrest]
    · exact fun heq => absurd heq hc
    · exact fun _ _ heq => absurd heq hc

/-- A string is a term, whatever is in it. -/
theorem signedTerm_string (L : Level) (hquote : '"' ∉ text) (hescape : '\\' ∉ text)
    (r : List Char) : signedTerm L ('"' :: (text ++ '"' :: r)) =
      .ok (.quoted (String.ofList text) '"' false, r) := by
  show quotedString false ('"' :: (text ++ '"' :: r)) = _
  rw [quotedString, stringBody_plain hquote hescape]

/-- A string is a value. -/
theorem value_string (document : Nat) (hquote : '"' ∉ text) (hescape : '\\' ∉ text)
    (r : List Char) :
    value (unbounded document) true ('"' :: (text ++ '"' :: ';' :: r)) =
      .ok (.quoted (String.ofList text) '"' false, ';' :: r) := by
  have hbegins : Begins ('"' :: (text ++ ['"'])) := ⟨'"', _, rfl, rfl, by simp, rfl⟩
  have hread : ∀ r, EndsTerm r →
      signedTerm (unbounded document) ('"' :: (text ++ ['"']) ++ r) =
        .ok (.quoted (String.ofList text) '"' false, r) := by
    intro r _
    simpa using signedTerm_string (unbounded document) hquote hescape r
  simpa using value_of_signedTerm hbegins hread ⟨';', r, rfl, rfl⟩ (by simp)

/-- An opening brace comes first, or something that is neither brace nor semicolon and then the same
again. -/
theorem braceFirst_cons (c : Char) (text : List Char) :
    BraceFirst (c :: text) ↔ c = '{' ∨ (c ≠ '}' ∧ c ≠ ';' ∧ BraceFirst text) := by
  by_cases hopen : c = '{'
  · simp [BraceFirst, hopen]
  · by_cases hclose : c = '}'
    · simp [BraceFirst, hclose]
    · by_cases hend : c = ';'
      · simp [BraceFirst, hend]
      · simp [BraceFirst, hopen, hclose, hend]

/-- Behind a colon, a text decides by its first brace or semicolon, and so does a string: the scan
goes through it. -/
theorem statementKindFrom_text (hat : '@' ∉ text) (s : List Char) :
    statementKindFrom true .plain (text ++ '"' :: ';' :: s) =
      some (if BraceFirst text then .rule else .declaration) := by
  induction text with
  | nil => rfl
  | cons c text ih =>
    have hc : c ≠ '@' := fun heq => hat (heq ▸ .head _)
    have hrest := ih fun hmem => hat (.tail _ hmem)
    rw [List.cons_append, statementKindFrom]
    · by_cases hopen : c = '{'
      · simp [hopen, braceFirst_cons]
      · by_cases hend : c = ';'
        · simp [hend, braceFirst_cons]
        · by_cases hclose : c = '}'
          · simp [hclose, braceFirst_cons]
          · simp [hc, hopen, hend, hclose, braceFirst_cons, hrest]
    · simp

/-- To whoever looks ahead, a declaration with a string is a rule if an opening brace comes first in
the string. -/
theorem statementKind_stringText (hproperty : IsName property) (hat : '@' ∉ text)
    (s : List Char) :
    statementKindFrom false .plain (stringText property text ++ s) =
      some (if BraceFirst text then .rule else .declaration) := by
  have hsigns : ∀ d ∈ ['@', '{', ';', '}', ':'], isNameChar d = false :=
    List.all_iff_forall_prop.1 (by decide)
  have hname : ∀ d ∈ ['@', '{', ';', '}', ':'], d ∉ property.toList := fun d hd hmem =>
    Bool.false_ne_true ((hsigns d hd).symm.trans (hproperty.ascii d hmem))
  have htext : stringText property text ++ s =
      property.toList ++ ':' :: ' ' :: '"' :: (text ++ '"' :: ';' :: s) := by simp [stringText]
  rw [htext, statementKindFrom_plain hname]
  exact statementKindFrom_text hat s

/-- A declaration with a string is read as that, or it is taken for a rule. -/
theorem item_stringText (document : Nat) (hproperty : IsKeyword property)
    (htext : ∀ c ∈ ['"', '\\', '@'], c ∉ text) (r : List Char) :
    item (unbounded document) [] (stringText property text ++ ' ' :: '}' :: r) =
      if BraceFirst text then
        rule (unbounded document) (stringText property text ++ ' ' :: '}' :: r)
      else
        .ok (.declaration (stringDeclaration property (String.ofList text)), ' ' :: '}' :: r) := by
  have hkind := statementKind_stringText hproperty.toIsName (htext '@' (by simp)) (' ' :: '}' :: r)
  have hvalue := value_string document (htext '"' (by simp)) (htext '\\' (by simp))
    (' ' :: '}' :: r)
  have hdeclaration := declaration_value hproperty.toIsName ⟨'"', _, rfl, rfl, by simp⟩ hvalue
  obtain ⟨c, u, hlist, hc⟩ := hproperty.cons
  have hstart : stringText property text ++ ' ' :: '}' :: r =
      c :: (u ++ ':' :: ' ' :: '"' :: (text ++ '"' :: ';' :: ' ' :: '}' :: r)) := by
    simp [stringText, hlist]
  rw [hlist] at hdeclaration
  rw [hstart] at hkind ⊢
  rw [item_of_isAlpha hc, hkind]
  by_cases hfirst : BraceFirst text
  · rw [if_pos hfirst, if_pos hfirst]
  · rw [if_neg hfirst, if_neg hfirst]
    exact hdeclaration

/-- A declaration with a string is read as an item, behind a space. -/
theorem statementRound_stringText (document : Nat) (hproperty : IsKeyword property)
    (text s : List Char) :
    statementRound (unbounded document) (' ' :: (stringText property text ++ s)) =
      (some <$> item (unbounded document) []) (stringText property text ++ s) := by
  obtain ⟨c, u, hlist, hc⟩ := hproperty.cons
  rw [statementRound_space, stringText, hlist]
  exact statementRound_of_isAlpha hc _ _

/-- A block of one declaration with a string. -/
theorem block_stringText (document : Nat) (hproperty : IsKeyword property)
    (htext : ∀ c ∈ ['"', '\\', '@'], c ∉ text) (hfirst : ¬ BraceFirst text) (r : List Char) :
    block (unbounded document) (' ' :: (stringText property text ++ ' ' :: '}' :: r)) =
      .ok ([.declaration (stringDeclaration property (String.ofList text))], r) := by
  have hitem := item_stringText document hproperty htext r
  rw [if_neg hfirst] at hitem
  have hround := (statementRound_stringText document hproperty text _).trans (map_of_ok some hitem)
  have hlast := (statementRound_space (unbounded document) _).trans (statementRound_close _ r)
  rw [block_eq, collect_eq, collect_next .block hround, collect_end .block hlast]
  rfl

/-- Where the declaration is taken for a rule, the block starts with one. -/
theorem block_stringText_starts (hproperty : IsKeyword property)
    (htext : ∀ c ∈ ['"', '\\', '@'], c ∉ text) (hfirst : BraceFirst text) {items : List Item}
    (h : block (unbounded document) (' ' :: (stringText property text ++ ' ' :: '}' :: r)) =
      .ok (items, s)) : ∃ x, items.head? = some (.rule x) := by
  have hitem := item_stringText document hproperty htext r
  rw [if_pos hfirst] at hitem
  have hround := statementRound_stringText document hproperty text (' ' :: '}' :: r)
  rcases collect_starts .block h with ⟨t, hnone⟩ | ⟨x, t, rest, hsome, rfl⟩
  · obtain ⟨y, -, hy⟩ := ok_of_map (hround.symm.trans hnone)
    cases hy
  · obtain ⟨y, hy, hxy⟩ := ok_of_map (hround.symm.trans hsome)
    cases hxy
    obtain ⟨z, rfl⟩ := rule_yields _ _ _ _ (hitem.symm.trans hy)
    exact ⟨z, rfl⟩

end

end Grammar

/-- A declaration with a string, as the one statement of a rule. -/
def stringRule (selector property text : String) : String :=
  selector ++ " \x7b " ++ property ++ ": \"" ++ text ++ "\"; \x7d"

/-- A string without quotes, escapes and placeholders, in a declaration, is read as it is exactly if
its first brace or semicolon is not an opening brace. -/
theorem Stylesheet.parse_string (document : Nat) {selector property text : String}
    (hselector : IsSegment selector) (hproperty : IsKeyword property)
    (htext : ∀ c ∈ ['"', '\\', '@'], c ∉ text.toList) :
    Stylesheet.parse (stringRule selector property text) document =
        .ok ⟨[], [.rule ⟨[selector], none,
          [.declaration ⟨property, .quoted text '"' false, false, {}⟩]⟩]⟩ ↔
      ¬ BraceFirst text.toList := by
  have hsource : stringRule selector property text = String.ofList (selector.toList ++
      ' ' :: '{' :: ' ' :: (stringText property text.toList ++ ' ' :: '}' :: [])) := by
    apply String.toList_inj.1
    simp [stringRule, stringText]
  rw [hsource]
  constructor
  · intro h hfirst
    obtain ⟨x, r, hitem, hx⟩ := parse_starts_item hselector.firm hselector.importHead? h
    rw [item_selector hselector] at hitem
    obtain ⟨items, hblock, rfl⟩ := ok_of_map hitem
    obtain ⟨y, hy⟩ := block_stringText_starts hproperty htext hfirst hblock
    cases hx
    cases hy
  · intro hfirst
    have hblock := block_stringText document hproperty htext hfirst []
    rw [String.ofList_toList] at hblock
    exact parse_single hselector.firm hselector.importHead? (item_rule hselector hblock) rfl

/-- Signs of comments, calls and blocks, with a closing brace before the opening one. -/
theorem Stylesheet.parse_string_signs :
    Stylesheet.parse ".a \x7b content: \"/* x: .m() // \x7d \x7b; é\"; \x7d" =
      .ok ⟨[], [.rule ⟨[".a"], none, [.declaration
        ⟨"content", .quoted "/* x: .m() // \x7d \x7b; é" '"' false, false, {}⟩]⟩]⟩ := by
  let text := "/* x: .m() // \x7d \x7b; é"
  have hselector : IsSegment ".a" := by decide
  have hproperty : IsKeyword "content" := by decide
  have htext : ∀ c ∈ ['"', '\\', '@'], c ∉ text.toList := by simp [text]
  have hfirst : ¬ BraceFirst text.toList := by decide
  have hsource : ".a \x7b content: \"/* x: .m() // \x7d \x7b; é\"; \x7d" =
      stringRule ".a" "content" text := by decide
  rw [hsource]
  exact (Stylesheet.parse_string 0 hselector hproperty htext).2 hfirst

/-- A string that is one opening brace: the declaration is taken for a rule with the selector
`content: "`, and nothing is read. -/
theorem string_taken_for_rule :
    let source := ".a \x7b content: \"\x7b\"; \x7d"
    (match Stylesheet.parse source with
      | .ok _ => none
      | .error e => some (e.cause, e.position)) = some (.expected ':' (some ';'), 18) ∧
    Stylesheet.parse source ≠ .ok ⟨[], [.rule ⟨[".a"], none,
      [.declaration ⟨"content", .quoted "\x7b" '"' false, false, {}⟩]⟩]⟩ := by
  intro source
  have hfails : (match Stylesheet.parse source with
      | .ok _ => none
      | .error e => some (e.cause, e.position)) = some (.expected ':' (some ';'), 18) := by
    decide +kernel
  refine ⟨hfails, fun h => ?_⟩
  rw [h] at hfails
  cases hfails

/-! ## Parameters of at-rules -/

namespace Grammar

open Text

section
variable {document : Nat} {name : String} {params text s : List Char}

/-- Without a slash there are no comments to pass over. -/
theorem skipTrivia_of_not_mem (h : '/' ∉ s) : skipTrivia s = skipBlank s := by
  induction s with
  | nil => rfl
  | cons c s ih =>
    have hc : c ≠ '/' := fun heq => h (heq ▸ .head _)
    have hrest := ih fun hmem => h (.tail _ hmem)
    cases hblank : isBlank c with
    | true =>
      rw [skipTrivia, scanTrivia_blank hblank, skipBlank, List.dropWhile_cons_of_pos hblank]
      exact hrest
    | false =>
      rw [skipTrivia_cons hblank hc, skipBlank, List.dropWhile_cons_of_neg (by simp [hblank])]

/-- A text without braces and parentheses is all that stands before the brace behind it. -/
theorem uptoBrace_plain (h : ∀ c ∈ ['{', '('], c ∉ text) (s : List Char) :
    uptoBrace 0 (text ++ '{' :: s) = (text, '{' :: s) := by
  induction text with
  | nil => rfl
  | cons c text ih =>
    obtain ⟨hne, htext⟩ := not_mem_of_cons h
    simp [uptoBrace, hne '{' (by simp), hne '(' (by simp), ih htext]

/-- A text without semicolons, braces and parentheses reaches the brace behind it. -/
theorem reachesBrace_plain (h : ∀ c ∈ ['{', '(', ';'], c ∉ text) (s : List Char) :
    reachesBrace 0 (text ++ '{' :: s) = true := by
  induction text with
  | nil => rfl
  | cons c text ih =>
    obtain ⟨hne, htext⟩ := not_mem_of_cons h
    simp [reachesBrace, hne '{' (by simp), hne '(' (by simp), hne ';' (by simp), ih htext]

/-- The white space before the parameters of an at-rule is passed over, and no more than that. -/
theorem skipBlank_params (params s : List Char) :
    skipBlank (' ' :: (params ++ ' ' :: '{' :: s)) = skipBlank (params ++ [' ']) ++ '{' :: s := by
  have hspace : isBlank ' ' = true := rfl
  have hbrace : isBlank '{' = false := rfl
  simp only [skipBlank, List.dropWhile_cons_of_pos hspace, List.dropWhile_append]
  split
  · simp [hbrace]
  · simp

/-- A colon comes first in front of the space if it comes first in the parameters. -/
theorem head?_skipBlank_params (params s : List Char) :
    (skipBlank (params ++ [' ']) ++ '{' :: s).head? = some ':' ↔
      (skipBlank params).head? = some ':' := by
  have hspace : isBlank ' ' = true := rfl
  rw [skipBlank, List.dropWhile_append]
  split
  · next hempty => simp [skipBlank, List.isEmpty_iff.1 hempty, hspace]
  · next hempty =>
    rw [List.isEmpty_iff] at hempty
    simp [skipBlank, List.head?_append_of_ne_nil _ hempty]

/-- A name with a space, parameters and an empty block behind it. -/
def atRuleText (name : String) (params : List Char) : List Char :=
  '@' :: (name.toList ++ ' ' :: (params ++ ' ' :: '{' :: ' ' :: '}' :: []))

/-- An at-rule has its name up to the first space. -/
theorem atName?_atRuleText (hname : IsName name) (params : List Char) :
    atName? (atRuleText name params) =
      some (name.toList, ' ' :: (params ++ ' ' :: '{' :: ' ' :: '}' :: [])) :=
  atName?_name hname (endsName_space _)

/-- Parameters that start with a colon make an assignment of the at-rule. -/
theorem item_colon (hname : IsName name) (hcolon : (skipBlank params).head? = some ':')
    (L : Level) (leading : List String) :
    ∃ r, item L leading (atRuleText name params) = assignment L name r := by
  have hhead := (head?_skipBlank_params params [' ', '}']).2 hcolon
  obtain ⟨r, hr⟩ := List.head?_eq_some_iff.1 hhead
  have hassign : assignHead? (atRuleText name params) = some (name, r) := by
    simp only [assignHead?, atName?_atRuleText hname params, skipBlank_params, hr,
      String.ofList_toList]
  refine ⟨r, ?_⟩
  rw [item, hassign]

/-- Parameters that start with no colon are what stands between the name and the block. -/
theorem item_atRuleText (hname : IsName name)
    (himport : name.toList.map Char.toLower ≠ "import".toList)
    (hparams : ∀ c ∈ ['{', '(', ';', '/'], c ∉ params)
    (hcolon : (skipBlank params).head? ≠ some ':') :
    item (unbounded document) [] (atRuleText name params) =
      .ok (.atRule name (String.ofList (trim params)) [], []) := by
  -- `text` is what is left of the parameters, and of the space behind them, in front of the block
  obtain ⟨text, htext⟩ : ∃ text, skipBlank (params ++ [' ']) = text := ⟨_, rfl⟩
  have hmem : ∀ c ∈ ['{', '(', ';', '/'], c ∉ text := by
    intro c hc hin
    have hne : c ≠ ' ' := by
      rintro rfl
      simp at hc
    rw [← htext] at hin
    have hwhole : c ∈ params ++ [' '] := (List.dropWhile_suffix isBlank).subset hin
    rcases List.mem_append.1 hwhole with hp | hp
    · exact hparams c hc hp
    · exact hne (List.mem_singleton.1 hp)
  have hblank : skipBlank (' ' :: (params ++ ' ' :: '{' :: ' ' :: '}' :: [])) =
      text ++ '{' :: ' ' :: '}' :: [] := by rw [skipBlank_params, htext]
  have hslash : '/' ∉ ' ' :: (params ++ ' ' :: '{' :: ' ' :: '}' :: []) := by
    simpa using hparams '/' (by simp)
  have htrivia : skipTrivia (' ' :: (params ++ ' ' :: '{' :: ' ' :: '}' :: [])) =
      text ++ '{' :: ' ' :: '}' :: [] := (skipTrivia_of_not_mem hslash).trans hblank
  have hatName := atName?_atRuleText hname params
  have hassign : assignHead? (atRuleText name params) = none := by
    simp only [assignHead?, hatName, hblank]
    split
    · next heq =>
      have hhead := head?_skipBlank_params params [' ', '}']
      rw [htext, heq] at hhead
      exact absurd (hhead.1 rfl) hcolon
    · rfl
  have himported : importHead? (atRuleText name params) = none := by
    simp only [importHead?, hatName, if_neg himport]
  have hdetached : detachedHead? (atRuleText name params) = none := by
    have hparen : balanced? (text ++ '{' :: ' ' :: '}' :: []) = none := by
      unfold balanced?
      split
      · next heq =>
        have hin : '(' ∈ text ++ '{' :: ' ' :: '}' :: [] := heq ▸ List.mem_cons_self
        simp [hmem '(' (by simp)] at hin
      · rfl
    simp only [detachedHead?, hatName, htrivia, hparen]
  have hrule : atRuleHead? (atRuleText name params) =
      some (name, ' ' :: (params ++ ' ' :: '{' :: ' ' :: '}' :: [])) := by
    have hreaches : reachesBrace 0 (text ++ '{' :: ' ' :: '}' :: []) = true :=
      reachesBrace_plain (fun c hc => hmem c (List.mem_append_left ['/'] hc)) _
    simp only [atRuleHead?, hatName, htrivia, hreaches, if_true, String.ofList_toList]
  have hbody : bracedBlock (unbounded document) ('{' :: ' ' :: '}' :: []) = .ok ([], []) := by
    rw [bracedBlock, expect_bind, (unbounded_closed document).block, block_eq]
    exact collect_end .block ((statementRound_space _ _).trans (statementRound_close _ []))
  have htrim : trim text = trim params := by
    rw [← htext, skipBlank, trim_dropWhile, trim_append_blank rfl]
  simp only [item, hassign, himported, hdetached, hrule, Option.isSome_none, Bool.false_eq_true,
    if_false]
  rw [atRule, trivia_bind, htrivia, get_bind,
    uptoBrace_plain fun c hc => hmem c (List.mem_append_left [';', '/'] hc)]
  simp only [set_bind, htrim]
  exact map_of_ok _ hbody

end

end Grammar

/-- An at-rule with an empty block is read with its parameters, trimmed, exactly if these do not
start with a colon. -/
theorem Stylesheet.parse_atRule (document : Nat) {name params : String} (hname : IsName name)
    (himport : name.toList.map Char.toLower ≠ "import".toList)
    (hparams : ∀ c ∈ ['{', '(', ';', '/'], c ∉ params.toList) :
    Stylesheet.parse ("@" ++ name ++ " " ++ params ++ " \x7b \x7d") document =
        .ok ⟨[], [.atRule name (Text.trimString params) []]⟩ ↔
      (skipBlank params.toList).head? ≠ some ':' := by
  have hsource : "@" ++ name ++ " " ++ params ++ " \x7b \x7d" =
      String.ofList (atRuleText name params.toList) := by
    apply String.toList_inj.1
    simp [atRuleText]
  have hfirm : Firm (atRuleText name params.toList) := ⟨'@', _, rfl, rfl, by simp⟩
  have hnone : importHead? (atRuleText name params.toList) = none :=
    importHead?_name hname (endsName_space _) himport
  rw [hsource]
  constructor
  · intro h hcolon
    obtain ⟨x, r, hitem, hx⟩ := parse_starts_item hfirm hnone h
    obtain ⟨t, hassign⟩ := item_colon hname hcolon (unbounded document) []
    obtain ⟨v, rfl⟩ := assignment_yields _ name t x r (hassign.symm.trans hitem)
    cases hx
  · intro hcolon
    exact parse_single hfirm hnone (item_atRuleText hname himport hparams hcolon) rfl

/-- A colon further on does no harm, and neither do quotes, brackets and braces that close. -/
theorem Stylesheet.parse_atRule_inner :
    Stylesheet.parse "@page  a:first, \"b\" ) \x7d \t \x7b \x7d" =
      .ok ⟨[], [.atRule "page" "a:first, \"b\" ) \x7d" []]⟩ := by
  let params := " a:first, \"b\" ) \x7d \t"
  have hname : IsName "page" := by decide
  have himport : "page".toList.map Char.toLower ≠ "import".toList := by decide
  have hparams : ∀ c ∈ ['{', '(', ';', '/'], c ∉ params.toList := by simp [params]
  have hcolon : (skipBlank params.toList).head? ≠ some ':' := by decide
  have hsource : "@page  a:first, \"b\" ) \x7d \t \x7b \x7d" =
      "@" ++ "page" ++ " " ++ params ++ " \x7b \x7d" := by decide
  have htrim : Text.trimString params = "a:first, \"b\" ) \x7d" := by decide
  rw [hsource, ← htrim]
  exact (Stylesheet.parse_atRule 0 hname himport hparams).2 hcolon

/-- The first page of a document is taken for a variable, with the block as part of its value. -/
theorem page_taken_for_variable :
    let source := "@page :first \x7b \x7d"
    ((Stylesheet.parse source).toOption.bind fun sheet =>
      match sheet.body with
      | [.assign name (.list .space [.keyword word, .ruleset _ []])] => some (name, word)
      | _ => none) = some ("page", "first") ∧
    Stylesheet.parse source ≠ .ok ⟨[], [.atRule "page" ":first" []]⟩ := by
  intro source
  have hassign : ((Stylesheet.parse source).toOption.bind fun sheet =>
      match sheet.body with
      | [.assign name (.list .space [.keyword word, .ruleset _ []])] => some (name, word)
      | _ => none) = some ("page", "first") := by
    decide +kernel
  refine ⟨hassign, fun h => ?_⟩
  rw [h] at hassign
  cases hassign

/-! ## Targets of imports -/

namespace Grammar

open Text

/-- An import without semicolons in its target ends at the semicolon, and the target is kept as it
is, but for white space at its ends. -/
theorem importStatement_plain {target : List Char} (h : ';' ∉ target) (r : List Char) :
    importStatement (target ++ ';' :: r) =
      .ok ("@import " ++ String.ofList (trim target) ++ ";", r) := by
  have hall : ∀ c ∈ target, (c != ';') = true := fun c hc => by
    simpa using fun heq : c = ';' => h (heq ▸ hc)
  rw [importStatement, List.takeWhile_append_of_pos hall, List.dropWhile_append_of_pos hall]
  simp

/-- An import has no semicolon but its last. -/
theorem importStatement_yields :
    Yields (fun raw => ∃ target : String, ';' ∉ target.toList ∧ raw = "@import " ++ target ++ ";")
      importStatement := by
  intro s
  unfold importStatement
  split
  · refine .ok ⟨_, fun hmem => ?_, rfl⟩ _
    rw [String.toList_ofList] at hmem
    simpa using List.mem_takeWhile_imp (mem_of_mem_trim hmem)
  · exact .error _

/-- The head of an import, before a space. -/
theorem importHead?_import (s : List Char) :
    importHead? ('@' :: ("import".toList ++ ' ' :: s)) = some (' ' :: s) := by
  have hname : atName? ('@' :: ("import".toList ++ ' ' :: s)) = some ("import".toList, ' ' :: s) :=
    atName?_name (by decide) (endsName_space s)
  simp only [importHead?, hname]
  rfl

/-- An import is passed through exactly if there is no semicolon in its target. -/
theorem parse_target (document : Nat) {target : String} (hstart : FirmStart target.toList)
    (hend : FirmEnd target.toList) :
    Stylesheet.parse ("@import " ++ target ++ ";") document =
        .ok ⟨["@import " ++ target ++ ";"], []⟩ ↔ ';' ∉ target.toList := by
  have hsource : "@import " ++ target ++ ";" =
      String.ofList ('@' :: ("import".toList ++ ' ' :: (target.toList ++ [';']))) := by
    apply String.toList_inj.1
    simp
  have hfirm : Firm ('@' :: ("import".toList ++ ' ' :: (target.toList ++ [';']))) :=
    ⟨'@', _, rfl, rfl, by simp⟩
  have himport := importHead?_import (target.toList ++ [';'])
  constructor
  · intro h hmem
    rw [hsource] at h
    obtain ⟨raw, r, hraw, hhead⟩ := parse_starts_import hfirm himport h
    obtain ⟨plain, hplain, rfl⟩ := importStatement_yields _ raw r hraw
    have heq : "@import " ++ target ++ ";" = "@import " ++ plain ++ ";" := by
      rw [hsource]
      exact Option.some.inj hhead
    obtain rfl : target = plain := by
      have hlist := congrArg String.toList heq
      exact String.toList_inj.1 (by simpa using hlist)
    exact hplain hmem
  · intro hmem
    have htrim : trim (' ' :: target.toList) = target.toList := by
      rw [← trim_dropWhile, List.dropWhile_cons_of_pos rfl, trim_dropWhile,
        trim_of_firm hstart hend]
    have hspace : ';' ∉ ' ' :: target.toList := by simpa using hmem
    have hread := importStatement_plain hspace []
    rw [htrim, String.ofList_toList] at hread
    have hstatement : topStatement (unbounded document) []
        ('@' :: ("import".toList ++ ' ' :: (target.toList ++ [';']))) =
          .ok (.inl ("@import " ++ target ++ ";"), []) := by
      rw [topStatement, himport]
      exact map_of_ok _ hread
    have hparse := parse_statement hfirm hstatement rfl
    rwa [← hsource] at hparse

end Grammar

/-- An import of a string, or of a string in `url`, is passed through as it is written exactly if
there is no semicolon in the string. -/
theorem Stylesheet.parse_import (document : Nat) (url : String) :
    (Stylesheet.parse ("@import url(\"" ++ url ++ "\");") document =
        .ok ⟨["@import url(\"" ++ url ++ "\");"], []⟩ ↔ ';' ∉ url.toList) ∧
    (Stylesheet.parse ("@import \"" ++ url ++ "\";") document =
        .ok ⟨["@import \"" ++ url ++ "\";"], []⟩ ↔ ';' ∉ url.toList) := by
  constructor
  · have hsource : "@import url(\"" ++ url ++ "\");" =
        "@import " ++ ("url(\"" ++ url ++ "\")") ++ ";" := by
      apply String.toList_inj.1
      simp
    rw [hsource, parse_target document ⟨'u', _, by simp; rfl, rfl⟩
      ⟨"url(\"".toList ++ url.toList ++ ['"'], ')', by simp, rfl⟩]
    simp
  · have hsource : "@import \"" ++ url ++ "\";" = "@import " ++ ("\"" ++ url ++ "\"") ++ ";" := by
      apply String.toList_inj.1
      simp
    rw [hsource, parse_target document ⟨'"', _, by simp; rfl, rfl⟩
      ⟨'"' :: url.toList, '"', by simp, rfl⟩]
    simp

/-- The address of a font in two weights: the import ends after the first, and the rest is no
statement. -/
theorem font_import_cut :
    let source := "@import url(\"https://fonts.example/css2?family=Inter:wght@400;700\");"
    (match Stylesheet.parse source with
      | .ok _ => none
      | .error e => some (e.cause, e.position)) = some (.expected ':' (some ';'), 68) ∧
    Stylesheet.parse source ≠ .ok ⟨[source], []⟩ := by
  intro source
  have hfails : (match Stylesheet.parse source with
      | .ok _ => none
      | .error e => some (e.cause, e.position)) = some (.expected ':' (some ';'), 68) := by
    decide +kernel
  refine ⟨hfails, fun h => ?_⟩
  rw [h] at hfails
  cases hfails

end LessSheet
