import LessSheet.Proofs.Grammar.Written

/-! # Calls as they are written

A call is written as a statement of a rule and read back from its text.

What kind of statement a text is, where its arguments end, and what separates them is found by
looking ahead. These scans see brackets, quotes and semicolons only, and the text of an argument has
none of them (`Foreign.not_mem_argument`), so each ends where it should. The parentheses of a call
are balanced (`balanced?_plain`). A semicolon is found if one was written after an argument
(`hasSemicolon_semicolons`), and a comma then belongs to a list. If none is found
(`hasSemicolon_commas`), a comma separates two arguments.
-/

namespace LessSheet

open Grammar

/-! ## The text of a call -/

/-- Words, and lists of words with spaces between them. A list of one item is that item, so a list
has two. -/
inductive Expr.IsPhrase : Expr → Prop where
  | word {e : Expr} : IsWord e → IsPhrase e
  | list {items : List Expr} : 2 ≤ items.length → (∀ e ∈ items, IsWord e) →
    IsPhrase (.list .space items)

/-- Phrases, and lists of phrases with commas between them. -/
inductive Expr.IsPlain : Expr → Prop where
  | phrase {e : Expr} : IsPhrase e → IsPlain e
  | list {items : List Expr} : 2 ≤ items.length → (∀ e ∈ items, IsPhrase e) →
    IsPlain (.list .comma items)

/-- A plain value that is no list with commas is a phrase. -/
theorem Expr.IsPlain.isPhrase {e : Expr} (h : e.IsPlain)
    (hcomma : ∀ items, e ≠ .list .comma items) : e.IsPhrase := by
  cases h with
  | phrase h => exact h
  | list _ _ => exact absurd rfl (hcomma _)

/-- A phrase as it is written. -/
def Expr.phrase : Expr → List Char
  | .list .space items => [' '].intercalate (items.map wordText)
  | e => wordText e

/-- A value as it is written. -/
def Expr.text : Expr → List Char
  | .list .comma items => [',', ' '].intercalate (items.map Expr.phrase)
  | e => e.phrase

/-- An argument with a plain value, and with an identifier for its name if it has one. -/
structure Argument.IsPlain (arg : Argument) : Prop where
  name : ∀ name ∈ arg.name, IsName name
  value : arg.value.IsPlain

/-- An argument as it is written. -/
def Argument.text (arg : Argument) : List Char :=
  match arg.name with
  | some name => '@' :: (name.toList ++ ':' :: ' ' :: arg.value.text)
  | none => arg.value.text

/-- What separates the arguments of a call. -/
inductive ArgumentStyle where
  | semicolons
  | commas
deriving DecidableEq

/-- Arguments as they are written: a semicolon after each, or commas between them. -/
def ArgumentStyle.text : ArgumentStyle → List Argument → List Char
  | .semicolons, args => [' '].intercalate (args.map fun arg => arg.text ++ [';'])
  | .commas, args => [',', ' '].intercalate (args.map Argument.text)

/-- The ways to go on with a path. -/
inductive PathJoint where
  | child
  | adjacent

/-- What stands between two segments of a path. -/
def PathJoint.text : PathJoint → List Char
  | .child => " > ".toList
  | .adjacent => []

/-- The further segments of a path, each after the joint of its number. -/
def pathTail (joints : Nat → PathJoint) : List String → List Char
  | [] => []
  | segment :: rest =>
    (joints 0).text ++ (segment.toList ++ pathTail (fun n => joints (n + 1)) rest)

/-- A path as it is written. -/
def pathText (joints : Nat → PathJoint) : List String → List Char
  | [] => []
  | segment :: rest => segment.toList ++ pathTail joints rest

/-- A call without comments, of segments and plain arguments. -/
structure Call.IsPlain (call : Call) : Prop where
  path_ne_nil : call.path ≠ []
  path : ∀ segment ∈ call.path, IsSegment segment
  args : ∀ arg ∈ call.args, arg.IsPlain
  comments : call.comments = {}

/-- What ends a call. -/
def callEnd : (important : Bool) → List Char
  | true => " !important;".toList
  | false => [';']

/-- A call as it is written. -/
def Call.text (joints : Nat → PathJoint) (style : ArgumentStyle) (call : Call) : List Char :=
  pathText joints call.path ++ '(' :: (style.text call.args ++ ')' :: callEnd call.important)

namespace Grammar

open Text

/-! ## Values -/

section
variable {document : Nat} {e : Expr} {items : List Expr} {s : List Char}

/-- A word is written as a phrase like a word. -/
theorem phrase_of_isWord (h : IsWord e) : e.phrase = wordText e := by
  cases h <;> rfl

/-- A phrase is written as a value like a phrase. -/
theorem text_of_isPhrase (h : e.IsPhrase) : e.text = e.phrase := by
  cases h with
  | word h => cases h <;> rfl
  | list _ _ => rfl

/-- Two items or more make a list. -/
theorem listOf_of_two {separator : Separator} (h : 2 ≤ items.length) :
    listOf separator items = .list separator items := by
  match items, h with
  | _ :: _ :: _, _ => rfl

/-- Two items or more are some. -/
theorem ne_nil_of_two (h : 2 ≤ items.length) : items ≠ [] := by
  rintro rfl
  cases h

/-- A phrase is read from its text up to the end of the value. -/
theorem words_phrase (he : e.IsPhrase) (hs : EndsValue s) :
    words (unbounded document) false (e.phrase ++ s) = .ok (e, s) := by
  cases he with
  | word he =>
    rw [phrase_of_isWord he]
    exact words_of_sum (wordText_begins he) (fun _ hr => sum_word he hr) hs
  | list htwo hitems =>
    rw [Expr.phrase, ← listOf_of_two htwo]
    exact words_items wordText (ne_nil_of_two htwo) (fun e he => wordText_begins (hitems e he))
      (fun e he _ hr => sum_word (hitems e he) hr) hs

/-- A value is read up to where it ends. If commas separate, it has none of its own. -/
theorem value_text {semicolons : Bool} (he : e.IsPlain) (hphrase : semicolons = false → e.IsPhrase)
    (hs : EndsValue s) (hcomma : semicolons = true → s.head? ≠ some ',') :
    value (unbounded document) semicolons (e.text ++ s) = .ok (e, s) := by
  cases semicolons with
  | false =>
    rw [text_of_isPhrase (hphrase rfl)]
    exact words_phrase (hphrase rfl) hs
  | true =>
    cases he with
    | phrase he =>
      rw [text_of_isPhrase he]
      exact value_of_words (fun _ hr => words_phrase he hr) hs (hcomma rfl)
    | list htwo hitems =>
      rw [Expr.text, ← listOf_of_two htwo]
      exact value_items Expr.phrase (ne_nil_of_two htwo)
        (fun e he _ hr => words_phrase (hitems e he) hr) hs (hcomma rfl)

end

/-! ## Names and values of arguments -/

section
variable {e : Expr} {items : List Expr} {s : List Char}

/-- A list goes on where its first item ends. -/
theorem intercalate_append (sep : List Char) {text : Expr → List Char} {P : List Char → Prop}
    (hne : items ≠ []) (hs : P s) (hsep : ∀ e ∈ items, ∀ r, P (sep ++ (text e ++ r))) :
    ∃ e ∈ items, ∃ r, P r ∧ sep.intercalate (items.map text) ++ s = text e ++ r := by
  cases items with
  | nil => exact absurd rfl hne
  | cons e rest =>
    refine ⟨e, .head _, rest.flatMap (fun e => sep ++ text e) ++ s, ?_, ?_⟩
    · cases rest with
      | nil => exact hs
      | cons d rest => simpa using hsep d (.tail _ (.head _)) _
    · simp [intercalate_cons, List.flatMap_map]

/-- A text that goes on neither with an identifier nor, after white space, with a colon. -/
structure EndsVariable (s : List Char) : Prop where
  name : EndsName s
  colon : (skipBlank s).head? ≠ some ':'

/-- No sign that ends a value goes on with a name or a colon. -/
theorem EndsValue.endsVariable (h : EndsValue s) : EndsVariable s := by
  have hname := h.endsTerm.name
  obtain ⟨c, r, rfl, hc⟩ := h.cases
  have hall : ∀ c ∈ [',', ')', ';', '}', '!'], isBlank c = false ∧ c ≠ ':' :=
    List.all_iff_forall_prop.1 (by decide)
  obtain ⟨hblank, hcolon⟩ := hall c hc
  exact ⟨hname, by simpa [skipBlank, hblank] using hcolon⟩

/-- After a space a word goes on. -/
theorem endsVariable_word (he : IsWord e) (s : List Char) :
    EndsVariable (' ' :: (wordText e ++ s)) := by
  obtain ⟨c, r, htext, hblank, -⟩ := wordText_begins he
  have hcolon : c ≠ ':' := by
    rintro rfl
    exact not_mem_wordText he (c := ':') (by decide) (by decide) (htext ▸ List.mem_cons_self)
  refine ⟨endsName_space _, ?_⟩
  have hspace : isBlank ' ' = true := rfl
  simpa [skipBlank, hspace, htext, hblank] using hcolon

/-- A word without a colon behind it is not the start of a named argument. -/
theorem assignHead?_word (he : IsWord e) (hs : EndsVariable s) :
    assignHead? (wordText e ++ s) = none := by
  cases he with
  | @ref name hname =>
    simp only [wordText, List.cons_append, assignHead?, atName?_name hname hs.name]
    split
    · next heq => exact absurd (congrArg List.head? heq) hs.colon
    · rfl
  | keyword h =>
    obtain ⟨c, r, hlist, hc⟩ := h.cons
    simp only [wordText, hlist, List.cons_append, assignHead?, atName?_of_isAlpha hc]

/-- A value starts with a word, which is not taken for the name of an argument. -/
theorem phrase_starts (he : e.IsPhrase) (hs : EndsValue s) :
    ∃ w r, IsWord w ∧ EndsVariable r ∧ e.phrase ++ s = wordText w ++ r := by
  cases he with
  | word he => exact ⟨e, s, he, hs.endsVariable, by rw [phrase_of_isWord he]⟩
  | list htwo hitems =>
    obtain ⟨w, hw, r, hr, htext⟩ := intercalate_append [' '] (ne_nil_of_two htwo) hs.endsVariable
      fun e he r => endsVariable_word (hitems e he) r
    exact ⟨w, r, hitems w hw, hr, htext⟩

/-- A plain value starts with a word that no colon follows. -/
theorem text_starts (he : e.IsPlain) (hs : EndsValue s) :
    ∃ w r, IsWord w ∧ EndsVariable r ∧ e.text ++ s = wordText w ++ r := by
  cases he with
  | phrase he =>
    rw [text_of_isPhrase he]
    exact phrase_starts he hs
  | list htwo hitems =>
    obtain ⟨e, he, r, hr, htext⟩ := intercalate_append [',', ' '] (ne_nil_of_two htwo) hs
      fun e _ r => ⟨',', ' ' :: (e.phrase ++ r), rfl, rfl⟩
    rw [Expr.text, htext]
    exact phrase_starts (hitems e he) hr

end

section
variable {document : Nat} {arg : Argument} {s : List Char}

/-- An argument begins with a word, that of its name or of its value. -/
theorem argument_begins (harg : arg.IsPlain) (hs : EndsValue s) : Begins (arg.text ++ s) := by
  rw [Argument.text]
  split
  · exact ⟨'@', _, rfl, rfl, by decide, rfl⟩
  · obtain ⟨w, r, hw, -, htext⟩ := text_starts harg.value hs
    rw [htext]
    exact (wordText_begins hw).append r

/-- An argument is read up to where its value ends. -/
theorem argument_text {semicolons : Bool} (harg : arg.IsPlain)
    (hphrase : semicolons = false → arg.value.IsPhrase) (hs : EndsValue s)
    (hcomma : semicolons = true → s.head? ≠ some ',') :
    argument (unbounded document) semicolons (arg.text ++ s) = .ok (arg, s) := by
  obtain ⟨w, r, hw, hr, htext⟩ := text_starts harg.value hs
  have hvalue : value (unbounded document) semicolons (arg.value.text ++ s) = .ok (arg.value, s) :=
    value_text harg.value hphrase hs hcomma
  obtain ⟨_ | name, value⟩ := arg
  · have hhead : assignHead? (value.text ++ s) = none := by
      rw [htext]
      exact assignHead?_word hw hr
    rw [Argument.text, argument, hhead]
    exact map_of_ok _ hvalue
  · have hname := harg.name name rfl
    have hskip : skipTrivia (value.text ++ s) = value.text ++ s := by
      rw [htext]
      exact skipTrivia_of_firm ((wordText_begins hw).append r).firm
    have htext : Argument.text ⟨some name, value⟩ ++ s =
        '@' :: (name.toList ++ ':' :: ' ' :: (value.text ++ s)) := by
      simp [Argument.text]
    rw [htext, argument, assignHead?_name hname]
    simp only [trivia_bind, skipTrivia_space, hskip]
    exact map_of_ok _ hvalue

end

/-! ## Lists of arguments -/

/-- The characters of an argument that are in no name. -/
def argumentSigns : List Char := ['@', ' ', ',', ':']

/-- A character that is in no argument. -/
def Foreign (c : Char) : Prop := isNameChar c = false ∧ c ∉ argumentSigns

instance (c : Char) : Decidable (Foreign c) := inferInstanceAs (Decidable (_ ∧ _))

section
variable {e : Expr} {arg : Argument} {c : Char} {s : List Char}

/-- A character of a joined text is in the separator or in one of the parts. -/
theorem not_mem_intercalate {sep : List Char} {texts : List (List Char)} (hsep : c ∉ sep)
    (h : ∀ text ∈ texts, c ∉ text) : c ∉ sep.intercalate texts := by
  cases texts with
  | nil => simp
  | cons text rest =>
    rw [intercalate_cons, List.mem_append, List.mem_flatMap]
    rintro (hmem | ⟨t, ht, hmem⟩)
    · exact h text (.head _) hmem
    · rcases List.mem_append.1 hmem with hmem | hmem
      · exact hsep hmem
      · exact h t (.tail _ ht) hmem

/-- A foreign character is none of the signs of an argument. -/
theorem Foreign.not_mem_signs {signs : List Char} (hc : Foreign c) (h : signs ⊆ argumentSigns) :
    c ∉ signs := fun hmem => hc.2 (h hmem)

/-- A foreign character is in no word. -/
theorem Foreign.not_mem_word (hc : Foreign c) (he : IsWord e) : c ∉ wordText e :=
  not_mem_wordText he hc.1 fun heq => hc.2 (heq ▸ .head _)

/-- A foreign character is in no phrase. -/
theorem Foreign.not_mem_phrase (hc : Foreign c) (he : e.IsPhrase) : c ∉ e.phrase := by
  cases he with
  | word he =>
    rw [phrase_of_isWord he]
    exact hc.not_mem_word he
  | list _ hitems =>
    exact not_mem_intercalate (hc.not_mem_signs (by decide))
      (by simpa using fun e he => hc.not_mem_word (hitems e he))

/-- A foreign character is in no plain value. -/
theorem Foreign.not_mem_text (hc : Foreign c) (he : e.IsPlain) : c ∉ e.text := by
  cases he with
  | phrase he =>
    rw [text_of_isPhrase he]
    exact hc.not_mem_phrase he
  | list _ hitems =>
    exact not_mem_intercalate (hc.not_mem_signs (by decide))
      (by simpa using fun e he => hc.not_mem_phrase (hitems e he))

/-- A foreign character is in no argument. -/
theorem Foreign.not_mem_argument (hc : Foreign c) (harg : arg.IsPlain) : c ∉ arg.text := by
  have hvalue := hc.not_mem_text harg.value
  obtain ⟨_ | name, value⟩ := arg
  · exact hvalue
  · have hname : c ∉ name.toList := fun hmem =>
      Bool.false_ne_true (hc.1.symm.trans ((harg.name name rfl).ascii c hmem))
    have hsign : ∀ d ∈ argumentSigns, c ≠ d := fun d hd heq => hc.2 (heq ▸ hd)
    simp only [Argument.text, List.mem_cons, List.mem_append, not_or]
    exact ⟨hsign '@' (by decide), hname, hsign ':' (by decide), hsign ' ' (by decide), hvalue⟩

end

/-- The characters that scanners keep track of. -/
def brackets : List Char := ['(', ')', '{', '}', '[', ']', '"', '\'']

section
variable {args : List Argument} {text s : List Char}

/-- Brackets and quotation marks are foreign to arguments. -/
theorem brackets_foreign : ∀ c ∈ brackets, Foreign c := List.all_iff_forall_prop.1 (by decide)

/-- Quotation marks are among the characters that scanners keep track of. -/
theorem isQuote_of_ne {c : Char} (h : ∀ d ∈ brackets, c ≠ d) : isQuote c = false := by
  simp [isQuote, h '"' (by decide), h '\'' (by decide)]

/-- Arguments with semicolons have no brackets and no quotation marks. -/
theorem not_mem_semicolons (hargs : ∀ arg ∈ args, arg.IsPlain) :
    ∀ c ∈ brackets, c ∉ ArgumentStyle.semicolons.text args := by
  intro c hc
  have hforeign := brackets_foreign c hc
  have hsemicolon : ∀ c ∈ brackets, c ≠ ';' := List.all_iff_forall_prop.1 (by decide)
  refine not_mem_intercalate (hforeign.not_mem_signs (by decide)) ?_
  simpa [hsemicolon c hc] using fun arg harg => hforeign.not_mem_argument (hargs arg harg)

/-- A foreign character is not among arguments with commas. -/
theorem Foreign.not_mem_commas {c : Char} (hc : Foreign c) (hargs : ∀ arg ∈ args, arg.IsPlain) :
    c ∉ ArgumentStyle.commas.text args := by
  refine not_mem_intercalate (hc.not_mem_signs (by decide)) ?_
  simpa using fun arg harg => hc.not_mem_argument (hargs arg harg)

/-- The parentheses around a text without brackets and quotes are balanced. -/
theorem balanced?_plain (h : ∀ c ∈ brackets, c ∉ text) (s : List Char) :
    balanced? ('(' :: (text ++ ')' :: s)) = some (text, s) := by
  rw [balanced?]
  induction text with
  | nil => rfl
  | cons c text ih =>
    obtain ⟨hne, htext⟩ := not_mem_of_cons h
    simp [balancedFrom, hne '(' (by decide), hne ')' (by decide), isQuote_of_ne hne, ih htext]

/-- A text without brackets, quotation marks and semicolons is passed over. -/
theorem hasSemicolonFrom_plain {depth : Nat} (h : ∀ c ∈ brackets, c ∉ text)
    (hsemicolon : ';' ∉ text) (s : List Char) :
    hasSemicolonFrom depth none (text ++ s) = hasSemicolonFrom depth none s := by
  induction text with
  | nil => rfl
  | cons c text ih =>
    obtain ⟨hne, htext⟩ := not_mem_of_cons h
    obtain ⟨hc, hnone⟩ := List.ne_and_not_mem_of_not_mem_cons hsemicolon
    rw [List.cons_append, hasSemicolonFrom.eq_def]
    simp [hne '(' (by decide), hne ')' (by decide), hne '{' (by decide), hne '}' (by decide),
      hne '[' (by decide), hne ']' (by decide), hc.symm, isQuote_of_ne hne, ih htext hnone]

/-- A semicolon is found after the first argument. -/
theorem hasSemicolon_semicolons {arg : Argument} (hargs : ∀ a ∈ arg :: args, a.IsPlain)
    (s : List Char) :
    hasSemicolon (ArgumentStyle.semicolons.text (arg :: args) ++ s) = true := by
  have harg := hargs arg (.head _)
  rw [ArgumentStyle.text, List.map_cons, intercalate_cons, List.append_assoc, List.append_assoc,
    hasSemicolon, hasSemicolonFrom_plain
      (fun c hc => (brackets_foreign c hc).not_mem_argument harg)
      (Foreign.not_mem_argument (by decide) harg)]
  rfl

/-- Arguments with commas between them have no semicolon before the closing parenthesis. -/
theorem hasSemicolon_commas (hargs : ∀ arg ∈ args, arg.IsPlain) (s : List Char) :
    hasSemicolon (ArgumentStyle.commas.text args ++ ')' :: s) = false := by
  rw [hasSemicolon, hasSemicolonFrom_plain
    (fun c hc => (brackets_foreign c hc).not_mem_commas hargs)
    (Foreign.not_mem_commas (by decide) hargs)]
  rfl

end

section
variable {document : Nat} {arg : Argument} {args : List Argument} {s r : List Char}

/-- A round over the arguments of a call. -/
abbrev argumentsRound (document : Nat) (semicolons : Bool) : Parse (Option Argument) :=
  bracketRound (argument (unbounded document)) .unclosedArguments .missingArgumentSeparator
    semicolons

/-- A round over arguments stops at the parenthesis. -/
theorem argumentsRound_close (semicolons : Bool) (s : List Char) :
    argumentsRound document semicolons (')' :: s) = .ok (none, s) := by
  rw [argumentsRound, bracketRound, trivia_bind, skipTrivia_cons rfl (by decide)]
  rfl

/-- White space before an argument makes no difference to a round. -/
theorem argumentsRound_space (semicolons : Bool) (s : List Char) :
    argumentsRound document semicolons (' ' :: s) = argumentsRound document semicolons s := by
  rw [argumentsRound, bracketRound, trivia_bind, trivia_bind, skipTrivia_space]

/-- A round reads one argument and the separator behind it. -/
theorem argumentsRound_text {semicolons : Bool} (harg : arg.IsPlain)
    (hphrase : semicolons = false → arg.value.IsPhrase) (hs : EndsValue s)
    (hcomma : semicolons = true → s.head? ≠ some ',')
    (hsep : separator semicolons .missingArgumentSeparator s = .ok ((), r)) :
    argumentsRound document semicolons (arg.text ++ s) = .ok (some arg, r) := by
  have hread : argument (unbounded document) semicolons (arg.text ++ s) = .ok (arg, s) :=
    argument_text harg hphrase hs hcomma
  have hbegins := argument_begins harg hs
  generalize arg.text ++ s = t at hread hbegins ⊢
  rw [argumentsRound, bracketRound, trivia_bind, skipTrivia_of_firm hbegins.firm, get_bind]
  obtain ⟨c, u, htext, -, -, hc⟩ := hbegins
  split
  · cases htext
  · obtain ⟨rfl, -⟩ := List.cons.inj htext
    cases hc
  · rw [bind_of_ok hread, bind_of_ok hsep]
    rfl

/-- Arguments are read from their text, up to the closing parenthesis. -/
def ReadsArguments (document : Nat) (style : ArgumentStyle) (args : List Argument) : Prop :=
  ∀ s, callArguments (unbounded document) ('(' :: (style.text args ++ ')' :: s)) = .ok (args, s)

/-- Plain arguments with semicolons are read from their text. -/
theorem readsArguments_semicolons (hargs : ∀ arg ∈ args, arg.IsPlain) :
    ReadsArguments document .semicolons args := by
  intro s
  rw [callArguments, parenthesised_eq, get_bind]
  cases args with
  | nil => exact collect_end (.callArguments _) (argumentsRound_close _ s)
  | cons arg rest =>
    rw [hasSemicolon_semicolons hargs]
    have hread : ∀ a ∈ arg :: rest, ∀ r, True →
        argumentsRound document true (' ' :: (a.text ++ [';']) ++ r) = .ok (some a, r) := by
      intro a ha r _
      have hsep : separator true .missingArgumentSeparator (';' :: r) = .ok ((), r) := by
        rw [separator, trivia_bind, skipTrivia_cons rfl (by decide)]
        rfl
      rw [List.cons_append, argumentsRound_space, List.append_assoc]
      exact argumentsRound_text (hargs a ha) nofun ⟨';', r, rfl, rfl⟩ (by simp) hsep
    have hall := collect_flatMap (.callArguments true) (fun _ => True) _ (arg :: rest)
      (fun _ _ _ => trivial) hread trivial (argumentsRound_close true s)
    rw [← collect_congr (.callArguments true) (argumentsRound_space true _)]
    simpa [ArgumentStyle.text, intercalate_cons, List.flatMap_map] using hall

/-- Arguments without commas of their own are read from their text with commas between them. -/
theorem readsArguments_commas (hargs : ∀ arg ∈ args, arg.IsPlain)
    (hphrase : ∀ arg ∈ args, arg.value.IsPhrase) : ReadsArguments document .commas args := by
  intro s
  have hread : ∀ arg ∈ args, ∀ r t, EndsValue r →
      separator false .missingArgumentSeparator r = .ok ((), t) →
        argumentsRound document false (arg.text ++ r) = .ok (some arg, t) := fun arg harg r t hr =>
    argumentsRound_text (hargs arg harg) (fun _ => hphrase arg harg) hr nofun
  rw [callArguments, parenthesised_eq, get_bind, hasSemicolon_commas hargs]
  suffices h : ∀ found, loop (collecting (argumentsRound document false)) found
      (ArgumentStyle.commas.text args ++ ')' :: s) = .ok (found.reverse ++ args, s) from h []
  clear hargs hphrase
  intro found
  induction args generalizing found with
  | nil =>
    rw [List.append_nil]
    exact collect_end (.callArguments false) (argumentsRound_close false s)
  | cons arg rest ih =>
    have hfirst := hread arg (.head _)
    cases rest with
    | nil =>
      have hsep : separator false .missingArgumentSeparator (')' :: s) = .ok ((), ')' :: s) := by
        rw [separator, trivia_bind, skipTrivia_cons rfl (by decide)]
        rfl
      have htext : ArgumentStyle.commas.text [arg] = arg.text := List.append_nil _
      rw [htext, collect_next (.callArguments false) (hfirst _ _ ⟨')', s, rfl, rfl⟩ hsep),
        collect_end (.callArguments false) (argumentsRound_close false s), List.reverse_cons]
    | cons b rest =>
      have hsep : ∀ t, separator false .missingArgumentSeparator (',' :: t) = .ok ((), t) := by
        intro t
        rw [separator, trivia_bind, skipTrivia_cons rfl (by decide)]
        rfl
      have htext : ArgumentStyle.commas.text (arg :: b :: rest) ++ ')' :: s =
          arg.text ++ ',' :: ' ' :: (ArgumentStyle.commas.text (b :: rest) ++ ')' :: s) := by
        simp [ArgumentStyle.text]
      rw [htext, collect_next (.callArguments false) (hfirst _ _ ⟨',', _, rfl, rfl⟩ (hsep _)),
        collecting_congr (.callArguments false) (argumentsRound_space false _),
        ih (fun a ha => hread a (.tail _ ha))]
      simp

end

/-! ## Paths -/

section
variable {segments : List String} {s : List Char}

/-- The name of a class or an id starts a segment. -/
theorem IsSegment.starts {segment : String} (h : IsSegment segment) (s : List Char) :
    startsSegment (segment.toList ++ s) = true := by
  obtain ⟨c, name, hc, -, hlist⟩ := h.cons
  rw [hlist]
  rcases hc with rfl | rfl <;> rfl

/-- The next segment is found behind a joint of either kind. -/
theorem nextSegment?_joint (joint : PathJoint) {segment : String} (h : IsSegment segment)
    (s : List Char) :
    nextSegment? (joint.text ++ (segment.toList ++ s)) = some (segment.toList ++ s) := by
  have hstarts := h.starts s
  cases joint with
  | child =>
    have hblank : skipBlank (' ' :: (segment.toList ++ s)) = segment.toList ++ s := by
      obtain ⟨c, r, htext, hc, -⟩ := h.firm (s := s)
      rw [htext, skipBlank, List.dropWhile_cons_of_pos rfl,
        List.dropWhile_cons_of_neg (by simp [hc])]
    have hnone : startsSegment (PathJoint.child.text ++ (segment.toList ++ s)) = false := rfl
    have hjoint : skipBlank (PathJoint.child.text ++ (segment.toList ++ s)) =
        '>' :: ' ' :: (segment.toList ++ s) := rfl
    simp [nextSegment?, hnone, hjoint, hblank, hstarts]
  | adjacent =>
    rw [PathJoint.text, List.nil_append, nextSegment?, if_pos hstarts]

/-- A segment ends where the path goes on or the arguments start. -/
theorem endsName_pathTail (joints : Nat → PathJoint) (h : ∀ segment ∈ segments, IsSegment segment)
    (s : List Char) : EndsName (pathTail joints segments ++ '(' :: s) := by
  cases segments with
  | nil => exact endsName_cons rfl s
  | cons segment rest =>
    obtain ⟨d, name, hd, -, hlist⟩ := (h segment (.head _)).cons
    rw [pathTail]
    cases joints 0 with
    | child => exact endsName_space _
    | adjacent =>
      rw [hlist]
      rcases hd with rfl | rfl <;> exact endsName_cons rfl _

/-- The further segments of a path are read up to the parenthesis. -/
theorem segments?_pathTail (joints : Nat → PathJoint) (h : ∀ segment ∈ segments, IsSegment segment)
    (s : List Char) :
    segments? (pathTail joints segments ++ '(' :: s) (pathTail joints segments ++ '(' :: s) =
      some (segments, '(' :: s) := by
  induction segments generalizing joints with
  | nil =>
    have hnone : nextSegment? ('(' :: s) = none := rfl
    rw [segments?_eq, pathTail, List.nil_append, hnone]
  | cons segment rest ih =>
    have hrest : ∀ segment ∈ rest, IsSegment segment := fun x hx => h x (.tail _ hx)
    have hsegment := h segment (.head _)
    rw [segments?_eq, pathTail, List.append_assoc, List.append_assoc,
      nextSegment?_joint _ hsegment]
    simp only [segment?_segment hsegment (endsName_pathTail _ hrest s), ih _ hrest, Option.map_some]

/-- A path is read up to the parenthesis. -/
theorem path?_pathText (joints : Nat → PathJoint) (hne : segments ≠ [])
    (h : ∀ segment ∈ segments, IsSegment segment) (s : List Char) :
    path? (pathText joints segments ++ '(' :: s) = some (segments, '(' :: s) := by
  cases segments with
  | nil => exact absurd rfl hne
  | cons segment rest =>
    have hrest : ∀ segment ∈ rest, IsSegment segment := fun x hx => h x (.tail _ hx)
    have hsegment := segment?_segment (h segment (.head _)) (endsName_pathTail joints hrest s)
    simp only [path?, pathText, List.append_assoc, hsegment, segments?_pathTail joints hrest,
      Option.map_some]

end

/-! ## Statements -/

section
variable {document : Nat} {call : Call} {joints : Nat → PathJoint} {style : ArgumentStyle}

/-- However they are separated, arguments have no brackets and no quotation marks. -/
theorem not_mem_style (style : ArgumentStyle) {args : List Argument}
    (hargs : ∀ arg ∈ args, arg.IsPlain) : ∀ c ∈ brackets, c ∉ style.text args := by
  cases style with
  | semicolons => exact not_mem_semicolons hargs
  | commas => exact fun c hc => (brackets_foreign c hc).not_mem_commas hargs

/-- The parts of a call and what follows it. -/
theorem call_append (joints : Nat → PathJoint) (style : ArgumentStyle) (call : Call)
    (s : List Char) :
    call.text joints style ++ s = pathText joints call.path ++
      '(' :: (style.text call.args ++ ')' :: (callEnd call.important ++ s)) := by
  simp [Call.text]

/-- A call starts with the first segment of its path. -/
theorem call_starts (joints : Nat → PathJoint) (style : ArgumentStyle) (hcall : call.IsPlain)
    (s : List Char) :
    ∃ segment rest, call.path = segment :: rest ∧ IsSegment segment ∧
      (∀ segment ∈ rest, IsSegment segment) ∧
      call.text joints style ++ s = segment.toList ++ (pathTail joints rest ++
        '(' :: (style.text call.args ++ ')' :: (callEnd call.important ++ s))) := by
  cases hpath : call.path with
  | nil => exact absurd hpath hcall.path_ne_nil
  | cons segment rest =>
    have h := hcall.path
    rw [hpath] at h
    refine ⟨segment, rest, rfl, h segment (.head _), fun x hx => h x (.tail _ hx), ?_⟩
    rw [call_append, hpath, pathText, List.append_assoc]

/-- A call is no definition: no block follows it. -/
theorem mixinHead?_call (hcall : call.IsPlain) (s : List Char) :
    mixinHead? (call.text joints style ++ s) = none := by
  obtain ⟨segment, rest, -, hsegment, hrest, htext⟩ := call_starts joints style hcall s
  rw [htext]
  simp only [mixinHead?, segment?_segment hsegment (endsName_pathTail joints hrest _)]
  cases rest with
  | nil =>
    have hbalanced := balanced?_plain (not_mem_style style hcall.args) (callEnd call.important ++ s)
    rw [pathTail, List.nil_append, skipTrivia_cons rfl (by decide)]
    simp only [hbalanced]
    cases call.important <;> rfl
  | cons second rest =>
    obtain ⟨c, name, hc, -, hlist⟩ := (hrest second (.head _)).cons
    have hnone : balanced? (skipTrivia (pathTail joints (second :: rest) ++
        '(' :: (style.text call.args ++ ')' :: (callEnd call.important ++ s)))) = none := by
      rw [pathTail]
      cases joints 0 with
      | child => rfl
      | adjacent =>
        rw [hlist]
        rcases hc with rfl | rfl <;> rfl
    simp only [hnone]

/-- A call is found with its path: after its arguments the statement ends. -/
theorem callHead?_call (hcall : call.IsPlain) (s : List Char) :
    callHead? (call.text joints style ++ s) =
      some (call.path, '(' :: (style.text call.args ++ ')' :: (callEnd call.important ++ s))) := by
  have hbalanced := balanced?_plain (not_mem_style style hcall.args) (callEnd call.important ++ s)
  rw [call_append, callHead?, path?_pathText joints hcall.path_ne_nil hcall.path]
  simp only [skipTrivia_cons (c := '(') rfl (by decide), afterArguments?, hbalanced,
    Option.map_some]
  cases call.important <;> rfl

/-- A call is read up to the end of the block around it. -/
theorem item_call (hcall : call.IsPlain) (hargs : ReadsArguments document style call.args)
    (s : List Char) :
    item (unbounded document) [] (call.text joints style ++ ' ' :: '}' :: s) =
      .ok (.call call, ' ' :: '}' :: s) := by
  have hmixin : mixinHead? (call.text joints style ++ ' ' :: '}' :: s) = none :=
    mixinHead?_call hcall _
  have hhead : callHead? (call.text joints style ++ ' ' :: '}' :: s) = _ := callHead?_call hcall _
  have hplain : item (unbounded document) [] (call.text joints style ++ ' ' :: '}' :: s) =
      plainItem (unbounded document) [] (call.text joints style ++ ' ' :: '}' :: s) := by
    obtain ⟨segment, rest, -, hsegment, -, htext⟩ :=
      call_starts joints style hcall (' ' :: '}' :: s)
    rw [htext]
    exact hsegment.item _ _
  rw [hplain, plainItem, hmixin, hhead]
  have hread := hargs (callEnd call.important ++ ' ' :: '}' :: s)
  have hcomments := hcall.comments
  obtain ⟨path, args, important, comments⟩ := call
  obtain rfl : comments = {} := hcomments
  simp only
  rw [mixinCall, trivia_bind, skipTrivia_cons rfl (by decide), bind_of_ok hread]
  cases important <;> rfl

/-- A block of one call. -/
theorem block_call (hcall : call.IsPlain) (hargs : ReadsArguments document style call.args)
    (s : List Char) :
    block (unbounded document) (' ' :: (call.text joints style ++ ' ' :: '}' :: s)) =
      .ok ([.call call], s) := by
  have hitem : item (unbounded document) [] (call.text joints style ++ ' ' :: '}' :: s) =
      .ok (.call call, ' ' :: '}' :: s) := item_call hcall hargs s
  have hfirst : statementRound (unbounded document)
      (' ' :: (call.text joints style ++ ' ' :: '}' :: s)) =
        .ok (some (.call call), ' ' :: '}' :: s) := by
    obtain ⟨segment, rest, -, hsegment, -, htext⟩ :=
      call_starts joints style hcall (' ' :: '}' :: s)
    rw [htext] at hitem ⊢
    exact (statementRound_space _ _).trans (hsegment.statementRound hitem)
  have hlast := (statementRound_space (unbounded document) _).trans (statementRound_close _ s)
  rw [block_eq, collect_eq, collect_next .block hfirst, collect_end .block hlast]
  rfl

end

/-! ## A rule with one selector -/

section
variable {document : Nat} {selector : String} {items : List Item} {s r : List Char}

/-- A segment has the characters of names and its mark. -/
theorem IsSegment.mem {c : Char} (h : IsSegment selector) (hc : c ∈ selector.toList) :
    isNameChar c = true ∨ c = '.' ∨ c = '#' := by
  obtain ⟨d, name, hd, hname, hlist⟩ := h.cons
  rw [hlist] at hc
  rcases List.mem_cons.1 hc with rfl | hc
  · exact .inr hd
  · exact .inl (hname.ascii c hc)

/-- Other characters are in no class or id. -/
theorem IsSegment.ne {c d : Char} (h : IsSegment selector) (hc : c ∈ selector.toList)
    (hd : isNameChar d = false ∧ d ≠ '.' ∧ d ≠ '#') : c ≠ d := by
  rintro rfl
  rcases h.mem hc with hname | rfl | rfl
  · exact Bool.false_ne_true (hd.1.symm.trans hname)
  · exact hd.2.1 rfl
  · exact hd.2.2 rfl

/-- A segment has no white space. -/
theorem IsSegment.isBlank {c : Char} (h : IsSegment selector) (hc : c ∈ selector.toList) :
    isBlank c = false := by
  rcases h.mem hc with hname | rfl | rfl
  · exact isBlank_of_isNameChar hname
  · rfl
  · rfl

/-- Other characters than braces, colons, semicolons and the sign of a placeholder say nothing about
the kind of a statement. -/
theorem statementKindFrom_plain {text : List Char} (h : ∀ c ∈ ['@', '{', ';', '}', ':'], c ∉ text)
    (sawColon : Bool) (s : List Char) :
    statementKindFrom sawColon .plain (text ++ s) = statementKindFrom sawColon .plain s := by
  induction text with
  | nil => rfl
  | cons c text ih =>
    obtain ⟨hne, htext⟩ := not_mem_of_cons h
    simp [statementKindFrom, hne '@' (by simp), hne '{' (by simp), hne ';' (by simp),
      hne '}' (by simp), hne ':' (by simp), ih htext]

/-- A brace comes before any sign of a declaration. -/
theorem statementKind_selector (h : IsSegment selector) (s : List Char) :
    statementKindFrom false .plain (selector.toList ++ ' ' :: '{' :: s) = some .rule := by
  have hsigns : ∀ d ∈ ['@', '{', ';', '}', ':'], isNameChar d = false ∧ d ≠ '.' ∧ d ≠ '#' :=
    List.all_iff_forall_prop.1 (by decide)
  rw [statementKindFrom_plain fun d hd hmem => h.ne hmem (hsigns d hd) rfl]
  rfl

/-- A selector that is a segment is read up to the brace. -/
theorem selectorFrom_selector (h : IsSegment selector) (s : List Char) :
    selectorFrom .blank (selector.toList ++ ' ' :: '{' :: s) =
      (selector.toList ++ [' '], '{' :: s) := by
  have hne : ∀ c ∈ selector.toList, c ≠ '{' ∧ c ≠ '@' ∧ isBlank c = false := fun c hc =>
    ⟨h.ne hc (by decide), h.ne hc (by decide), h.isBlank hc⟩
  have hsolid : ∀ text : List Char, (∀ c ∈ text, c ≠ '{' ∧ c ≠ '@' ∧ isBlank c = false) →
      selectorFrom .solid (text ++ ' ' :: '{' :: s) = (text ++ [' '], '{' :: s) := by
    intro text htext
    induction text with
    | nil => rfl
    | cons c text ih =>
      obtain ⟨hbrace, hat, hblank⟩ := htext c (.head _)
      simp [selectorFrom, hbrace, hat, hblank, ih fun d hd => htext d (.tail _ hd)]
  obtain ⟨c, name, hc, -, hlist⟩ := h.cons
  rw [hlist] at hne ⊢
  have hname := hsolid name.toList fun d hd => hne d (.tail _ hd)
  obtain ⟨hbrace, hat, hblank⟩ := hne c (.head _)
  have hw : 'w' ≠ c := by rcases hc with rfl | rfl <;> decide
  have hwhen : keyword? "when".toList (c :: (name.toList ++ ' ' :: '{' :: s)) = none :=
    keyword?_of_ne hw _ _
  rw [List.cons_append, selectorFrom, hwhen]
  · simp [hbrace, hat, hblank, hname]
  · decide

/-- The space before the brace is not part of the selector. -/
theorem trim_selector (h : IsSegment selector) :
    trim (selector.toList ++ [' ']) = selector.toList := by
  rw [trim_append_blank rfl, trim_of_forall fun c hc => h.isBlank hc]

/-- A segment is one selector, for it has no commas. -/
theorem splitCommas_selector (h : IsSegment selector) :
    splitCommas 0 (selector.toList ++ [' ']) = [selector.toList ++ [' ']] := by
  have hne : ∀ c ∈ selector.toList, ∀ d ∈ [',', '(', '[', ')', ']'], c ≠ d := by
    have hall : ∀ d ∈ [',', '(', '[', ')', ']'], isNameChar d = false ∧ d ≠ '.' ∧ d ≠ '#' :=
      List.all_iff_forall_prop.1 (by decide)
    exact fun c hc d hd => h.ne hc (hall d hd)
  generalize selector.toList = text at hne
  induction text with
  | nil => rfl
  | cons c text ih =>
    have hc := hne c (.head _)
    simp [splitCommas, hc ',' (by decide), hc '(' (by decide), hc '[' (by decide),
      hc ')' (by decide), hc ']' (by decide), ih fun d hd => hne d (.tail _ hd)]

/-- The selectors of a rule for one segment are that segment. -/
theorem selectorsOf_selector (h : IsSegment selector) :
    selectorsOf (selector.toList ++ [' ']) = [selector] := by
  have hne : selector.toList ≠ [] := by
    obtain ⟨c, name, -, -, hlist⟩ := h.cons
    simp [hlist]
  simp [selectorsOf, splitCommas_selector h, trim_selector h, hne]

/-- A rule is read from its selector and its block: it is read exactly if the block is. -/
theorem item_selector (h : IsSegment selector) (s : List Char) :
    item (unbounded document) [] (selector.toList ++ ' ' :: '{' :: s) =
      ((fun items => .rule ⟨[selector], none, items⟩) <$> block (unbounded document)) s := by
  have hbrace : skipTrivia (' ' :: '{' :: s) = '{' :: s :=
    (skipTrivia_space _).trans (skipTrivia_cons rfl (by decide) _)
  have hsegment := segment?_segment h (endsName_space ('{' :: s))
  have hmixin : mixinHead? (selector.toList ++ ' ' :: '{' :: s) = none := by
    simp only [mixinHead?, hsegment, hbrace]
    rfl
  have hcall : callHead? (selector.toList ++ ' ' :: '{' :: s) = none := by
    have hnext : segments? (' ' :: '{' :: s) (' ' :: '{' :: s) = some ([], ' ' :: '{' :: s) := by
      rw [segments?_eq]
      rfl
    have hafter : afterArguments? ('{' :: s) = some ('{' :: s) := rfl
    have hsame : skipTrivia ('{' :: s) = '{' :: s := skipTrivia_cons rfl (by decide) s
    simp only [callHead?, path?, hsegment, hnext, Option.map_some, hbrace, hafter, hsame]
    rfl
  rw [h.item, plainItem, hmixin, hcall, statementKind_selector h]
  have hguard : optionalGuard (unbounded document) ('{' :: s) = .ok (none, '{' :: s) := by
    have hwhen : keyword? "when".toList ('{' :: s) = none := keyword?_of_ne (by decide) _ _
    rw [optionalGuard, trivia_bind, skipTrivia_cons rfl (by decide), get_bind, hwhen]
    rfl
  have hbody : bracedBlock (unbounded document) ('{' :: s) = block (unbounded document) s := by
    rw [bracedBlock, expect_bind, (unbounded_closed document).block]
  have hrule : ruleFrom (unbounded document) [selector] = optionalGuard (unbounded document) >>=
      fun condition => bracedBlock (unbounded document) >>= fun body =>
        pure (.rule ⟨[selector], condition, body⟩) := rfl
  simp only
  rw [rule_eq, selectorFrom_selector h, selectorsOf_selector h, hrule, bind_of_ok hguard,
    map_apply]
  cases hblock : block (unbounded document) s with
  | error e => exact bind_of_error (hbody.trans hblock)
  | ok x => exact bind_of_ok (hbody.trans hblock)

/-- A rule for one selector is read if its block is. -/
theorem item_rule (h : IsSegment selector)
    (hblock : block (unbounded document) s = .ok (items, r)) :
    item (unbounded document) [] (selector.toList ++ ' ' :: '{' :: s) =
      .ok (.rule ⟨[selector], none, items⟩, r) := by
  rw [item_selector h, map_of_ok _ hblock]

end

end Grammar

/-- A call as the statement of a rule. -/
def Call.rule (selector : String) (joints : Nat → PathJoint) (style : ArgumentStyle)
    (call : Call) : String :=
  selector ++ " \x7b " ++ String.ofList (call.text joints style) ++ " \x7d"

/-- A call that is written as `text` has it is read as the call it was written from: with a
semicolon after each argument, and with commas between the arguments if none of them is a list with
commas itself. The joints of the path make no difference. -/
theorem Stylesheet.parse_call (document : Nat) {selector : String} {call : Call}
    (hselector : IsSegment selector) (hcall : call.IsPlain) (joints : Nat → PathJoint) :
    Stylesheet.parse (call.rule selector joints .semicolons) document =
        .ok ⟨[], [.rule ⟨[selector], none, [.call call]⟩]⟩ ∧
      ((∀ arg ∈ call.args, ∀ items, arg.value ≠ .list .comma items) →
        Stylesheet.parse (call.rule selector joints .commas) document =
          .ok ⟨[], [.rule ⟨[selector], none, [.call call]⟩]⟩) := by
  have hparse : ∀ style, ReadsArguments document style call.args →
      Stylesheet.parse (call.rule selector joints style) document =
        .ok ⟨[], [.rule ⟨[selector], none, [.call call]⟩]⟩ := by
    intro style hargs
    have htext : call.rule selector joints style = String.ofList (selector.toList ++
        ' ' :: '{' :: ' ' :: (call.text joints style ++ ' ' :: '}' :: [])) := by
      apply String.toList_inj.1
      simp [Call.rule]
    rw [htext]
    exact parse_single hselector.firm hselector.importHead?
      (item_rule hselector (block_call hcall hargs [])) rfl
  refine ⟨hparse _ (readsArguments_semicolons hcall.args), fun hcomma => ?_⟩
  exact hparse _ (readsArguments_commas hcall.args fun arg harg =>
    (hcall.args arg harg).value.isPhrase (hcomma arg harg))

/-- Both kinds of lists, with a name and without, behind joints of both kinds; and a list of words
between commas. -/
theorem Stylesheet.parse_call_lists :
    Stylesheet.parse ".r \x7b #a > .b.c(@x y, z; @n: u v;) !important; \x7d" =
        .ok ⟨[], [.rule ⟨[".r"], none, [.call ⟨["#a", ".b", ".c"],
          [⟨none, .list .comma [.list .space [.ref "x", .keyword "y"], .keyword "z"]⟩,
            ⟨some "n", .list .space [.keyword "u", .keyword "v"]⟩], true, {}⟩]⟩]⟩ ∧
      Stylesheet.parse ".r \x7b .c(@n: @x y, z); \x7d" =
        .ok ⟨[], [.rule ⟨[".r"], none, [.call ⟨[".c"],
          [⟨some "n", .list .space [.ref "x", .keyword "y"]⟩, ⟨none, .keyword "z"⟩],
            false, {}⟩]⟩]⟩ := by
  have hword : ∀ name, IsKeyword name → IsWord (.keyword name) := fun _ => .keyword
  have hxy : Expr.IsPhrase (.list .space [.ref "x", .keyword "y"]) :=
    .list (by decide) (by simpa using ⟨.ref (by decide), hword "y" (by decide)⟩)
  have huv : Expr.IsPhrase (.list .space [.keyword "u", .keyword "v"]) :=
    .list (by decide) (by simpa using ⟨hword "u" (by decide), hword "v" (by decide)⟩)
  have hz : Expr.IsPhrase (.keyword "z") := .word (hword "z" (by decide))
  have hnamed : ∀ value, Expr.IsPlain value → Argument.IsPlain ⟨some "n", value⟩ := fun _ h =>
    ⟨by simpa using (by decide : IsName "n"), h⟩
  have hplain : ∀ value, Expr.IsPlain value → Argument.IsPlain ⟨none, value⟩ := fun _ h =>
    ⟨nofun, h⟩
  constructor
  · refine (congrArg Stylesheet.parse ?_).trans (Stylesheet.parse_call 0 (by decide)
      ⟨by decide, by decide, ?_, rfl⟩ fun n => if n = 0 then .child else .adjacent).1
    · decide
    · simpa using ⟨hplain _ (.list (by decide) (by simpa using ⟨hxy, hz⟩)), hnamed _ (.phrase huv)⟩
  · refine (congrArg Stylesheet.parse ?_).trans ((Stylesheet.parse_call 0 (by decide)
      ⟨by decide, by decide, ?_, rfl⟩ fun _ => .child).2 ?_)
    · decide
    · simpa using ⟨hnamed _ (.phrase hxy), hplain _ (.phrase hz)⟩
    · simp

end LessSheet
