import LessSheet.Proofs.Grammar.GuardText

/-! # The space after `not`

A guard may be written with more parentheses than its connectives need, and each `not` in it with a
space before its operand or without. `GuardTree` is a guard written so.

Without the space `not` and its operand look like the call of a function. Where a guard is read that
makes no difference. But what stands in parentheses is first tried as a value, and there the call is
found: a parenthesis around nothing else than `not(..)` is a value if the operand passes for
arguments (`GuardTree.isCall`). What the text of a guard passes for is computed by
`GuardTree.passesFor`, and the grammar takes it for just that (`GuardTree.tried`). A guard without
such a parenthesis is read as it is meant, and one with such a parenthesis is not
(`GuardTree.reads`).
-/

namespace LessSheet

namespace Grammar

/-! ## Values -/

/-- What follows a value in a guard: a closing parenthesis, or a comparison sign between spaces. -/
inductive EndsOperand : List Char → Prop where
  | paren (s : List Char) : EndsOperand (')' :: s)
  | sign (op : Comparison) (s : List Char) : EndsOperand (' ' :: (op.sign ++ ' ' :: s))

/-- The start of a value: no operator, or a minus sign before what is a product without it. -/
def OperandStart (text : List Char) : Prop :=
  Begins text ∨ ∃ body, text = '-' :: body ∧ Begins body ∧ ∀ document, ∃ e, ∀ s, EndsOperand s →
    product (unbounded document) true (body ++ s) = .ok (e, s)

/-- A value in a guard, as it is written. -/
structure Operand where
  text : List Char
  expr : Expr
  start : OperandStart text
  reads (document : Nat) {s : List Char} :
    EndsOperand s → sum (unbounded document) true (text ++ s) = .ok (expr, s)
  passes : PassesOver text

/-- Neither a parenthesis nor a comparison goes on with a word or an operation. -/
theorem EndsOperand.endsTerm {s : List Char} (h : EndsOperand s) : EndsTerm s := by
  cases h with
  | paren s => exact (endsValue_paren s).endsTerm
  | sign op s => exact (sign_begins op _).endsTerm

/-- A word is a value. -/
def Operand.word (e : Expr) (he : IsWord e) : Operand where
  text := wordText e
  expr := e
  start := .inl (wordText_begins he)
  reads _ _ hs := sum_word he hs.endsTerm
  passes := wordText_passes he

/-- A variable with a minus sign is a value. -/
def Operand.negated (name : String) (hname : IsName name) : Operand where
  text := '-' :: wordText (.ref name)
  expr := .negate (.ref name)
  start := by
    have he : IsWord (.ref name) := .ref hname
    refine .inr ⟨wordText (.ref name), rfl, wordText_begins he, fun document =>
      ⟨.ref name, fun s hs => ?_⟩⟩
    have hend : productOperator? true s = none := productOperator?_eq_none fun c hc hmem =>
      hs.endsTerm.operator c hc (List.mem_append_left ['+', '-'] hmem)
    exact chainLeft_single (.product true) (signedTerm_word he hs.endsTerm.toEndsWord) hend
  reads document s hs := by
    have hterm : term (unbounded document) ('@' :: (name.toList ++ s)) = .ok (.ref name, s) :=
      term_ref hname hs.endsTerm.name
    have hsigned : signedTerm (unbounded document) ('-' :: '@' :: (name.toList ++ s)) =
        .ok (.negate (.ref name), s) := map_of_ok _ hterm
    exact sum_of_signedTerm hsigned hs.endsTerm.operator
  passes := by
    have hsign : PassesOver ['-'] := passesOver_of_not_mem (by simp)
    exact hsign.append (wordText_passes (.ref hname))

/-- A minus sign begins a word too. -/
theorem OperandStart.word {text : List Char} (h : OperandStart text) : BeginsWord text := by
  rcases h with h | ⟨body, rfl, -, -⟩
  · exact h.word
  · exact ⟨'-', body, rfl, rfl, by decide, rfl⟩

/-- A value begins with neither white space nor a comment. -/
theorem Operand.firm (v : Operand) (s : List Char) : Firm (v.text ++ s) :=
  (v.start.word.append s).firm

end Grammar

open Grammar

/-! ## Guards with their parentheses -/

/-- The productions of guards. -/
inductive GuardKind where
  | atom
  | factor
  | conjunction
  | guard

/-- How tightly what a production reads binds. -/
def GuardKind.strength : GuardKind → Nat
  | .atom => 3
  | .factor => 2
  | .conjunction => 1
  | .guard => 0

/-- The ways to write a negation. -/
inductive NotSign where
  | spaced
  | tight

/-- What stands before the operand of a negation. -/
def NotSign.text : NotSign → List Char
  | .spaced => "not ".toList
  | .tight => "not".toList

/-- A guard as it is written, by the productions that read it. An atom stands in parentheses: a
value, a comparison, or a guard. -/
inductive GuardTree : GuardKind → Type where
  | value (v : Operand) : GuardTree .atom
  | compare (op : Comparison) (lhs rhs : Operand) : GuardTree .atom
  | group (inner : GuardTree .guard) : GuardTree .atom
  | atom (a : GuardTree .atom) : GuardTree .factor
  | not (sign : NotSign) (a : GuardTree .atom) : GuardTree .factor
  | factor (f : GuardTree .factor) : GuardTree .conjunction
  | and (lhs : GuardTree .conjunction) (rhs : GuardTree .factor) : GuardTree .conjunction
  | conjunction (c : GuardTree .conjunction) : GuardTree .guard
  | or (sign : OrSign) (lhs : GuardTree .guard) (rhs : GuardTree .conjunction) : GuardTree .guard

/-- Where the text of a guard may be taken for something else: where a value stands, where words
stand, and, from its parenthesis on, where the arguments of a function stand. -/
inductive Place where
  | value
  | words
  | arguments
deriving DecidableEq

namespace GuardTree

variable {k : GuardKind}

/-- The text of a guard. -/
def text : {k : GuardKind} → GuardTree k → List Char
  | _, .value v => '(' :: (v.text ++ [')'])
  | _, .compare op lhs rhs =>
    '(' :: (lhs.text ++ ' ' :: (op.sign ++ ' ' :: (rhs.text ++ [')'])))
  | _, .group inner => '(' :: (inner.text ++ [')'])
  | _, .atom a => a.text
  | _, .not sign a => sign.text ++ a.text
  | _, .factor f => f.text
  | _, .and lhs rhs => lhs.text ++ " and ".toList ++ rhs.text
  | _, .conjunction c => c.text
  | _, .or sign lhs rhs => lhs.text ++ sign.text ++ rhs.text

/-- The condition that a guard is meant for. -/
def meaning : {k : GuardKind} → GuardTree k → Condition
  | _, .value v => .truthy v.expr
  | _, .compare op lhs rhs => .compare op lhs.expr rhs.expr
  | _, .group inner => inner.meaning
  | _, .atom a => a.meaning
  | _, .not _ a => .not a.meaning
  | _, .factor f => f.meaning
  | _, .and lhs rhs => .and lhs.meaning rhs.meaning
  | _, .conjunction c => c.meaning
  | _, .or _ lhs rhs => .or lhs.meaning rhs.meaning

/-- The guard with a space after each `not`. -/
def spaced : {k : GuardKind} → GuardTree k → GuardTree k
  | _, .value v => .value v
  | _, .compare op lhs rhs => .compare op lhs rhs
  | _, .group inner => .group inner.spaced
  | _, .atom a => .atom a.spaced
  | _, .not _ a => .not .spaced a.spaced
  | _, .factor f => .factor f.spaced
  | _, .and lhs rhs => .and lhs.spaced rhs.spaced
  | _, .conjunction c => .conjunction c.spaced
  | _, .or sign lhs rhs => .or sign lhs.spaced rhs.spaced

/-- Whether the text of a guard passes for what stands in a place. Parentheses group values, so they
hold one value. Connectives, and `not` with a space, are words. Without the space it is a function,
whose arguments may be words with commas between them, and also a comparison, with a word for the
sign. -/
def passesFor : {k : GuardKind} → GuardTree k → Place → Bool
  | _, .value _, _ => true
  | _, .compare _ _ _, place => place = .arguments
  | _, .group inner, .arguments => inner.passesFor .words
  | _, .group inner, _ => inner.passesFor .value
  | _, .atom a, place => a.passesFor place
  | _, .not .spaced a, place => place = .words && a.passesFor .value
  | _, .not .tight a, _ => a.passesFor .arguments
  | _, .factor f, place => f.passesFor place
  | _, .and lhs rhs, place => place = .words && lhs.passesFor .words && rhs.passesFor .words
  | _, .conjunction c, place => c.passesFor place
  | _, .or _ lhs rhs, place => place = .words && lhs.passesFor .words && rhs.passesFor .words

/-- Whether a guard is a negation that passes for the call of a function. -/
def isCall : {k : GuardKind} → GuardTree k → Bool
  | _, .value _ | _, .compare _ _ _ | _, .group _ => false
  | _, .atom a => a.isCall
  | _, .not .spaced _ => false
  | _, .not .tight a => a.passesFor .arguments
  | _, .factor f => f.isCall
  | _, .and _ _ => false
  | _, .conjunction c => c.isCall
  | _, .or _ _ _ => false

/-- Whether no parentheses stand around just a negation that passes for a call. -/
def clear : {k : GuardKind} → GuardTree k → Bool
  | _, .value _ | _, .compare _ _ _ => true
  | _, .group inner => inner.clear && !inner.isCall
  | _, .atom a | _, .not _ a => a.clear
  | _, .factor f => f.clear
  | _, .and lhs rhs => lhs.clear && rhs.clear
  | _, .conjunction c => c.clear
  | _, .or _ lhs rhs => lhs.clear && rhs.clear

/-- The space after `not` makes no difference to what is meant. -/
theorem meaning_spaced (t : GuardTree k) : t.spaced.meaning = t.meaning := by
  induction t with
  | value _ | compare _ _ _ => rfl
  | group _ ih | atom _ ih | factor _ ih | conjunction _ ih => exact ih
  | not _ _ ih => exact congrArg Condition.not ih
  | and _ _ ihl ihr => exact congrArg₂ Condition.and ihl ihr
  | or _ _ _ ihl ihr => exact congrArg₂ Condition.or ihl ihr

/-- With a space after it no negation passes for the call of a function. -/
theorem isCall_spaced (t : GuardTree k) : t.spaced.isCall = false := by
  induction t with
  | value _ | compare _ _ _ | group _ _ | not _ _ _ | and _ _ _ _ | or _ _ _ _ _ => rfl
  | atom _ ih | factor _ ih | conjunction _ ih => exact ih

/-- With a space after each `not` there is nothing to mistake. -/
theorem clear_spaced (t : GuardTree k) : t.spaced.clear = true := by
  induction t with
  | value _ | compare _ _ _ => rfl
  | group inner ih => simp [spaced, clear, ih, isCall_spaced]
  | atom _ ih | not _ _ ih | factor _ ih | conjunction _ ih => exact ih
  | and _ _ ihl ihr | or _ _ _ ihl ihr => simp [spaced, clear, ihl, ihr]

/-- Every guard begins with a parenthesis or with `not`. -/
theorem text_begins (t : GuardTree k) : Begins t.text := by
  induction t with
  | value _ | compare _ _ _ | group _ _ => exact begins_paren _
  | atom _ ih | factor _ ih | conjunction _ ih => exact ih
  | not sign _ _ => cases sign <;> exact ⟨'n', _, rfl, rfl, by decide, rfl⟩
  | and _ _ ihl _ | or _ _ _ ihl _ =>
    rw [text, List.append_assoc]
    exact ihl.append _

/-- The call of a function is a value. -/
theorem passesFor_of_isCall {t : GuardTree k} (h : t.isCall = true) :
    t.passesFor .value = true := by
  induction t with
  | value _ | compare _ _ _ | group _ _ | and _ _ _ _ | or _ _ _ _ _ => cases h
  | atom _ ih | factor _ ih | conjunction _ ih => exact ih h
  | not sign _ _ =>
    cases sign with
    | spaced => cases h
    | tight => exact h

end GuardTree

namespace Grammar

/-! ## Arguments -/

/-- A list of words of which some have been read, last first. -/
def wordsFrom (document : Nat) (pending : List Expr) : Parse Expr :=
  loop (collecting (wordRound (unbounded document) true)) pending >>= fun items =>
    if items.isEmpty then fail .missingValue else pure (listOf .space items)

/-- The arguments of a function named `not`, of which some have been read and one has been begun:
`found` are the former and `pending` the words of the latter, last first. -/
def argumentsFrom (document : Nat) (found pending : List Expr) : Parse (List Expr) := do
  let arg ← wordsFrom document pending
  trivia
  optional ','
  loop (collecting (argumentRound (unbounded document) "not")) (arg :: found)

section
variable {document : Nat} {found pending : List Expr} {e : Expr} {f : Failure} {s r t : List Char}

/-- White space before the next word of an argument makes no difference. -/
theorem argumentsFrom_space (s : List Char) :
    argumentsFrom document found pending (' ' :: s) = argumentsFrom document found pending s := by
  have hround := wordRound_space (unbounded document) true s
  simp only [argumentsFrom, wordsFrom, bind, StateT.bind, collecting_congr (.words true) hround]

/-- A word is taken. -/
theorem argumentsFrom_word (hs : BeginsWord s) (h : sum (unbounded document) true s = .ok (e, r))
    (hr : r.head? ≠ some '/') :
    argumentsFrom document found pending s = argumentsFrom document found (e :: pending) r := by
  have hround := wordRound_of_sum hs h hr
  simp only [argumentsFrom, wordsFrom, bind, StateT.bind, collect_next (.words true) hround]

/-- Where there is no word there are no arguments. -/
theorem argumentsFrom_error (hs : BeginsWord s) (h : sum (unbounded document) true s = .error f) :
    argumentsFrom document found pending s = .error f := by
  have hslash : slashList (unbounded document) true s = .error f := by
    rw [slashList, map_apply, separated_eq, bind_of_error h]
  have hround : wordRound (unbounded document) true s = .error f := by
    rw [wordRound_of_begins hs, map_apply, hslash]
  have hwords : wordsFrom document pending s = .error f :=
    bind_of_error (collect_error (.words true) hround)
  exact bind_of_error hwords

/-- The end of a value ends an argument. -/
theorem argumentsFrom_end (hs : EndsValue s) (hpending : pending ≠ []) :
    argumentsFrom document found pending s =
      (optional ',' >>= fun _ => loop (collecting (argumentRound (unbounded document) "not"))
        (listOf .space pending.reverse :: found)) s := by
  have hne : ¬ pending.reverse.isEmpty = true := by simpa using hpending
  have hwords : wordsFrom document pending s = .ok (listOf .space pending.reverse, s) := by
    rw [wordsFrom, bind_of_ok (collect_end (.words true) (wordRound_end hs)), if_neg hne]
    rfl
  rw [argumentsFrom, bind_of_ok hwords, trivia_bind, skipTrivia_of_firm hs.firm]

/-- A closing parenthesis ends the arguments. -/
theorem argumentsFrom_paren (hpending : pending ≠ []) (r : List Char) :
    argumentsFrom document found pending (')' :: r) =
      .ok ((listOf .space pending.reverse :: found).reverse, r) := by
  have hround : argumentRound (unbounded document) "not" (')' :: r) = .ok (none, r) := by
    rw [argumentRound, trivia_bind, skipTrivia_cons rfl (by decide), get_bind]
    rfl
  rw [argumentsFrom_end (endsValue_paren r) hpending]
  exact collect_end (.functionArguments "not") hround

/-- An argument begins with a word. -/
theorem arguments_start (hs : BeginsWord s) :
    loop (collecting (argumentRound (unbounded document) "not")) found s =
      argumentsFrom document found [] s := by
  have hround : argumentRound (unbounded document) "not" s =
      (wordsFrom document [] >>= fun arg => trivia >>= fun _ => optional ',' >>= fun _ =>
        pure (some arg)) s := by
    have hskip := skipTrivia_of_firm hs.firm
    obtain ⟨c, t, rfl, -, -, hvalue⟩ := hs
    rw [argumentRound, trivia_bind, hskip, get_bind, (unbounded_closed document).words]
    refine congrFun ?_ (c :: t)
    split
    · next heq => cases heq
    · next heq =>
      cases heq
      cases hvalue
    · rfl
  cases hwords : wordsFrom document [] s with
  | error f =>
    rw [bind_of_error hwords] at hround
    exact (collect_error (.functionArguments "not") hround).trans (bind_of_error hwords).symm
  | ok x =>
    obtain ⟨arg, r⟩ := x
    have hcomma : ∃ u, optional ',' (skipTrivia r) = .ok ((), u) := by
      cases skipTrivia r <;> exact ⟨_, rfl⟩
    obtain ⟨u, hu⟩ := hcomma
    have hsome : argumentRound (unbounded document) "not" s = .ok (some arg, u) := by
      rw [hround, bind_of_ok hwords, trivia_bind, bind_of_ok hu]
      rfl
    rw [collect_next (.functionArguments "not") hsome, argumentsFrom, bind_of_ok hwords,
      trivia_bind, bind_of_ok hu]

/-- White space before the next argument makes no difference. -/
theorem arguments_space (s : List Char) :
    loop (collecting (argumentRound (unbounded document) "not")) found (' ' :: s) =
      loop (collecting (argumentRound (unbounded document) "not")) found s := by
  refine collecting_congr (.functionArguments "not") ?_
  rw [argumentRound, trivia_bind, trivia_bind, skipTrivia_space]

/-- After a comma another argument begins. -/
theorem argumentsFrom_comma (hs : BeginsWord s) (hpending : pending ≠ []) :
    argumentsFrom document found pending (',' :: ' ' :: s) =
      argumentsFrom document (listOf .space pending.reverse :: found) [] s := by
  have hcomma : EndsValue (',' :: ' ' :: s) := ⟨',', _, rfl, rfl⟩
  rw [argumentsFrom_end hcomma hpending, ← arguments_start hs, ← arguments_space]
  rfl

end

/-- A text is taken for words, and perhaps commas between them. -/
def TakenForWords (document : Nat) (text : List Char) : Prop :=
  ∀ found pending, ∃ found' pending', pending' ≠ [] ∧ ∀ r, EndsTerm r →
    argumentsFrom document found pending (text ++ r) = argumentsFrom document found' pending' r

/-- A text is not taken for words. -/
def StopsWords (document : Nat) (text : List Char) : Prop :=
  ∀ found pending r, ∃ f, argumentsFrom document found pending (text ++ r) = .error f

/-- A text goes between words: it ends the one before it, and lets the next one begin. -/
structure JoinsWords (document : Nat) (sep : List Char) : Prop where
  ends : ∀ s, Begins s → EndsTerm (sep ++ s)
  goes : ∀ found pending, pending ≠ [] → ∃ found' pending', ∀ s, Begins s →
    argumentsFrom document found pending (sep ++ s) = argumentsFrom document found' pending' s

section
variable {document : Nat} {e : Expr} {text sep l r : List Char}

/-- What reads as a sum is taken for one word. -/
theorem takenForWords_of_sum (hbegins : Begins text)
    (h : ∀ r, EndsTerm r → sum (unbounded document) true (text ++ r) = .ok (e, r)) :
    TakenForWords document text := by
  intro found pending
  refine ⟨found, e :: pending, List.cons_ne_nil _ _, fun r hr => ?_⟩
  exact argumentsFrom_word (hbegins.append r).word (h r hr) hr.slash

/-- What does not read as a sum stops a list of words. -/
theorem stopsWords_of_error (hbegins : Begins text)
    (h : ∀ r, ∃ f, sum (unbounded document) true (text ++ r) = .error f) :
    StopsWords document text := by
  intro found pending r
  obtain ⟨f, hf⟩ := h r
  exact ⟨f, argumentsFrom_error (hbegins.append r).word hf⟩

/-- Two texts taken for words, with a text between them that goes between words. -/
theorem TakenForWords.join (hl : TakenForWords document l) (hsep : JoinsWords document sep)
    (hbegins : Begins r) (hr : TakenForWords document r) :
    TakenForWords document (l ++ sep ++ r) := by
  intro found pending
  obtain ⟨found₁, pending₁, hne, hleft⟩ := hl found pending
  obtain ⟨found₂, pending₂, hmiddle⟩ := hsep.goes found₁ pending₁ hne
  obtain ⟨found₃, pending₃, hne', hright⟩ := hr found₂ pending₂
  refine ⟨found₃, pending₃, hne', fun u hu => ?_⟩
  have hnext := hbegins.append u
  rw [List.append_assoc, List.append_assoc, hleft _ (hsep.ends _ hnext), hmiddle _ hnext,
    hright u hu]

/-- Words stop where the first of two texts stops them. -/
theorem StopsWords.join_left (hl : StopsWords document l) (sep r : List Char) :
    StopsWords document (l ++ sep ++ r) := by
  intro found pending u
  rw [List.append_assoc, List.append_assoc]
  exact hl found pending _

/-- Words stop where the second of two texts stops them. -/
theorem StopsWords.join_right (hl : TakenForWords document l) (hsep : JoinsWords document sep)
    (hbegins : Begins r) (hr : StopsWords document r) : StopsWords document (l ++ sep ++ r) := by
  intro found pending u
  obtain ⟨found₁, pending₁, hne, hleft⟩ := hl found pending
  obtain ⟨found₂, pending₂, hmiddle⟩ := hsep.goes found₁ pending₁ hne
  have hnext := hbegins.append u
  rw [List.append_assoc, List.append_assoc, hleft _ (hsep.ends _ hnext), hmiddle _ hnext]
  exact hr found₂ pending₂ u

/-- A space goes between words. -/
theorem joinsWords_space : JoinsWords document [' '] where
  ends _ hs := hs.endsTerm
  goes found pending _ := ⟨found, pending, fun s _ => argumentsFrom_space s⟩

/-- A connective between spaces is a word. -/
theorem joinsWords_keyword {name : String} (hname : IsKeyword name) :
    JoinsWords document (' ' :: (name.toList ++ [' '])) := by
  have hword : IsWord (.keyword name) := .keyword hname
  have hbegins : ∀ s, Begins (name.toList ++ s) := fun s => (wordText_begins hword).append s
  refine ⟨fun s _ => (hbegins _).append s |>.endsTerm, fun found pending _ => ?_⟩
  refine ⟨found, .keyword name :: pending, fun s hs => ?_⟩
  have hsum : sum (unbounded document) true (name.toList ++ ' ' :: s) =
      .ok (.keyword name, ' ' :: s) := sum_word hword hs.endsTerm
  rw [List.cons_append, List.append_assoc, argumentsFrom_space, List.singleton_append,
    argumentsFrom_word (hbegins _).word hsum (by simp), argumentsFrom_space]

/-- The sign of a disjunction goes between words: `or` is itself a word, and a comma starts the next
argument. -/
theorem joinsWords_sign (sign : OrSign) : JoinsWords document sign.text := by
  have hcomma : ∀ s, EndsTerm (',' :: s) := fun s => EndsValue.endsTerm ⟨',', s, rfl, rfl⟩
  cases sign with
  | word =>
    have hor : IsKeyword "or" := by decide
    exact joinsWords_keyword hor
  | comma =>
    refine ⟨fun s _ => hcomma _, fun found pending hne => ?_⟩
    exact ⟨listOf .space pending.reverse :: found, [], fun s hs =>
      argumentsFrom_comma hs.word hne⟩
  | spacedComma =>
    refine ⟨fun s _ => ⟨⟨endsName_space _, by simp [OrSign.text]⟩, by simp [OrSign.text], ?_⟩,
      fun found pending hne => ?_⟩
    · have hskip : skipTrivia (OrSign.spacedComma.text ++ s) = ',' :: ' ' :: s :=
        skipTrivia_spaced rfl (by decide) _
      simp [hskip]
    · exact ⟨listOf .space pending.reverse :: found, [], fun s hs =>
        (argumentsFrom_space _).trans (argumentsFrom_comma hs.word hne)⟩

/-- A text that is taken for words is taken for arguments. -/
theorem TakenForWords.arguments (h : TakenForWords document text) (hbegins : Begins text) :
    ∃ args, ∀ r, functionArguments (unbounded document) "not" (text ++ ')' :: r) =
      .ok (args, r) := by
  obtain ⟨found, pending, hne, hwords⟩ := h [] []
  refine ⟨(listOf .space pending.reverse :: found).reverse, fun r => ?_⟩
  have hparen := hwords (')' :: r) (endsValue_paren r).endsTerm
  rw [functionArguments_eq, collect_eq, arguments_start (hbegins.append _).word, hparen,
    argumentsFrom_paren hne]

/-- A text that stops a list of words is not read as the arguments of a function. -/
theorem StopsWords.arguments (h : StopsWords document text) (hbegins : Begins text) :
    ∀ r, ∃ f, functionArguments (unbounded document) "not" (text ++ ')' :: r) = .error f := by
  intro r
  rw [functionArguments_eq, collect_eq, arguments_start (hbegins.append _).word]
  exact h [] [] _

end

/-! ## Values and comparisons as arguments -/

section
variable {document : Nat} {s t : List Char} {e : Expr}

/-- A comparison sign between spaces is a word. -/
theorem signedTerm_sign (op : Comparison) (s : List Char) :
    signedTerm (unbounded document) (op.sign ++ ' ' :: s) =
      .ok (.keyword (String.ofList op.sign), ' ' :: s) := by
  cases op <;> rfl

/-- A minus sign after a comparison sign is taken for an operator between the two. -/
theorem sum_sign_minus (op : Comparison) (ht : Begins t) (hs : EndsOperand s)
    (h : product (unbounded document) true (t ++ s) = .ok (e, s)) :
    sum (unbounded document) true (op.sign ++ ' ' :: '-' :: (t ++ s)) =
      .ok (.operation .subtract (.keyword (String.ofList op.sign)) e, s) := by
  have hskip : skipTrivia (' ' :: '-' :: (t ++ s)) = '-' :: (t ++ s) :=
    skipTrivia_spaced rfl (by decide) _
  have hsign : product (unbounded document) true (op.sign ++ ' ' :: '-' :: (t ++ s)) =
      .ok (.keyword (String.ofList op.sign), ' ' :: '-' :: (t ++ s)) :=
    chainLeft_single (.product true) (signedTerm_sign op _)
      (productOperator?_eq_none (by simp [hskip]))
  have hminus : sumOperator? true (' ' :: '-' :: (t ++ s)) =
      some (.operation .subtract, t ++ s) := by
    simp [sumOperator?, hskip, startsWord, skipTrivia_of_firm (ht.append s).firm]
  have hend : sumOperator? true s = none := sumOperator?_eq_none fun c hc hmem =>
    hs.endsTerm.operator c hc (List.mem_append_right ['/', '*'] hmem)
  rw [sum, chainLeft_first hsign, chain_next (.sum true) hminus h, chain_end (.sum true) hend]

/-- A comparison sign and a value after it are taken: for a word each, or for a difference. -/
theorem argumentsFrom_sign (op : Comparison) (v : Operand) (found pending : List Expr) :
    ∃ pending', pending' ≠ [] ∧ ∀ r,
      argumentsFrom document found pending (op.sign ++ ' ' :: (v.text ++ ')' :: r)) =
        argumentsFrom document found pending' (')' :: r) := by
  have hbegins : ∀ t, BeginsWord (op.sign ++ t) := fun t => (sign_begins op t).word
  rcases v.start with hplain | ⟨body, hminus, hbody, hunsigned⟩
  · refine ⟨v.expr :: .keyword (String.ofList op.sign) :: pending, List.cons_ne_nil _ _,
      fun r => ?_⟩
    have hsum : sum (unbounded document) true (op.sign ++ ' ' :: (v.text ++ ')' :: r)) =
        .ok (.keyword (String.ofList op.sign), ' ' :: (v.text ++ ')' :: r)) :=
      sum_of_signedTerm (signedTerm_sign op _) (hplain.append _).endsTerm.operator
    rw [argumentsFrom_word (hbegins _) hsum (by simp), argumentsFrom_space,
      argumentsFrom_word (hplain.append _).word (v.reads document (.paren r)) (by simp)]
  · obtain ⟨e, he⟩ := hunsigned document
    refine ⟨.operation .subtract (.keyword (String.ofList op.sign)) e :: pending,
      List.cons_ne_nil _ _, fun r => ?_⟩
    have hsum := sum_sign_minus op hbody (.paren r) (he _ (.paren r))
    rw [hminus]
    exact argumentsFrom_word (hbegins _) hsum (by simp)

/-- A value passes for an argument. -/
theorem arguments_value (v : Operand) :
    ∃ args, ∀ r, functionArguments (unbounded document) "not" (v.text ++ ')' :: r) =
      .ok (args, r) := by
  refine ⟨[v.expr], fun r => ?_⟩
  have hbegins := v.start.word.append (')' :: r)
  rw [functionArguments_eq, collect_eq, arguments_start hbegins,
    argumentsFrom_word hbegins (v.reads document (.paren r)) (by simp),
    argumentsFrom_paren (List.cons_ne_nil _ _)]
  rfl

/-- A comparison passes for an argument. -/
theorem arguments_compare (op : Comparison) (lhs rhs : Operand) :
    ∃ args, ∀ r, functionArguments (unbounded document) "not"
      (lhs.text ++ ' ' :: (op.sign ++ ' ' :: (rhs.text ++ ')' :: r))) = .ok (args, r) := by
  obtain ⟨pending, hne, hsign⟩ := argumentsFrom_sign op rhs [] [lhs.expr]
  refine ⟨[listOf .space pending.reverse], fun r => ?_⟩
  have hbegins := lhs.start.word.append (' ' :: (op.sign ++ ' ' :: (rhs.text ++ ')' :: r)))
  rw [functionArguments_eq, collect_eq, arguments_start hbegins,
    argumentsFrom_word hbegins (lhs.reads document (.sign op _)) (by simp), argumentsFrom_space,
    hsign, argumentsFrom_paren hne]
  rfl

/-! ## Functions -/

/-- Directly before a parenthesis `not` is the name of a function. -/
theorem signedTerm_not (L : Level) (s : List Char) :
    signedTerm L ("not".toList ++ '(' :: s) =
      (Expr.function "not" <$> functionArguments L "not") s := by
  have hname : IsName "not" := by decide
  have hnumeral : numeral? ("not".toList ++ '(' :: s) = none := numeral?_of_isAlpha rfl _
  have hstart : ("not".toList ++ '(' :: s).head?.any startsKeyword = true := by
    simp [startsKeyword, isLetter_of_isAlpha]
  have hplain : signedTerm L ("not".toList ++ '(' :: s) = plainTerm L ("not".toList ++ '(' :: s) :=
    signedTerm_of_isAlpha rfl _
  have hends : EndsName ('(' :: s) := endsName_cons rfl s
  have hraw : ¬ isRawFunction "not".toList = true := by decide
  rw [hplain]
  simp only [plainTerm, hnumeral, hstart, if_true, keywordOrFunction, identifier_name hname hends,
    if_neg hraw, String.ofList_toList]

end

end Grammar

/-! ## What the text of a guard is taken for -/

namespace GuardTree

/-- What becomes of trials on the text of a guard. On an atom a trial that fails does so at once,
and what follows its parenthesis may be arguments. -/
structure Tried (document : Nat) {k : GuardKind} (t : GuardTree k) : Prop where
  value : t.passesFor .value = true →
    ∃ e, (∀ r, EndsTerm r → sum (unbounded document) true (t.text ++ r) = .ok (e, r)) ∧
      (.truthy e = t.meaning ↔ t.clear = true ∧ t.isCall = false)
  blocked : t.passesFor .value = false →
    ∀ r, Blocked comparisonChars (sum (unbounded document) true (t.text ++ r))
  words : t.passesFor .words = true → TakenForWords document t.text
  stops : t.passesFor .words = false → StopsWords document t.text
  fails : k = .atom → t.passesFor .value = false →
    ∀ r, ∃ f, sum (unbounded document) true (t.text ++ r) = .error f
  arguments : k = .atom → t.passesFor .arguments = true →
    ∃ args, ∀ r, functionArguments (unbounded document) "not" (t.text.tail ++ r) = .ok (args, r)
  noArguments : k = .atom → t.passesFor .arguments = false →
    ∀ r, ∃ f, functionArguments (unbounded document) "not" (t.text.tail ++ r) = .error f

section
variable {document : Nat} {k : GuardKind}

/-- An atom begins with its parenthesis. -/
theorem text_atom (a : GuardTree .atom) : a.text = '(' :: a.text.tail := by cases a <;> rfl

/-- An atom is one word. -/
theorem passesFor_words_atom (a : GuardTree .atom) :
    a.passesFor .words = a.passesFor .value := by
  cases a <;> rfl

/-- On an atom, words are what reads as a value, so it is enough to try values and arguments. -/
theorem Tried.of_atom {t : GuardTree .atom}
    (hvalue : t.passesFor .value = true →
      ∃ e, (∀ r, EndsTerm r → sum (unbounded document) true (t.text ++ r) = .ok (e, r)) ∧
        (.truthy e = t.meaning ↔ t.clear = true ∧ t.isCall = false))
    (hfails : t.passesFor .value = false →
      ∀ r, ∃ f, sum (unbounded document) true (t.text ++ r) = .error f)
    (harguments : t.passesFor .arguments = true → ∃ args, ∀ r,
      functionArguments (unbounded document) "not" (t.text.tail ++ r) = .ok (args, r))
    (hno : t.passesFor .arguments = false →
      ∀ r, ∃ f, functionArguments (unbounded document) "not" (t.text.tail ++ r) = .error f) :
    t.Tried document where
  value := hvalue
  blocked h r := .of_error (hfails h r)
  words h := by
    obtain ⟨e, hread, -⟩ := hvalue (t.passesFor_words_atom ▸ h)
    exact takenForWords_of_sum t.text_begins hread
  stops h := stopsWords_of_error t.text_begins (hfails (t.passesFor_words_atom ▸ h))
  fails _ := hfails
  arguments _ := harguments
  noArguments _ := hno

/-- A value in parentheses passes everywhere. -/
theorem tried_value (v : Operand) : (GuardTree.value v).Tried document := by
  refine .of_atom (fun _ => ⟨v.expr, fun r hr => ?_, iff_of_true rfl ⟨rfl, rfl⟩⟩) nofun
    (fun _ => ?_) nofun
  · simpa [text] using sum_paren (v.firm _) (v.reads document (.paren r)) hr.operator
  · simpa [text] using arguments_value v

/-- A comparison passes for arguments only, where its sign is a word. -/
theorem tried_compare (op : Comparison) (lhs rhs : Operand) :
    (GuardTree.compare op lhs rhs).Tried document := by
  refine .of_atom nofun (fun _ r => ?_) (fun _ => ?_) nofun
  · have hsign := lhs.reads document (.sign op (rhs.text ++ ')' :: r))
    simpa [text] using sum_compare_error (lhs.firm _) hsign
  · simpa [text] using arguments_compare op lhs rhs

/-- Parentheses around a guard group a value if it passes for one, and are those of a function if it
passes for words. -/
theorem tried_group {inner : GuardTree .guard} (h : inner.Tried document) :
    inner.group.Tried document := by
  have hfirm : ∀ r, Firm (inner.text ++ r) := fun r => (inner.text_begins.append r).firm
  refine .of_atom (fun hvalue => ?_) (fun hvalue r => ?_) (fun hwords => ?_) fun hwords => ?_
  · obtain ⟨e, hread, hmeaning⟩ := h.value hvalue
    refine ⟨e, fun r hr => ?_, ?_⟩
    · have hinner := hread (')' :: r) (endsValue_paren r).endsTerm
      simpa [text] using sum_paren (hfirm _) hinner hr.operator
    · simpa [meaning, clear, isCall] using hmeaning
  · have hinner : Blocked [')'] (sum (unbounded document) true (inner.text ++ ')' :: r)) :=
      (h.blocked hvalue _).mono (by decide)
    simpa [text] using sum_paren_error (hfirm _) hinner
  · simpa [text] using (h.words hwords).arguments inner.text_begins
  · simpa [text] using (h.stops hwords).arguments inner.text_begins

/-- The word `not` and the atom after it are words. -/
theorem tried_not_spaced {a : GuardTree .atom} (h : a.Tried document) :
    (GuardTree.not .spaced a).Tried document := by
  have hword : IsWord (.keyword "not") := .keyword (by decide)
  have hnot : TakenForWords document "not".toList :=
    takenForWords_of_sum (wordText_begins hword) fun r hr => sum_word hword hr
  refine ⟨nofun, fun _ r => ?_, fun hvalue => ?_, fun hvalue => ?_, nofun, nofun, nofun⟩
  · rw [text, text_atom, List.append_assoc]
    exact blocked_not _
  · exact hnot.join joinsWords_space a.text_begins
      (h.words (a.passesFor_words_atom.trans hvalue))
  · exact .join_right hnot joinsWords_space a.text_begins
      (h.stops (a.passesFor_words_atom.trans hvalue))

/-- Without the space `not` is a function, if its operand passes for arguments. -/
theorem tried_not_tight {a : GuardTree .atom} (h : a.Tried document) :
    (GuardTree.not .tight a).Tried document := by
  have hterm : ∀ r, signedTerm (unbounded document) ((GuardTree.not .tight a).text ++ r) =
      (Expr.function "not" <$> functionArguments (unbounded document) "not")
        (a.text.tail ++ r) := by
    intro r
    rw [text, text_atom, List.append_assoc]
    exact signedTerm_not _ _
  have hbegins := text_begins (.not .tight a)
  have hvalue : a.passesFor .arguments = true → ∃ args, ∀ r, EndsTerm r →
      sum (unbounded document) true ((GuardTree.not .tight a).text ++ r) =
        .ok (.function "not" args, r) := by
    intro hpasses
    obtain ⟨args, hargs⟩ := h.arguments rfl hpasses
    refine ⟨args, fun r hr => sum_of_signedTerm ?_ hr.operator⟩
    rw [hterm, map_of_ok _ (hargs r)]
  have hfails : a.passesFor .arguments = false → ∀ r, ∃ f,
      sum (unbounded document) true ((GuardTree.not .tight a).text ++ r) = .error f := by
    intro hpasses r
    obtain ⟨f, hf⟩ := h.noArguments rfl hpasses r
    refine ⟨f, sum_error_of_signedTerm ?_⟩
    rw [hterm, map_apply, hf]
  refine ⟨fun hpasses => ?_, fun hpasses r => .of_error (hfails hpasses r), fun hpasses => ?_,
    fun hpasses => stopsWords_of_error hbegins (hfails hpasses), nofun, nofun, nofun⟩
  · obtain ⟨args, hread⟩ := hvalue hpasses
    refine ⟨_, hread, iff_of_false nofun fun hclear => ?_⟩
    exact Bool.false_ne_true (hclear.2.symm.trans hpasses)
  · obtain ⟨args, hread⟩ := hvalue hpasses
    exact takenForWords_of_sum hbegins hread

/-- A connective leaves no value behind its first operand, and is a word itself or a comma. -/
theorem Tried.join {k₁ k₂ : GuardKind} {lhs : GuardTree k₁} {rhs : GuardTree k₂} {t : GuardTree k}
    {sep : List Char} (hl : lhs.Tried document) (hr : rhs.Tried document)
    (hsep : JoinsWords document sep) (hjoint : ∀ s, Joint (sep ++ s))
    (htext : t.text = lhs.text ++ sep ++ rhs.text) (hvalue : t.passesFor .value = false)
    (hwords : t.passesFor .words = (lhs.passesFor .words && rhs.passesFor .words))
    (hk : k ≠ .atom) : t.Tried document where
  value h := absurd (hvalue.symm.trans h) Bool.false_ne_true
  blocked _ r := by
    rw [htext, List.append_assoc, List.append_assoc]
    cases hleft : lhs.passesFor .value with
    | false => exact hl.blocked hleft _
    | true =>
      obtain ⟨e, hread, -⟩ := hl.value hleft
      rw [hread _ (hsep.ends _ (rhs.text_begins.append r))]
      exact (hjoint _).blocked.2
  words h := by
    obtain ⟨hleft, hright⟩ := Bool.and_eq_true_iff.1 (hwords.symm.trans h)
    rw [htext]
    exact (hl.words hleft).join hsep rhs.text_begins (hr.words hright)
  stops h := by
    rw [htext]
    cases hleft : lhs.passesFor .words with
    | false => exact (hl.stops hleft).join_left _ _
    | true =>
      rw [hwords, hleft, Bool.true_and] at h
      exact .join_right (hl.words hleft) hsep rhs.text_begins (hr.stops h)
  fails h := absurd h hk
  arguments h := absurd h hk
  noArguments h := absurd h hk

/-- The grammar takes the text of a guard for what it passes for, and for nothing else. -/
theorem tried (document : Nat) (t : GuardTree k) : t.Tried document := by
  induction t with
  | value v => exact tried_value v
  | compare op lhs rhs => exact tried_compare op lhs rhs
  | group _ ih => exact tried_group ih
  | atom _ ih | factor _ ih | conjunction _ ih =>
    exact ⟨ih.value, ih.blocked, ih.words, ih.stops, nofun, nofun, nofun⟩
  | not sign _ ih =>
    cases sign with
    | spaced => exact tried_not_spaced ih
    | tight => exact tried_not_tight ih
  | and _ _ ihl ihr =>
    have hand : IsKeyword "and" := by decide
    exact .join ihl ihr (joinsWords_keyword hand) joint_and rfl rfl rfl nofun
  | or sign _ _ ihl ihr =>
    exact .join ihl ihr (joinsWords_sign sign) (joint_or sign) rfl rfl rfl nofun

/-! ## Reading -/

/-- The word `not` before a parenthesis negates the atom, with or without a space. -/
theorem guardFactor_negation {L : Level} {c : Condition} {s r : List Char} (sign : NotSign)
    (h : guardAtom L ('(' :: s) = .ok (c, r)) :
    guardFactor L (sign.text ++ '(' :: s) = .ok (.not c, r) := by
  cases sign with
  | spaced => exact guardFactor_not (endsName_space _) ((guardAtom_space _).trans h)
  | tight => exact guardFactor_not (endsName_cons rfl s) h

/-- Parentheses around a guard hold a value if the guard passes for one, and the guard if not. -/
theorem reads_group {inner : GuardTree .guard}
    (h : ∃ c, (guardOperators document).Reads 0 inner.text c ∧
      (c = inner.meaning ↔ inner.clear = true)) :
    ∃ c, (guardOperators document).Reads 3 inner.group.text c ∧
      (c = inner.group.meaning ↔ inner.group.clear = true) := by
  have htried := tried document inner
  have hfirm : ∀ r, Firm (inner.text ++ r) := fun r => (inner.text_begins.append r).firm
  cases hvalue : inner.passesFor .value with
  | true =>
    obtain ⟨e, hread, hmeaning⟩ := htried.value hvalue
    refine ⟨.truthy e, .of_atom (fun _ => guardFactor_paren _) fun r _ => ?_, ?_⟩
    · have hsum := hread (')' :: r) (endsValue_paren r).endsTerm
      refine guardAtom_of_comparison ?_
      simpa using comparison_truthy (hfirm _) hsum
    · simpa [meaning, clear] using hmeaning
  | false =>
    obtain ⟨c, hread, hmeaning⟩ := h
    have hcall : inner.isCall = false := by
      refine Bool.eq_false_iff.2 fun hcall => ?_
      exact Bool.false_ne_true (hvalue.symm.trans (passesFor_of_isCall hcall))
    refine ⟨c, .of_atom (fun _ => guardFactor_paren _) fun r _ => ?_, ?_⟩
    · have htrial := comparison_of_blocked (hfirm _) (htried.blocked hvalue (')' :: r))
      rw [text, List.cons_append, List.append_assoc]
      exact guardAtom_parens htrial hread
    · simpa [meaning, clear, hcall] using hmeaning

/-- A guard is read as a condition by the productions of its kind, and the condition is what it was
meant for exactly if the guard is clear. -/
theorem reads (document : Nat) (t : GuardTree k) :
    ∃ c, (guardOperators document).Reads k.strength t.text c ∧
      (c = t.meaning ↔ t.clear = true) := by
  induction t with
  | value v =>
    refine ⟨.truthy v.expr, .of_atom (fun _ => guardFactor_paren _) fun r _ => ?_,
      iff_of_true rfl rfl⟩
    refine guardAtom_of_comparison ?_
    simpa using comparison_truthy (v.firm _) (v.reads document (.paren r))
  | compare op lhs rhs =>
    refine ⟨.compare op lhs.expr rhs.expr, .of_atom (fun _ => guardFactor_paren _) fun r _ => ?_,
      iff_of_true rfl rfl⟩
    refine guardAtom_of_comparison ?_
    simpa using comparison_compare (lhs.firm _) (lhs.reads document (.sign op _)) (rhs.firm _)
      (rhs.reads document (.paren r))
  | group _ ih => exact reads_group ih
  | atom _ ih | factor _ ih | conjunction _ ih =>
    obtain ⟨c, hread, hmeaning⟩ := ih
    exact ⟨c, hread.mono (by decide), hmeaning⟩
  | not sign a ih =>
    obtain ⟨c, hread, hmeaning⟩ := ih
    refine ⟨.not c, .of_operand fun r hr => ?_, by simpa [meaning, clear] using hmeaning⟩
    have hatom := hread.atom (Nat.le_refl 3) r hr
    rw [text_atom] at hatom
    rw [text, text_atom, List.append_assoc]
    exact guardFactor_negation sign hatom
  | and _ _ ihl ihr =>
    obtain ⟨c, hl, hc⟩ := ihl
    obtain ⟨d, hr, hd⟩ := ihr
    refine ⟨.and c d, .tight_operation hl hr (fun _ => trivial) fun t =>
      ⟨_, andOperator?_and _, guardFactor_space _⟩, ?_⟩
    simp [meaning, clear, hc, hd]
  | or sign _ _ ihl ihr =>
    obtain ⟨c, hl, hc⟩ := ihl
    obtain ⟨d, hr, hd⟩ := ihr
    refine ⟨.or c d, .loose_operation hl hr (fun _ => trivial) (andOperator?_sign sign) fun t =>
      ⟨_, orOperator?_sign sign _, conjunction_space _⟩, ?_⟩
    simp [meaning, clear, hc, hd]

/-- The search for the start of a block passes over every guard. -/
theorem text_passes (t : GuardTree k) : PassesOver t.text := by
  have hplain : ∀ text : List Char, (['{', '(', ')'].all fun c => c ∉ text) = true →
      PassesOver text := fun _ h => passesOver_of_not_mem (List.all_iff_forall_prop.1 h)
  induction t with
  | value v => exact v.passes.parens
  | compare op lhs rhs =>
    have hsign : PassesOver (' ' :: (op.sign ++ [' '])) := by
      cases op <;> exact hplain _ (by decide)
    have h := ((lhs.passes.append hsign).append rhs.passes).parens
    simpa [text] using h
  | group _ ih => exact ih.parens
  | atom _ ih | factor _ ih | conjunction _ ih => exact ih
  | not sign _ ih =>
    have hsign : PassesOver sign.text := by cases sign <;> exact hplain _ (by decide)
    exact hsign.append ih
  | and _ _ ihl ihr => exact (ihl.append (hplain _ (by decide))).append ihr
  | or sign _ _ ihl ihr =>
    have hsign : PassesOver sign.text := by cases sign <;> exact hplain _ (by decide)
    exact (ihl.append hsign).append ihr

/-- A guard in the definition of a mixin without parameters and statements. -/
def definition (name : String) (t : GuardTree k) : String :=
  name ++ "() when " ++ String.ofList t.text ++ " \x7b\x7d"

/-- A definition with the condition that a guard is meant for. -/
theorem parse_definition (document : Nat) {name : String} (hname : IsSegment name)
    (t : GuardTree k) :
    Stylesheet.parse (t.definition name) document = .ok ⟨[], [.mixin
      ⟨document, (t.definition name).length⟩ ⟨name, [], some t.meaning, []⟩]⟩ ↔
        t.clear = true := by
  have htext : t.definition name = String.ofList (name.toList ++
      ("() when ".toList ++ (t.text ++ " \x7b\x7d".toList))) := by
    apply String.toList_inj.1
    simp [definition]
  have hlength : (t.definition name).length = (name.toList ++
      ("() when ".toList ++ (t.text ++ " \x7b\x7d".toList))).length := by
    rw [htext, String.length_ofList]
  obtain ⟨c, hread, hmeaning⟩ := t.reads document
  have hitem := item_guardText hname t.text_passes (hread.mono (Nat.zero_le _))
  rw [hlength, htext, parse_single hname.firm hname.importHead? hitem rfl]
  simpa using hmeaning

end

end GuardTree

/-- A guard with a space after each `not` is read as the condition it is meant for. Without some of
the spaces it is so exactly if no parentheses stand around just a `not` and an operand that passes
for the arguments of a function. -/
theorem Stylesheet.parse_negation (document : Nat) {name : String} (hname : IsSegment name)
    (t : GuardTree .guard) :
    Stylesheet.parse (t.spaced.definition name) document = .ok ⟨[], [.mixin
      ⟨document, (t.spaced.definition name).length⟩ ⟨name, [], some t.meaning, []⟩]⟩ ∧
    (Stylesheet.parse (t.definition name) document = .ok ⟨[], [.mixin
      ⟨document, (t.definition name).length⟩ ⟨name, [], some t.meaning, []⟩]⟩ ↔
        t.clear = true) := by
  have hspaced := (t.spaced.parse_definition document hname).2 t.clear_spaced
  rw [t.meaning_spaced] at hspaced
  exact ⟨hspaced, t.parse_definition document hname⟩

/-- Without spaces, at the start of a guard, in parentheses before an operand that has a comparison
in it, and after a connective. -/
theorem Stylesheet.parse_negation_nested :
    Stylesheet.parse ".m() when not(@a) and (not((@b > -@c) or not(d))) \x7b\x7d" =
      .ok ⟨[], [.mixin ⟨0, 52⟩ ⟨".m", [], some (.and (.not (.truthy (.ref "a")))
        (.not (.or (.compare .greater (.ref "b") (.negate (.ref "c")))
          (.not (.truthy (.keyword "d")))))), []⟩]⟩ := by
  have hparse : ∀ (source : String) (length : Nat) (t : GuardTree .guard), t.clear = true →
      t.definition ".m" = source → source.length = length →
        Stylesheet.parse source =
          .ok ⟨[], [.mixin ⟨0, length⟩ ⟨".m", [], some t.meaning, []⟩]⟩ := by
    rintro _ _ t hclear rfl rfl
    exact (Stylesheet.parse_negation 0 (by decide) t).2.2 hclear
  let a : GuardTree .atom := .value (.word (.ref "a") (.ref (by decide)))
  let d : GuardTree .atom := .value (.word (.keyword "d") (.keyword (by decide)))
  let greater : GuardTree .atom := .compare .greater (.word (.ref "b") (.ref (by decide)))
    (.negated "c" (by decide))
  let inner : GuardTree .guard :=
    .or .word (.conjunction (.factor (.atom greater))) (.factor (.not .tight d))
  let negation : GuardTree .guard := .conjunction (.factor (.not .tight (.group inner)))
  refine hparse _ _
    (.conjunction (.and (.factor (.not .tight a)) (.atom (.group negation)))) ?_ ?_ ?_
  · decide
  · decide
  · decide

/-- A negation in parentheses is taken for the call of a function. -/
theorem negation_taken_for_call :
    ((Stylesheet.parse ".m() when (not(@a)) \x7b\x7d").toOption.bind fun sheet =>
      match sheet.body with
      | [.mixin _ ⟨_, _, some (.truthy (.function name [.ref arg])), _⟩] => some (name, arg)
      | _ => none) = some ("not", "a") ∧
    ∀ site, Stylesheet.parse ".m() when (not(@a)) \x7b\x7d" ≠
      .ok ⟨[], [.mixin site ⟨".m", [], some (.not (.truthy (.ref "a"))), []⟩]⟩ := by
  have hcall : ((Stylesheet.parse ".m() when (not(@a)) \x7b\x7d").toOption.bind fun sheet =>
      match sheet.body with
      | [.mixin _ ⟨_, _, some (.truthy (.function name [.ref arg])), _⟩] => some (name, arg)
      | _ => none) = some ("not", "a") := by
    decide +kernel
  refine ⟨hcall, fun site h => ?_⟩
  rw [h] at hcall
  cases hcall

end LessSheet
