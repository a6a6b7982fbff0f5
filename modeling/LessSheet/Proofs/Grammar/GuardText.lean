import LessSheet.Proofs.Grammar.Precedence

/-! # Guards as they are written

A guard is written with as few parentheses as its connectives need, and read back from its text.

A parenthesis may open a value, a comparison or a guard. The grammar tries the first two, and what
it reads there is a sum: it may take a first atom that is a value in parentheses for one. But then a
connective follows, and no closing parenthesis (`sum_blocked`), so that the trial fails on every
compound guard (`comparison_fails`). With that, guards are read by strength as formulas are
(`text_reads`).
-/

namespace LessSheet

open Grammar

/-! ## The text of a guard -/

/-- Conditions on words. -/
inductive Condition.OnWords : Condition → Prop where
  | truthy {e : Expr} : IsWord e → OnWords (.truthy e)
  | compare {op : Comparison} {lhs rhs : Expr} : IsWord lhs → IsWord rhs →
    OnWords (.compare op lhs rhs)
  | not {inner : Condition} : OnWords inner → OnWords (.not inner)
  | and {lhs rhs : Condition} : OnWords lhs → OnWords rhs → OnWords (.and lhs rhs)
  | or {lhs rhs : Condition} : OnWords lhs → OnWords rhs → OnWords (.or lhs rhs)

/-- How tightly a condition binds: as a disjunction, a conjunction, a negation or an atom. -/
def Condition.strength : Condition → Nat
  | .truthy _ | .compare _ _ _ => 3
  | .not _ => 2
  | .and _ _ => 1
  | .or _ _ => 0

/-- How a comparison is written. -/
def Comparison.sign : Comparison → List Char
  | .equal => ['=']
  | .greater => ['>']
  | .greaterOrEqual => ['>', '=']
  | .less => ['<']
  | .lessOrEqual => ['<', '=']

/-- The ways to write a disjunction. -/
inductive OrSign where
  | word
  | comma
  | spacedComma

/-- What stands between two parts of a disjunction. -/
def OrSign.text : OrSign → List Char
  | .word => " or ".toList
  | .comma => ", ".toList
  | .spacedComma => " , ".toList

/-- The operands of a connective. -/
inductive Side where
  | left
  | right

/-- A guard as it is written. Each disjunction in it has its own sign, which `signs` chooses by the
operands that lead to it. Connectives group to the left. -/
def Condition.text (signs : List Side → OrSign) : Condition → List Char
  | .truthy e => '(' :: (wordText e ++ [')'])
  | .compare op lhs rhs =>
    '(' :: (wordText lhs ++ ' ' :: (op.sign ++ ' ' :: (wordText rhs ++ [')'])))
  | .not inner => "not ".toList ++ enclose inner.strength 3 (inner.text signs)
  | .and lhs rhs =>
    enclose lhs.strength 1 (lhs.text fun path => signs (.left :: path)) ++ " and ".toList ++
      enclose rhs.strength 2 (rhs.text fun path => signs (.right :: path))
  | .or lhs rhs =>
    (lhs.text fun path => signs (.left :: path)) ++ (signs []).text ++
      enclose rhs.strength 1 (rhs.text fun path => signs (.right :: path))

namespace Grammar

/-! ## Atoms -/

section
variable {document : Nat} {e lhs rhs : Expr} {op : Comparison} {s t r : List Char}

/-- A comparison sign with a space behind it is read as that comparison. -/
theorem comparison?_sign (op : Comparison) (s : List Char) :
    comparison? (op.sign ++ ' ' :: s) = some (op, ' ' :: s) := by
  cases op <;> rfl

/-- A comparison sign ends a word. -/
theorem sign_begins (op : Comparison) (s : List Char) : Begins (op.sign ++ s) := by
  cases op <;> exact ⟨_, _, rfl, rfl, by decide, rfl⟩

/-- A closing parenthesis ends a value. -/
theorem endsValue_paren (s : List Char) : EndsValue (')' :: s) := ⟨')', s, rfl, rfl⟩

/-- A value up to the parenthesis is asked whether it is true. -/
theorem comparison_truthy (hs : Firm s)
    (hsum : sum (unbounded document) true s = .ok (e, ')' :: r)) :
    comparison (unbounded document) s = .ok (.truthy e, r) := by
  rw [comparison, trivia_bind, skipTrivia_of_firm hs, bind_of_ok hsum, trivia_bind,
    skipTrivia_of_firm (endsValue_paren r).firm, get_bind]
  simp only [comparison?]
  rfl

/-- A value, a sign and a value up to the parenthesis are a comparison. -/
theorem comparison_compare (hs : Firm s)
    (hlhs : sum (unbounded document) true s = .ok (lhs, ' ' :: (op.sign ++ ' ' :: t)))
    (ht : Firm t) (hrhs : sum (unbounded document) true t = .ok (rhs, ')' :: r)) :
    comparison (unbounded document) s = .ok (.compare op lhs rhs, r) := by
  rw [comparison, trivia_bind, skipTrivia_of_firm hs, bind_of_ok hlhs, trivia_bind,
    skipTrivia_space, skipTrivia_of_firm (sign_begins op _).firm, get_bind]
  simp only [comparison?_sign, set_bind, trivia_bind, skipTrivia_space]
  rw [skipTrivia_of_firm ht, bind_of_ok hrhs, trivia_bind,
    skipTrivia_of_firm (endsValue_paren r).firm, expect_bind]
  rfl

/-- A word before a closing parenthesis. -/
theorem sum_word_paren (he : IsWord e) (r : List Char) :
    sum (unbounded document) true (wordText e ++ ')' :: r) = .ok (e, ')' :: r) :=
  sum_word he (endsValue_paren r).endsTerm

/-- A word before a comparison sign. -/
theorem sum_word_sign (he : IsWord e) (op : Comparison) (t : List Char) :
    sum (unbounded document) true (wordText e ++ ' ' :: (op.sign ++ t)) =
      .ok (e, ' ' :: (op.sign ++ t)) :=
  sum_word he (sign_begins op t).endsTerm

end

/-! ## The trial of a comparison -/

/-- Reading fails, or leaves a text that goes on with none of these characters. -/
def Blocked (chars : List Char) : Except Failure (Expr × List Char) → Prop
  | .ok (_, r) => ∃ c t, skipTrivia r = c :: t ∧ c ∉ chars
  | .error _ => True

/-- The characters that go on with a value in a comparison. -/
def comparisonChars : List Char := [')', '=', '<', '>']

/-- A text in which a connective follows. -/
def Joint (s : List Char) : Prop := ∃ c t, skipTrivia s = c :: t ∧ c ∈ ['a', 'o', ',']

section
variable {document : Nat} {c : Condition} {s t : List Char}

/-- A conjunction follows before `and`. -/
theorem joint_and (s : List Char) : Joint (" and ".toList ++ s) :=
  ⟨'a', _, skipTrivia_spaced rfl (by decide) _, by decide⟩

/-- After white space the sign of a disjunction is `or` or a comma. -/
theorem skipTrivia_sign (sign : OrSign) (s : List Char) :
    skipTrivia (sign.text ++ s) = "or".toList ++ ' ' :: s ∨
      skipTrivia (sign.text ++ s) = ',' :: ' ' :: s := by
  cases sign with
  | word => exact .inl (skipTrivia_spaced rfl (by decide) _)
  | comma => exact .inr (skipTrivia_cons rfl (by decide) _)
  | spacedComma => exact .inr (skipTrivia_spaced rfl (by decide) _)

/-- A disjunction follows before each of its signs. -/
theorem joint_or (sign : OrSign) (s : List Char) : Joint (sign.text ++ s) := by
  rcases skipTrivia_sign sign s with h | h
  · exact ⟨'o', _, h, by decide⟩
  · exact ⟨',', _, h, by decide⟩

/-- Every condition begins with a parenthesis or with `not`. -/
theorem text_begins (hc : c.OnWords) (signs : List Side → OrSign) : Begins (c.text signs) := by
  induction hc generalizing signs with
  | truthy _ => exact begins_paren _
  | compare _ _ => exact begins_paren _
  | not _ _ => exact ⟨'n', _, rfl, rfl, by decide, rfl⟩
  | and _ _ ihl _ =>
    rw [Condition.text, List.append_assoc]
    exact ((ihl _).enclose _ _).append _
  | or _ _ ihl _ =>
    rw [Condition.text, List.append_assoc]
    exact (ihl _).append _

/-- A condition in the place of an atom stands in parentheses. -/
theorem enclose_atom (hc : c.OnWords) (signs : List Side → OrSign) :
    ∃ t, enclose c.strength 3 (c.text signs) = '(' :: t := by
  by_cases h : c.strength < 3
  · exact ⟨_, if_pos h⟩
  · rw [enclose, if_neg h]
    cases hc with
    | truthy _ => exact ⟨_, rfl⟩
    | compare _ _ => exact ⟨_, rfl⟩
    | not _ => exact absurd (Nat.lt_succ_self 2) h
    | and _ _ => exact absurd (Nat.succ_lt_succ (Nat.succ_pos 1)) h
    | or _ _ => exact absurd (Nat.succ_pos 2) h

/-- A sum fails if its first term does. -/
theorem sum_error_of_signedTerm {f : Failure} (h : signedTerm (unbounded document) s = .error f) :
    sum (unbounded document) true s = .error f := by
  have hproduct : product (unbounded document) true s = .error f := by
    rw [product, chainLeft_eq]
    exact bind_of_error h
  rw [sum, chainLeft_eq]
  exact bind_of_error hproduct

/-- What stands in a parenthesis is no value if it is not read up to a closing one. -/
theorem sum_paren_error (hs : Firm s) (h : Blocked [')'] (sum (unbounded document) true s)) :
    ∃ f, sum (unbounded document) true ('(' :: s) = .error f := by
  suffices hterm : ∃ f, term (unbounded document) ('(' :: s) = .error f by
    obtain ⟨f, hf⟩ := hterm
    exact ⟨f, sum_error_of_signedTerm hf⟩
  simp only [term, trivia_bind, skipTrivia_of_firm hs, (unbounded_closed document).sum]
  cases hsum : sum (unbounded document) true s with
  | error f => exact ⟨f, bind_of_error hsum⟩
  | ok x =>
    obtain ⟨e, r⟩ := x
    rw [hsum] at h
    obtain ⟨d, t, hskip, hd⟩ := h
    have hne : d ≠ ')' := fun heq => hd (List.mem_singleton.2 heq)
    rw [bind_of_ok hsum, trivia_bind, hskip]
    exact ⟨_, expect_bind_error hne _ t⟩

/-- A value in parentheses is a value. -/
theorem sum_paren {e : Expr} (hs : Firm s)
    (h : sum (unbounded document) true s = .ok (e, ')' :: t))
    (ht : ∀ c ∈ (skipTrivia t).head?, c ∉ ['/', '*', '+', '-']) :
    sum (unbounded document) true ('(' :: s) = .ok (e, t) := by
  have hterm : signedTerm (unbounded document) ('(' :: s) = .ok (e, t) := term_paren hs h
  exact sum_of_signedTerm hterm ht

/-- What goes on with none of some characters goes on with none of fewer. -/
theorem Blocked.mono {chars chars' : List Char} {o : Except Failure (Expr × List Char)}
    (h : Blocked chars o) (hsub : chars' ⊆ chars) : Blocked chars' o := by
  cases o with
  | error f => trivial
  | ok x =>
    obtain ⟨d, t, hskip, hd⟩ := h
    exact ⟨d, t, hskip, fun hmem => hd (hsub hmem)⟩

/-- An error blocks whatever comes next. -/
theorem Blocked.of_error {chars : List Char} {o : Except Failure (Expr × List Char)}
    (h : ∃ f, o = .error f) : Blocked chars o := by
  obtain ⟨f, rfl⟩ := h
  trivial

/-- Neither an operator nor a comparison goes on where a connective follows. -/
theorem Joint.blocked {e : Expr} (ht : Joint t) :
    (∀ c ∈ (skipTrivia t).head?, c ∉ ['/', '*', '+', '-']) ∧
      Blocked comparisonChars (.ok (e, t)) := by
  obtain ⟨d, u, hskip, hd⟩ := ht
  have hall : ∀ d ∈ ['a', 'o', ','], d ∉ ['/', '*', '+', '-'] ∧ d ∉ comparisonChars :=
    List.all_iff_forall_prop.1 (by decide)
  refine ⟨fun c hc => ?_, d, u, hskip, (hall d hd).2⟩
  rw [hskip] at hc
  cases hc
  exact (hall d hd).1

/-- A comparison in parentheses is no value. -/
theorem sum_compare_error {e : Expr} {op : Comparison} (hs : Firm s)
    (h : sum (unbounded document) true s = .ok (e, ' ' :: (op.sign ++ t))) :
    ∃ f, sum (unbounded document) true ('(' :: s) = .error f := by
  refine sum_paren_error hs ?_
  rw [h]
  have hsign := sign_begins op t
  have hskip := skipTrivia_of_firm hsign.firm
  obtain ⟨d, u, htext, -, -, hd⟩ := hsign
  refine ⟨d, u, by rw [skipTrivia_space, hskip, htext], fun hmem => ?_⟩
  obtain rfl := List.mem_singleton.1 hmem
  cases hd

/-- The word `not` is read as a value, and the parenthesis after it is left. -/
theorem blocked_not (t : List Char) :
    Blocked comparisonChars (sum (unbounded document) true ("not ".toList ++ '(' :: t)) := by
  have hword : IsWord (.keyword "not") := .keyword (by decide)
  have hparen := begins_paren t
  have hsum : sum (unbounded document) true ("not ".toList ++ '(' :: t) =
      .ok (.keyword "not", ' ' :: '(' :: t) := sum_word hword hparen.endsTerm
  rw [hsum]
  exact ⟨'(', t, by rw [skipTrivia_space, skipTrivia_of_firm hparen.firm], by decide⟩

/-- On the text of a condition, with a connective after it or one of its own, a value is not read up
to where a comparison can go on. -/
theorem sum_blocked (hc : c.OnWords) (signs : List Side → OrSign) (t : List Char)
    (h : c.strength < 3 ∨ Joint t) :
    Blocked comparisonChars (sum (unbounded document) true (c.text signs ++ t)) := by
  induction hc generalizing signs t with
  | @truthy e he =>
    obtain ⟨hoperator, hblocked⟩ := (h.resolve_left (Nat.lt_irrefl 3)).blocked (e := e)
    have hsum : sum (unbounded document) true ('(' :: (wordText e ++ ')' :: t)) = .ok (e, t) :=
      sum_paren ((wordText_begins he).append _).firm (sum_word_paren he t) hoperator
    rw [← hsum] at hblocked
    simpa [Condition.text] using hblocked
  | @compare op lhs rhs hl _ =>
    have herror : ∃ f, sum (unbounded document) true ('(' :: (wordText lhs ++
        ' ' :: (op.sign ++ ' ' :: (wordText rhs ++ ')' :: t)))) = .error f :=
      sum_compare_error ((wordText_begins hl).append _).firm (sum_word_sign hl op _)
    simpa [Condition.text] using Blocked.of_error herror
  | not hinner _ =>
    obtain ⟨u, hu⟩ := enclose_atom hinner signs
    rw [Condition.text, hu, List.append_assoc]
    exact blocked_not (u ++ t)
  | @and lhs rhs hl _ ihl _ =>
    rw [Condition.text, List.append_assoc, List.append_assoc, enclose]
    split
    · next hlt =>
      -- The first operand is a disjunction. It stands in parentheses and is compound itself.
      have hcompound : lhs.strength < 3 := Nat.lt_trans hlt (by decide)
      rw [List.cons_append, List.append_assoc]
      exact .of_error (sum_paren_error ((text_begins hl _).append _).firm
        ((ihl _ _ (.inl hcompound)).mono (by decide)))
    · exact ihl _ _ (.inr (joint_and _))
  | or _ _ ihl _ =>
    rw [Condition.text, List.append_assoc, List.append_assoc]
    exact ihl _ _ (.inr (joint_or _ _))

/-- There is no comparison where no value is read up to where one can go on. -/
theorem comparison_of_blocked (hs : Firm s)
    (h : Blocked comparisonChars (sum (unbounded document) true s)) :
    ∃ f, comparison (unbounded document) s = .error f := by
  rw [comparison, trivia_bind, skipTrivia_of_firm hs]
  cases hsum : sum (unbounded document) true s with
  | error f => exact ⟨f, bind_of_error hsum⟩
  | ok x =>
    rw [hsum] at h
    obtain ⟨d, u, hskip, hd⟩ := h
    have hnone : comparison? (d :: u) = none := by
      unfold comparison?
      split
      case h_7 => rfl
      all_goals next heq =>
        obtain ⟨rfl, -⟩ := List.cons.inj heq
        exact absurd (by decide) hd
    have hne : d ≠ ')' := fun heq => hd (heq ▸ List.mem_cons_self)
    rw [bind_of_ok hsum, trivia_bind, hskip, get_bind, hnone]
    exact ⟨_, expect_bind_error hne _ u⟩

/-- No compound condition is taken for a comparison or a value. -/
theorem comparison_fails (hc : c.OnWords) (signs : List Side → OrSign) (t : List Char)
    (h : c.strength < 3) :
    ∃ f, comparison (unbounded document) (c.text signs ++ t) = .error f :=
  comparison_of_blocked ((text_begins hc signs).append t).firm (sum_blocked hc signs t (.inl h))

end

/-! ## Connectives -/

section
variable {L : Level} {d : Char} {s t : List Char}

/-- No conjunction follows where the next character is not its first one. -/
theorem andOperator?_eq_none (hs : skipTrivia s = d :: t) (hd : d ≠ 'a') :
    andOperator? s = none := by
  rw [andOperator?, hs]
  exact congrArg _ (keyword?_of_ne hd.symm _ t)

/-- No disjunction follows where the next character is neither a comma nor the first of `or`. -/
theorem orOperator?_eq_none (hs : skipTrivia s = d :: t) (hcomma : d ≠ ',') (hd : d ≠ 'o') :
    orOperator? s = none := by
  unfold orOperator?
  rw [hs]
  split
  · next heq => exact absurd (List.cons.inj heq).1 hcomma
  · exact congrArg _ (keyword?_of_ne hd.symm _ t)

/-- The operator `and` is found after a space. -/
theorem andOperator?_and (s : List Char) :
    andOperator? (" and ".toList ++ s) = some (.and, ' ' :: s) := by
  have hskip : skipTrivia (" and ".toList ++ s) = "and".toList ++ ' ' :: s :=
    skipTrivia_spaced rfl (by decide) _
  rw [andOperator?, hskip, keyword?_self (endsName_space s)]
  rfl

/-- Each sign of a disjunction is found, up to the space behind it. -/
theorem orOperator?_sign (sign : OrSign) (s : List Char) :
    orOperator? (sign.text ++ s) = some (.or, ' ' :: s) := by
  rcases skipTrivia_sign sign s with h | h
  · rw [orOperator?, h]
    exact congrArg (Option.map _) (keyword?_self (endsName_space s))
  · rw [orOperator?, h]
    rfl

/-- The sign of a disjunction is not taken for a conjunction. -/
theorem andOperator?_sign (sign : OrSign) (s : List Char) :
    andOperator? (sign.text ++ s) = none := by
  rcases skipTrivia_sign sign s with h | h
  · exact andOperator?_eq_none h (by decide)
  · exact andOperator?_eq_none h (by decide)

/-- White space before an atom makes no difference. -/
theorem guardAtom_space (s : List Char) : guardAtom L (' ' :: s) = guardAtom L s := by
  rw [guardAtom, trivia_bind, trivia_bind, skipTrivia_space]

/-- White space before a negation makes no difference. -/
theorem guardFactor_space (s : List Char) : guardFactor L (' ' :: s) = guardFactor L s := by
  rw [guardFactor, trivia_bind, trivia_bind, skipTrivia_space]

/-- White space before a conjunction makes no difference. -/
theorem conjunction_space (s : List Char) : conjunction L (' ' :: s) = conjunction L s :=
  chainLeft_congr (guardFactor_space s)

/-- White space before a whole guard makes no difference. -/
theorem guard_space (s : List Char) : guard L (' ' :: s) = guard L s :=
  chainLeft_congr (conjunction_space s)

end

/-! ## Reading by strength -/

section
variable {L : Level} {document : Nat} {c : Condition} {s r : List Char} {f : Failure}

/-- What starts with a parenthesis is no negation. -/
theorem guardFactor_paren (s : List Char) : guardFactor L ('(' :: s) = guardAtom L ('(' :: s) := by
  have hnot : keyword? "not".toList ('(' :: s) = none := keyword?_of_ne (by decide) _ _
  rw [guardFactor, trivia_bind, skipTrivia_cons rfl (by decide), get_bind, hnot]

/-- A parenthesis opens a comparison or a value if one can be read. -/
theorem guardAtom_of_comparison (h : comparison L s = .ok (c, r)) :
    guardAtom L ('(' :: s) = .ok (c, r) := by
  rw [guardAtom, trivia_bind, skipTrivia_cons rfl (by decide), expect_bind, orElse, h]

/-- A parenthesis opens a guard if not. -/
theorem guardAtom_of_guard (htrial : comparison (unbounded document) s = .error f)
    (h : guard (unbounded document) s = .ok (c, ')' :: r)) :
    guardAtom (unbounded document) ('(' :: s) = .ok (c, r) := by
  have hnested : nestedGuard (unbounded document) s = .ok (c, r) := by
    rw [← (unbounded_closed document).guard] at h
    rw [nestedGuard, bind_of_ok h, trivia_bind, skipTrivia_cons rfl (by decide), expect_bind]
    rfl
  rw [guardAtom, trivia_bind, skipTrivia_cons rfl (by decide), expect_bind, orElse, htrial, hnested]

/-- The connectives of guards. -/
def guardOperators (document : Nat) : Operators document Condition where
  atom := guardAtom (unbounded document)
  operand := guardFactor (unbounded document)
  tight? := andOperator?
  loose? := orOperator?
  Ends _ := True
  operand_paren := guardFactor_paren
  tight_repeats := .conjunction
  loose_repeats := .guard

/-- A negation takes an atom, which need not stand apart from it. -/
theorem guardFactor_not (hs : EndsName s) (h : guardAtom L s = .ok (c, r)) :
    guardFactor L ("not".toList ++ s) = .ok (.not c, r) := by
  have hskip : skipTrivia ("not".toList ++ s) = "not".toList ++ s :=
    skipTrivia_cons rfl (by decide) _
  rw [guardFactor, trivia_bind, hskip, get_bind, keyword?_self hs]
  exact map_of_ok _ h

/-- The text of a guard in parentheses is an atom, unless it is taken for a comparison. -/
theorem guardAtom_parens {strength : Nat} {text : List Char}
    (htrial : ∃ f, comparison (unbounded document) (text ++ ')' :: r) = .error f)
    (h : (guardOperators document).Reads strength text c) :
    guardAtom (unbounded document) ('(' :: (text ++ ')' :: r)) = .ok (c, r) := by
  have hclose : skipTrivia (')' :: r) = ')' :: r := skipTrivia_cons rfl (by decide) r
  have hand : andOperator? (')' :: r) = none := andOperator?_eq_none hclose (by decide)
  have hor : orOperator? (')' :: r) = none := orOperator?_eq_none hclose (by decide) (by decide)
  obtain ⟨f, hf⟩ := htrial
  exact guardAtom_of_guard hf (h.whole trivial hand hor)

/-- A compound condition in parentheses is an atom. -/
theorem guardAtom_text {signs : List Side → OrSign} (hc : c.OnWords) (hcompound : c.strength < 3)
    (h : (guardOperators document).Reads c.strength (c.text signs) c) (r : List Char) :
    guardAtom (unbounded document) ('(' :: (c.text signs ++ ')' :: r)) = .ok (c, r) :=
  guardAtom_parens (comparison_fails hc signs (')' :: r) hcompound) h

/-- A guard is read by the productions its strength allows. -/
theorem text_reads (document : Nat) (hc : c.OnWords) (signs : List Side → OrSign) :
    (guardOperators document).Reads c.strength (c.text signs) c := by
  have hparens : ∀ {c : Condition} {signs : List Side → OrSign}, c.OnWords →
      (guardOperators document).Reads c.strength (c.text signs) c → ∀ needed, needed ≤ 3 →
        (guardOperators document).Reads needed (enclose c.strength needed (c.text signs)) c :=
    fun hc h _ hle => h.enclose hle fun hcompound r _ => guardAtom_text hc hcompound h r
  induction hc generalizing signs with
  | truthy he =>
    refine .of_atom (fun _ => guardFactor_paren _) fun r _ => guardAtom_of_comparison ?_
    simpa using comparison_truthy ((wordText_begins he).append _).firm (sum_word_paren he r)
  | @compare op lhs rhs hl hr =>
    refine .of_atom (fun _ => guardFactor_paren _) fun r _ => guardAtom_of_comparison ?_
    simpa using comparison_compare ((wordText_begins hl).append _).firm (sum_word_sign hl op _)
      ((wordText_begins hr).append _).firm (sum_word_paren hr r)
  | not hinner ih =>
    refine .of_operand fun r hr => ?_
    have hatom := (hparens hinner (ih signs) 3 (Nat.le_refl 3)).atom (Nat.le_refl 3) r hr
    rw [Condition.text, List.append_assoc]
    exact guardFactor_not (endsName_space _) ((guardAtom_space _).trans hatom)
  | and hl hr ihl ihr =>
    exact .tight_operation (hparens hl (ihl _) 1 (by decide)) (hparens hr (ihr _) 2 (by decide))
      (fun _ => trivial) fun t => ⟨_, andOperator?_and _, guardFactor_space _⟩
  | or hl hr ihl ihr =>
    exact .loose_operation ((ihl _).mono (Nat.zero_le _)) (hparens hr (ihr _) 1 (by decide))
      (fun _ => trivial) (andOperator?_sign _)
      fun t => ⟨_, orOperator?_sign _ _, conjunction_space _⟩

end

/-! ## In a mixin definition -/

/-- A text that the search for the start of a block passes over. -/
def PassesOver (text : List Char) : Prop :=
  ∀ depth s, (uptoBrace depth (text ++ s)).2 = (uptoBrace depth s).2

section
variable {s t : List Char}

/-- The search passes over two texts if it passes over each. -/
theorem PassesOver.append (hs : PassesOver s) (ht : PassesOver t) : PassesOver (s ++ t) := by
  intro depth u
  rw [List.append_assoc, hs, ht]

/-- The search passes over parentheses around what it passes over. -/
theorem PassesOver.parens (h : PassesOver s) : PassesOver ('(' :: (s ++ [')'])) := by
  intro depth u
  have hinside : (uptoBrace (depth + 1) (s ++ ')' :: u)).2 = (uptoBrace depth u).2 := by
    rw [h, uptoBrace]
    simp
  simpa [uptoBrace] using hinside

/-- The search passes over a text whether or not it needs parentheses. -/
theorem PassesOver.enclose (h : PassesOver s) (strength needed : Nat) :
    PassesOver (enclose strength needed s) := by
  rw [Grammar.enclose]
  split
  · exact h.parens
  · exact h

/-- The search passes over everything but braces and parentheses. -/
theorem passesOver_of_not_mem (h : ∀ c ∈ ['{', '(', ')'], c ∉ s) : PassesOver s := by
  intro depth u
  induction s with
  | nil => rfl
  | cons c s ih =>
    obtain ⟨hne, htext⟩ := not_mem_of_cons h
    simp [uptoBrace, hne '{' (by decide), hne '(' (by decide), hne ')' (by decide), ih htext]

/-- No word has braces or parentheses. -/
theorem wordText_passes {e : Expr} (he : IsWord e) : PassesOver (wordText e) :=
  passesOver_of_not_mem fun c hc => by
    have hall : ∀ c ∈ ['{', '(', ')'], isNameChar c = false ∧ c ≠ '@' :=
      List.all_iff_forall_prop.1 (by decide)
    exact not_mem_wordText he (hall c hc).1 (hall c hc).2

/-- The search for the start of a block passes over every condition. -/
theorem text_passes {c : Condition} (hc : c.OnWords) (signs : List Side → OrSign) :
    PassesOver (c.text signs) := by
  have hplain : ∀ text : List Char, (['{', '(', ')'].all fun c => c ∉ text) = true →
      PassesOver text := fun _ h => passesOver_of_not_mem (List.all_iff_forall_prop.1 h)
  induction hc generalizing signs with
  | truthy he => exact (wordText_passes he).parens
  | @compare op lhs rhs hl hr =>
    have hsign : PassesOver (' ' :: (op.sign ++ [' '])) := by
      cases op <;> exact hplain _ (by decide)
    have h := (((wordText_passes hl).append hsign).append (wordText_passes hr)).parens
    simpa [Condition.text] using h
  | not _ ih => exact (hplain _ (by decide)).append ((ih signs).enclose _ _)
  | and _ _ ihl ihr =>
    exact (((ihl _).enclose _ _).append (hplain _ (by decide))).append ((ihr _).enclose _ _)
  | or _ _ ihl ihr =>
    have hsign : PassesOver (signs []).text := by
      cases signs [] <;> exact hplain _ (by decide)
    exact ((ihl _).append hsign).append ((ihr _).enclose _ _)

end

section
variable {document : Nat} {name : String} {c : Condition} {guardText s : List Char}

/-- The head of a mixin with a guard is told from a call by the brace behind the guard. -/
theorem mixinHead?_guarded (hname : IsSegment name) (hpasses : PassesOver guardText) :
    mixinHead? (name.toList ++ ("() when ".toList ++ (guardText ++ ' ' :: '{' :: s))) =
      some (name, "() when ".toList ++ (guardText ++ ' ' :: '{' :: s)) := by
  have hends : EndsName ("() when ".toList ++ (guardText ++ ' ' :: '{' :: s)) :=
    endsName_cons rfl _
  have hparens : skipTrivia ("() when ".toList ++ (guardText ++ ' ' :: '{' :: s)) =
      "() when ".toList ++ (guardText ++ ' ' :: '{' :: s) := skipTrivia_cons rfl (by decide) _
  have hafter : balanced? ("() when ".toList ++ (guardText ++ ' ' :: '{' :: s)) =
      some ([], " when ".toList ++ (guardText ++ ' ' :: '{' :: s)) := rfl
  have hwhen : skipTrivia (" when ".toList ++ (guardText ++ ' ' :: '{' :: s)) =
      "when".toList ++ ' ' :: (guardText ++ ' ' :: '{' :: s) :=
    skipTrivia_spaced rfl (by decide) _
  have hbrace : (uptoBrace 0 (' ' :: (guardText ++ ' ' :: '{' :: s))).2 = '{' :: s := by
    simp [uptoBrace, hpasses 0]
  simp only [mixinHead?, segment?_segment hname hends, hparens, hafter, hwhen,
    keyword?_self (endsName_space _), hbrace, List.head?_cons, if_true]

/-- A guard is read between the parameters and the block. -/
theorem optionalGuard_when (h : (guardOperators document).Reads 0 guardText c) :
    optionalGuard (unbounded document) (" when ".toList ++ (guardText ++ ' ' :: '{' :: s)) =
      .ok (some c, '{' :: s) := by
  have hwhen : skipTrivia (" when ".toList ++ (guardText ++ ' ' :: '{' :: s)) =
      "when".toList ++ ' ' :: (guardText ++ ' ' :: '{' :: s) :=
    skipTrivia_spaced rfl (by decide) _
  have hbrace : skipTrivia (' ' :: '{' :: s) = '{' :: s :=
    skipTrivia_spaced rfl (by decide) _
  have hguard : guard (unbounded document) (' ' :: (guardText ++ ' ' :: '{' :: s)) =
      .ok (c, ' ' :: '{' :: s) := by
    have hand : andOperator? (' ' :: '{' :: s) = none := andOperator?_eq_none hbrace (by decide)
    have hor : orOperator? (' ' :: '{' :: s) = none :=
      orOperator?_eq_none hbrace (by decide) (by decide)
    exact (guard_space _).trans (h.whole trivial hand hor)
  rw [optionalGuard, trivia_bind, hwhen, get_bind, keyword?_self (endsName_space _)]
  simp only [set_bind]
  rw [bind_of_ok hguard, trivia_bind, hbrace]
  rfl

/-- A definition without parameters and with an empty block. -/
theorem mixinDefinition_guarded (start : List Char)
    (h : (guardOperators document).Reads 0 guardText c) :
    mixinDefinition (unbounded document) start name
        ("() when ".toList ++ (guardText ++ " \x7b\x7d".toList)) =
      .ok (.mixin ⟨document, start.length⟩ ⟨name, [], some c, []⟩, []) := by
  have hparams : ∀ r, parenthesised (param (unbounded document)) .unclosedParams
      .missingParamSeparator (')' :: r) = .ok ([], r) := by
    intro r
    rw [parenthesised_eq, get_bind]
    refine collect_end (.params _) ?_
    rw [bracketRound, trivia_bind, skipTrivia_cons rfl (by decide)]
    rfl
  have hbody : bracedBlock (unbounded document) ['{', '}'] = .ok ([], []) := by
    rw [bracedBlock, expect_bind, (unbounded_closed document).block, block_eq]
    exact collect_end .block (statementRound_close _ [])
  have hparens : skipTrivia ("() when ".toList ++ (guardText ++ " \x7b\x7d".toList)) =
      '(' :: ')' :: (" when ".toList ++ (guardText ++ ' ' :: '{' :: ['}'])) :=
    skipTrivia_cons rfl (by decide) _
  rw [mixinDefinition, trivia_bind, hparens, expect_bind, bind_of_ok (hparams _),
    bind_of_ok (optionalGuard_when h), bind_of_ok hbody]
  rfl

/-- The text of a guard in a definition without parameters and with an empty block. -/
theorem item_guardText (hname : IsSegment name) (hpasses : PassesOver guardText)
    (h : (guardOperators document).Reads 0 guardText c) :
    item (unbounded document) []
        (name.toList ++ ("() when ".toList ++ (guardText ++ " \x7b\x7d".toList))) =
      .ok (.mixin ⟨document, (name.toList ++
        ("() when ".toList ++ (guardText ++ " \x7b\x7d".toList))).length⟩
          ⟨name, [], some c, []⟩, []) := by
  have hhead : mixinHead?
      (name.toList ++ ("() when ".toList ++ (guardText ++ " \x7b\x7d".toList))) =
        some (name, "() when ".toList ++ (guardText ++ " \x7b\x7d".toList)) :=
    mixinHead?_guarded hname hpasses
  rw [hname.item, plainItem, hhead]
  exact mixinDefinition_guarded _ h

/-- A definition with a guard and an empty block is read as such. -/
theorem item_guarded {signs : List Side → OrSign} (hname : IsSegment name) (hc : c.OnWords) :
    item (unbounded document) []
        (name.toList ++ ("() when ".toList ++ (c.text signs ++ " \x7b\x7d".toList))) =
      .ok (.mixin ⟨document, (name.toList ++
        ("() when ".toList ++ (c.text signs ++ " \x7b\x7d".toList))).length⟩
          ⟨name, [], some c, []⟩, []) :=
  item_guardText hname (text_passes hc signs) ((text_reads document hc signs).mono (Nat.zero_le _))

end

end Grammar

/-- A condition as the guard of a mixin without parameters and statements. -/
def Condition.definition (name : String) (signs : List Side → OrSign) (c : Condition) : String :=
  name ++ "() when " ++ String.ofList (c.text signs) ++ " \x7b\x7d"

/-- A guard that is written as `text` has it, with any signs for its disjunctions, is read as the
condition it was written from. -/
theorem Stylesheet.parse_guard (document : Nat) {name : String} {c : Condition}
    (hname : IsSegment name) (hc : c.OnWords) (signs : List Side → OrSign) :
    Stylesheet.parse (c.definition name signs) document =
      .ok ⟨[], [.mixin ⟨document, (c.definition name signs).length⟩ ⟨name, [], some c, []⟩]⟩ := by
  have htext : c.definition name signs = String.ofList (name.toList ++
      ("() when ".toList ++ (c.text signs ++ " \x7b\x7d".toList))) := by
    apply String.toList_inj.1
    simp [Condition.definition]
  have hlength : (c.definition name signs).length = (name.toList ++
      ("() when ".toList ++ (c.text signs ++ " \x7b\x7d".toList))).length := by
    rw [htext, String.length_ofList]
  rw [hlength, htext]
  exact parse_single hname.firm hname.importHead? (item_guarded hname hc) rfl

/-- Parentheses around a negation, a disjunction, and a conjunction on the right, first operands
that are values in parentheses (one of them a connective), and a disjunction of each sign. -/
theorem Stylesheet.parse_guard_nested :
    Stylesheet.parse
        "#m() when not (not (@a)) and ((or) , (@b <= c) or (d)), (e) and ((f) and (g)) \x7b\x7d" =
      .ok ⟨[], [.mixin ⟨0, 80⟩ ⟨"#m", [], some (.or
        (.and (.not (.not (.truthy (.ref "a"))))
          (.or (.or (.truthy (.keyword "or")) (.compare .lessOrEqual (.ref "b") (.keyword "c")))
            (.truthy (.keyword "d"))))
        (.and (.truthy (.keyword "e"))
          (.and (.truthy (.keyword "f")) (.truthy (.keyword "g"))))), []⟩]⟩ := by
  have hparse : ∀ (source : String) (length : Nat) (c : Condition) (signs : List Side → OrSign),
      c.OnWords → c.definition "#m" signs = source → source.length = length →
        Stylesheet.parse source = .ok ⟨[], [.mixin ⟨0, length⟩ ⟨"#m", [], some c, []⟩]⟩ := by
    rintro _ _ c signs hc rfl rfl
    exact Stylesheet.parse_guard 0 (by decide) hc signs
  have hword : ∀ name, IsKeyword name → (Condition.truthy (.keyword name)).OnWords := fun _ h =>
    .truthy (.keyword h)
  refine hparse _ _ _
    (fun path => if path.length = 0 then .comma else if path.length = 2 then .word
      else .spacedComma)
    (.or
      (.and (.not (.not (.truthy (.ref (by decide)))))
        (.or (.or (hword "or" (by decide)) (.compare (.ref (by decide)) (.keyword (by decide))))
          (hword "d" (by decide))))
      (.and (hword "e" (by decide)) (.and (hword "f" (by decide)) (hword "g" (by decide))))) ?_ ?_
  · decide
  · decide

end LessSheet
