import LessSheet.Proofs.Grammar.Progress

/-! # The productions of the grammar

Every production gets to a place of the text it is run on, and those that stand for something take
at least one character when they succeed. On a text of some length they come to the same for any two
levels that agree on shorter texts: the next level is only entered after an opening bracket.

The rounds of the repetitions have names here, so that they can be spoken of.
-/

namespace LessSheet.Grammar

open Text

/-- Two levels that come to the same on all texts shorter than `n`. -/
structure Level.Accord (n : Nat) (L L' : Level) : Prop where
  document : L'.document = L.document
  block : Grammar.Accord n true L.block L'.block
  sum : Grammar.Accord n true L.sum L'.sum
  words : Grammar.Accord n true L.words L'.words
  guard : Grammar.Accord n true L.guard L'.guard

/-- Both levels give literals the same sites. -/
theorem Level.Accord.site {n : Nat} {L L' : Level} (h : L.Accord n L') : L'.site = L.site :=
  funext fun _ => congrArg (Site.mk · _) h.document

/-! ## Values -/

section
variable {n : Nat} {c : Bool}

/-- A string ends behind its closing quote, or the fault is at its start. -/
theorem quotedString_accord (escaped : Bool) :
    Accord n c (quotedString escaped) (quotedString escaped) := by
  intro s _
  refine .same ?_
  cases s with
  | nil => exact .error (List.suffix_refl _)
  | cons quote r =>
    simp only [quotedString]
    split
    · next t rest hbody =>
      obtain ⟨d, happend⟩ := stringBody_closes quote r t rest hbody
      exact .okShorter (.cons ⟨t ++ [d], by simp [happend]⟩)
    · exact .error (List.suffix_refl _)

/-- The argument of a function that is passed through ends behind its parenthesis. -/
theorem rawFunction_accord (name : List Char) :
    Accord n c (rawFunction name) (rawFunction name) := by
  intro s _
  refine .same ?_
  unfold rawFunction
  split
  · next inner rest hparens =>
    obtain ⟨d, happend⟩ := balanced?_append hparens
    have hcut : ('(' :: (inner ++ [d])) ++ rest = s := by simp [happend]
    exact .okShorter (.append (List.cons_ne_nil _ _) hcut)
  · exact .error (List.nil_suffix)

end

/-- A round of `functionArguments`. -/
def argumentRound (L : Level) (name : String) : Parse (Option Expr) := do
  trivia
  match ← get with
  | [] => fail (.unclosedFunction name)
  | ')' :: r => set r; pure none
  | _ =>
    let arg ← L.words
    trivia
    optional ','
    pure (some arg)

/-- The arguments of a function are collected round by round. -/
theorem functionArguments_eq (L : Level) (name : String) :
    functionArguments L name = collect (argumentRound L name) := rfl

section
variable {n : Nat} {c : Bool} {L L' : Level}

/-- Each round reads an argument on the next level, or the closing parenthesis. -/
theorem argumentRound_accord (h : L.Accord n L') (name : String) :
    Accord n true (argumentRound L name) (argumentRound L' name) := by
  refine trivia_accord.bind fun _ => .get fun s hs => ?_
  split
  · exact .same (.error (List.suffix_refl _))
  · next r => exact .same (.okShorter (.cons (List.suffix_refl r)))
  · refine (h.words.first fun arg => ?_) s hs
    exact trivia_accord.bind fun _ => (optional_accord _).bind fun _ => .pure _

/-- The arguments of a function end behind the parenthesis that closes them. -/
theorem functionArguments_accord (h : L.Accord n L') (name : String) :
    Accord n true (functionArguments L name) (functionArguments L' name) := by
  rw [functionArguments_eq, functionArguments_eq]
  exact collect_accord (.of_eats (argumentRound_accord h name))

/-- What can start a keyword is the first character of one. -/
theorem identifier_ne_nil {s : List Char} (h : s.head?.any startsKeyword = true) :
    (identifier s).1 ≠ [] := by
  cases s with
  | nil => cases h
  | cons d r =>
    have hd : isIdentChar d = true := by
      simp only [List.head?_cons, Option.any_some, startsKeyword, Bool.or_eq_true] at h
      simp only [isIdentChar, Bool.or_eq_true]
      rcases h with (h | h) | h
      · exact .inl (.inl (.inl h))
      · exact .inl (.inr h)
      · exact .inr h
    simp [identifier, hd]

/-- A keyword or function takes something if it starts where one may start. -/
theorem keywordOrFunction_meets (h : L.Accord n L') {s : List Char} (hs : s.length < n + 1)
    (hc : c = true → s.head?.any startsKeyword = true) :
    Meets c s (keywordOrFunction L s) (keywordOrFunction L' s) := by
  have hrest : (identifier s).2 <:+ s := ⟨_, identifier_append s⟩
  simp only [keywordOrFunction]
  split
  · next r hparens =>
    have hr : Shorter r s :=
      (hparens ▸ Shorter.cons (List.suffix_refl r) : Shorter r (identifier s).2).trans_suffix hrest
    split
    · exact (rawFunction_accord (c := c) _ _ (Nat.lt_succ_self _)).of_suffix hrest
    · have hargs := functionArguments_accord h (String.ofList (identifier s).1) r
        (Nat.lt_of_lt_of_le hr.lt (Nat.le_of_lt_succ hs))
      exact (hargs.map _).of_shorter hr
  · refine .same ⟨hrest, fun hc' a r hr => ?_⟩
    cases hr
    exact (Shorter.append (identifier_ne_nil (hc hc')) (identifier_append s)).lt

/-- A number, a keyword, a call or a bare word. -/
theorem plainTerm_accord (h : L.Accord n L') :
    Accord (n + 1) true (plainTerm L) (plainTerm L') := by
  intro s hs
  unfold plainTerm
  split
  · next m rest hnumeral =>
    obtain ⟨happend, hne⟩ := numeral?_append hnumeral
    have hshorter : Shorter rest s :=
      (Shorter.append hne happend).of_suffix (List.suffix_append _ _)
    split
    · exact .same (.okShorter hshorter)
    · exact .same (.error (List.suffix_refl s))
  · split
    · next hstart => exact keywordOrFunction_meets h hs fun _ => hstart
    · have happend := bareWord_append s
      split
      · exact .same (.error (List.suffix_refl s))
      · next word rest hne hword =>
        rw [hword] at happend
        exact .same (.okShorter (.append hne happend))

/-- Only after an opening bracket does a term enter the next level. -/
theorem term_accord (h : L.Accord n L') : Accord (n + 1) true (term L) (term L') := by
  intro s hs
  have hquoted : ∀ escaped (r : List Char),
      Meets true r (quotedString escaped r) (quotedString escaped r) :=
    fun escaped r => quotedString_accord escaped r (Nat.lt_succ_self r.length)
  unfold term
  split
  · next r =>
    have hinner : Accord n true (do trivia; let inner ← L.sum; trivia; expect ')'; pure inner)
        (do trivia; let inner ← L'.sum; trivia; expect ')'; pure inner) :=
      trivia_accord.bind fun _ => h.sum.first fun _ =>
        trivia_accord.bind fun _ => (expect_accord _).first fun _ => .pure _
    exact (hinner r (Nat.lt_of_succ_lt_succ hs)).of_shorter (.cons (List.suffix_refl r))
  · next r =>
    have happend := identifier_append r
    split
    · next rest hname =>
      rw [hname] at happend
      exact .same (.error ⟨['@'], congrArg _ happend⟩)
    · next name rest _ hname =>
      rw [hname] at happend
      exact .same (.okShorter (.cons ⟨name, happend⟩))
  · next r =>
    rw [h.site]
    exact ((h.block r (Nat.lt_of_succ_lt_succ hs)).map _).of_shorter (.cons (List.suffix_refl r))
  · next r => exact .same (.okShorter (.cons ⟨_, identifier_append r⟩))
  · exact (hquoted true _).of_suffix (List.suffix_cons _ _)
  · exact (hquoted true _).of_suffix (List.suffix_cons _ _)
  · exact hquoted false _
  · exact hquoted false _
  · exact plainTerm_accord h s hs

/-- A sign may come before a term. -/
theorem signedTerm_accord (h : L.Accord n L') :
    Accord (n + 1) true (signedTerm L) (signedTerm L') := by
  intro s hs
  unfold signedTerm
  split
  · exact ((term_accord h _ (Nat.lt_of_succ_lt hs)).map _).of_suffix (List.suffix_cons _ _)
  · exact ((term_accord h _ (Nat.lt_of_succ_lt hs)).map _).of_suffix (List.suffix_cons _ _)
  · exact term_accord h s hs

end

/-- What is left after white space, comments and one character more. -/
theorem suffix_of_skipTrivia {s r : List Char} {d : Char} (h : skipTrivia s = d :: r) : r <:+ s :=
  (List.suffix_cons d r).trans (h ▸ skipTrivia_suffix s)

/-- Behind a sign of multiplication an end of the text is left. -/
theorem productOperator?_suffix {inParens : Bool} (s : List Char) (f : Expr → Expr → Expr)
    (r : List Char) (h : productOperator? inParens s = some (f, r)) : r <:+ s := by
  unfold productOperator? at h
  split at h
  · next t ht =>
    cases h
    exact (skipTrivia_suffix t).trans (suffix_of_skipTrivia ht)
  · next t ht =>
    cases (Option.ite_none_right_eq_some.1 h).2
    exact (skipTrivia_suffix t).trans (suffix_of_skipTrivia ht)
  · cases h

/-- Behind a sign of addition an end of the text is left. -/
theorem sumOperator?_suffix {inParens : Bool} (s : List Char) (f : Expr → Expr → Expr)
    (r : List Char) (h : sumOperator? inParens s = some (f, r)) : r <:+ s := by
  unfold sumOperator? at h
  split at h
  case h_1 t ht | h_2 t ht =>
    cases (Option.ite_none_left_eq_some.1 h).2
    exact (skipTrivia_suffix t).trans (suffix_of_skipTrivia ht)
  case h_3 => cases h

/-- Behind a slash an end of the text is left. -/
theorem slash?_suffix (s r : List Char) (h : slash? s = some r) : r <:+ s := by
  unfold slash? at h
  split at h
  · cases (Option.ite_none_left_eq_some.1 h).2
    exact List.suffix_cons _ r
  · cases h

/-- Behind a comma an end of the text is left. -/
theorem comma?_suffix (s r : List Char) (h : comma? s = some r) : r <:+ s := by
  unfold comma? at h
  split at h
  · next t ht =>
    cases h
    exact suffix_of_skipTrivia ht
  · cases h

/-- A round of `words`. -/
def wordRound (L : Level) (inParens : Bool) : Parse (Option Expr) := do
  trivia
  if (← get).head?.all endsValue then pure none else some <$> slashList L inParens

/-- The words of a list are collected round by round, and at least one is needed. -/
theorem words_eq (L : Level) (inParens : Bool) :
    words L inParens = collect (wordRound L inParens) >>= fun items =>
      if items.isEmpty then fail .missingValue else pure (listOf .space items) := rfl

section
variable {n : Nat} {L L' : Level}

/-- Terms joined by signs of multiplication. -/
theorem product_accord (h : L.Accord n L') (inParens : Bool) :
    Accord (n + 1) true (product L inParens) (product L' inParens) :=
  chainLeft_accord productOperator?_suffix (signedTerm_accord h)

/-- Products joined by signs of addition. -/
theorem sum_accord (h : L.Accord n L') (inParens : Bool) :
    Accord (n + 1) true (sum L inParens) (sum L' inParens) :=
  chainLeft_accord sumOperator?_suffix (product_accord h inParens)

/-- Sums separated by slashes. -/
theorem slashList_accord (h : L.Accord n L') (inParens : Bool) :
    Accord (n + 1) true (slashList L inParens) (slashList L' inParens) :=
  (separated_accord slash?_suffix (sum_accord h inParens)).map _

/-- A round of words takes something unless the value is at its end. -/
theorem wordRound_collects (h : L.Accord n L') (inParens : Bool) :
    Collects (n + 1) false (wordRound L inParens) (wordRound L' inParens) := by
  have hitem := (slashList_accord h inParens).map some
  constructor
  · refine trivia_accord.bind fun _ => .get fun s hs => ?_
    split
    · exact .same (.ok (List.suffix_refl s))
    · exact (hitem s hs).weaken
  · intro s a r hs hround
    have hskip := (skipTrivia_suffix s).length_le
    change (if (skipTrivia s).head?.all endsValue = true then pure none
      else some <$> slashList L inParens : Parse (Option Expr)) (skipTrivia s) = _ at hround
    split at hround
    · cases hround
    · have hlt := (hitem _ (Nat.lt_of_le_of_lt hskip hs)).2.lt rfl (some a) r hround
      exact Nat.lt_of_lt_of_le hlt hskip

/-- Slash lists separated by white space take something, as there is at least one. -/
theorem words_accord (h : L.Accord n L') (inParens : Bool) :
    Accord (n + 1) true (words L inParens) (words L' inParens) := by
  intro s hs
  have hcollects := wordRound_collects h inParens
  obtain ⟨heq, hland⟩ := collect_accord hcollects s hs
  simp only [words_eq, bind, StateT.bind, Except.bind, heq]
  cases hitems : collect (wordRound L inParens) s with
  | error e =>
    rw [hitems] at hland
    exact .same (.error hland.suffix)
  | ok x =>
    rw [hitems] at hland
    by_cases hempty : x.1.isEmpty = true
    · simp only [if_pos hempty]
      exact .same (.error hland.suffix)
    · simp only [if_neg hempty]
      have hlt := collect_eats hcollects.self hs (fun h => hempty (List.isEmpty_iff.2 h)) hitems
      exact .same (.okShorter ⟨hland.suffix, hlt⟩)

/-- Lists of words separated by commas, where commas belong to the value. -/
theorem value_accord (h : L.Accord n L') (allowComma : Bool) :
    Accord (n + 1) true (value L allowComma) (value L' allowComma) := by
  unfold value
  split
  · exact (separated_accord comma?_suffix (words_accord h false)).map _
  · exact words_accord h false

end

/-! ## Guards -/

/-- Behind a keyword an end of the text is left. -/
theorem keyword?_suffix {word s r : List Char} (h : keyword? word s = some r) : r <:+ s :=
  ⟨word, keyword?_append h⟩

/-- Behind the word `and` an end of the text is left. -/
theorem andOperator?_suffix (s : List Char) (f : Condition → Condition → Condition) (r : List Char)
    (h : andOperator? s = some (f, r)) : r <:+ s := by
  obtain ⟨t, ht, hcut⟩ := Option.map_eq_some_iff.1 h
  cases hcut
  exact (keyword?_suffix ht).trans (skipTrivia_suffix s)

/-- Behind a comma or the word `or` an end of the text is left. -/
theorem orOperator?_suffix (s : List Char) (f : Condition → Condition → Condition) (r : List Char)
    (h : orOperator? s = some (f, r)) : r <:+ s := by
  unfold orOperator? at h
  split at h
  · next t ht =>
    cases h
    exact suffix_of_skipTrivia ht
  · obtain ⟨t, ht, hcut⟩ := Option.map_eq_some_iff.1 h
    cases hcut
    exact (keyword?_suffix ht).trans (skipTrivia_suffix s)

section
variable {n : Nat} {L L' : Level}

/-- A comparison or a single value, up to the closing parenthesis. -/
theorem comparison_accord (h : L.Accord n L') :
    Accord (n + 1) true (comparison L) (comparison L') := by
  refine trivia_accord.bind fun _ => (sum_accord h true).first fun lhs =>
    trivia_accord.bind fun _ => .get fun s hs => ?_
  cases hop : comparison? s with
  | none => exact ((expect_accord ')').bind fun _ => .pure _) s hs
  | some found =>
    obtain ⟨op, r⟩ := found
    have hrest := trivia_accord.bind fun _ => (sum_accord h true).weaken.bind fun rhs =>
      trivia_accord.bind fun _ => (expect_accord ')').bind fun _ =>
        Accord.pure (Condition.compare op lhs rhs)
    have hr := comparison?_shorter hop
    exact (hrest r (Nat.lt_trans hr.lt hs)).of_suffix hr.suffix

/-- A guard in parentheses is read on the next level. -/
theorem nestedGuard_accord (h : L.Accord n L') :
    Accord n true (nestedGuard L) (nestedGuard L') :=
  h.guard.first fun _ => trivia_accord.bind fun _ => (expect_accord _).bind fun _ => .pure _

/-- An atom is tried as a comparison first, and then as a guard, from the same place. -/
theorem guardAtom_accord (h : L.Accord n L') :
    Accord (n + 1) true (guardAtom L) (guardAtom L') :=
  trivia_accord.bind fun _ => (expect_accord '(').after fun _ =>
    (orElse_accord ((comparison_accord h).mono (Nat.le_succ n)) (nestedGuard_accord h)).weaken

/-- An atom may be negated. -/
theorem guardFactor_accord (h : L.Accord n L') :
    Accord (n + 1) true (guardFactor L) (guardFactor L') := by
  refine trivia_accord.bind fun _ => .get fun s hs => ?_
  cases hnot : keyword? "not".toList s with
  | none => exact guardAtom_accord h s hs
  | some r =>
    have hr := keyword?_suffix hnot
    exact ((guardAtom_accord h r (Nat.lt_of_le_of_lt hr.length_le hs)).map _).of_suffix hr

/-- Factors joined by `and`. -/
theorem conjunction_accord (h : L.Accord n L') :
    Accord (n + 1) true (conjunction L) (conjunction L') :=
  chainLeft_accord andOperator?_suffix (guardFactor_accord h)

/-- Conjunctions joined by `or` or commas. -/
theorem guard_accord (h : L.Accord n L') : Accord (n + 1) true (guard L) (guard L') :=
  chainLeft_accord orOperator?_suffix (conjunction_accord h)

/-- A guard may be missing, and then nothing but white space is taken. -/
theorem optionalGuard_accord (h : L.Accord n L') :
    Accord (n + 1) false (optionalGuard L) (optionalGuard L') := by
  refine trivia_accord.bind fun _ => .get fun s hs => ?_
  cases hwhen : keyword? "when".toList s with
  | none => exact .same (.ok (List.suffix_refl s))
  | some r =>
    have hr := keyword?_suffix hwhen
    have hguard := (guard_accord h).weaken.bind fun condition =>
      trivia_accord.bind fun _ => Accord.pure (some condition)
    exact (hguard r (Nat.lt_of_le_of_lt hr.length_le hs)).of_suffix hr

end

/-! ## Statements -/

section
variable {n : Nat} {c : Bool}

/-- The comments before a statement. -/
theorem leadingComments_accord : Accord n false leadingComments leadingComments :=
  fun s _ => .same (.ok (scanTrivia_slices s).suffix)

/-- The comments after a statement, which may be none. -/
theorem withTrailing_accord (leading : List String) :
    Accord n false (withTrailing leading) (withTrailing leading) :=
  fun s _ => .same (.ok (trailingComments_slices s).suffix)

/-- A semicolon, which may be left out. -/
theorem endStatement_accord : Accord n false endStatement endStatement :=
  trivia_accord.bind fun _ => optional_accord ';'

/-- The call of a ruleset has nothing in its parentheses. -/
theorem detachedCall_accord (name : String) (leading : List String) :
    Accord n c (detachedCall name leading) (detachedCall name leading) := by
  refine trivia_accord.bind fun _ => .get fun s hs => ?_
  split
  · next r =>
    have hend := (endStatement_accord (n := n)).bind fun _ =>
      (withTrailing_accord leading).map (Item.detachedCall name)
    exact (hend r (Nat.lt_of_succ_lt hs)).of_shorter (.cons (List.suffix_refl r))
  · exact .same (.error (List.suffix_refl _))

/-- The separator after an item, of the kind that the list has. -/
theorem separator_accord (semicolons : Bool) (cause : ParseError.Cause) :
    Accord n false (separator semicolons cause) (separator semicolons cause) := by
  refine trivia_accord.bind fun _ => .get fun s hs => ?_
  split
  · split
    · exact .same (.ok (List.suffix_cons _ _))
    · exact .same (.error (List.suffix_refl _))
  · split
    · exact .same (.error (List.suffix_refl _))
    · exact .same (.ok (List.suffix_cons _ _))
  · exact .same (.ok (List.suffix_refl _))
  · exact .same (.error (List.suffix_refl _))

/-- An import ends behind its semicolon. -/
theorem importStatement_accord : Accord n c importStatement importStatement := by
  intro s _
  refine .same ?_
  unfold importStatement
  have happend : s.takeWhile (· != ';') ++ s.dropWhile (· != ';') = s :=
    List.takeWhile_append_dropWhile
  split
  · next rest hrest =>
    rw [hrest] at happend
    exact .okShorter ((Shorter.cons (List.suffix_refl rest)).trans_suffix ⟨_, happend⟩)
  · exact .error List.nil_suffix

end

/-- A round of `parenthesised`. -/
def bracketRound {α : Type} (item : Bool → Parse α) (unclosed unseparated : ParseError.Cause)
    (semicolons : Bool) : Parse (Option α) := do
  trivia
  match ← get with
  | [] => fail unclosed
  | ')' :: r => set r; pure none
  | _ =>
    let a ← item semicolons
    separator semicolons unseparated
    pure (some a)

/-- Items in parentheses are collected round by round, with one kind of separator. -/
theorem parenthesised_eq {α : Type} (item : Bool → Parse α)
    (unclosed unseparated : ParseError.Cause) :
    parenthesised item unclosed unseparated = get >>= fun s =>
      collect (bracketRound item unclosed unseparated (hasSemicolon s)) := rfl

/-- A round of `block`. -/
def statementRound (L : Level) : Parse (Option Item) := do
  let leading ← leadingComments
  match ← get with
  | [] => fail .unclosedBlock
  | '}' :: r => set r; pure none
  | _ => some <$> item L leading

/-- The statements of a block are collected round by round. -/
theorem block_eq (L : Level) : block L = collect (statementRound L) := rfl

section
variable {α : Type} {n : Nat} {c : Bool} {item item' : Bool → Parse α}

/-- Each round reads an item with its separator, or the closing parenthesis. -/
theorem bracketRound_accord (h : ∀ semicolons, Accord n true (item semicolons) (item' semicolons))
    (unclosed unseparated : ParseError.Cause) (semicolons : Bool) :
    Accord n true (bracketRound item unclosed unseparated semicolons)
      (bracketRound item' unclosed unseparated semicolons) := by
  refine trivia_accord.bind fun _ => .get fun s hs => ?_
  split
  · exact .same (.error (List.suffix_refl _))
  · next r => exact .same (.okShorter (.cons (List.suffix_refl r)))
  · refine ((h semicolons).first fun a => ?_) s hs
    exact (separator_accord _ _).bind fun _ => .pure _

/-- Items in parentheses end behind the parenthesis that closes them. -/
theorem parenthesised_accord (h : ∀ semicolons, Accord n true (item semicolons) (item' semicolons))
    (unclosed unseparated : ParseError.Cause) :
    Accord n true (parenthesised item unclosed unseparated)
      (parenthesised item' unclosed unseparated) := by
  rw [parenthesised_eq, parenthesised_eq]
  refine .get fun s hs => ?_
  exact collect_accord (.of_eats (bracketRound_accord h unclosed unseparated _)) s hs

end

section
variable {n : Nat} {c : Bool} {L L' : Level}

/-- A block is read on the next level, after its brace. -/
theorem bracedBlock_accord (h : L.Accord n L') :
    Accord (n + 1) true (bracedBlock L) (bracedBlock L') :=
  (expect_accord '{').after fun _ => h.block.weaken

/-- The value of a variable is a ruleset or an expression, with the importance marker after it. -/
theorem assignedValue_accord (h : L.Accord n L') :
    Accord (n + 1) true (assignedValue L) (assignedValue L') := by
  intro s hs
  unfold assignedValue
  split
  · next r =>
    rw [h.site]
    exact ((h.block r (Nat.lt_of_succ_lt_succ hs)).map _).of_shorter (.cons (List.suffix_refl r))
  · refine ((value_accord h true).first fun v => ?_) s hs
    refine trivia_accord.bind fun _ => importance_accord.bind fun important => ?_
    cases important <;> exact .pure _

/-- A variable assignment, after its colon. -/
theorem assignment_accord (h : L.Accord n L') (name : String) :
    Accord (n + 1) true (assignment L name) (assignment L' name) :=
  trivia_accord.bind fun _ => (assignedValue_accord h).first fun _ =>
    endStatement_accord.bind fun _ => .pure _

/-- The parameters of an at-rule run up to its block. -/
theorem atRule_accord (h : L.Accord n L') (name : String) :
    Accord (n + 1) true (atRule L name) (atRule L' name) := by
  refine trivia_accord.bind fun _ => .get fun s hs => ?_
  have hrest : (uptoBrace 0 s).2 <:+ s := ⟨_, uptoBrace_append 0 s⟩
  have hblock := bracedBlock_accord h _ (Nat.lt_of_le_of_lt hrest.length_le hs)
  exact (hblock.map _).of_suffix hrest

/-- A parameter of any kind takes something. -/
theorem param_accord (h : L.Accord n L') (semicolons : Bool) :
    Accord (n + 1) true (param L semicolons) (param L' semicolons) := by
  intro s hs
  have hvalue := value_accord h semicolons
  unfold param
  split
  · next r hdots =>
    exact .same (.okShorter (.append (by decide) (strip?_append hdots)))
  · split
    · next name r hhead =>
      have hr := (assignHead?_slices hhead).2
      have hdefault := trivia_accord.bind fun _ => (hvalue.map some).map (Param.named name)
      exact (hdefault r (Nat.lt_trans hr.lt hs)).of_shorter hr
    · split
      · next r _ _ =>
        have happend := identifier_append r
        split
        · next rest hname =>
          rw [hname] at happend
          exact .same (.error ⟨['@'], congrArg _ happend⟩)
        · next name rest _ hname =>
          rw [hname] at happend
          have hrest : Shorter rest ('@' :: r) := .cons ⟨name, happend⟩
          split
          · next t hdots => exact .same (.okShorter (hrest.of_suffix ⟨_, strip?_append hdots⟩))
          · exact .same (.okShorter hrest)
      · exact (hvalue s hs).map _

/-- A mixin definition has parameters, a guard that may be missing, and a block. -/
theorem mixinDefinition_accord (h : L.Accord n L') (start : List Char) (name : String) :
    Accord (n + 1) true (mixinDefinition L start name) (mixinDefinition L' start name) := by
  refine trivia_accord.bind fun _ => (expect_accord '(').first fun _ =>
    (parenthesised_accord (param_accord h) _ _).weaken.bind fun params =>
      (optionalGuard_accord h).bind fun condition =>
        (bracedBlock_accord h).weaken.bind fun body => ?_
  rw [h.site]
  exact .pure _

/-- An argument has a value, with a name before it or not. -/
theorem argument_accord (h : L.Accord n L') (semicolons : Bool) :
    Accord (n + 1) true (argument L semicolons) (argument L' semicolons) := by
  intro s hs
  have hvalue := value_accord h semicolons
  unfold argument
  split
  · next name r hhead =>
    have hr := (assignHead?_slices hhead).2
    have hnamed := trivia_accord.bind fun _ => hvalue.map (Argument.mk (some name))
    exact (hnamed r (Nat.lt_trans hr.lt hs)).of_shorter hr
  · exact (hvalue s hs).map _

/-- The arguments of a call may be left out with their parentheses. -/
theorem callArguments_accord (h : L.Accord n L') :
    Accord (n + 1) false (callArguments L) (callArguments L') := by
  intro s hs
  unfold callArguments
  split
  · next r =>
    have hargs := parenthesised_accord (argument_accord h) .unclosedArguments
      .missingArgumentSeparator r (Nat.lt_of_succ_lt hs)
    exact hargs.of_shorter (.cons (List.suffix_refl r))
  · exact .same (.ok (List.suffix_refl s))

/-- What follows the path of a call may be nothing at all. -/
theorem mixinCall_accord (h : L.Accord n L') (path leading : List String) :
    Accord (n + 1) false (mixinCall L path leading) (mixinCall L' path leading) :=
  trivia_accord.bind fun _ => (callArguments_accord h).bind fun _ =>
    trivia_accord.bind fun _ => importance_accord.bind fun _ =>
      endStatement_accord.bind fun _ => (withTrailing_accord leading).bind fun _ => .pure _

/-- A declaration has a colon and a value. -/
theorem declaration_accord (h : L.Accord n L') (leading : List String) :
    Accord (n + 1) true (declaration L leading) (declaration L' leading) := by
  refine .get fun s hs => ?_
  have hrest : (propertyNameFrom .plain s).2 <:+ s := ⟨_, propertyNameFrom_append .plain s⟩
  have hvalue := trivia_accord.bind fun _ => (expect_accord (c := true) ':').first fun _ =>
    trivia_accord.bind fun _ => (value_accord h true).weaken.bind fun v =>
      trivia_accord.bind fun _ => importance_accord.bind fun important =>
        endStatement_accord.bind fun _ => (withTrailing_accord leading).bind fun comments =>
          Accord.pure (Item.declaration ⟨String.ofList (trim (propertyNameFrom .plain s).1), v,
            important, comments⟩)
  exact (hvalue _ (Nat.lt_of_le_of_lt hrest.length_le hs)).of_suffix hrest

/-- A rule, after its selectors. -/
def ruleFrom (L : Level) (selectors : List String) : Parse Item := do
  if selectors.isEmpty then fail .missingSelector
  let condition ← optionalGuard L
  let body ← bracedBlock L
  pure (.rule ⟨selectors, condition, body⟩)

/-- A rule is read from its selectors on, which are cut from the raw text. -/
theorem rule_eq (L : Level) (s : List Char) :
    rule L s = ruleFrom L (selectorsOf (selectorFrom .blank s).1) (selectorFrom .blank s).2 := rfl

/-- Without selectors the fault is noticed before the block is read. -/
theorem ruleFrom_accord (h : L.Accord n L') (selectors : List String) :
    Accord (n + 1) true (ruleFrom L selectors) (ruleFrom L' selectors) := by
  have hblock := (optionalGuard_accord h).bind fun condition =>
    (bracedBlock_accord h).first fun body => Accord.pure (Item.rule ⟨selectors, condition, body⟩)
  unfold ruleFrom
  split
  · exact (Accord.fail _).first fun _ => hblock.weaken
  · exact hblock

/-- A rule has a block, so something is taken. -/
theorem rule_accord (h : L.Accord n L') : Accord (n + 1) true (rule L) (rule L') := by
  intro s hs
  have hrest : (selectorFrom .blank s).2 <:+ s := ⟨_, selectorFrom_append .blank s⟩
  rw [rule_eq, rule_eq]
  exact (ruleFrom_accord h _ _ (Nat.lt_of_le_of_lt hrest.length_le hs)).of_suffix hrest

/-- The kind of a statement is decided by looking ahead, on the text alone. -/
theorem plainItem_accord (h : L.Accord n L') (leading : List String) :
    Accord (n + 1) true (plainItem L leading) (plainItem L' leading) := by
  intro s hs
  unfold plainItem
  split
  · next name r hhead =>
    have hr := (mixinHead?_slices hhead).2
    exact (mixinDefinition_accord h s name r (Nat.lt_trans hr.lt hs)).of_shorter hr
  · split
    · next path r hhead =>
      have hr := (callHead?_slices hhead).2
      exact (mixinCall_accord h path leading r (Nat.lt_trans hr.lt hs)).of_shorter hr
    · split
      · exact declaration_accord h leading s hs
      · exact rule_accord h s hs
      · exact .same (.error (List.suffix_refl s))

/-- The kind of a statement that starts with an `@` is decided by looking ahead too, on the text
alone. -/
theorem item_accord (h : L.Accord n L') (leading : List String) :
    Accord (n + 1) true (item L leading) (item L' leading) := by
  intro s hs
  unfold item
  split
  · next name r hhead =>
    have hr := (assignHead?_slices hhead).2
    exact (assignment_accord h name r (Nat.lt_trans hr.lt hs)).of_shorter hr
  · split
    · exact .same (.error (List.suffix_refl s))
    · split
      · next name r hhead =>
        have hr := (detachedHead?_slices hhead).2
        exact (detachedCall_accord (c := true) name leading r hr.lt).of_shorter hr
      · split
        · next name r hhead =>
          have hr := (atRuleHead?_slices hhead).2
          exact (atRule_accord h name r (Nat.lt_trans hr.lt hs)).of_shorter hr
        · exact plainItem_accord h leading s hs

/-- Each round reads a statement with the comments before it, or the closing brace. -/
theorem statementRound_accord (h : L.Accord n L') :
    Accord (n + 1) true (statementRound L) (statementRound L') := by
  refine leadingComments_accord.bind fun leading => .get fun s hs => ?_
  split
  · exact .same (.error (List.suffix_refl _))
  · next r => exact .same (.okShorter (.cons (List.suffix_refl r)))
  · exact ((item_accord h leading).map some) s hs

/-- The statements of a block end behind the brace that closes it. -/
theorem block_accord (h : L.Accord n L') : Accord (n + 1) true (block L) (block L') := by
  rw [block_eq, block_eq]
  exact collect_accord (.of_eats (statementRound_accord h))

/-- A statement of the top level, where there is one. -/
def topStatement (L : Level) (leading : List String) : Parse (String ⊕ Item) := fun s =>
  match importHead? s with
  | some r => (.inl <$> importStatement) r
  | none => (.inr <$> item L leading) s

/-- A statement of the top level is an import or one like in a block. -/
theorem topStatement_accord (h : L.Accord n L') (leading : List String) :
    Accord (n + 1) true (topStatement L leading) (topStatement L' leading) := by
  intro s hs
  unfold topStatement
  split
  · next r hhead =>
    have hr := importHead?_shorter hhead
    exact (importStatement_accord.map (c := true) _ r hr.lt).of_shorter hr
  · exact ((item_accord h leading).map _) s hs

/-- At the top level the text may be at its end, once comments have been passed over. -/
theorem topItem_eq (L : Level) (s : List Char) :
    topItem L s =
      if (skipTrivia s).isEmpty then .ok (none, skipTrivia s)
      else (some <$> topStatement L ((scanTrivia s).1.map String.ofList)) (skipTrivia s) := by
  unfold skipTrivia
  change (if (scanTrivia s).2.isEmpty then _ else _ : Parse _) (scanTrivia s).2 = _
  by_cases hempty : (scanTrivia s).2.isEmpty = true
  · rw [if_pos hempty, if_pos hempty]
    rfl
  · rw [if_neg hempty, if_neg hempty, map_apply, topStatement]
    cases importHead? (scanTrivia s).2 with
    | none => exact map_apply _ _ _
    | some r => exact map_apply _ _ _

/-- Otherwise a round takes something. -/
theorem topItem_collects (h : L.Accord n L') :
    Collects (n + 1) false (topItem L) (topItem L') := by
  have hround : ∀ s, s.length < n + 1 → ∀ leading, Meets true s
      ((some <$> topStatement L leading) (skipTrivia s))
      ((some <$> topStatement L' leading) (skipTrivia s)) := fun s hs leading =>
    have hskip := skipTrivia_suffix s
    (((topStatement_accord h leading).map some) _
      (Nat.lt_of_le_of_lt hskip.length_le hs)).of_suffix hskip
  constructor
  · intro s hs
    rw [topItem_eq, topItem_eq]
    split
    · exact .same (.ok (skipTrivia_suffix s))
    · exact (hround s hs _).weaken
  · intro s a r hs hitem
    rw [topItem_eq] at hitem
    split at hitem
    · cases hitem
    · exact (hround s hs _).2.lt rfl (some a) r hitem

/-- A whole source text is read round by round. -/
theorem stylesheet_accord (h : L.Accord n L') :
    Accord (n + 1) false (stylesheet L) (stylesheet L') :=
  (collect_accord (topItem_collects h)).bind fun _ => .pure _

end

/-! ## All of them -/

/-- The rounds of the repetitions. -/
inductive Repetition (L : Level) : {σ α : Type} → (σ → Parse (σ ⊕ α)) → Prop where
  | functionArguments (name : String) : Repetition L (collecting (argumentRound L name))
  | product (inParens : Bool) :
    Repetition L (chaining (signedTerm L) (productOperator? inParens))
  | sum (inParens : Bool) :
    Repetition L (chaining (Grammar.product L inParens) (sumOperator? inParens))
  | slashList (inParens : Bool) :
    Repetition L (collecting (separating (Grammar.sum L inParens) slash?))
  | words (inParens : Bool) : Repetition L (collecting (wordRound L inParens))
  | value : Repetition L (collecting (separating (Grammar.words L false) comma?))
  | conjunction : Repetition L (chaining (guardFactor L) andOperator?)
  | guard : Repetition L (chaining (Grammar.conjunction L) orOperator?)
  | params (semicolons : Bool) :
    Repetition L (collecting (bracketRound (param L) .unclosedParams .missingParamSeparator
      semicolons))
  | callArguments (semicolons : Bool) :
    Repetition L (collecting (bracketRound (argument L) .unclosedArguments
      .missingArgumentSeparator semicolons))
  | block : Repetition L (collecting (statementRound L))
  | stylesheet : Repetition L (collecting (topItem L))

/-- A round of any repetition that asks for another has taken something. -/
theorem Repetition.rounds {n : Nat} {L : Level} (hL : L.Accord n L) {σ α : Type}
    {step : σ → Parse (σ ⊕ α)} (h : Repetition L step) : ∃ c, Rounds n c step step := by
  cases h with
  | functionArguments name =>
    exact ⟨_, collecting_rounds (.of_eats (argumentRound_accord hL name))⟩
  | product inParens =>
    exact ⟨_, (chaining_rounds productOperator?_suffix (signedTerm_accord hL)).mono (Nat.le_succ n)⟩
  | sum inParens =>
    exact ⟨_, (chaining_rounds sumOperator?_suffix (product_accord hL inParens)).mono
      (Nat.le_succ n)⟩
  | slashList inParens =>
    exact ⟨_, (collecting_rounds (separating_collects slash?_suffix
      (sum_accord hL inParens))).mono (Nat.le_succ n)⟩
  | words inParens =>
    exact ⟨_, (collecting_rounds (wordRound_collects hL inParens)).mono (Nat.le_succ n)⟩
  | value =>
    exact ⟨_, (collecting_rounds (separating_collects comma?_suffix
      (words_accord hL false))).mono (Nat.le_succ n)⟩
  | conjunction =>
    exact ⟨_, (chaining_rounds andOperator?_suffix (guardFactor_accord hL)).mono (Nat.le_succ n)⟩
  | guard =>
    exact ⟨_, (chaining_rounds orOperator?_suffix (conjunction_accord hL)).mono (Nat.le_succ n)⟩
  | params semicolons =>
    exact ⟨_, (collecting_rounds (.of_eats (bracketRound_accord (param_accord hL) _ _
      semicolons))).mono (Nat.le_succ n)⟩
  | callArguments semicolons =>
    exact ⟨_, (collecting_rounds (.of_eats (bracketRound_accord (argument_accord hL) _ _
      semicolons))).mono (Nat.le_succ n)⟩
  | block =>
    exact ⟨_, (collecting_rounds (.of_eats (statementRound_accord hL))).mono (Nat.le_succ n)⟩
  | stylesheet => exact ⟨_, (collecting_rounds (topItem_collects hL)).mono (Nat.le_succ n)⟩

/-- The productions, from a single character to a whole stylesheet. -/
inductive Production (L : Level) : {α : Type} → Parse α → Prop where
  | trivia : Production L trivia
  | expect (d : Char) : Production L (expect d)
  | optional (d : Char) : Production L (optional d)
  | importance : Production L importance
  | quotedString (escaped : Bool) : Production L (quotedString escaped)
  | rawFunction (name : List Char) : Production L (rawFunction name)
  | functionArguments (name : String) : Production L (functionArguments L name)
  | keywordOrFunction : Production L (keywordOrFunction L)
  | plainTerm : Production L (plainTerm L)
  | term : Production L (term L)
  | signedTerm : Production L (signedTerm L)
  | product (inParens : Bool) : Production L (product L inParens)
  | sum (inParens : Bool) : Production L (sum L inParens)
  | slashList (inParens : Bool) : Production L (slashList L inParens)
  | words (inParens : Bool) : Production L (words L inParens)
  | value (allowComma : Bool) : Production L (value L allowComma)
  | comparison : Production L (comparison L)
  | nestedGuard : Production L (nestedGuard L)
  | guardAtom : Production L (guardAtom L)
  | guardFactor : Production L (guardFactor L)
  | conjunction : Production L (conjunction L)
  | guard : Production L (guard L)
  | optionalGuard : Production L (optionalGuard L)
  | leadingComments : Production L leadingComments
  | withTrailing (leading : List String) : Production L (withTrailing leading)
  | endStatement : Production L endStatement
  | assignedValue : Production L (assignedValue L)
  | assignment (name : String) : Production L (assignment L name)
  | detachedCall (name : String) (leading : List String) :
    Production L (detachedCall name leading)
  | bracedBlock : Production L (bracedBlock L)
  | atRule (name : String) : Production L (atRule L name)
  | separator (semicolons : Bool) (cause : ParseError.Cause) :
    Production L (separator semicolons cause)
  | param (semicolons : Bool) : Production L (param L semicolons)
  | params : Production L (parenthesised (Grammar.param L) .unclosedParams .missingParamSeparator)
  | mixinDefinition (start : List Char) (name : String) :
    Production L (mixinDefinition L start name)
  | argument (semicolons : Bool) : Production L (argument L semicolons)
  | callArguments : Production L (callArguments L)
  | mixinCall (path leading : List String) : Production L (mixinCall L path leading)
  | declaration (leading : List String) : Production L (declaration L leading)
  | rule : Production L (rule L)
  | plainItem (leading : List String) : Production L (plainItem L leading)
  | item (leading : List String) : Production L (item L leading)
  | block : Production L (block L)
  | importStatement : Production L importStatement
  | topItem : Production L (topItem L)
  | stylesheet : Production L (stylesheet L)

/-- Any production gets to a place of the text it is run on. -/
theorem Production.accord {n : Nat} {L : Level} (hL : L.Accord n L) {α : Type} {p : Parse α}
    (h : Production L p) : Accord n false p p := by
  have hn := Nat.le_succ n
  cases h with
  | trivia => exact trivia_accord
  | expect d => exact expect_accord d
  | optional d => exact optional_accord d
  | importance => exact importance_accord
  | quotedString escaped => exact quotedString_accord escaped
  | rawFunction name => exact rawFunction_accord name
  | functionArguments name => exact (functionArguments_accord hL name).weaken
  | keywordOrFunction =>
    exact fun s hs => keywordOrFunction_meets hL (Nat.lt_succ_of_lt hs) fun h => nomatch h
  | plainTerm => exact ((plainTerm_accord hL).mono hn).weaken
  | term => exact ((term_accord hL).mono hn).weaken
  | signedTerm => exact ((signedTerm_accord hL).mono hn).weaken
  | product inParens => exact ((product_accord hL inParens).mono hn).weaken
  | sum inParens => exact ((sum_accord hL inParens).mono hn).weaken
  | slashList inParens => exact ((slashList_accord hL inParens).mono hn).weaken
  | words inParens => exact ((words_accord hL inParens).mono hn).weaken
  | value allowComma => exact ((value_accord hL allowComma).mono hn).weaken
  | comparison => exact ((comparison_accord hL).mono hn).weaken
  | nestedGuard => exact (nestedGuard_accord hL).weaken
  | guardAtom => exact ((guardAtom_accord hL).mono hn).weaken
  | guardFactor => exact ((guardFactor_accord hL).mono hn).weaken
  | conjunction => exact ((conjunction_accord hL).mono hn).weaken
  | guard => exact ((guard_accord hL).mono hn).weaken
  | optionalGuard => exact (optionalGuard_accord hL).mono hn
  | leadingComments => exact leadingComments_accord
  | withTrailing leading => exact withTrailing_accord leading
  | endStatement => exact endStatement_accord
  | assignedValue => exact ((assignedValue_accord hL).mono hn).weaken
  | assignment name => exact ((assignment_accord hL name).mono hn).weaken
  | detachedCall name leading => exact detachedCall_accord name leading
  | bracedBlock => exact ((bracedBlock_accord hL).mono hn).weaken
  | atRule name => exact ((atRule_accord hL name).mono hn).weaken
  | separator semicolons cause => exact separator_accord semicolons cause
  | param semicolons => exact ((param_accord hL semicolons).mono hn).weaken
  | params => exact ((parenthesised_accord (param_accord hL) _ _).mono hn).weaken
  | mixinDefinition start name => exact ((mixinDefinition_accord hL start name).mono hn).weaken
  | argument semicolons => exact ((argument_accord hL semicolons).mono hn).weaken
  | callArguments => exact (callArguments_accord hL).mono hn
  | mixinCall path leading => exact (mixinCall_accord hL path leading).mono hn
  | declaration leading => exact ((declaration_accord hL leading).mono hn).weaken
  | rule => exact ((rule_accord hL).mono hn).weaken
  | plainItem leading => exact ((plainItem_accord hL leading).mono hn).weaken
  | item leading => exact ((item_accord hL leading).mono hn).weaken
  | block => exact ((block_accord hL).mono hn).weaken
  | importStatement => exact importStatement_accord
  | topItem => exact (topItem_collects hL).accord.mono hn
  | stylesheet => exact (stylesheet_accord hL).mono hn

end LessSheet.Grammar
