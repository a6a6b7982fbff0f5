import LessSheet.Proofs.Grammar.Productions
import LessSheet.Proofs.Text.Appearance
import Mathlib.Data.List.TakeWhile

/-! # The shape of what is read

A stylesheet that was read from a source has a shape that not every tree has
(`Stylesheet.shape_of_parse`). A list has at least two items, and a list among them binds more than
the list around it. Every rule has selectors, and none of these is blank or has white space at its
ends. What can be called has the name of a class or an id, and so has every segment of the path of a
call. A word has an exclamation mark only where a variable was declared with the importance marker,
which then follows its value (`Item.IsRead.important`); everything else is kept in strings, and a
string has one of the two quotes.

`Yields P p` says that whatever the parser `p` reads has the property `P`. It goes through the ways
in which parsers are put together, so each production comes down to its parts. How much an
expression binds comes of the production that reads it: `Expr.IsReadIn` names the lists that it may
be an item of.
-/

namespace LessSheet

open Text

/-! ## The shape -/

/-- Whether a list with one separator may be an item of a list with another. -/
def Separator.fitsIn : (inner outer : Separator) → Bool
  | .space, .comma | .slash, .comma | .slash, .space => true
  | _, _ => false

/-- Whether an expression may be an item of a list with this separator: anything that is no list
itself may. -/
def Expr.fitsIn (outer : Separator) : Expr → Bool
  | .list inner _ => inner.fitsIn outer
  | _ => true

/-- A selector: a text that has characters, and no white space at its ends. -/
def IsSelector (s : String) : Prop := FirmStart s.toList ∧ FirmEnd s.toList

mutual

/-- An expression as it can be read. -/
inductive Expr.IsRead : Expr → Prop where
  | number (value : Float) {unit : String} : '!' ∉ unit.toList → Expr.IsRead (.number value unit)
  | keyword {text : String} : '!' ∉ text.toList → Expr.IsRead (.keyword text)
  | quoted (text : String) {quote : Char} (escaped : Bool) : isQuote quote = true →
    Expr.IsRead (.quoted text quote escaped)
  | ref (name : String) : Expr.IsRead (.ref name)
  | negate {inner : Expr} : Expr.IsRead inner → Expr.IsRead (.negate inner)
  | operation (op : Operator) {lhs rhs : Expr} : Expr.IsRead lhs → Expr.IsRead rhs →
    Expr.IsRead (.operation op lhs rhs)
  | list {separator : Separator} {items : List Expr} : 2 ≤ items.length →
    (∀ e ∈ items, e.fitsIn separator) → (∀ e ∈ items, Expr.IsRead e) →
    Expr.IsRead (.list separator items)
  | function {name : String} {args : List Expr} : '!' ∉ name.toList →
    (∀ e ∈ args, Expr.IsRead e) → Expr.IsRead (.function name args)
  | ruleset (site : Site) {body : List Item} : (∀ x ∈ body, Item.IsRead x) →
    Expr.IsRead (.ruleset site body)

/-- A condition whose expressions are as they can be read. -/
inductive Condition.IsRead : Condition → Prop where
  | truthy {e : Expr} : Expr.IsRead e → Condition.IsRead (.truthy e)
  | compare (op : Comparison) {lhs rhs : Expr} : Expr.IsRead lhs → Expr.IsRead rhs →
    Condition.IsRead (.compare op lhs rhs)
  | not {inner : Condition} : Condition.IsRead inner → Condition.IsRead (.not inner)
  | and {lhs rhs : Condition} : Condition.IsRead lhs → Condition.IsRead rhs →
    Condition.IsRead (.and lhs rhs)
  | or {lhs rhs : Condition} : Condition.IsRead lhs → Condition.IsRead rhs →
    Condition.IsRead (.or lhs rhs)

/-- A parameter whose default or pattern is as it can be read. -/
inductive Param.IsRead : Param → Prop where
  | named (name : String) {default : Option Expr} : (∀ e ∈ default, Expr.IsRead e) →
    Param.IsRead (.named name default)
  | rest (name : Option String) : Param.IsRead (.rest name)
  | pattern {e : Expr} : Expr.IsRead e → Param.IsRead (.pattern e)

/-- A statement as it can be read. -/
inductive Item.IsRead : Item → Prop where
  | declaration {d : Declaration} : Expr.IsRead d.value → Item.IsRead (.declaration d)
  | rule {r : Rule} : r.selectors ≠ [] → (∀ s ∈ r.selectors, IsSelector s) →
    (∀ c ∈ r.guard, Condition.IsRead c) → (∀ x ∈ r.body, Item.IsRead x) → Item.IsRead (.rule r)
  | atRule (name params : String) {body : List Item} : (∀ x ∈ body, Item.IsRead x) →
    Item.IsRead (.atRule name params body)
  | detachedCall (name : String) (comments : Comments) : Item.IsRead (.detachedCall name comments)
  | assign (name : String) {value : Expr} : Expr.IsRead value → Item.IsRead (.assign name value)
  | important (name : String) {value : Expr} : Expr.IsRead value →
    Item.IsRead (.assign name (.list .space [value, .keyword "!important"]))
  | mixin (site : Site) {m : Mixin} : isCallableName m.name.toList →
    (∀ p ∈ m.params, Param.IsRead p) → (∀ c ∈ m.guard, Condition.IsRead c) →
    (∀ x ∈ m.body, Item.IsRead x) → Item.IsRead (.mixin site m)
  | call {call : Call} : (∀ segment ∈ call.path, isCallableName segment.toList) →
    (∀ arg ∈ call.args, Expr.IsRead arg.value) → Item.IsRead (.call call)

end

/-- An expression as it can be read that may be an item of lists with these separators. -/
structure Expr.IsReadIn (outers : List Separator) (e : Expr) : Prop where
  read : e.IsRead
  fits : ∀ outer ∈ outers, e.fitsIn outer

/-- An expression as it can be read that is no list, so that it may be an item of any. -/
abbrev Expr.IsOperand : Expr → Prop := Expr.IsReadIn [.slash, .space, .comma]

/-- What is no list fits into lists of any kind. -/
theorem Expr.IsRead.isOperand {e : Expr} (h : e.IsRead) (hfits : ∀ outer, e.fitsIn outer = true) :
    e.IsOperand := ⟨h, fun outer _ => hfits outer⟩

namespace Grammar

variable {α β σ : Type}

/-! ## What parsers yield -/

/-- What a parser came to has the property, if it is a result. -/
def Gives (P : α → Prop) (o : Except Failure (α × List Char)) : Prop :=
  ∀ a r, o = .ok (a, r) → P a

/-- Whatever a parser reads has the property. -/
def Yields (P : α → Prop) (p : Parse α) : Prop := ∀ s, Gives P (p s)

section
variable {P : α → Prop} {Q : β → Prop}

/-- A result that has the property. -/
theorem Gives.ok {a : α} (h : P a) (r : List Char) : Gives P (.ok (a, r)) := by
  intro b t hb
  cases hb
  exact h

/-- A fault is no result. -/
theorem Gives.error (f : Failure) : Gives P (.error f) := nofun

/-- A result that has the property, whatever the text is. -/
theorem Yields.pure {a : α} (h : P a) : Yields P (pure a : Parse α) := fun s => .ok h s

/-- A parser that always fails reads nothing. -/
theorem Yields.fail (cause : ParseError.Cause) : Yields P (fail cause) := fun _ => .error _

/-- Nothing need be known of what a parser reads. -/
theorem Yields.trivial (p : Parse α) : Yields (fun _ => True) p := fun _ _ _ _ => True.intro

/-- A property that follows from another. -/
theorem Yields.imp {P' : α → Prop} {p : Parse α} (h : Yields P p) (hP : ∀ a, P a → P' a) :
    Yields P' p := fun s a r ha => hP a (h s a r ha)

/-- What is read after a result depends on that result, whose property may be used. -/
theorem Yields.bind {p : Parse α} {f : α → Parse β} (h : Yields P p)
    (hf : ∀ a, P a → Yields Q (f a)) : Yields Q (p >>= f) := by
  intro s b r hb
  simp only [Bind.bind, StateT.bind, Except.bind] at hb
  cases hp : p s with
  | error e =>
    rw [hp] at hb
    cases hb
  | ok x =>
    rw [hp] at hb
    exact hf x.1 (h s x.1 x.2 hp) x.2 b r hb

/-- A step whose result does not matter. -/
theorem Yields.after {p : Parse α} {f : α → Parse β} (hf : ∀ a, Yields Q (f a)) :
    Yields Q (p >>= f) := (Yields.trivial p).bind fun a _ => hf a

/-- Making something of what is read. -/
theorem Yields.map {p : Parse α} {g : α → β} (h : Yields P p) (hg : ∀ a, P a → Q (g a)) :
    Yields Q (g <$> p) := by
  intro s b r hb
  rw [map_apply] at hb
  cases hp : p s with
  | error e =>
    rw [hp] at hb
    cases hb
  | ok x =>
    rw [hp] at hb
    cases hb
    exact hg x.1 (h s x.1 x.2 hp)

/-- A result that is one of several. -/
theorem Yields.found {p : Parse α} (h : Yields P p) :
    Yields (fun x => ∀ a ∈ x, P a) (some <$> p) := by
  refine h.map fun a ha b hb => ?_
  cases hb
  exact ha

/-- Either of two choices. -/
theorem Yields.orElse {p q : Parse α} (hp : Yields P p) (hq : Yields P q) :
    Yields P (orElse p q) := by
  intro s
  unfold Grammar.orElse
  split
  · next x hx => exact fun a r ha => hp s a r (hx.trans ha)
  · exact hq s

/-- A parser that looks at the text first. -/
theorem Yields.get {g : List Char → Parse α} (h : ∀ s, Yields P (g s)) :
    Yields P (get >>= g) := fun s => h s s

/-! ### Repetition -/

/-- A repetition with an invariant: each round keeps it or comes to a result. -/
theorem Yields.loop {I : σ → Prop} {step : σ → Parse (σ ⊕ α)}
    (hstep : ∀ a, I a → Yields (Sum.elim I P) (step a)) {a : σ} (ha : I a) :
    Yields P (loop step a) := by
  -- The state of every round has `I`, by induction on the bound.
  have hiterate : ∀ (fuel : List Char) (a : σ), I a → Yields P (iterate step fuel a) := by
    intro fuel
    induction fuel with
    | nil =>
      intro a ha
      refine (hstep a ha).bind fun x hx => ?_
      cases x with
      | inl _ => exact .fail _
      | inr _ => exact .pure hx
    | cons _ fuel ih =>
      intro a ha
      refine (hstep a ha).bind fun x hx => ?_
      cases x with
      | inl a' => exact ih a' hx
      | inr _ => exact .pure hx
  exact fun s => hiterate s a ha s

/-- What is collected are the results of the rounds. -/
theorem Yields.collect {body : Parse (Option α)} (h : Yields (fun x => ∀ a ∈ x, P a) body) :
    Yields (fun xs => ∀ x ∈ xs, P x) (collect body) := by
  rw [collect_eq]
  refine Yields.loop (I := fun xs => ∀ x ∈ xs, P x) (fun found hfound => ?_) (a := []) nofun
  refine h.bind fun x hx => ?_
  cases x with
  | some a => exact .pure (List.forall_mem_cons.2 ⟨hx a rfl, hfound⟩)
  | none => exact .pure fun x hx' => hfound x (List.mem_reverse.1 hx')

/-- Operands joined by operators, if those keep the property. -/
theorem Yields.chainLeft {operand : Parse α}
    {operator? : List Char → Option ((α → α → α) × List Char)} (h : Yields P operand)
    (hoperator : ∀ s f r, operator? s = some (f, r) → ∀ a b, P a → P b → P (f a b)) :
    Yields P (chainLeft operand operator?) := by
  rw [chainLeft_eq]
  refine h.bind fun a ha => Yields.loop (I := P) (fun lhs hlhs s => ?_) ha
  unfold chaining
  split
  · exact .ok (show Sum.elim P P (.inr lhs) from hlhs) s
  · next combine r hcombine =>
    have hround : ∀ rhs, P rhs → Sum.elim P P (.inl (combine lhs rhs)) := fun rhs =>
      hoperator s combine r hcombine lhs rhs hlhs
    exact h.map hround r

/-- Items with separators between them are at least one. -/
theorem Yields.separated {item : Parse α} {separator? : List Char → Option (List Char)}
    (h : Yields P item) :
    Yields (fun xs => xs ≠ [] ∧ ∀ x ∈ xs, P x) (separated item separator?) := by
  rw [separated_eq]
  refine h.bind fun a ha => Yields.bind (Yields.collect (P := P) fun s => ?_) fun more hmore =>
    .pure ⟨List.cons_ne_nil a more, List.forall_mem_cons.2 ⟨ha, hmore⟩⟩
  unfold separating
  split
  · exact .ok nofun s
  · next r _ => exact h.found r

end

/-! ## Values -/

/-- A word of characters of a class that has no exclamation mark. -/
theorem bang_not_mem_takeWhile {f : Char → Bool} (hf : f '!' = false) (s : List Char) :
    '!' ∉ (String.ofList (s.takeWhile f)).toList := by
  intro h
  rw [String.toList_ofList] at h
  rw [List.mem_takeWhile_imp h] at hf
  cases hf

/-- A unit is a percent sign or letters. -/
theorem bang_not_mem_unitText (s : List Char) :
    '!' ∉ (String.ofList (unitText s).1).toList := by
  unfold unitText
  split
  · simp
  · exact bang_not_mem_takeWhile (by decide) _

/-- There is no exclamation mark in the unit of a number. -/
theorem bang_not_mem_unit {s r : List Char} {n : Numeral} (h : numeral? s = some (n, r)) :
    '!' ∉ (String.ofList n.unit).toList := by
  have hunsigned : ∀ negative t, unsignedNumeral? negative t = some (n, r) →
      '!' ∉ (String.ofList n.unit).toList := by
    intro negative t ht
    unfold unsignedNumeral? at ht
    simp only [Option.ite_none_left_eq_some, Option.some.injEq, Prod.mk.injEq] at ht
    rw [← ht.2.1]
    exact bang_not_mem_unitText _
  unfold numeral? at h
  split at h
  · exact hunsigned true _ h
  · exact hunsigned false _ h

/-- A list of items that may be its items, or the only one, may be an item where such a list may. -/
theorem isReadIn_listOf {separator : Separator} {outers : List Separator}
    (houters : ∀ outer ∈ outers, separator.fitsIn outer) {es : List Expr} (hne : es ≠ [])
    (h : ∀ e ∈ es, e.IsReadIn (separator :: outers)) : (listOf separator es).IsReadIn outers := by
  unfold listOf
  split
  · next e =>
    have he := h e (.head _)
    exact ⟨he.read, fun outer ho => he.fits outer (.tail _ ho)⟩
  · next hmore =>
    have hlength : 2 ≤ es.length := by
      match es, hne, hmore with
      | [e], _, hmore => exact absurd rfl (hmore e)
      | _ :: _ :: rest, _, _ => exact Nat.le_add_left 2 rest.length
    exact ⟨.list hlength (fun e he => (h e he).fits _ (.head _)) fun e he => (h e he).read, houters⟩

/-- A string has the quote that it starts with. -/
theorem quotedString_read (escaped : Bool) {s : List Char} (h : s.head?.all isQuote = true) :
    Gives Expr.IsOperand (quotedString escaped s) := by
  unfold quotedString
  split
  · split
    · exact .ok ((Expr.IsRead.quoted _ escaped h).isOperand fun _ => rfl) _
    · exact .error _
  · exact .error _

/-- The call of a function that is passed through is kept as a string without quotes. -/
theorem rawFunction_read (name : List Char) : Yields Expr.IsOperand (rawFunction name) := by
  intro s
  unfold rawFunction
  split
  · exact .ok ((Expr.IsRead.quoted _ true (by decide)).isOperand fun _ => rfl) _
  · exact .error _

/-- Items in parentheses have the property that each of them has. -/
theorem parenthesised_read {α : Type} {P : α → Prop} {item : Bool → Parse α}
    (h : ∀ semicolons, Yields P (item semicolons)) (unclosed unseparated : ParseError.Cause) :
    Yields (fun xs => ∀ x ∈ xs, P x) (parenthesised item unclosed unseparated) := by
  rw [parenthesised_eq]
  refine Yields.get fun s => .collect (Yields.after fun _ => Yields.get fun s => ?_)
  split
  · exact .fail _
  · exact Yields.after fun _ => .pure nofun
  · refine (h _).bind fun a ha => Yields.after fun _ => .pure ?_
    intro b hb
    cases hb
    exact ha

/-- A level inside brackets whose productions read what can be read. -/
structure Level.Reads (L : Level) : Prop where
  block : Yields (fun xs => ∀ x ∈ xs, Item.IsRead x) L.block
  sum : Yields Expr.IsOperand L.sum
  words : Yields (Expr.IsReadIn [.comma]) L.words
  guard : Yields Condition.IsRead L.guard

/-- A sign of multiplication stands for an operation. -/
theorem productOperator?_operation {inParens : Bool} {s r : List Char} {f : Expr → Expr → Expr}
    (h : productOperator? inParens s = some (f, r)) : ∃ op, f = .operation op := by
  unfold productOperator? at h
  split at h
  · cases h
    exact ⟨_, rfl⟩
  · cases (Option.ite_none_right_eq_some.1 h).2
    exact ⟨_, rfl⟩
  · cases h

/-- A sign of addition stands for an operation. -/
theorem sumOperator?_operation {inParens : Bool} {s r : List Char} {f : Expr → Expr → Expr}
    (h : sumOperator? inParens s = some (f, r)) : ∃ op, f = .operation op := by
  unfold sumOperator? at h
  split at h
  case h_1 t ht | h_2 t ht =>
    cases (Option.ite_none_left_eq_some.1 h).2
    exact ⟨_, rfl⟩
  case h_3 => cases h

/-- An operation is no list, even if its operands stand between spaces. -/
theorem isOperand_operation {f : Expr → Expr → Expr} (hf : ∃ op, f = .operation op) (a b : Expr)
    (ha : a.IsOperand) (hb : b.IsOperand) : (f a b).IsOperand := by
  obtain ⟨op, rfl⟩ := hf
  exact (Expr.IsRead.operation op ha.read hb.read).isOperand fun _ => rfl

section
variable {L : Level} (hL : L.Reads)
include hL

/-- The arguments of a function are lists of words. -/
theorem functionArguments_read (name : String) :
    Yields (fun es => ∀ e ∈ es, Expr.IsRead e) (functionArguments L name) := by
  rw [functionArguments_eq]
  refine Yields.collect (Yields.after fun _ => Yields.get fun s => ?_)
  split
  · exact .fail _
  · exact Yields.after fun _ => .pure nofun
  · refine hL.words.bind fun e he => Yields.after fun _ => Yields.after fun _ => .pure ?_
    intro f hf
    cases hf
    exact he.read

/-- A word with a parenthesis right after it is the name of a function. -/
theorem keywordOrFunction_read : Yields Expr.IsOperand (keywordOrFunction L) := by
  intro s
  have hname : '!' ∉ (String.ofList (identifier s).1).toList :=
    bang_not_mem_takeWhile (by decide) s
  simp only [keywordOrFunction]
  split
  · split
    · exact rawFunction_read _ _
    · exact (functionArguments_read hL _).map
        (fun _ hes => (Expr.IsRead.function hname hes).isOperand fun _ => rfl) _
  · exact .ok ((Expr.IsRead.keyword hname).isOperand fun _ => rfl) _

/-- A number, a keyword, a call or a bare word is no list. -/
theorem plainTerm_read : Yields Expr.IsOperand (plainTerm L) := by
  intro s
  unfold plainTerm
  split
  · next n rest hnumeral =>
    split
    · exact .ok ((Expr.IsRead.number _ (bang_not_mem_unit hnumeral)).isOperand fun _ => rfl) _
    · exact .error _
  · split
    · exact keywordOrFunction_read hL s
    · have hword : '!' ∉ (String.ofList (bareWord s).1).toList :=
        bang_not_mem_takeWhile (by decide) s
      split
      · exact .error _
      · next word rest _ heq =>
        rw [heq] at hword
        exact .ok ((Expr.IsRead.keyword hword).isOperand fun _ => rfl) _

/-- A ruleset is no list. -/
theorem ruleset_read (site : Site) : Yields Expr.IsOperand (Expr.ruleset site <$> L.block) :=
  hL.block.map fun _ hbody => (Expr.IsRead.ruleset site hbody).isOperand fun _ => rfl

/-- No term is a list: what stands in parentheses is a sum. -/
theorem term_read : Yields Expr.IsOperand (term L) := by
  intro s
  unfold term
  split
  · have hinner : Yields Expr.IsOperand
        (do trivia; let inner ← L.sum; trivia; expect ')'; pure inner) :=
      Yields.after fun _ => hL.sum.bind fun _ he =>
        Yields.after fun _ => Yields.after fun _ => .pure he
    exact hinner _
  · split
    · exact .error _
    · exact .ok ((Expr.IsRead.ref _).isOperand fun _ => rfl) _
  · exact ruleset_read hL _ _
  · next r =>
    have hname : '!' ∉ '#' :: (identifier r).1 := by
      rw [List.mem_cons, not_or]
      exact ⟨by decide, fun h => nomatch List.mem_takeWhile_imp h⟩
    exact .ok ((Expr.IsRead.keyword (by rwa [String.toList_ofList])).isOperand fun _ => rfl) _
  · exact quotedString_read true rfl
  · exact quotedString_read true rfl
  · exact quotedString_read false rfl
  · exact quotedString_read false rfl
  · exact plainTerm_read hL s

/-- The negative of a term is no list. -/
theorem signedTerm_read : Yields Expr.IsOperand (signedTerm L) := by
  have hnegate : Yields Expr.IsOperand (Expr.negate <$> term L) :=
    (term_read hL).map fun _ he => (Expr.IsRead.negate he.read).isOperand fun _ => rfl
  intro s
  unfold signedTerm
  split
  · exact hnegate _
  · exact hnegate _
  · exact term_read hL s

/-- Terms joined by operators are no list. -/
theorem sum_read (inParens : Bool) : Yields Expr.IsOperand (sum L inParens) :=
  .chainLeft (.chainLeft (signedTerm_read hL) fun _ _ _ h => isOperand_operation
    (productOperator?_operation h)) fun _ _ _ h => isOperand_operation (sumOperator?_operation h)

/-- Sums separated by slashes may stand between spaces and between commas. -/
theorem slashList_read (inParens : Bool) :
    Yields (Expr.IsReadIn [.space, .comma]) (slashList L inParens) :=
  (Yields.separated (sum_read hL inParens)).map fun _ ⟨hne, hes⟩ =>
    isReadIn_listOf (by decide) hne hes

/-- Slash lists separated by white space may stand between commas. -/
theorem words_read (inParens : Bool) : Yields (Expr.IsReadIn [.comma]) (words L inParens) := by
  rw [words_eq]
  refine Yields.bind (P := fun es => ∀ e ∈ es, Expr.IsReadIn [.space, .comma] e) (.collect ?_)
    fun es hes => ?_
  · refine Yields.after fun _ => Yields.get fun s => ?_
    split
    · exact .pure nofun
    · exact (slashList_read hL inParens).found
  · split
    · exact .fail _
    · next hne =>
      exact .pure (isReadIn_listOf (by decide) (fun h => hne (List.isEmpty_iff.2 h)) hes)

/-- Lists of words separated by commas are an expression, and stand in no further list. -/
theorem value_read (allowComma : Bool) : Yields Expr.IsRead (value L allowComma) := by
  unfold value
  split
  · refine (Yields.separated (words_read hL false)).map fun es ⟨hne, hes⟩ => ?_
    have hnone : ∀ outer ∈ [], Separator.comma.fitsIn outer := by decide
    exact (isReadIn_listOf hnone hne hes).read
  · exact (words_read hL false).imp fun _ he => he.read

/-! ## Guards -/

/-- A comparison has two sums, and a single value is one. -/
theorem comparison_read : Yields Condition.IsRead (comparison L) := by
  refine Yields.after fun _ => (sum_read hL true).bind fun lhs hlhs =>
    Yields.after fun _ => Yields.get fun s => ?_
  split
  · refine Yields.after fun _ => Yields.after fun _ => (sum_read hL true).bind fun rhs hrhs => ?_
    exact Yields.after fun _ => Yields.after fun _ => .pure (.compare _ hlhs.read hrhs.read)
  · exact Yields.after fun _ => .pure (.truthy hlhs.read)

/-- An atom is a comparison or a guard in parentheses. -/
theorem guardAtom_read : Yields Condition.IsRead (guardAtom L) := by
  have hnested : Yields Condition.IsRead (nestedGuard L) :=
    hL.guard.bind fun _ hc => Yields.after fun _ => Yields.after fun _ => .pure hc
  exact Yields.after fun _ => Yields.after fun _ => (comparison_read hL).orElse hnested

/-- A factor is an atom or its negation. -/
theorem guardFactor_read : Yields Condition.IsRead (guardFactor L) := by
  refine Yields.after fun _ => Yields.get fun s => ?_
  split
  · exact Yields.after fun _ => (guardAtom_read hL).map fun _ hc => .not hc
  · exact guardAtom_read hL

/-- A guard joins factors by `and`, and these by `or`. -/
theorem guard_read : Yields Condition.IsRead (guard L) := by
  refine .chainLeft (.chainLeft (guardFactor_read hL) ?_) ?_
  · intro s f r h a b ha hb
    obtain ⟨t, -, hcut⟩ := Option.map_eq_some_iff.1 h
    cases hcut
    exact .and ha hb
  · intro s f r h a b ha hb
    unfold orOperator? at h
    split at h
    · cases h
      exact .or ha hb
    · obtain ⟨t, -, hcut⟩ := Option.map_eq_some_iff.1 h
      cases hcut
      exact .or ha hb

/-- A guard may be missing. -/
theorem optionalGuard_read : Yields (fun g => ∀ c ∈ g, Condition.IsRead c) (optionalGuard L) := by
  refine Yields.after fun _ => Yields.get fun s => ?_
  split
  · refine Yields.after fun _ => (guard_read hL).bind fun c hc => Yields.after fun _ => .pure ?_
    rintro _ ⟨⟩
    exact hc
  · exact .pure nofun

end

/-! ## Names and selectors -/

/-- A segment of a path is the name of a class or an id. -/
theorem segment?_name {s r : List Char} {name : String} (h : segment? s = some (name, r)) :
    isCallableName name.toList := by
  unfold segment? at h
  split at h
  · next c t =>
    split at h
    · next hmark =>
      have hident : ∀ d ∈ (identifier t).1, isIdentChar d = true := fun d hd =>
        List.mem_takeWhile_imp hd
      split at h
      · cases h
      · next name rest hne heq =>
        cases h
        rw [heq] at hident
        rw [String.toList_ofList]
        have hmark : (c == '.' || c == '#') = true := by simpa using hmark
        cases name with
        | nil => exact absurd rfl hne
        | cons d ds => exact Bool.and_eq_true_iff.2 ⟨hmark, List.all_eq_true.2 hident⟩
    · cases h
  · cases h

/-- The segments after the first one are names of classes or ids. -/
theorem segments?_names {fuel s r : List Char} {names : List String}
    (h : segments? fuel s = some (names, r)) : ∀ name ∈ names, isCallableName name.toList := by
  fun_induction segments? fuel s generalizing names with
  | case1 s =>
    cases h
    exact List.forall_mem_nil _
  | case2 =>
    cases h
    exact List.forall_mem_nil _
  | case3 => cases h
  | case4 _ fuel s t _ name r hsegment ih =>
    obtain ⟨⟨names, rest⟩, hmore, hcut⟩ := Option.map_eq_some_iff.1 h
    cases hcut
    exact List.forall_mem_cons.2 ⟨segment?_name hsegment, ih hmore⟩

/-- All segments of a path are names of classes or ids. -/
theorem path?_names {s r : List Char} {path : List String} (h : path? s = some (path, r)) :
    ∀ name ∈ path, isCallableName name.toList := by
  unfold path? at h
  split at h
  · cases h
  · next name r hsegment =>
    obtain ⟨⟨names, rest⟩, hmore, hcut⟩ := Option.map_eq_some_iff.1 h
    cases hcut
    exact List.forall_mem_cons.2 ⟨segment?_name hsegment, segments?_names hmore⟩

/-- A mixin is defined by such a name. -/
theorem mixinHead?_name {s r : List Char} {name : String} (h : mixinHead? s = some (name, r)) :
    isCallableName name.toList := by
  unfold mixinHead? at h
  split at h
  · cases h
  · next hsegment =>
    split at h
    · cases h
    · cases (Option.ite_none_right_eq_some.1 h).2
      exact segment?_name hsegment

/-- A call has such names on its path. -/
theorem callHead?_names {s r : List Char} {path : List String} (h : callHead? s = some (path, r)) :
    ∀ name ∈ path, isCallableName name.toList := by
  unfold callHead? at h
  split at h
  · cases h
  · next hpath =>
    split at h
    · cases h
    · cases (Option.ite_none_right_eq_some.1 h).2
      exact path?_names hpath

/-- Selectors have been trimmed, and those that are empty left out. -/
theorem selectorsOf_isSelector {raw : List Char} {s : String} (h : s ∈ selectorsOf raw) :
    IsSelector s := by
  obtain ⟨t, ht, rfl⟩ := List.mem_map.1 h
  obtain ⟨hpart, hne⟩ := List.mem_filter.1 ht
  obtain ⟨part, -, rfl⟩ := List.mem_map.1 hpart
  rw [IsSelector, String.toList_ofList]
  -- Trimming leaves nothing or firm ends, and the filter keeps only what is left of something.
  rcases trim_firm part with hnil | hfirm
  · rw [hnil] at hne
    cases hne
  · exact hfirm

/-! ## Statements -/

/-- The call of a ruleset has nothing but a name and comments. -/
theorem detachedCall_read (name : String) (leading : List String) :
    Yields Item.IsRead (detachedCall name leading) := by
  refine Yields.after fun _ => Yields.get fun s => ?_
  split
  · refine Yields.after fun _ => Yields.after fun _ => ?_
    exact (Yields.trivial _).map fun comments _ => .detachedCall name comments
  · exact .fail _

section
variable {L : Level} (hL : L.Reads)
include hL

/-- A block has the statements that the next level reads. -/
theorem bracedBlock_read : Yields (fun xs => ∀ x ∈ xs, Item.IsRead x) (bracedBlock L) :=
  Yields.after fun _ => hL.block

/-- What a variable is declared to be: an expression, or one followed by the importance marker. -/
theorem assignedValue_read : Yields (fun v => ∀ name, (Item.assign name v).IsRead)
    (assignedValue L) := by
  intro s
  unfold assignedValue
  split
  · exact (ruleset_read hL _).imp (fun _ hv name => .assign name hv.read) _
  · refine ((value_read hL true).bind fun v hv =>
      Yields.after fun _ => Yields.after fun important => ?_) s
    split
    · exact .pure fun name => .important name hv
    · exact .pure fun name => .assign name hv

/-- A parameter may have a default or be a pattern. -/
theorem param_read (semicolons : Bool) : Yields Param.IsRead (param L semicolons) := by
  intro s
  have hvalue := value_read hL semicolons
  unfold param
  split
  · exact .ok (.rest none) _
  · split
    · next name r _ =>
      have hdefault : Yields Param.IsRead
          (do trivia; .named name <$> some <$> value L semicolons) :=
        Yields.after fun _ => hvalue.found.map fun _ he => .named name he
      exact hdefault r
    · split
      · split
        · exact .error _
        · split
          · exact .ok (.rest _) _
          · exact .ok (.named _ nofun) _
      · have hpattern : Yields Param.IsRead (Param.pattern <$> value L semicolons) :=
          hvalue.map fun _ he => .pattern he
        exact hpattern s

/-- An argument has a value, with a name before it or not. -/
theorem argument_read (semicolons : Bool) :
    Yields (fun arg => arg.value.IsRead) (argument L semicolons) := by
  intro s
  have hvalue : ∀ name, Yields (fun arg => arg.value.IsRead)
      (Argument.mk name <$> value L semicolons) :=
    fun name => (value_read hL semicolons).map fun _ he => he
  unfold argument
  split
  · next name r _ =>
    have hnamed : Yields (fun arg => arg.value.IsRead)
        (do trivia; Argument.mk (some name) <$> value L semicolons) :=
      Yields.after fun _ => hvalue (some name)
    exact hnamed r
  · exact hvalue none s

/-- A call may have no arguments. -/
theorem callArguments_read :
    Yields (fun args => ∀ arg ∈ args, arg.value.IsRead) (callArguments L) := by
  intro s
  unfold callArguments
  split
  · exact parenthesised_read (argument_read hL) _ _ _
  · exact .ok nofun s

/-- A variable is declared to be an expression, or one with the importance marker after it. -/
theorem assignment_read (name : String) : Yields Item.IsRead (assignment L name) :=
  Yields.after fun _ => (assignedValue_read hL).bind fun _ hv =>
    Yields.after fun _ => .pure (hv name)

/-- An at-rule has a block. -/
theorem atRule_read (name : String) : Yields Item.IsRead (atRule L name) := by
  refine Yields.after fun _ => Yields.get fun s => Yields.after fun _ => ?_
  exact (bracedBlock_read hL).map fun _ hbody => .atRule name _ hbody

/-- A mixin has a name that can be called, parameters, a guard that may be missing, and a block. -/
theorem mixinDefinition_read (start : List Char) {name : String}
    (hname : isCallableName name.toList) : Yields Item.IsRead (mixinDefinition L start name) :=
  Yields.after fun _ => Yields.after fun _ =>
    (parenthesised_read (param_read hL) _ _).bind fun _ hparams =>
      (optionalGuard_read hL).bind fun _ hcondition =>
        (bracedBlock_read hL).bind fun _ hbody =>
          .pure (.mixin (L.site start) hname hparams hcondition hbody)

/-- A call has a path of such names, and arguments. -/
theorem mixinCall_read {path : List String} (hpath : ∀ name ∈ path, isCallableName name.toList)
    (leading : List String) : Yields Item.IsRead (mixinCall L path leading) :=
  Yields.after fun _ => (callArguments_read hL).bind fun _ hargs => Yields.after fun _ =>
    Yields.after fun _ => Yields.after fun _ => Yields.after fun _ => .pure (.call hpath hargs)

/-- The importance marker of a declaration is no part of its value. -/
theorem declaration_read (leading : List String) : Yields Item.IsRead (declaration L leading) :=
  Yields.get fun _ => Yields.after fun _ => Yields.after fun _ => Yields.after fun _ =>
    Yields.after fun _ => (value_read hL true).bind fun _ hv => Yields.after fun _ =>
      Yields.after fun _ => Yields.after fun _ => Yields.after fun _ => .pure (.declaration hv)

/-- A rule has selectors: without any, the parser fails. -/
theorem rule_read : Yields Item.IsRead (rule L) := by
  intro s
  rw [rule_eq]
  have hselectors : ∀ t ∈ selectorsOf (selectorFrom .blank s).1, IsSelector t := fun _ ht =>
    selectorsOf_isSelector ht
  generalize selectorsOf (selectorFrom .blank s).1 = selectors at hselectors
  have hblock : selectors ≠ [] → Yields Item.IsRead (optionalGuard L >>= fun condition =>
      bracedBlock L >>= fun body => pure (.rule ⟨selectors, condition, body⟩)) := fun hne =>
    (optionalGuard_read hL).bind fun _ hcondition => (bracedBlock_read hL).bind fun _ hbody =>
      .pure (.rule hne hselectors hcondition hbody)
  unfold ruleFrom
  split
  · exact .error _
  · next hne => exact hblock (fun hnil => hne (List.isEmpty_iff.2 hnil)) _

/-- A mixin definition, a mixin call, a declaration or a rule. -/
theorem plainItem_read (leading : List String) : Yields Item.IsRead (plainItem L leading) := by
  intro s
  unfold plainItem
  split
  · next hhead => exact mixinDefinition_read hL s (mixinHead?_name hhead) _
  · split
    · next hhead => exact mixinCall_read hL (callHead?_names hhead) leading _
    · split
      · exact declaration_read hL leading s
      · exact rule_read hL s
      · exact .error _

/-- A statement of any kind. -/
theorem item_read (leading : List String) : Yields Item.IsRead (item L leading) := by
  intro s
  unfold item
  split
  · exact assignment_read hL _ _
  · split
    · exact .error _
    · split
      · exact detachedCall_read _ leading _
      · split
        · exact atRule_read hL _ _
        · exact plainItem_read hL leading s

/-- The statements of a block. -/
theorem block_read : Yields (fun xs => ∀ x ∈ xs, Item.IsRead x) (block L) := by
  rw [block_eq]
  refine Yields.collect (Yields.after fun leading => Yields.get fun s => ?_)
  split
  · exact .fail _
  · exact Yields.after fun _ => .pure nofun
  · exact (item_read hL leading).found

end

/-! ## A whole source text -/

/-- At every depth what is read has the shape it can have. -/
theorem level_reads (document depth : Nat) : (level document depth).Reads := by
  induction depth with
  | zero => exact ⟨.fail _, .fail _, .fail _, .fail _⟩
  | succ depth ih => exact ⟨block_read ih, sum_read ih true, words_read ih true, guard_read ih⟩

/-- The statements of a whole source text. -/
theorem stylesheet_read {L : Level} (hL : L.Reads) :
    Yields (fun sheet => ∀ x ∈ sheet.body, Item.IsRead x) (stylesheet L) := by
  have htop : Yields (fun x => ∀ y ∈ x, Sum.elim (fun _ => True) Item.IsRead y) (topItem L) := by
    intro s
    rw [topItem_eq]
    split
    · exact .ok nofun _
    · refine Yields.found (fun t => ?_) _
      unfold topStatement
      split
      · exact (Yields.trivial _).map (fun _ _ => True.intro) _
      · have hitem : ∀ leading,
            Yields (Sum.elim (fun _ : String => True) Item.IsRead) (.inr <$> item L leading) :=
          fun leading => (item_read hL leading).map fun _ hx => hx
        exact hitem _ t
  refine (Yields.collect htop).bind fun items hitems => .pure fun x hx => ?_
  obtain ⟨y, hy, hyx⟩ := List.mem_filterMap.1 hx
  have hread := hitems y hy
  cases y with
  | inl _ => cases hyx
  | inr z =>
    cases hyx
    exact hread

/-- A property of whatever the grammar of stylesheets reads, of a stylesheet that was read. -/
theorem parse_yields {P : Stylesheet → Prop}
    (hP : ∀ document depth, Yields P (stylesheet (level document depth))) {source : String}
    {document : Nat} {sheet : Stylesheet} (h : Stylesheet.parse source document = .ok sheet) :
    P sheet := by
  unfold Stylesheet.parse at h
  simp only at h
  split at h
  · next read rest hread =>
    cases h
    exact hP document _ _ _ _ hread
  · cases h

end Grammar

/-- Every source text that can be read is read as statements of this shape, whatever they hold. -/
theorem Stylesheet.shape_of_parse {source : String} {document : Nat} {sheet : Stylesheet}
    (h : Stylesheet.parse source document = .ok sheet) : ∀ x ∈ sheet.body, x.IsRead :=
  Grammar.parse_yields (fun document depth =>
    Grammar.stylesheet_read (Grammar.level_reads document depth)) h

namespace Shape

/-- A variable with the importance marker, a mixin with a default, and a rule that calls a mixin in
a namespace. -/
def source : String :=
  "@v: a b/c, d !important;\n.m(@p: q) \x7b w: @p \x7d\n.a, .b \x7b #n > .m(@v); \x7d"

/-- The value of the variable: lists of all three kinds, one in the other. -/
def value : Expr :=
  .list .comma [.list .space [.keyword "a", .list .slash [.keyword "b", .keyword "c"]],
    .keyword "d"]

/-- What the source says, where the definition is at a site. -/
def sheet (site : Site) : Stylesheet := ⟨[], [
  .assign "v" (.list .space [value, .keyword "!important"]),
  .mixin site ⟨".m", [.named "p" (some (.keyword "q"))], none, [
    .declaration ⟨"w", .ref "p", false, {}⟩]⟩,
  .rule ⟨[".a", ".b"], none, [.call ⟨["#n", ".m"], [⟨none, .ref "v"⟩], false, {}⟩]⟩]⟩

/-- The site of the definition, if this is what was read. -/
def site? : Except ParseError Stylesheet → Option Site
  | .ok ⟨[], [
      .assign "v" (.list .space [
        .list .comma [.list .space [.keyword "a", .list .slash [.keyword "b", .keyword "c"]],
          .keyword "d"],
        .keyword "!important"]),
      .mixin site ⟨".m", [.named "p" (some (.keyword "q"))], none, [
        .declaration ⟨"w", .ref "p", false, ⟨[], []⟩⟩]⟩,
      .rule ⟨[".a", ".b"], none, [
        .call ⟨["#n", ".m"], [⟨none, .ref "v"⟩], false, ⟨[], []⟩⟩]⟩]⟩ => some site
  | _ => none

/-- What has been read at this site is the stylesheet. -/
theorem eq_sheet {read : Except ParseError Stylesheet} {site : Site} (h : site? read = some site) :
    read = .ok (sheet site) := by
  unfold site? at h
  split at h
  · cases h
    rfl
  · cases h

end Shape

open Shape in
/-- The value with the marker after it has no shape that an expression could be read in: a list
between commas is an item of a list between spaces. -/
theorem Stylesheet.shape_of_parse_marked :
    Stylesheet.parse source = .ok (sheet ⟨0, 43⟩) ∧ (∀ x ∈ (sheet ⟨0, 43⟩).body, x.IsRead) ∧
      ¬ Expr.IsRead (.list .space [value, .keyword "!important"]) := by
  have hparse : Stylesheet.parse source = .ok (sheet ⟨0, 43⟩) := eq_sheet (by decide +kernel)
  refine ⟨hparse, Stylesheet.shape_of_parse hparse, fun hread => ?_⟩
  cases hread with
  | list _ hfits _ => exact absurd (hfits value (.head _)) (by decide)

end LessSheet
