import LessSheet.Stylesheet
import Mathlib.Data.List.Forall2

/-! # Stylesheets that are alike

Two blocks are alike (`Body.Alike`) if the one comes of the other by moving mixin definitions, in
the block itself or in blocks inside it, past statements that define nothing callable. All else is
the same in both, down to the sites of definitions and rulesets: a literal that is moved is still
that literal.

The relation has a parameter, a condition on the texts in expressions. A block whose texts all meet
it is alike to itself (`Body.alike_self`), so with the condition that always holds every block is.
-/

namespace LessSheet

/-- A text in an expression: a word, which is a keyword, a unit or the name of a function, or a
string as it is written and its quote. -/
inductive Leaf where
  | word (text : String)
  | string (text : String) (quote : Char)
deriving DecidableEq, Repr, Inhabited

/-- Whether a statement defines nothing callable: it is neither a mixin definition nor a rule with
one class or id selector. -/
def Item.isQuiet : Item → Bool
  | .mixin _ _ => false
  | .rule r => r.mixinName?.isNone
  | _ => true

/-! ## The relation -/

mutual

/-- Expressions that differ in the rulesets in them, which are alike. -/
inductive Expr.Alike (L : Leaf → Prop) : Expr → Expr → Prop where
  | number (value : Float) {unit : String} :
    L (.word unit) → Expr.Alike L (.number value unit) (.number value unit)
  | keyword {text : String} : L (.word text) → Expr.Alike L (.keyword text) (.keyword text)
  | quoted {text : String} {quote : Char} (escaped : Bool) : L (.string text quote) →
    Expr.Alike L (.quoted text quote escaped) (.quoted text quote escaped)
  | ref (name : String) : Expr.Alike L (.ref name) (.ref name)
  | negate {e f : Expr} : Expr.Alike L e f → Expr.Alike L (.negate e) (.negate f)
  | operation (op : Operator) {e f e' f' : Expr} : Expr.Alike L e f → Expr.Alike L e' f' →
    Expr.Alike L (.operation op e e') (.operation op f f')
  | list (separator : Separator) {es fs : List Expr} : Expr.ListAlike L es fs →
    Expr.Alike L (.list separator es) (.list separator fs)
  | function {name : String} {es fs : List Expr} : L (.word name) → Expr.ListAlike L es fs →
    Expr.Alike L (.function name es) (.function name fs)
  | ruleset (site : Site) {xs ys : List Item} : Body.Alike L xs ys →
    Expr.Alike L (.ruleset site xs) (.ruleset site ys)

/-- Expressions that are alike one by one. -/
inductive Expr.ListAlike (L : Leaf → Prop) : List Expr → List Expr → Prop where
  | nil : Expr.ListAlike L [] []
  | cons {e f : Expr} {es fs : List Expr} : Expr.Alike L e f → Expr.ListAlike L es fs →
    Expr.ListAlike L (e :: es) (f :: fs)

/-- Conditions of one shape on expressions that are alike. -/
inductive Condition.Alike (L : Leaf → Prop) : Condition → Condition → Prop where
  | truthy {e f : Expr} : Expr.Alike L e f → Condition.Alike L (.truthy e) (.truthy f)
  | compare (op : Comparison) {e f e' f' : Expr} : Expr.Alike L e f → Expr.Alike L e' f' →
    Condition.Alike L (.compare op e e') (.compare op f f')
  | not {c d : Condition} : Condition.Alike L c d → Condition.Alike L (.not c) (.not d)
  | and {c d c' d' : Condition} : Condition.Alike L c d → Condition.Alike L c' d' →
    Condition.Alike L (.and c c') (.and d d')
  | or {c d c' d' : Condition} : Condition.Alike L c d → Condition.Alike L c' d' →
    Condition.Alike L (.or c c') (.or d d')

/-- Guards are alike if there is none, or conditions that are. -/
inductive Guard.Alike (L : Leaf → Prop) : Option Condition → Option Condition → Prop where
  | none : Guard.Alike L none none
  | some {c d : Condition} : Condition.Alike L c d → Guard.Alike L (some c) (some d)

/-- Parameters of one name, with defaults that are alike, or patterns that are. -/
inductive Param.Alike (L : Leaf → Prop) : Param → Param → Prop where
  | named (name : String) : Param.Alike L (.named name none) (.named name none)
  | default (name : String) {e f : Expr} : Expr.Alike L e f →
    Param.Alike L (.named name (some e)) (.named name (some f))
  | rest (name : Option String) : Param.Alike L (.rest name) (.rest name)
  | pattern {e f : Expr} : Expr.Alike L e f → Param.Alike L (.pattern e) (.pattern f)

/-- Parameters that are alike one by one. -/
inductive Param.ListAlike (L : Leaf → Prop) : List Param → List Param → Prop where
  | nil : Param.ListAlike L [] []
  | cons {p q : Param} {ps qs : List Param} : Param.Alike L p q → Param.ListAlike L ps qs →
    Param.ListAlike L (p :: ps) (q :: qs)

/-- Mixins of one name with parameters, guards and bodies that are alike. -/
inductive Mixin.Alike (L : Leaf → Prop) : Mixin → Mixin → Prop where
  | mk (name : String) {ps qs : List Param} {g h : Option Condition} {xs ys : List Item} :
    Param.ListAlike L ps qs → Guard.Alike L g h → Body.Alike L xs ys →
    Mixin.Alike L ⟨name, ps, g, xs⟩ ⟨name, qs, h, ys⟩

/-- Arguments of the same names, whose values are alike one by one. -/
inductive Argument.ListAlike (L : Leaf → Prop) : List Argument → List Argument → Prop where
  | nil : Argument.ListAlike L [] []
  | cons (name : Option String) {e f : Expr} {as bs : List Argument} : Expr.Alike L e f →
    Argument.ListAlike L as bs → Argument.ListAlike L (⟨name, e⟩ :: as) (⟨name, f⟩ :: bs)

/-- Statements of one kind whose parts are alike. -/
inductive Item.Alike (L : Leaf → Prop) : Item → Item → Prop where
  | declaration (name : String) (important : Bool) (comments : Comments) {e f : Expr} :
    Expr.Alike L e f →
    Item.Alike L (.declaration ⟨name, e, important, comments⟩)
      (.declaration ⟨name, f, important, comments⟩)
  | rule (selectors : List String) {g h : Option Condition} {xs ys : List Item} :
    Guard.Alike L g h → Body.Alike L xs ys →
    Item.Alike L (.rule ⟨selectors, g, xs⟩) (.rule ⟨selectors, h, ys⟩)
  | atRule (name params : String) {xs ys : List Item} : Body.Alike L xs ys →
    Item.Alike L (.atRule name params xs) (.atRule name params ys)
  | detachedCall (name : String) (comments : Comments) :
    Item.Alike L (.detachedCall name comments) (.detachedCall name comments)
  | assign (name : String) {e f : Expr} : Expr.Alike L e f →
    Item.Alike L (.assign name e) (.assign name f)
  | mixin (site : Site) {m n : Mixin} : Mixin.Alike L m n →
    Item.Alike L (.mixin site m) (.mixin site n)
  | call (path : List String) (important : Bool) (comments : Comments) {as bs : List Argument} :
    Argument.ListAlike L as bs →
    Item.Alike L (.call ⟨path, as, important, comments⟩) (.call ⟨path, bs, important, comments⟩)

/-- Blocks whose statements are alike one by one, once a definition has been moved behind or before
statements that define nothing callable, and so on. -/
inductive Body.Alike (L : Leaf → Prop) : List Item → List Item → Prop where
  | nil : Body.Alike L [] []
  | cons {x y : Item} {xs ys : List Item} : Item.Alike L x y → Body.Alike L xs ys →
    Body.Alike L (x :: xs) (y :: ys)
  | later (site : Site) (m : Mixin) {between rest ys : List Item} :
    (∀ x ∈ between, x.isQuiet) → Body.Alike L (between ++ .mixin site m :: rest) ys →
    Body.Alike L (.mixin site m :: (between ++ rest)) ys
  | earlier (site : Site) (m : Mixin) {between rest ys : List Item} :
    (∀ x ∈ between, x.isQuiet) → Body.Alike L (.mixin site m :: (between ++ rest)) ys →
    Body.Alike L (between ++ .mixin site m :: rest) ys

end

/-! ## The texts of a stylesheet -/

mutual

/-- The texts in an expression. -/
def Expr.leaves : Expr → List Leaf
  | .number _ unit => [.word unit]
  | .keyword text => [.word text]
  | .quoted text quote _ => [.string text quote]
  | .ref _ => []
  | .negate inner => inner.leaves
  | .operation _ lhs rhs => lhs.leaves ++ rhs.leaves
  | .list _ items => Expr.leavesOf items
  | .function name args => .word name :: Expr.leavesOf args
  | .ruleset _ body => Item.leavesOf body

/-- The texts in several expressions. -/
def Expr.leavesOf : List Expr → List Leaf
  | [] => []
  | e :: es => e.leaves ++ Expr.leavesOf es

/-- The texts in the expressions of a condition. -/
def Condition.leaves : Condition → List Leaf
  | .truthy e => e.leaves
  | .compare _ lhs rhs => lhs.leaves ++ rhs.leaves
  | .not inner => inner.leaves
  | .and lhs rhs => lhs.leaves ++ rhs.leaves
  | .or lhs rhs => lhs.leaves ++ rhs.leaves

/-- The texts in a guard, if there is one. -/
def Guard.leaves : Option Condition → List Leaf
  | none => []
  | some c => c.leaves

/-- The texts in the default or the pattern of a parameter. -/
def Param.leaves : Param → List Leaf
  | .named _ none => []
  | .named _ (some e) => e.leaves
  | .rest _ => []
  | .pattern e => e.leaves

/-- The texts in several parameters. -/
def Param.leavesOf : List Param → List Leaf
  | [] => []
  | p :: ps => p.leaves ++ Param.leavesOf ps

/-- The texts in a mixin: in its parameters, its guard and its body. -/
def Mixin.leaves : Mixin → List Leaf
  | ⟨_, params, guard, body⟩ => Param.leavesOf params ++ Guard.leaves guard ++ Item.leavesOf body

/-- The texts in the values of arguments. -/
def Argument.leavesOf : List Argument → List Leaf
  | [] => []
  | ⟨_, e⟩ :: args => e.leaves ++ Argument.leavesOf args

/-- The texts in the expressions of a statement, at any depth. -/
def Item.leaves : Item → List Leaf
  | .declaration ⟨_, value, _, _⟩ => value.leaves
  | .rule ⟨_, guard, body⟩ => Guard.leaves guard ++ Item.leavesOf body
  | .atRule _ _ body => Item.leavesOf body
  | .detachedCall _ _ => []
  | .assign _ value => value.leaves
  | .mixin _ m => m.leaves
  | .call ⟨_, args, _, _⟩ => Argument.leavesOf args

/-- The texts in the expressions of a block, at any depth. -/
def Item.leavesOf : List Item → List Leaf
  | [] => []
  | x :: xs => x.leaves ++ Item.leavesOf xs

end

/-- The texts of expressions are those of each of them. -/
theorem Expr.leavesOf_eq (es : List Expr) : Expr.leavesOf es = es.flatMap Expr.leaves := by
  induction es with
  | nil => rfl
  | cons e es ih => rw [Expr.leavesOf, ih, List.flatMap_cons]

/-- The texts of parameters are those of each of them. -/
theorem Param.leavesOf_eq (ps : List Param) : Param.leavesOf ps = ps.flatMap Param.leaves := by
  induction ps with
  | nil => rfl
  | cons p ps ih => rw [Param.leavesOf, ih, List.flatMap_cons]

/-- The texts of arguments are those of their values. -/
theorem Argument.leavesOf_eq (args : List Argument) :
    Argument.leavesOf args = args.flatMap fun arg => arg.value.leaves := by
  induction args with
  | nil => rfl
  | cons arg args ih =>
    obtain ⟨name, value⟩ := arg
    rw [Argument.leavesOf, ih, List.flatMap_cons]

/-- The texts of a block are those of each of its statements. -/
theorem Item.leavesOf_eq (xs : List Item) : Item.leavesOf xs = xs.flatMap Item.leaves := by
  induction xs with
  | nil => rfl
  | cons x xs ih => rw [Item.leavesOf, ih, List.flatMap_cons]

section
variable {L : Leaf → Prop}

mutual

/-- An expression whose texts all meet the condition is alike to itself. -/
theorem Expr.alike_self : ∀ e : Expr, (∀ l ∈ e.leaves, L l) → Expr.Alike L e e
  | .number value _, h => .number value (h _ (.head _))
  | .keyword _, h => .keyword (h _ (.head _))
  | .quoted _ _ escaped, h => .quoted escaped (h _ (.head _))
  | .ref name, _ => .ref name
  | .negate inner, h => .negate (Expr.alike_self inner h)
  | .operation op lhs rhs, h =>
    have h := List.forall_mem_append.1 h
    .operation op (Expr.alike_self lhs h.1) (Expr.alike_self rhs h.2)
  | .list separator items, h => .list separator (Expr.listAlike_self items h)
  | .function _ args, h =>
    have h := List.forall_mem_cons.1 h
    .function h.1 (Expr.listAlike_self args h.2)
  | .ruleset site body, h => .ruleset site (Body.alike_self body h)

/-- Expressions whose texts all meet the condition are alike to themselves, one by one. -/
theorem Expr.listAlike_self : ∀ es : List Expr, (∀ l ∈ Expr.leavesOf es, L l) →
    Expr.ListAlike L es es
  | [], _ => .nil
  | e :: es, h =>
    have h := List.forall_mem_append.1 h
    .cons (Expr.alike_self e h.1) (Expr.listAlike_self es h.2)

/-- A guard's condition whose texts are all such is alike to itself. -/
theorem Condition.alike_self : ∀ c : Condition, (∀ l ∈ c.leaves, L l) → Condition.Alike L c c
  | .truthy e, h => .truthy (Expr.alike_self e h)
  | .compare op lhs rhs, h =>
    have h := List.forall_mem_append.1 h
    .compare op (Expr.alike_self lhs h.1) (Expr.alike_self rhs h.2)
  | .not inner, h => .not (Condition.alike_self inner h)
  | .and lhs rhs, h =>
    have h := List.forall_mem_append.1 h
    .and (Condition.alike_self lhs h.1) (Condition.alike_self rhs h.2)
  | .or lhs rhs, h =>
    have h := List.forall_mem_append.1 h
    .or (Condition.alike_self lhs h.1) (Condition.alike_self rhs h.2)

/-- A guard whose texts are all such is alike to itself, and it may be missing. -/
theorem Guard.alike_self : ∀ g : Option Condition, (∀ l ∈ Guard.leaves g, L l) →
    Guard.Alike L g g
  | none, _ => .none
  | some c, h => .some (Condition.alike_self c h)

/-- A parameter whose default or pattern has such texts is alike to itself. -/
theorem Param.alike_self : ∀ p : Param, (∀ l ∈ p.leaves, L l) → Param.Alike L p p
  | .named name none, _ => .named name
  | .named name (some e), h => .default name (Expr.alike_self e h)
  | .rest name, _ => .rest name
  | .pattern e, h => .pattern (Expr.alike_self e h)

/-- Parameters with such texts are alike to themselves, one by one. -/
theorem Param.listAlike_self : ∀ ps : List Param, (∀ l ∈ Param.leavesOf ps, L l) →
    Param.ListAlike L ps ps
  | [], _ => .nil
  | p :: ps, h =>
    have h := List.forall_mem_append.1 h
    .cons (Param.alike_self p h.1) (Param.listAlike_self ps h.2)

/-- A mixin with such texts is alike to itself, with its parameters, its guard and its body. -/
theorem Mixin.alike_self : ∀ m : Mixin, (∀ l ∈ m.leaves, L l) → Mixin.Alike L m m
  | ⟨name, params, guard, body⟩, h =>
    have h := List.forall_mem_append.1 h
    have h' := List.forall_mem_append.1 h.1
    .mk name (Param.listAlike_self params h'.1) (Guard.alike_self guard h'.2)
      (Body.alike_self body h.2)

/-- The arguments of a call with such texts are alike to themselves. -/
theorem Argument.listAlike_self : ∀ args : List Argument, (∀ l ∈ Argument.leavesOf args, L l) →
    Argument.ListAlike L args args
  | [], _ => .nil
  | ⟨name, e⟩ :: args, h =>
    have h := List.forall_mem_append.1 h
    .cons name (Expr.alike_self e h.1) (Argument.listAlike_self args h.2)

/-- A statement of any kind with such texts is alike to itself. -/
theorem Item.alike_self : ∀ x : Item, (∀ l ∈ x.leaves, L l) → Item.Alike L x x
  | .declaration ⟨name, value, important, comments⟩, h =>
    .declaration name important comments (Expr.alike_self value h)
  | .rule ⟨selectors, guard, body⟩, h =>
    have h := List.forall_mem_append.1 h
    .rule selectors (Guard.alike_self guard h.1) (Body.alike_self body h.2)
  | .atRule name params body, h => .atRule name params (Body.alike_self body h)
  | .detachedCall name comments, _ => .detachedCall name comments
  | .assign name value, h => .assign name (Expr.alike_self value h)
  | .mixin site m, h => .mixin site (Mixin.alike_self m h)
  | .call ⟨path, args, important, comments⟩, h =>
    .call path important comments (Argument.listAlike_self args h)

/-- A block whose texts meet the condition is alike to itself. -/
theorem Body.alike_self : ∀ xs : List Item, (∀ l ∈ Item.leavesOf xs, L l) → Body.Alike L xs xs
  | [], _ => .nil
  | x :: xs, h =>
    have h := List.forall_mem_append.1 h
    .cons (Item.alike_self x h.1) (Body.alike_self xs h.2)

end

end

end LessSheet
