import LessSheet.Proofs.Scope.Shift

/-! # Evaluation in arenas that correspond

What is evaluated at corresponding scopes of arenas that correspond comes to the same, up to the
numbers of the scopes: expressions (`Expr.eval_shift`), texts with placeholders, conditions, and the
verdicts of guards (`verdictOf_shift`).

Rulesets are compared by the scope they were written in, so that no two scopes get the same number
matters here. Otherwise a value is asked for nothing that its scopes have a part in.
-/

namespace LessSheet

/-! ## Values -/

section
variable {f : ScopeId → ScopeId}

mutual

/-- A ruleset stands in a text without its scope, so the text of a value has no numbers in it. -/
theorem Value.text_renumber : ∀ v : Value, (v.renumber f).text = v.text
  | .number _ | .keyword _ | .quoted _ _ | .ruleset _ _ _ => rfl
  | .list separator items => by
    rw [Value.renumber, Value.text, Value.text, Value.texts_renumberAll items]
  | .function name args => by
    rw [Value.renumber, Value.text, Value.text, Value.texts_renumberAll args]

/-- The texts of the items of a list have no numbers in them. -/
theorem Value.texts_renumberAll : ∀ vs : List Value,
    Value.texts (Value.renumberAll f vs) = Value.texts vs
  | [] => rfl
  | v :: vs => by
    rw [Value.renumberAll, Value.texts, Value.texts, Value.text_renumber v,
      Value.texts_renumberAll vs]

end

/-- The text of a value has no scope numbers in it. -/
@[simp] theorem text_rename (v : Value) : (rename f v).text = v.text := Value.text_renumber v

@[simp] theorem texts_rename (vs : List Value) : Value.texts (rename f vs) = Value.texts vs := by
  rw [← Value.renumberAll_eq, Value.texts_renumberAll]

@[simp] theorem content_rename (v : Value) : (rename f v).content = v.content := by
  cases v with
  | number _ | keyword _ | quoted _ _ | ruleset _ _ _ => rfl
  | list _ _ | function _ _ => exact text_rename _

@[simp] theorem isTrue_rename (v : Value) : (rename f v).isTrue = v.isTrue := by
  cases v <;> rfl

/-- A value has the corresponding negative, or none, with an error that shows its text. -/
theorem negate_rename (v : Value) : (rename f v).negate = rename f v.negate := by
  cases v with
  | number _ | keyword _ | quoted _ _ | ruleset _ _ _ => rfl
  | list _ _ | function _ _ => simp [Value.negate, Value.text]

/-- An operation calculates with numbers alone, and writes any other operand into the error. -/
theorem operate_rename (op : Operator) (v w : Value) :
    Value.operate op (rename f v) (rename f w) = rename f (Value.operate op v w) := by
  -- two numbers are calculated with, any other two values are only written into the error
  cases v with
  | number p =>
    cases w with
    | number q =>
      simp only [rename_number, Value.operate]
      cases Value.calculate op p.value q.value <;> rfl
    | keyword _ | quoted _ _ | list _ _ | function _ _ | ruleset _ _ _ =>
      simp [Value.operate, Value.text]
  | keyword _ | quoted _ _ | list _ _ | function _ _ | ruleset _ _ _ =>
    cases w <;> simp [Value.operate, Value.text]

end

/-- Two rulesets are the same if they were the same before their scopes were renumbered. -/
theorem compare_shift (n k : Nat) (v w : Value) :
    (rename (shift n k) v).compare (rename (shift n k) w) = v.compare w := by
  cases v with
  | ruleset _ _ _ =>
    cases w with
    | ruleset _ _ _ => simp only [rename_ruleset, Value.compare, shift_inj]
    | number _ | keyword _ | quoted _ _ | list _ _ | function _ _ => rfl
  | number _ | keyword _ | quoted _ _ | list _ _ | function _ _ =>
    cases w <;> simp [Value.compare, Value.content, Value.text]

/-! ## Expressions and texts -/

/-- Views of corresponding scopes of arenas that correspond. -/
structure ShiftedView (n k : Nat) (v w : View) : Prop where
  arena : Shifted n k v.arena w.arena
  scope : w.scope = shift n k v.scope
  default : w.default? = v.default?

section
variable {n k : Nat} {v w : View}

/-- Corresponding scopes are looked at, at the same value of `default()`. -/
theorem Shifted.view {a b : Arena} (h : Shifted n k a b) (s : ScopeId) (default : Option Bool) :
    ShiftedView n k ⟨a, s, default⟩ ⟨b, shift n k s, default⟩ := ⟨h, rfl, rfl⟩

/-- A variable has corresponding values, or none in both. -/
theorem ShiftedView.lookup (h : ShiftedView n k v w) (name : String) :
    w.lookup name = rename (shift n k) (v.lookup name) := by
  rw [View.lookup, View.lookup, h.scope, h.arena.lookup]
  cases v.arena.lookup v.scope name <;> rfl

/-- A placeholder is filled with a text, so the result is the same. -/
theorem ShiftedView.fill (h : ShiftedView n k v w) (pieces : List Text.Piece) :
    w.fill pieces = v.fill pieces := by
  induction pieces with
  | nil => rfl
  | cons piece rest ih =>
    cases piece with
    | char c => rw [View.fill, View.fill, ih]
    | hole name raw =>
      rw [View.fill, View.fill, ih, h.lookup]
      cases v.lookup (String.ofList name) with
      | error e => rfl
      | ok value =>
        show (v.fill rest >>= fun more => pure ((rename _ value).content.toList ++ more)) = _
        rw [content_rename]
        rfl

/-- A text with placeholders comes to the same in corresponding scopes. -/
theorem ShiftedView.interpolate (h : ShiftedView n k v w) (text : String) :
    w.interpolate text = v.interpolate text := by
  rw [View.interpolate, View.interpolate, h.fill]

/-- In corresponding scopes the same variables are known. -/
theorem ShiftedView.fillKnown (h : ShiftedView n k v w) (pieces : List Text.Piece) :
    w.fillKnown pieces = v.fillKnown pieces := by
  induction pieces with
  | nil => rfl
  | cons piece rest ih =>
    cases piece with
    | char c => rw [View.fillKnown, View.fillKnown, ih]
    | hole name raw =>
      rw [View.fillKnown, View.fillKnown, ih, h.scope, h.arena.lookup]
      cases v.arena.lookup v.scope (String.ofList name) with
      | none => rfl
      | some value => simp only [rename_some, content_rename]

/-- The parameters of an at-rule come to the same in corresponding scopes. -/
theorem ShiftedView.substitute (h : ShiftedView n k v w) (params : String) :
    w.substitute params = v.substitute params := by
  rw [View.substitute, View.substitute, h.fillKnown]

mutual

/-- An expression has corresponding values at scopes that correspond. -/
theorem Expr.eval_shift (h : ShiftedView n k v w) :
    ∀ e : Expr, e.eval w = rename (shift n k) (e.eval v)
  | .number _ _ | .keyword _ => rfl
  | .quoted text quote escaped => by
    rw [Expr.eval, Expr.eval, h.interpolate]
    refine rename_bind_plain rfl fun t => ?_
    cases escaped <;> rfl
  | .ref name => h.lookup name
  | .negate inner => by
    rw [Expr.eval, Expr.eval]
    exact rename_bind (Expr.eval_shift h inner) negate_rename
  | .operation op lhs rhs => by
    rw [Expr.eval, Expr.eval]
    refine rename_bind (Expr.eval_shift h lhs) fun left => ?_
    exact rename_bind (Expr.eval_shift h rhs) fun right => operate_rename op left right
  | .list separator items => by
    rw [Expr.eval, Expr.eval]
    refine rename_bind (Expr.evalAll_shift h items) fun values => ?_
    exact congrArg Except.ok (rename_list separator values).symm
  | .function name args => by
    rw [Expr.eval, Expr.eval, h.default]
    split
    · cases v.default? <;> rfl
    · refine rename_bind (Expr.evalAll_shift h args) fun values => ?_
      exact congrArg Except.ok (rename_function name values).symm
  | .ruleset site body => by
    rw [Expr.eval, Expr.eval, h.scope]
    rfl

/-- Expressions one after the other have corresponding values. -/
theorem Expr.evalAll_shift (h : ShiftedView n k v w) :
    ∀ es : List Expr, Expr.evalAll w es = rename (shift n k) (Expr.evalAll v es)
  | [] => rfl
  | e :: es => by
    rw [Expr.evalAll, Expr.evalAll]
    refine rename_bind (Expr.eval_shift h e) fun value => ?_
    exact rename_bind (Expr.evalAll_shift h es) fun values => rfl

end

/-- The selectors of a rule come to the same. -/
theorem interpolateAll_shift (h : ShiftedView n k v w) (texts : List String) :
    interpolateAll w texts = interpolateAll v texts := by
  induction texts with
  | nil => rfl
  | cons text rest ih => rw [interpolateAll, interpolateAll, h.interpolate, ih]

/-- A property has a text for a value, so a declaration comes to the same. -/
theorem Declaration.eval_shift (h : ShiftedView n k v w) (d : Declaration) :
    d.eval w = d.eval v := by
  rw [Declaration.eval, Declaration.eval, h.interpolate, Expr.eval_shift h]
  cases v.interpolate d.name with
  | error e => rfl
  | ok name =>
    cases d.value.eval v with
    | error e => rfl
    | ok value =>
      cases value with
      | number _ | keyword _ | quoted _ _ | ruleset _ _ _ => rfl
      | list _ _ | function _ _ =>
        exact congrArg (fun text => Except.ok
          (Css.Property.mk (Text.trimString name) text d.important d.comments)) (text_rename _)

/-! ## Guards -/

/-- A condition holds in both views or in none. -/
theorem Condition.holds_shift (h : ShiftedView n k v w) :
    ∀ c : Condition, c.holds w = c.holds v
  | .truthy e => by
    rw [Condition.holds, Condition.holds, Expr.eval_shift h]
    cases e.eval v with
    | error _ => rfl
    | ok value => exact congrArg Except.ok (isTrue_rename value)
  | .compare op lhs rhs => by
    rw [Condition.holds, Condition.holds, Expr.eval_shift h, Expr.eval_shift h]
    cases lhs.eval v with
    | error _ => rfl
    | ok left =>
      cases rhs.eval v with
      | error _ => rfl
      | ok right =>
        exact congrArg (fun o => Except.ok (op.accepts o)) (compare_shift n k left right)
  | .not inner => by rw [Condition.holds, Condition.holds, Condition.holds_shift h inner]
  | .and lhs rhs => by
    rw [Condition.holds, Condition.holds, Condition.holds_shift h lhs, Condition.holds_shift h rhs]
  | .or lhs rhs => by
    rw [Condition.holds, Condition.holds, Condition.holds_shift h lhs, Condition.holds_shift h rhs]

end

section
variable {n k : Nat} {a b : Arena}

/-- A guard has the same verdict in corresponding scopes. -/
theorem Condition.verdict_shift (h : Shifted n k a b) (s : ScopeId) (guard : Condition) :
    guard.verdict b (shift n k s) = guard.verdict a s := by
  rw [Condition.verdict, Condition.verdict, Condition.holds_shift (h.view s _),
    Condition.holds_shift (h.view s _)]

/-- Several guards, each in its own scope, have the same verdict in corresponding scopes. -/
theorem verdictFrom_shift (h : Shifted n k a b) (v : Verdict) (guards : List ScopedGuard) :
    verdictFrom b v (rename (shift n k) guards) = verdictFrom a v guards := by
  induction guards generalizing v with
  | nil => rfl
  | cons guard rest ih =>
    obtain ⟨guard, s⟩ := guard
    simp only [rename_cons, rename_pair, rename_condition, rename_scopeId, verdictFrom,
      Condition.verdict_shift h, ih]

/-- Guards say the same at scopes that correspond. -/
theorem verdictOf_shift (h : Shifted n k a b) (guards : List ScopedGuard) :
    verdictOf b (rename (shift n k) guards) = verdictOf a guards := verdictFrom_shift h .use guards

/-- The guard of a rule allows it in both arenas or in none. -/
theorem allowsRule_shift (h : Shifted n k a b) (s : ScopeId) (guard : Condition) :
    allowsRule b (shift n k s) guard = allowsRule a s guard := by
  rw [allowsRule, allowsRule, Condition.verdict_shift h]

/-! ## Parameters and definitions -/

/-- Parameters are checked against patterns that have corresponding values. -/
theorem checkSlots_shift (h : Shifted n k a b) (arity : Problem) (s : ScopeId)
    (slots : List Slot) :
    checkSlots arity ⟨b, shift n k s, none⟩ (rename (shift n k) slots) =
      rename (shift n k) (checkSlots arity ⟨a, s, none⟩ slots) := by
  induction slots with
  | nil => rfl
  | cons slot rest ih =>
    obtain ⟨param, value⟩ := slot
    cases param with
    | named name default =>
      cases default with
      | some _ => exact ih
      | none =>
        cases value with
        | some _ => exact ih
        | none => rfl
    | rest name => exact ih
    | pattern e =>
      cases value with
      | none => rfl
      | some value =>
        simp only [rename_cons, rename_slot, rename_some, checkSlots]
        refine rename_bind (Expr.eval_shift (h.view s none) e) fun expected => ?_
        rw [compare_shift]
        split
        · exact ih
        · rfl

/-- A statement is registered under the number of its scope: in its closure, and for a rule in its
origin. -/
theorem Item.registration?_rename (f : ScopeId → ScopeId) (s : ScopeId) (position : Nat)
    (item : Item) :
    item.registration? (f s) position = rename f (item.registration? s position) := by
  cases item with
  | rule r =>
    simp only [Item.registration?]
    cases r.mixinName? <;> rfl
  | mixin site m => rfl
  | declaration _ | atRule _ _ _ | detachedCall _ _ | assign _ _ | call _ => rfl

/-- The variables that a body exports, with corresponding values. -/
theorem exportedVariables_shift (h : Shifted n k a b) (withVariables : Bool) (s : ScopeId) :
    exportedVariables withVariables (shift n k s) b =
      rename (shift n k) (exportedVariables withVariables s a) := by
  cases withVariables with
  | false => rfl
  | true => exact h.ownVariables s

end

/-! ## What is read -/

/-- A function of the arena that depends on the numbers `K` alone: what it answers mentions only
these and what is in the arena, and in arenas that correspond, where these numbers keep their
place, it answers what corresponds. -/
structure Reads {α : Type} [Carries α] [Renames α] (K : List ScopeId) (f : Arena → α) : Prop where
  mentions : ∀ a, ∀ t ∈ scopesIn (f a), t ∈ K ∨ a.Mentions t
  shift : ∀ {n k a b}, Shifted n k a b → (∀ t ∈ K, shift n k t = t) → f b = rename (shift n k) (f a)

section
variable {α : Type} [Carries α] [Renames α] {K : List ScopeId} {s : ScopeId}

/-- What is read at scopes that exist does not depend on anything beyond the arena. -/
theorem Reads.extends {f : Arena → α} (hf : Reads K f) {a b : Arena} (ha : a.Closed)
    (hK : ∀ t ∈ K, t < a.size) (h : a.Extends b) : f b = f a := by
  rw [hf.shift (h.shifted ha) fun t ht => shift_of_lt (hK t ht)]
  refine rename_eq_self fun t ht => shift_of_lt ?_
  rcases hf.mentions a t ht with ht | ht
  · exact hK t ht
  · exact ha.stored t ht

/-- A function that answers what has no scope numbers in it, and always the same. -/
theorem Reads.of_plain {f : Arena → Except EvalError α} (hα : ∀ x : α, scopesIn x = [])
    (h : ∀ {n k a b}, Shifted n k a b → (∀ t ∈ K, LessSheet.shift n k t = t) → f b = f a) :
    Reads K f := by
  have hnone : ∀ a t, t ∉ scopesIn (f a) := by
    intro a t ht
    cases hf : f a with
    | ok x =>
      rw [hf, scopesIn_ok, hα] at ht
      cases ht
    | error e =>
      rw [hf] at ht
      cases ht
  refine ⟨fun a t ht => absurd ht (hnone a t), fun {n k a b} hab hK => ?_⟩
  rw [h hab hK]
  exact (rename_eq_self fun t ht => absurd ht (hnone a t)).symm

/-- An expression reads what is in sight of its scope. -/
theorem Expr.reads_eval (hs : s ∈ K) (e : Expr) : Reads K fun a => e.eval ⟨a, s, none⟩ := by
  refine ⟨fun a t ht => ?_, fun {n k a b} hab hK => ?_⟩
  · cases he : e.eval ⟨a, s, none⟩ with
    | error err =>
      rw [he] at ht
      cases ht
    | ok v =>
      rw [he] at ht
      rcases Expr.eval_mentions he ht with rfl | h
      · exact .inl hs
      · exact .inr h
  · have := Expr.eval_shift (hab.view s none) e
    rwa [hK s hs] at this

/-- A variable reads what is in sight of its scope. -/
theorem View.reads_lookup (hs : s ∈ K) (name : String) :
    Reads K fun a => View.lookup ⟨a, s, none⟩ name := by
  refine ⟨fun a t ht => .inr ?_, fun {n k a b} hab hK => ?_⟩
  · cases hv : View.lookup ⟨a, s, none⟩ name with
    | ok v =>
      rw [hv] at ht
      exact View.lookup_mentions hv ht
    | error e =>
      rw [hv] at ht
      cases ht
  · have := (hab.view s none).lookup name
    rwa [hK s hs] at this

/-- Patterns are evaluated in the scope, and the values compared with them have scopes of their
own. -/
theorem reads_checkSlots (hs : s ∈ K) (arity : Problem) {slots : List Slot}
    (hslots : scopesIn slots ⊆ K) : Reads K fun a => checkSlots arity ⟨a, s, none⟩ slots := by
  refine ⟨fun a t ht => ?_, fun {n k a b} hab hK => ?_⟩
  · cases hcheck : checkSlots arity ⟨a, s, none⟩ slots with
    | error e =>
      rw [hcheck] at ht
      cases ht
    | ok r =>
      rw [hcheck, scopesIn_ok, checkSlots_scopes hcheck] at ht
      cases ht
  · have := checkSlots_shift hab arity s slots
    rwa [hK s hs, rename_eq_self fun t ht => hK t (hslots ht)] at this

/-- A statement is registered for the scope it is registered in. -/
theorem Item.registration?_scopes {scope t : ScopeId} {position : Nat} {item : Item}
    (ht : t ∈ scopesIn (item.registration? scope position)) : t = scope := by
  unfold Item.registration? at ht
  split at ht
  · simpa using ht
  · next r =>
    cases hname : r.mixinName? with
    | none =>
      rw [hname] at ht
      cases ht
    | some name =>
      rw [hname] at ht
      simpa using ht
  · cases ht

/-- The position that a statement is registered at is read off the scope's log. -/
theorem Item.reads_registration (hs : s ∈ K) (item : Item) :
    Reads K fun a =>
      (.ok (item.registration? s (a.log s).length) : Except EvalError (Option Registration)) := by
  refine ⟨fun a t ht => .inl (Item.registration?_scopes ht ▸ hs), fun {n k a b} hab hK => ?_⟩
  have hlog := hab.log s
  rw [hK s hs] at hlog
  have hreg := item.registration?_rename (LessSheet.shift n k) s (a.log s).length
  rw [hK s hs] at hreg
  show Except.ok _ = _
  rw [hlog, length_rename]
  exact congrArg Except.ok hreg

/-- The definitions of a scope's own log. -/
theorem Arena.reads_ownMixins (hs : s ∈ K) (name : String) (arity : Option Nat) :
    Reads K fun a => (.ok (a.ownMixins s name arity) : Except EvalError (List Registration)) := by
  refine ⟨fun a t ht => .inr (Arena.ownMixins_mentions ht), fun {n k a b} hab hK => ?_⟩
  have := hab.ownMixins s name arity
  rw [hK s hs] at this
  exact congrArg Except.ok this

/-- The definitions in sight of a scope. -/
theorem Arena.reads_lookupMixins (hs : s ∈ K) (name : String) (arity : Option Nat) :
    Reads K fun a =>
      (.ok (a.lookupMixins s name arity) : Except EvalError (List Registration)) := by
  refine ⟨fun a t ht => .inr (Arena.lookupMixins_mentions ht), fun {n k a b} hab hK => ?_⟩
  have := hab.lookupMixins s name arity
  rw [hK s hs] at this
  exact congrArg Except.ok this

/-- The mixins of a scope's own log, all of them. -/
theorem Arena.reads_mixins (hs : s ∈ K) :
    Reads K fun a => (.ok (a.mixins s) : Except EvalError (List Registration)) := by
  refine ⟨fun a t ht => .inr (Arena.mixins_mentions ht), fun {n k a b} hab hK => ?_⟩
  have := hab.mixins s
  rw [hK s hs] at this
  exact congrArg Except.ok this

/-- The variables of a scope's own log. -/
theorem reads_exportedVariables (hs : s ∈ K) (withVariables : Bool) :
    Reads K fun a =>
      (.ok (exportedVariables withVariables s a) : Except EvalError (List (String × Value))) := by
  refine ⟨fun a t ht => .inr ?_, fun {n k a b} hab hK => ?_⟩
  · cases withVariables with
    | true => exact Arena.ownVariables_mentions ht
    | false => cases ht
  · have := exportedVariables_shift hab withVariables s
    rw [hK s hs] at this
    exact congrArg Except.ok this

/-- Guards read what is in sight of the scopes that they are evaluated in. -/
theorem reads_verdictOf {guards : List ScopedGuard} (hguards : scopesIn guards ⊆ K) :
    Reads K fun a =>
      (.ok (verdictOf a guards) : Except EvalError (Except EvalError Verdict)) := by
  refine .of_plain (fun r => by cases r <;> rfl) fun {n k a b} hab hK => ?_
  have := verdictOf_shift hab guards
  rw [rename_eq_self fun t ht => hK t (hguards ht)] at this
  exact congrArg Except.ok this

/-- The guard of a rule reads what is in sight of the scope of the rule. -/
theorem reads_allowsRule (hs : s ∈ K) (guard : Condition) :
    Reads K fun a => allowsRule a s guard := by
  refine .of_plain (fun _ => rfl) fun {n k a b} hab hK => ?_
  have := allowsRule_shift hab s guard
  rwa [hK s hs] at this

/-- What is evaluated in a view and has no scope numbers in it. -/
theorem Reads.of_view {f : View → Except EvalError α} (hα : ∀ x : α, scopesIn x = [])
    (hs : s ∈ K) (h : ∀ {n k v w}, ShiftedView n k v w → f w = f v) :
    Reads K fun a => f ⟨a, s, none⟩ := by
  refine .of_plain hα fun {n k a b} hab hK => ?_
  have := h (hab.view s none)
  rwa [hK s hs] at this

end

end LessSheet
