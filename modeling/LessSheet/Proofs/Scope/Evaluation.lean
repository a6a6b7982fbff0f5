import LessSheet.Proofs.Scope.Likeness

/-! # Evaluation in arenas that are alike

Expressions that are alike have values that are alike in arenas that are (`Expr.Alike.eval`), and
guards that are alike say the same (`Condition.Alike.holds`). Where one side has no value, the other
has none for the same reason.

For this a diction has to be closed under what evaluation does to texts (`Diction.Lawful`). The text
of every value is then one that may come of the stylesheet's texts (`Value.Alike.filled`).
-/

namespace LessSheet

open List (Forall₂)

/-- Two outcomes: results that `R` relates, or the same error. -/
inductive Outcome.Alike {ε α β : Type} (R : α → β → Prop) : Except ε α → Except ε β → Prop where
  | ok {x : α} {y : β} : R x y → Outcome.Alike R (.ok x) (.ok y)
  | error (e : ε) : Outcome.Alike R (.error e) (.error e)

namespace Outcome.Alike

variable {ε ε' α β γ δ : Type} {R : α → β → Prop} {S : γ → δ → Prop} {x : Except ε α}
  {y : Except ε β}

/-- Only results are gone on with, so going on alike is asked of them alone. -/
theorem bind (h : Outcome.Alike R x y) {f : α → Except ε γ} {g : β → Except ε δ}
    (hfg : ∀ a b, R a b → Outcome.Alike S (f a) (g b)) : Outcome.Alike S (x >>= f) (y >>= g) := by
  cases h with
  | ok hab => exact hfg _ _ hab
  | error e => exact .error e

/-- Errors may be put in other terms. -/
theorem mapError (h : Outcome.Alike R x y) (f : ε → ε') :
    Outcome.Alike R (x.mapError f) (y.mapError f) := by
  cases h with
  | ok hab => exact .ok hab
  | error e => exact .error (f e)

/-- An outcome is like itself. -/
theorem refl (x : Except ε α) : Outcome.Alike Eq x x := by
  cases x with
  | ok a => exact .ok rfl
  | error e => exact .error e

/-- Outcomes that are alike up to equality are the same. -/
theorem eq {x y : Except ε α} (h : Outcome.Alike Eq x y) : y = x := by
  cases h with
  | ok hab => rw [hab]
  | error e => rfl

end Outcome.Alike

/-- A diction closed under what evaluation does to texts: what words say, a minus sign, truth
values, numbers, lists, calls of functions, rulesets, and strings with their placeholders filled. -/
structure Diction.Lawful (D : Diction) : Prop where
  word {t : String} : D.leaf (.word t) → D.filled t
  minus {t : String} : D.filled t → D.filled ("-" ++ t)
  truth (b : Bool) : D.filled (if b then "true" else "false")
  number (value : Float) {unit : String} : D.leaf (.word unit) →
    D.filled (Quantity.text ⟨value, unit⟩)
  none : D.filled ""
  glue (separator : Separator) {t u : String} : D.filled t → D.filled u →
    D.filled (t ++ separator.glue ++ u)
  call {name t : String} : D.leaf (.word name) → D.filled t → D.filled (name ++ "(" ++ t ++ ")")
  ruleset : D.filled "[detached ruleset]"
  fill {t u : String} {quote : Char} {view : View} : D.leaf (.string t quote) →
    (∀ name v, view.lookup name = .ok v → D.filled v.content) → view.interpolate t = .ok u →
    D.filled u ∧ D.filled (Value.quoted u quote).text

variable {D : Diction}

/-- The text of a list is made of its items' texts, two at a time. -/
theorem Diction.Lawful.intercalate (hD : D.Lawful) (separator : Separator) {ts : List String}
    (h : ∀ t ∈ ts, D.filled t) : D.filled (separator.glue.intercalate ts) := by
  induction ts with
  | nil => exact hD.none
  | cons t ts ih =>
    rw [List.forall_mem_cons] at h
    cases ts with
    | nil => exact h.1
    | cons u us =>
      rw [String.intercalate_cons_cons]
      exact hD.glue separator h.1 (ih h.2)

mutual

/-- The text of a value comes of the texts of the stylesheet. -/
theorem Value.Alike.filled (hD : D.Lawful) : ∀ {v w : Value}, Value.Alike D v w → D.filled v.text
  | _, _, .number value hunit => hD.number value hunit
  | _, _, .keyword htext => htext
  | _, _, .quoted _ htext => htext
  | _, _, .list separator h => hD.intercalate separator (h.filled hD)
  | _, _, .function hname h => hD.call hname (hD.intercalate .comma (h.filled hD))
  | _, _, .ruleset _ _ _ => hD.ruleset

/-- The texts of the items of a list come of the texts of the stylesheet. -/
theorem Value.ListAlike.filled (hD : D.Lawful) : ∀ {vs ws : List Value}, Value.ListAlike D vs ws →
    ∀ t ∈ Value.texts vs, D.filled t
  | _, _, .nil => fun _ ht => nomatch ht
  | _, _, .cons h hs => List.forall_mem_cons.2 ⟨h.filled hD, hs.filled hD⟩

end

/-- What goes into a placeholder comes of the texts of the stylesheet. -/
theorem Value.Alike.filled_content (hD : D.Lawful) {v w : Value} (h : Value.Alike D v w) :
    D.filled v.content := by
  have htext := h.filled hD
  cases h with
  | quoted hcontent _ => exact hcontent
  | number _ _ | keyword _ | list _ _ | function _ _ | ruleset _ _ _ => exact htext

/-! ## Texts with placeholders -/

/-- Views of one scope in arenas that are alike. -/
structure View.Alike (D : Diction) (v w : View) : Prop where
  arena : Arena.Alike D v.arena w.arena
  scope : w.scope = v.scope
  default : w.default? = v.default?

section
variable {v w : View}

/-- Arenas that are alike are viewed alike from the same scope, at the same value of `default()`. -/
theorem Arena.Alike.view {a b : Arena} (h : Arena.Alike D a b) (s : ScopeId)
    (default : Option Bool) : View.Alike D ⟨a, s, default⟩ ⟨b, s, default⟩ := ⟨h, rfl, rfl⟩

/-- A variable has values that are alike, or none in both. -/
theorem View.Alike.lookup (h : View.Alike D v w) (name : String) :
    Outcome.Alike (Value.Alike D) (v.lookup name) (w.lookup name) := by
  have hvalue := h.arena.lookup v.scope name
  rw [View.lookup, View.lookup, h.scope]
  generalize v.arena.lookup v.scope name = x at hvalue ⊢
  generalize w.arena.lookup v.scope name = y at hvalue ⊢
  cases hvalue with
  | none => exact .error _
  | some hvalue => exact .ok hvalue

/-- Placeholders are filled with the same texts, or the same one fails. -/
theorem View.Alike.fill (h : View.Alike D v w) (pieces : List Text.Piece) :
    w.fill pieces = v.fill pieces := by
  induction pieces with
  | nil => rfl
  | cons piece rest ih =>
    cases piece with
    | char c => rw [View.fill, View.fill, ih]
    | hole name raw =>
      rw [View.fill, View.fill, ih]
      refine ((h.lookup (String.ofList name)).bind fun x y hxy => ?_).eq
      rw [hxy.content]
      exact .refl _

/-- A text with placeholders comes to the same in views that are alike. -/
theorem View.Alike.interpolate (h : View.Alike D v w) (text : String) :
    w.interpolate text = v.interpolate text := by
  rw [View.interpolate, View.interpolate, h.fill]

/-- In views that are alike the same variables are known, and have the same texts. -/
theorem View.Alike.fillKnown (h : View.Alike D v w) (pieces : List Text.Piece) :
    w.fillKnown pieces = v.fillKnown pieces := by
  induction pieces with
  | nil => rfl
  | cons piece rest ih =>
    cases piece with
    | char c => rw [View.fillKnown, View.fillKnown, ih]
    | hole name raw =>
      have hvalue := h.arena.lookup v.scope (String.ofList name)
      rw [View.fillKnown, View.fillKnown, ih, h.scope]
      generalize v.arena.lookup v.scope (String.ofList name) = x at hvalue ⊢
      generalize w.arena.lookup v.scope (String.ofList name) = y at hvalue ⊢
      cases hvalue with
      | none => rfl
      | some hvalue => simp only [hvalue.content]

/-- The parameters of an at-rule come to the same in views that are alike. -/
theorem View.Alike.substitute (h : View.Alike D v w) (params : String) :
    w.substitute params = v.substitute params := by
  rw [View.substitute, View.substitute, h.fillKnown]

/-! ## Expressions -/

/-- The negatives of values that are alike are, if they have any. -/
theorem Value.Alike.negate (hD : D.Lawful) {x y : Value} (h : Value.Alike D x y) :
    Outcome.Alike (Value.Alike D) x.negate y.negate := by
  have htext := h.text
  cases h with
  | number value hunit => exact .ok (.number (-value) hunit)
  | keyword hword => exact .ok (.keyword (hD.minus hword))
  | quoted _ _ | list _ _ | function _ _ | ruleset _ _ _ =>
    simp only [Value.negate, htext]
    exact .error _

/-- An operation has results that are alike, or fails for the same reason. -/
theorem Value.Alike.operate (op : Operator) {x y x' y' : Value} (h : Value.Alike D x y)
    (h' : Value.Alike D x' y') :
    Outcome.Alike (Value.Alike D) (Value.operate op x x') (Value.operate op y y') := by
  have htext := h.text
  have htext' := h'.text
  cases h with
  | @number value unit hunit =>
    cases h' with
    | @number value' unit' hunit' =>
      refine (Outcome.Alike.refl (Value.calculate op value value')).bind fun z _ hz => ?_
      have hresult : D.leaf (.word (Value.resultUnit unit unit')) := by
        unfold Value.resultUnit
        split
        · exact hunit'
        · exact hunit
      subst hz
      exact .ok (.number z hresult)
    | keyword _ | quoted _ _ | list _ _ | function _ _ | ruleset _ _ _ =>
      simp only [Value.operate, htext']
      exact .error _
  | keyword _ | quoted _ _ | list _ _ | function _ _ | ruleset _ _ _ =>
    cases h' <;> simp only [Value.operate, htext, htext'] <;> exact .error _

/-- Lists of expressions that are alike are empty together. -/
theorem Expr.ListAlike.isEmpty {L : Leaf → Prop} {es fs : List Expr} (h : Expr.ListAlike L es fs) :
    fs.isEmpty = es.isEmpty := by
  cases h <;> rfl

mutual

/-- Expressions that are alike have values that are. -/
theorem Expr.Alike.eval (hD : D.Lawful) (hvw : View.Alike D v w) : ∀ {e f : Expr},
    Expr.Alike D.leaf e f → Outcome.Alike (Value.Alike D) (e.eval v) (f.eval w)
  | _, _, .number value hunit => .ok (.number value hunit)
  | _, _, .keyword hword => .ok (.keyword (hD.word hword))
  | _, _, @Expr.Alike.quoted _ text _ escaped hstring => by
    rw [Expr.eval, Expr.eval, hvw.interpolate]
    cases hu : v.interpolate text with
    | error e => exact .error e
    | ok u =>
      obtain ⟨hcontent, htext⟩ := hD.fill hstring (fun name x hx => by
        have hlookup := hvw.lookup name
        rw [hx] at hlookup
        generalize w.lookup name = y at hlookup
        cases hlookup with
        | ok hxy => exact hxy.filled_content hD) hu
      cases escaped with
      | true => exact .ok (.keyword hcontent)
      | false => exact .ok (.quoted hcontent htext)
  | _, _, .ref name => hvw.lookup name
  | _, _, .negate h => (Expr.Alike.eval hD hvw h).bind fun _ _ hxy => hxy.negate hD
  | _, _, .operation op h h' =>
    (Expr.Alike.eval hD hvw h).bind fun _ _ hxy =>
      (Expr.Alike.eval hD hvw h').bind fun _ _ hxy' => hxy.operate op hxy'
  | _, _, .list separator h =>
    (Expr.ListAlike.evalAll hD hvw h).bind fun _ _ hxys => .ok (.list separator hxys)
  | _, _, .function hname h => by
    have hargs := Expr.ListAlike.evalAll hD hvw h
    rw [Expr.eval, Expr.eval, hvw.default, h.isEmpty]
    split
    · cases v.default? with
      | some b => exact .ok (.keyword (hD.truth b))
      | none => exact .error _
    · exact hargs.bind fun _ _ hxys => .ok (.function hname hxys)
  | _, _, .ruleset site h => by
    rw [Expr.eval, Expr.eval, hvw.scope]
    exact .ok (.ruleset site v.scope h)

/-- Expressions one after the other: the same one is the first without a value. -/
theorem Expr.ListAlike.evalAll (hD : D.Lawful) (hvw : View.Alike D v w) : ∀ {es fs : List Expr},
    Expr.ListAlike D.leaf es fs →
    Outcome.Alike (Value.ListAlike D) (Expr.evalAll v es) (Expr.evalAll w fs)
  | _, _, .nil => .ok .nil
  | _, _, .cons h hs =>
    (Expr.Alike.eval hD hvw h).bind fun _ _ hxy =>
      (Expr.ListAlike.evalAll hD hvw hs).bind fun _ _ hxys => .ok (.cons hxy hxys)

end

/-! ## Guards -/

/-- Conditions that are alike hold together, or fail for the same reason. -/
theorem Condition.Alike.holds (hD : D.Lawful) (hvw : View.Alike D v w) : ∀ {c d : Condition},
    Condition.Alike D.leaf c d → Outcome.Alike Eq (c.holds v) (d.holds w)
  | _, _, .truthy h => (h.eval hD hvw).bind fun _ _ hxy => .ok hxy.isTrue.symm
  | _, _, .compare op h h' =>
    (h.eval hD hvw).bind fun _ _ hxy => (h'.eval hD hvw).bind fun _ _ hxy' =>
      .ok (congrArg op.accepts (hxy.compare hxy').symm)
  | _, _, .not h => (Condition.Alike.holds hD hvw h).bind fun _ _ hxy => .ok (congrArg Bool.not hxy)
  | _, _, .and h h' => by
    refine (Condition.Alike.holds hD hvw h).bind fun x _ hxy => ?_
    subst hxy
    cases x with
    | true => exact Condition.Alike.holds hD hvw h'
    | false => exact .ok rfl
  | _, _, .or h h' => by
    refine (Condition.Alike.holds hD hvw h).bind fun x _ hxy => ?_
    subst hxy
    cases x with
    | true => exact .ok rfl
    | false => exact Condition.Alike.holds hD hvw h'

end

section
variable {a b : Arena}

/-- Conditions that are alike have the same verdict, which asks twice, with `default()` false and
true. -/
theorem Condition.Alike.verdict (hD : D.Lawful) (hab : Arena.Alike D a b) (s : ScopeId)
    {c d : Condition} (h : Condition.Alike D.leaf c d) : d.verdict b s = c.verdict a s := by
  refine Outcome.Alike.eq ((h.holds hD (hab.view s (some false))).bind fun _ _ hxy => ?_)
  refine (h.holds hD (hab.view s (some true))).bind fun _ _ hxy' => ?_
  rw [hxy, hxy']
  exact .refl _

/-- Guards that are alike in one scope. -/
def ScopedGuard.Alike (D : Diction) (g h : ScopedGuard) : Prop :=
  Condition.Alike D.leaf g.1 h.1 ∧ h.2 = g.2

/-- The guards on the way to a candidate say the same. -/
theorem verdictFrom_alike (hD : D.Lawful) (hab : Arena.Alike D a b) {gs hs : List ScopedGuard}
    (h : Forall₂ (ScopedGuard.Alike D) gs hs) (v : Verdict) :
    verdictFrom b v hs = verdictFrom a v gs := by
  induction h generalizing v with
  | nil => rfl
  | @cons g h _ _ hgh _ ih =>
    obtain ⟨c, s⟩ := g
    obtain ⟨d, t⟩ := h
    obtain ⟨hcd, rfl⟩ : Condition.Alike D.leaf c d ∧ t = s := hgh
    rw [verdictFrom, verdictFrom, hcd.verdict hD hab]
    simp only [ih]

/-- Guards that are alike allow a rule both, or neither does. -/
theorem allowsRule_alike (hD : D.Lawful) (hab : Arena.Alike D a b) (s : ScopeId) {c d : Condition}
    (h : Condition.Alike D.leaf c d) : allowsRule b s d = allowsRule a s c := by
  rw [allowsRule, h.verdict hD hab, allowsRule]

end

end LessSheet
