import LessSheet.Proofs.Scope.Mention

/-! # Renumbering scopes

Scope numbers are names: nothing depends on which numbers they are, only on which are the same.
`rename f` gives every scope number in something its new number. A thing that mentions only numbers
that keep their place stays as it is (`rename_eq_self`), and what does not mention scopes, such as
the text of a value, is not affected at all.
-/

namespace LessSheet

/-- Things whose scope numbers can be renumbered. What mentions only numbers that keep their place
stays as it is. -/
class Renames (α : Type) [Carries α] where
  /-- Renumbers the scopes that occur in something. -/
  rename : (ScopeId → ScopeId) → α → α
  rename_eq_self : ∀ {f : ScopeId → ScopeId} {x : α}, (∀ t ∈ scopesIn x, f t = t) → rename f x = x

export Renames (rename rename_eq_self)

section
variable {α β ε : Type} [Carries α] [Carries β] [Renames α] [Renames β] {f : ScopeId → ScopeId}

instance : Renames ScopeId := ⟨fun f s => f s, fun h => h _ (.head _)⟩
instance : Renames Unit := ⟨fun _ x => x, fun _ => rfl⟩
instance : Renames Bool := ⟨fun _ x => x, fun _ => rfl⟩
instance : Renames String := ⟨fun _ x => x, fun _ => rfl⟩
instance : Renames Condition := ⟨fun _ x => x, fun _ => rfl⟩
instance : Renames Verdict := ⟨fun _ x => x, fun _ => rfl⟩
instance : Renames Problem := ⟨fun _ x => x, fun _ => rfl⟩
instance : Renames Css.Property := ⟨fun _ x => x, fun _ => rfl⟩
instance : Renames Css.Node := ⟨fun _ x => x, fun _ => rfl⟩

/-- Renumbering that leaves the scopes in a list in place leaves the list in place. -/
theorem map_rename_eq_self {xs : List α} (h : ∀ t ∈ scopesIn xs, f t = t) :
    xs.map (rename f) = xs := by
  induction xs with
  | nil => rfl
  | cons x xs ih =>
    rw [List.map_cons, rename_eq_self fun t ht => h t (List.mem_append_left _ ht),
      ih fun t ht => h t (List.mem_append_right _ ht)]

instance : Renames (List α) := ⟨fun f xs => xs.map (rename f), map_rename_eq_self⟩

instance : Renames (Option α) where
  rename f x := x.map (rename f)
  rename_eq_self {f x} h := by
    cases x with
    | none => rfl
    | some x => exact congrArg some (rename_eq_self fun t ht => h t (by simpa using ht))

instance : Renames (α × β) where
  rename f x := (rename f x.1, rename f x.2)
  rename_eq_self h := Prod.ext (rename_eq_self fun t ht => h t (List.mem_append_left _ ht))
    (rename_eq_self fun t ht => h t (List.mem_append_right _ ht))

instance : Renames (Except ε α) where
  rename f
    | .ok x => .ok (rename f x)
    | .error e => .error e
  rename_eq_self {f x} h := by
    cases x with
    | error e => rfl
    | ok x => exact congrArg Except.ok (rename_eq_self h)

@[simp] theorem rename_scopeId (s : ScopeId) : rename f s = f s := rfl
@[simp] theorem rename_bool (x : Bool) : rename f x = x := rfl
@[simp] theorem rename_string (x : String) : rename f x = x := rfl
@[simp] theorem rename_condition (x : Condition) : rename f x = x := rfl
@[simp] theorem rename_property (x : Css.Property) : rename f x = x := rfl
@[simp] theorem rename_nil : rename f ([] : List α) = [] := rfl
@[simp] theorem rename_cons (x : α) (xs : List α) :
    rename f (x :: xs) = rename f x :: rename f xs := rfl
@[simp] theorem rename_append (xs ys : List α) :
    rename f (xs ++ ys) = rename f xs ++ rename f ys := List.map_append
@[simp] theorem rename_none : rename f (none : Option α) = none := rfl
@[simp] theorem rename_some (x : α) : rename f (some x) = some (rename f x) := rfl
@[simp] theorem rename_pair (x : α) (y : β) : rename f (x, y) = (rename f x, rename f y) := rfl
@[simp] theorem rename_ok (x : α) : rename f (.ok x : Except ε α) = .ok (rename f x) := rfl
@[simp] theorem rename_error (e : ε) : rename f (.error e : Except ε α) = .error e := rfl

/-- Nodes have no scope numbers. -/
@[simp] theorem rename_nodes (nodes : List Css.Node) : rename f nodes = nodes := List.map_id' nodes

/-- Texts have no scope numbers. -/
@[simp] theorem rename_strings (texts : List String) : rename f texts = texts := List.map_id' texts

@[simp] theorem isEmpty_rename (xs : List α) : (rename f xs).isEmpty = xs.isEmpty := by
  cases xs <;> rfl

@[simp] theorem length_rename (xs : List α) : (rename f xs).length = xs.length := List.length_map _

@[simp] theorem isSome_rename (x : Option α) : (rename f x).isSome = x.isSome := by
  cases x <;> rfl

@[simp] theorem rename_mapError {ε' : Type} (g : ε → ε') (r : Except ε α) :
    rename f (r.mapError g) = (rename f r).mapError g := by
  cases r <;> rfl

/-- Steps of a computation that are renumbered one by one. -/
theorem rename_bind {x y : Except ε α} {g h : α → Except ε β} (hx : y = rename f x)
    (hg : ∀ a, h (rename f a) = rename f (g a)) : (y >>= h) = rename f (x >>= g) := by
  subst hx
  cases x with
  | error e => rfl
  | ok a => exact hg a

/-- `rename_bind` for a step whose result has no scope numbers. -/
theorem rename_bind_plain {γ : Type} {x y : Except ε γ} {g h : γ → Except ε β} (hx : y = x)
    (hg : ∀ c, h c = rename f (g c)) : (y >>= h) = rename f (x >>= g) := by
  subst hx
  cases y with
  | error e => rfl
  | ok c => exact hg c

end

/-! ## Values and entries -/

mutual

/-- Renumbers the scopes that the rulesets in a value were written in. -/
def Value.renumber (f : ScopeId → ScopeId) : Value → Value
  | .number q => .number q
  | .keyword text => .keyword text
  | .quoted text quote => .quoted text quote
  | .list separator items => .list separator (renumberAll f items)
  | .function name args => .function name (renumberAll f args)
  | .ruleset site body scope => .ruleset site body (f scope)

/-- `Value.renumber` of several values. -/
def Value.renumberAll (f : ScopeId → ScopeId) : List Value → List Value
  | [] => []
  | v :: vs => v.renumber f :: renumberAll f vs

end

mutual

/-- Renumbering leaves a value in place if it does so with the scopes that its rulesets see. -/
theorem Value.renumber_self {f : ScopeId → ScopeId} :
    ∀ {v : Value}, (∀ t ∈ scopesIn v, f t = t) → v.renumber f = v
  | .number _, _ | .keyword _, _ | .quoted _ _, _ => rfl
  | .list _ items, h => by
    rw [Value.renumber, Value.renumberAll_self fun t ht => h t (by simpa using ht)]
  | .function _ args, h => by
    rw [Value.renumber, Value.renumberAll_self fun t ht => h t (by simpa using ht)]
  | .ruleset _ _ s, h => by rw [Value.renumber, h s (.head _)]

/-- Renumbering leaves several values in place if it does so with the scopes in them. -/
theorem Value.renumberAll_self {f : ScopeId → ScopeId} :
    ∀ {vs : List Value}, (∀ t ∈ scopesIn vs, f t = t) → Value.renumberAll f vs = vs
  | [], _ => rfl
  | _ :: _, h => by
    rw [Value.renumberAll, Value.renumber_self fun t ht => h t (List.mem_append_left _ ht),
      Value.renumberAll_self fun t ht => h t (List.mem_append_right _ ht)]

end

instance : Renames Value := ⟨Value.renumber, Value.renumber_self⟩

section
variable {f : ScopeId → ScopeId}

/-- `Value.renumberAll` as the renumbering of a list of values. -/
@[simp] theorem Value.renumberAll_eq (vs : List Value) : Value.renumberAll f vs = rename f vs := by
  induction vs with
  | nil => rfl
  | cons v vs ih => rw [Value.renumberAll, ih]; rfl

@[simp] theorem rename_number (q : Quantity) : rename f (Value.number q) = .number q := rfl
@[simp] theorem rename_keyword (text : String) :
    rename f (Value.keyword text) = .keyword text := rfl
@[simp] theorem rename_quoted (text : String) (quote : Char) :
    rename f (Value.quoted text quote) = .quoted text quote := rfl
@[simp] theorem rename_list (separator : Separator) (items : List Value) :
    rename f (Value.list separator items) = .list separator (rename f items) :=
  congrArg (Value.list separator) (Value.renumberAll_eq items)
@[simp] theorem rename_function (name : String) (args : List Value) :
    rename f (Value.function name args) = .function name (rename f args) :=
  congrArg (Value.function name) (Value.renumberAll_eq args)
@[simp] theorem rename_ruleset (site : Site) (body : List Item) (s : ScopeId) :
    rename f (Value.ruleset site body s) = .ruleset site body (f s) := rfl

end

instance : Renames Origin where
  rename f
    | .written site => .written site
    | .hoisted scope position => .hoisted (f scope) position
  rename_eq_self {f x} h := by
    cases x with
    | written site => rfl
    | hoisted scope position => exact congrArg (Origin.hoisted · position) (h scope (.head _))

instance : Renames Registration where
  rename f r := ⟨rename f r.origin, r.mixin, f r.closure⟩
  rename_eq_self {f r} h := by
    rw [rename_eq_self fun t ht => h t (.tail _ ht), h r.closure (.head _)]

instance : Renames Entry where
  rename f
    | .binding name value => .binding name (rename f value)
    | .mixin r => .mixin (rename f r)
  rename_eq_self {f e} h := by
    cases e with
    | binding name value => exact congrArg (Entry.binding name) (rename_eq_self h)
    | mixin r => exact congrArg Entry.mixin (rename_eq_self h)

/-- Renumbers the scopes that a link leads to. -/
def Link.renumber (f : ScopeId → ScopeId) : Link → Link
  | .root => .root
  | .child parent => .child (f parent)
  | .join callee caller => .join (f callee) (f caller)

@[simp] theorem Link.targets_renumber (f : ScopeId → ScopeId) (link : Link) :
    (link.renumber f).targets = link.targets.map f := by
  cases link <;> rfl

/-- Renumbering leaves a link in place if it does so with the scopes that it leads to. -/
theorem Link.renumber_self {f : ScopeId → ScopeId} {link : Link}
    (h : ∀ t ∈ link.targets, f t = t) : link.renumber f = link := by
  cases link with
  | root => rfl
  | child parent => rw [Link.renumber, h parent (.head _)]
  | join callee caller => rw [Link.renumber, h callee (.head _), h caller (.tail _ (.head _))]

instance : Renames Scope where
  rename f s := ⟨s.link.renumber f, rename f s.log, rename f s.staged⟩
  rename_eq_self {f s} h := by
    rw [Link.renumber_self fun t ht => h t (List.mem_append_left _ ht),
      rename_eq_self fun t ht => h t (List.mem_append_right _ (List.mem_append_left _ ht)),
      rename_eq_self fun t ht => h t (List.mem_append_right _ (List.mem_append_right _ ht))]

section
variable {f : ScopeId → ScopeId}

@[simp] theorem rename_written (site : Site) : rename f (Origin.written site) = .written site := rfl
@[simp] theorem rename_hoisted (s : ScopeId) (n : Nat) :
    rename f (Origin.hoisted s n) = .hoisted (f s) n := rfl
@[simp] theorem rename_binding (name : String) (v : Value) :
    rename f (Entry.binding name v) = .binding name (rename f v) := rfl
@[simp] theorem rename_mixin (r : Registration) :
    rename f (Entry.mixin r) = .mixin (rename f r) := rfl
@[simp] theorem origin_rename (r : Registration) : (rename f r).origin = rename f r.origin := rfl
@[simp] theorem log_rename (s : Scope) : (rename f s).log = rename f s.log := rfl
@[simp] theorem staged_rename (s : Scope) : (rename f s).staged = rename f s.staged := rfl
@[simp] theorem link_rename (s : Scope) : (rename f s).link = s.link.renumber f := rfl

end

/-! ## Calls -/

instance : Renames Actual where
  rename f x := ⟨x.name, rename f x.value⟩
  rename_eq_self {_ x} h := congrArg (Actual.mk x.name) (rename_eq_self h)

instance : Renames Slot where
  rename f x := ⟨x.param, rename f x.value⟩
  rename_eq_self {_ x} h := congrArg (Slot.mk x.param) (rename_eq_self h)

instance : Renames Placement where
  rename f p := ⟨rename f p.slots, rename f p.rest, rename f p.surplus⟩
  rename_eq_self h := by
    rw [rename_eq_self fun t ht => h t (List.mem_append_left _ ht),
      rename_eq_self fun t ht => h t (List.mem_append_right _ (List.mem_append_left _ ht)),
      rename_eq_self fun t ht => h t (List.mem_append_right _ (List.mem_append_right _ ht))]

instance : Renames Binding where
  rename f
    | .bound scope => .bound (f scope)
    | .patternMismatch => .patternMismatch
    | .rejected problem => .rejected problem
  rename_eq_self {_ x} h := by
    cases x with
    | bound scope => exact congrArg Binding.bound (h scope (.head _))
    | patternMismatch => rfl
    | rejected problem => rfl

instance : Renames Candidate where
  rename f c := ⟨rename f c.registration, rename f c.pathGuards⟩
  rename_eq_self h := by
    rw [rename_eq_self fun t ht => h t (List.mem_append_left _ ht),
      rename_eq_self fun t ht => h t (List.mem_append_right _ ht)]

instance : Renames Trial where
  rename f t := ⟨rename f t.accepted, t.problem⟩
  rename_eq_self {_ t} h := congrArg (Trial.mk · t.problem) (rename_eq_self h)

instance : Renames Selected where
  rename f s := ⟨rename f s.candidate, f s.working⟩
  rename_eq_self {_ s} h := by
    rw [rename_eq_self fun t ht => h t (List.mem_append_left _ ht),
      h s.working (List.mem_append_right _ (.head _))]

instance : Renames Trials where
  rename f t := ⟨rename f t.accepted, t.problems⟩
  rename_eq_self {_ t} h := congrArg (Trials.mk · t.problems) (rename_eq_self h)

instance : Renames Fetched where
  rename f x := ⟨x.name, x.body, f x.working, f x.closure⟩
  rename_eq_self {_ x} h := by rw [h x.working (.head _), h x.closure (.tail _ (.head _))]

instance : Renames Expanded where
  rename f x := ⟨x.nodes, f x.scope⟩
  rename_eq_self {_ x} h := congrArg (Expanded.mk x.nodes) (h x.scope (.head _))

section
variable {f : ScopeId → ScopeId}

@[simp] theorem rename_actual (name : Option String) (v : Value) :
    rename f (Actual.mk name v) = ⟨name, rename f v⟩ := rfl
@[simp] theorem rename_slot (param : Param) (v : Option Value) :
    rename f (Slot.mk param v) = ⟨param, rename f v⟩ := rfl
@[simp] theorem rename_placement (slots : List Slot) (rest surplus : List Value) :
    rename f (Placement.mk slots rest surplus) =
      ⟨rename f slots, rename f rest, rename f surplus⟩ := rfl
@[simp] theorem rename_candidate (r : Registration) (guards : List ScopedGuard) :
    rename f (Candidate.mk r guards) = ⟨rename f r, rename f guards⟩ := rfl

end

end LessSheet
