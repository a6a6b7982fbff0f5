import LessSheet.Candidate
import LessSheet.Expansion

/-! # Which scopes things mention

Values, entries, candidates and the other things that pass through an expansion carry scope numbers:
a ruleset the scope it was written in, a registration the scope its free names are looked up in.
`scopesIn` lists them. An arena mentions the numbers in its scopes, which are those of the links and
of the entries, staged ones included.

Reading an arena brings up no other numbers: what an expression evaluates to mentions the scope it
is evaluated in and what the arena mentions (`Expr.eval_mentions`), and so does what a look-up
finds.
-/

namespace LessSheet

/-- Things that scope numbers occur in. -/
class Carries (α : Type) where
  /-- The scope numbers that occur in something. -/
  scopesIn : α → List ScopeId

export Carries (scopesIn)

section
variable {α β ε : Type} [Carries α] [Carries β]

/-- A number that passes through an expansion is that of a scope. -/
instance : Carries ScopeId := ⟨fun s => [s]⟩

instance : Carries Unit := ⟨fun _ => []⟩
instance : Carries Bool := ⟨fun _ => []⟩
instance : Carries String := ⟨fun _ => []⟩
instance : Carries Condition := ⟨fun _ => []⟩
instance : Carries Verdict := ⟨fun _ => []⟩
instance : Carries Problem := ⟨fun _ => []⟩
instance : Carries Css.Property := ⟨fun _ => []⟩
instance : Carries Css.Node := ⟨fun _ => []⟩

instance : Carries (List α) := ⟨fun xs => xs.flatMap scopesIn⟩
instance : Carries (Option α) := ⟨fun x => x.toList.flatMap scopesIn⟩
instance : Carries (α × β) := ⟨fun x => scopesIn x.1 ++ scopesIn x.2⟩

instance : Carries (Except ε α) where
  scopesIn
    | .ok x => scopesIn x
    | .error _ => []

@[simp] theorem scopesIn_scopeId (s : ScopeId) : scopesIn s = [s] := rfl
@[simp] theorem scopesIn_unit (x : Unit) : scopesIn x = [] := rfl
@[simp] theorem scopesIn_bool (x : Bool) : scopesIn x = [] := rfl
@[simp] theorem scopesIn_string (x : String) : scopesIn x = [] := rfl
@[simp] theorem scopesIn_condition (x : Condition) : scopesIn x = [] := rfl
@[simp] theorem scopesIn_verdict (x : Verdict) : scopesIn x = [] := rfl
@[simp] theorem scopesIn_problem (x : Problem) : scopesIn x = [] := rfl
@[simp] theorem scopesIn_property (x : Css.Property) : scopesIn x = [] := rfl
@[simp] theorem scopesIn_node (x : Css.Node) : scopesIn x = [] := rfl
@[simp] theorem scopesIn_ok (x : α) : scopesIn (.ok x : Except ε α) = scopesIn x := rfl
@[simp] theorem scopesIn_error (e : ε) : scopesIn (.error e : Except ε α) = [] := rfl
@[simp] theorem scopesIn_mapError {ε' : Type} (f : ε → ε') (r : Except ε α) :
    scopesIn (r.mapError f) = scopesIn r := by
  cases r <;> rfl
@[simp] theorem scopesIn_none : scopesIn (none : Option α) = [] := rfl
@[simp] theorem scopesIn_some (x : α) : scopesIn (some x) = scopesIn x := List.append_nil _
@[simp] theorem scopesIn_nil : scopesIn ([] : List α) = [] := rfl
@[simp] theorem scopesIn_cons (x : α) (xs : List α) :
    scopesIn (x :: xs) = scopesIn x ++ scopesIn xs := rfl
@[simp] theorem scopesIn_append (xs ys : List α) :
    scopesIn (xs ++ ys) = scopesIn xs ++ scopesIn ys := List.flatMap_append
@[simp] theorem scopesIn_pair (x : α) (y : β) : scopesIn (x, y) = scopesIn x ++ scopesIn y := rfl

/-- What a list mentions is mentioned by an item of it. -/
theorem mem_scopesIn_list {xs : List α} {t : ScopeId} :
    t ∈ scopesIn xs ↔ ∃ x ∈ xs, t ∈ scopesIn x := List.mem_flatMap

/-- Nodes mention no scopes. -/
@[simp] theorem scopesIn_nodes (nodes : List Css.Node) : scopesIn nodes = [] :=
  List.flatMap_eq_nil_iff.2 fun _ _ => rfl

/-- Texts mention no scopes. -/
@[simp] theorem scopesIn_strings (texts : List String) : scopesIn texts = [] :=
  List.flatMap_eq_nil_iff.2 fun _ _ => rfl

@[simp] theorem scopesIn_scopeIds (scopes : List ScopeId) : scopesIn scopes = scopes :=
  List.flatMap_singleton' scopes

end

/-! ## Values and entries -/

mutual

/-- The scopes that the rulesets in a value were written in. -/
def Value.scopes : Value → List ScopeId
  | .number _ => []
  | .keyword _ => []
  | .quoted _ _ => []
  | .list _ items => scopesOfAll items
  | .function _ args => scopesOfAll args
  | .ruleset _ _ scope => [scope]

/-- `Value.scopes` of several values. -/
def Value.scopesOfAll : List Value → List ScopeId
  | [] => []
  | v :: vs => v.scopes ++ scopesOfAll vs

end

instance : Carries Value := ⟨Value.scopes⟩

/-- `Value.scopesOfAll` as what a list of values mentions. -/
@[simp] theorem Value.scopesOfAll_eq (vs : List Value) : Value.scopesOfAll vs = scopesIn vs := by
  induction vs with
  | nil => rfl
  | cons v vs ih => rw [Value.scopesOfAll, ih]; rfl

@[simp] theorem scopesIn_number (q : Quantity) : scopesIn (Value.number q) = [] := rfl
@[simp] theorem scopesIn_keyword (text : String) : scopesIn (Value.keyword text) = [] := rfl
@[simp] theorem scopesIn_quoted (text : String) (quote : Char) :
    scopesIn (Value.quoted text quote) = [] := rfl
@[simp] theorem scopesIn_list (separator : Separator) (items : List Value) :
    scopesIn (Value.list separator items) = scopesIn items := Value.scopesOfAll_eq items
@[simp] theorem scopesIn_function (name : String) (args : List Value) :
    scopesIn (Value.function name args) = scopesIn args := Value.scopesOfAll_eq args
@[simp] theorem scopesIn_ruleset (site : Site) (body : List Item) (s : ScopeId) :
    scopesIn (Value.ruleset site body s) = [s] := rfl

/-- A rule called by its selector is known by the scope it was registered in. -/
instance : Carries Origin where
  scopesIn
    | .written _ => []
    | .hoisted scope _ => [scope]

instance : Carries Registration := ⟨fun r => r.closure :: scopesIn r.origin⟩

instance : Carries Entry where
  scopesIn
    | .binding _ value => scopesIn value
    | .mixin r => scopesIn r

instance : Carries Scope := ⟨fun s => s.link.targets ++ (scopesIn s.log ++ scopesIn s.staged)⟩

@[simp] theorem scopesIn_written (site : Site) : scopesIn (Origin.written site) = [] := rfl
@[simp] theorem scopesIn_hoisted (s : ScopeId) (n : Nat) :
    scopesIn (Origin.hoisted s n) = [s] := rfl
@[simp] theorem scopesIn_registration (r : Registration) :
    scopesIn r = r.closure :: scopesIn r.origin := rfl
@[simp] theorem scopesIn_binding (name : String) (v : Value) :
    scopesIn (Entry.binding name v) = scopesIn v := rfl
@[simp] theorem scopesIn_mixin (r : Registration) : scopesIn (Entry.mixin r) = scopesIn r := rfl
@[simp] theorem scopesIn_scope (s : Scope) :
    scopesIn s = s.link.targets ++ (scopesIn s.log ++ scopesIn s.staged) := rfl

/-- A number that occurs in some scope of an arena. -/
def Arena.Mentions (a : Arena) (t : ScopeId) : Prop := ∃ s, t ∈ scopesIn (a.scope s)

/-- What a log mentions, its arena mentions. -/
theorem Arena.Mentions.of_log {a : Arena} {s t : ScopeId} {e : Entry} (he : e ∈ a.log s)
    (ht : t ∈ scopesIn e) : a.Mentions t :=
  ⟨s, List.mem_append_right _ (List.mem_append_left _ (mem_scopesIn_list.2 ⟨e, he, ht⟩))⟩

/-! ## Calls -/

instance : Carries Snapshot := ⟨fun s => [s.scope]⟩
instance : Carries Actual := ⟨fun x => scopesIn x.value⟩
instance : Carries Slot := ⟨fun x => scopesIn x.value⟩
instance : Carries Placement :=
  ⟨fun p => scopesIn p.slots ++ (scopesIn p.rest ++ scopesIn p.surplus)⟩
instance : Carries Binding where
  scopesIn
    | .bound scope => [scope]
    | .patternMismatch => []
    | .rejected _ => []
instance : Carries Candidate := ⟨fun c => scopesIn c.registration ++ scopesIn c.pathGuards⟩
instance : Carries Trial := ⟨fun t => scopesIn t.accepted⟩
instance : Carries Selected := ⟨fun s => scopesIn s.candidate ++ [s.working]⟩
instance : Carries Trials := ⟨fun t => scopesIn t.accepted⟩
instance : Carries Fetched := ⟨fun f => [f.working, f.closure]⟩
instance : Carries Expanded := ⟨fun e => [e.scope]⟩

@[simp] theorem scopesIn_snapshot (s : Snapshot) : scopesIn s = [s.scope] := rfl
@[simp] theorem scopesIn_actual (x : Actual) : scopesIn x = scopesIn x.value := rfl
@[simp] theorem scopesIn_slot (x : Slot) : scopesIn x = scopesIn x.value := rfl
@[simp] theorem scopesIn_placement (p : Placement) :
    scopesIn p = scopesIn p.slots ++ (scopesIn p.rest ++ scopesIn p.surplus) := rfl
@[simp] theorem scopesIn_bound (s : ScopeId) : scopesIn (Binding.bound s) = [s] := rfl
@[simp] theorem scopesIn_patternMismatch : scopesIn Binding.patternMismatch = [] := rfl
@[simp] theorem scopesIn_rejected (p : Problem) : scopesIn (Binding.rejected p) = [] := rfl
@[simp] theorem scopesIn_candidate (c : Candidate) :
    scopesIn c = scopesIn c.registration ++ scopesIn c.pathGuards := rfl
@[simp] theorem scopesIn_trial (t : Trial) : scopesIn t = scopesIn t.accepted := rfl
@[simp] theorem scopesIn_selected (s : Selected) :
    scopesIn s = scopesIn s.candidate ++ [s.working] := rfl
@[simp] theorem scopesIn_trials (t : Trials) : scopesIn t = scopesIn t.accepted := rfl
@[simp] theorem scopesIn_fetched (f : Fetched) : scopesIn f = [f.working, f.closure] := rfl
@[simp] theorem scopesIn_expanded (e : Expanded) : scopesIn e = [e.scope] := rfl

/-! ## Reading an arena -/

/-- A computation that succeeds has steps that succeed. -/
theorem ok_of_bind {ε α β : Type} {x : Except ε α} {f : α → Except ε β} {b : β}
    (h : (x >>= f) = .ok b) : ∃ a, x = .ok a ∧ f a = .ok b := by
  cases x with
  | error e => cases h
  | ok a => exact ⟨a, rfl, h⟩

section
variable {a : Arena} {s t : ScopeId}

/-- The answer of a walk is the answer at some scope. -/
theorem Arena.visit_eq_some {α : Type} {f : ScopeId → Option α} {fuel : Nat}
    {stack seen : List ScopeId} {x : α} (h : a.visit f fuel stack seen = some x) :
    ∃ s, f s = some x := by
  induction fuel generalizing stack seen with
  | zero => cases h
  | succ fuel ih =>
    cases stack with
    | nil => cases h
    | cons s stack =>
      rw [Arena.visit] at h
      split at h
      · exact ih h
      · split at h
        · next hx => exact ⟨s, hx.trans h⟩
        · exact ih h

/-- What a variable has for its value is in the arena. -/
theorem Arena.lookup_mentions {name : String} {v : Value} (h : a.lookup s name = some v)
    (ht : t ∈ scopesIn v) : a.Mentions t := by
  obtain ⟨u, hu⟩ := Arena.visit_eq_some h
  obtain ⟨e, he, hv⟩ := List.exists_of_findSome?_eq_some hu
  refine .of_log (List.mem_reverse.1 he) ?_
  cases e with
  | mixin r => cases hv
  | binding n w =>
    simp only [Arena.bound?, Option.ite_none_right_eq_some, Option.some.injEq] at hv
    rw [← hv.2] at ht
    exact ht

/-- Setting a variable in a list brings in the scopes of its value. -/
theorem scopesIn_put {name : String} {v : Value} {vars : List (String × Value)}
    (ht : t ∈ scopesIn (Arena.put name v vars)) : t ∈ scopesIn v ∨ t ∈ scopesIn vars := by
  induction vars with
  | nil => exact .inl (by simpa [Arena.put] using ht)
  | cons w rest ih =>
    obtain ⟨n, w⟩ := w
    rw [Arena.put] at ht
    split at ht
    · simp only [scopesIn_cons, scopesIn_pair, List.mem_append] at ht ⊢
      rcases ht with (ht | ht) | ht
      · exact .inr (.inl (.inl ht))
      · exact .inl ht
      · exact .inr (.inr ht)
    · simp only [scopesIn_cons, List.mem_append] at ht ⊢
      rcases ht with ht | ht
      · exact .inr (.inl ht)
      · exact (ih ht).imp_right .inr

/-- The variables of a scope's own log mention what the log mentions. -/
theorem Arena.ownVariables_mentions (ht : t ∈ scopesIn (a.ownVariables s)) : a.Mentions t := by
  -- the fold sets variables of entries that are all in the log
  suffices h : ∀ (log : List Entry) (vars : List (String × Value)), (∀ e ∈ log, e ∈ a.log s) →
      (∀ t ∈ scopesIn vars, a.Mentions t) → ∀ t ∈ scopesIn (log.foldl (fun vars e =>
        match e with
        | .binding name value => Arena.put name value vars
        | .mixin _ => vars) vars), a.Mentions t from
    h _ [] (fun _ he => he) (fun _ h => nomatch h) t ht
  intro log
  induction log with
  | nil => exact fun _ _ hv => hv
  | cons e log ih =>
    intro vars hlog hvars
    refine ih _ (fun e he => hlog e (.tail _ he)) fun u hu => ?_
    cases e with
    | mixin r => exact hvars u hu
    | binding n v =>
      rcases scopesIn_put hu with hu | hu
      · exact .of_log (hlog _ (.head _)) hu
      · exact hvars u hu

/-- The mixins of a scope's own log mention what the log mentions. -/
theorem Arena.mixins_mentions (ht : t ∈ scopesIn (a.mixins s)) : a.Mentions t := by
  obtain ⟨r, hr, ht⟩ := mem_scopesIn_list.1 ht
  obtain ⟨e, he, her⟩ := List.mem_filterMap.1 hr
  cases e with
  | binding n v => cases her
  | mixin q =>
    cases her
    exact .of_log he ht

/-- Adding a registration to those found brings in its scopes. -/
theorem mem_keepLatest {r q : Registration} {found : List Registration}
    (hq : q ∈ Arena.keepLatest r found) : q = r ∨ q ∈ found := by
  induction found with
  | nil => simpa [Arena.keepLatest] using hq
  | cons p rest ih =>
    rw [Arena.keepLatest] at hq
    split at hq
    · rcases List.mem_cons.1 hq with rfl | hq
      · exact .inl rfl
      · exact .inr (.tail _ hq)
    · rcases List.mem_cons.1 hq with rfl | hq
      · exact .inr (.head _)
      · exact (ih hq).imp_right (.tail _)

/-- The definitions found in a scope's own log are registered there. -/
theorem Arena.mem_mixins_of_mem_ownMixins {name : String} {arity : Option Nat} {r : Registration}
    (hr : r ∈ a.ownMixins s name arity) : r ∈ a.mixins s := by
  suffices h : ∀ (rs found : List Registration), (∀ q ∈ rs, q ∈ a.mixins s) →
      (∀ q ∈ found, q ∈ a.mixins s) →
      ∀ q ∈ rs.foldl (fun found r => Arena.keepLatest r found) found, q ∈ a.mixins s from
    h _ [] (fun _ hq => (List.mem_filter.1 hq).1) (fun _ h => nomatch h) r hr
  intro rs
  induction rs with
  | nil => exact fun _ _ hf => hf
  | cons r rs ih =>
    intro found hrs hfound
    refine ih _ (fun q hq => hrs q (.tail _ hq)) fun q hq => ?_
    rcases mem_keepLatest hq with rfl | hq
    · exact hrs _ (.head _)
    · exact hfound q hq

/-- The definitions found in a scope's own log mention what the log mentions. -/
theorem Arena.ownMixins_mentions {name : String} {arity : Option Nat}
    (ht : t ∈ scopesIn (a.ownMixins s name arity)) : a.Mentions t := by
  obtain ⟨r, hr, ht⟩ := mem_scopesIn_list.1 ht
  exact Arena.mixins_mentions (mem_scopesIn_list.2 ⟨r, Arena.mem_mixins_of_mem_ownMixins hr, ht⟩)

/-- The definitions in sight of a scope mention what the arena mentions. -/
theorem Arena.lookupMixins_mentions {name : String} {arity : Option Nat}
    (ht : t ∈ scopesIn (a.lookupMixins s name arity)) : a.Mentions t := by
  unfold Arena.lookupMixins at ht
  cases h : a.search s fun t => a.ownMixins? t name arity with
  | none =>
    rw [h] at ht
    cases ht
  | some found =>
    rw [h] at ht
    obtain ⟨u, hu⟩ := Arena.visit_eq_some h
    unfold Arena.ownMixins? at hu
    split at hu
    · cases hu
    · cases hu
      exact Arena.ownMixins_mentions ht

end

/-- A variable's value mentions what the arena mentions. -/
theorem View.lookup_mentions {view : View} {name : String} {v : Value} {t : ScopeId}
    (h : view.lookup name = .ok v) (ht : t ∈ scopesIn v) : view.arena.Mentions t := by
  unfold View.lookup at h
  split at h
  · next hv =>
    cases h
    exact Arena.lookup_mentions hv ht
  · cases h

/-- Arithmetic gives numbers. -/
theorem Value.operate_scopes {op : Operator} {v w x : Value} (h : Value.operate op v w = .ok x) :
    scopesIn x = [] := by
  unfold Value.operate at h
  split at h
  · obtain ⟨y, -, h⟩ := ok_of_bind h
    cases h
    rfl
  · cases h

/-- The opposite of a value is a number or a keyword. -/
theorem Value.negate_scopes {v x : Value} (h : v.negate = .ok x) : scopesIn x = [] := by
  unfold Value.negate at h
  split at h <;> cases h <;> rfl

mutual

/-- What an expression evaluates to mentions the scope it is evaluated in and what the arena
mentions. -/
theorem Expr.eval_mentions {view : View} {t : ScopeId} : ∀ {e : Expr} {v : Value},
    e.eval view = .ok v → t ∈ scopesIn v → t = view.scope ∨ view.arena.Mentions t
  | .number _ _, _, h, ht | .keyword _, _, h, ht => by
    cases h
    cases ht
  | .quoted _ _ escaped, _, h, ht => by
    obtain ⟨text, -, h⟩ := ok_of_bind h
    cases h
    cases escaped <;> cases ht
  | .ref _, _, h, ht => .inr (View.lookup_mentions h ht)
  | .negate inner, _, h, ht => by
    obtain ⟨w, -, h⟩ := ok_of_bind h
    rw [Value.negate_scopes h] at ht
    cases ht
  | .operation _ _ _, _, h, ht => by
    obtain ⟨x, -, h⟩ := ok_of_bind h
    obtain ⟨y, -, h⟩ := ok_of_bind h
    rw [Value.operate_scopes h] at ht
    cases ht
  | .list _ items, _, h, ht => by
    obtain ⟨vs, hvs, h⟩ := ok_of_bind h
    cases h
    rw [scopesIn_list] at ht
    exact Expr.evalAll_mentions hvs ht
  | .function name args, _, h, ht => by
    rw [Expr.eval] at h
    split at h
    · split at h
      · cases h
        cases ht
      · cases h
    · obtain ⟨vs, hvs, h⟩ := ok_of_bind h
      cases h
      rw [scopesIn_function] at ht
      exact Expr.evalAll_mentions hvs ht
  | .ruleset _ _, _, h, ht => by
    cases h
    exact .inl (List.mem_singleton.1 ht)

/-- `Expr.eval_mentions` for several expressions. -/
theorem Expr.evalAll_mentions {view : View} {t : ScopeId} : ∀ {es : List Expr} {vs : List Value},
    Expr.evalAll view es = .ok vs → t ∈ scopesIn vs → t = view.scope ∨ view.arena.Mentions t
  | [], _, h, ht => by
    cases h
    cases ht
  | e :: es, _, h, ht => by
    obtain ⟨v, hv, h⟩ := ok_of_bind h
    obtain ⟨vs, hvs, h⟩ := ok_of_bind h
    cases h
    rcases List.mem_append.1 ht with ht | ht
    · exact Expr.eval_mentions hv ht
    · exact Expr.evalAll_mentions hvs ht

end

/-- A fault in the parameters mentions no scopes. -/
theorem checkSlots_scopes {arity : Problem} {view : View} {slots : List Slot} {r : Option Binding}
    (h : checkSlots arity view slots = .ok r) : scopesIn r = [] := by
  fun_induction checkSlots arity view slots with
  | case1 => cases h; rfl
  | case2 e value rest ih =>
    obtain ⟨expected, -, h⟩ := ok_of_bind h
    split at h
    · exact ih h
    · cases h; rfl
  | case3 | case4 => cases h; rfl
  | case5 _ rest _ _ _ ih => exact ih h

end LessSheet
