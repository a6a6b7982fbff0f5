import LessSheet.Proofs.Script.Mirror

/-! # The expansion does the same to corresponding scopes

Every script that an expansion consists of mirrors itself (`Mirrors`): given numbers that
correspond, it does the same to arenas that do. The proofs follow the scripts step by step, from
placing arguments to the recursion through calls (`expandBody_mirrors`).
-/

namespace LessSheet

open Script

variable {n k : Nat}

/-! ## Placing arguments -/

section
variable {f : ScopeId → ScopeId}

/-- The place of a named argument depends on names alone. -/
theorem placeNamed_rename (name : String) (v : Value) (slots : List Slot) :
    placeNamed name (rename f v) (rename f slots) = rename f (placeNamed name v slots) := by
  induction slots with
  | nil => rfl
  | cons slot rest ih =>
    obtain ⟨param, value⟩ := slot
    simp only [rename_cons, rename_slot, placeNamed, isSome_rename]
    split
    · split <;> rfl
    · exact rename_bind ih fun _ => rfl

/-- The places of all named arguments depend on names alone, and so does the fault if one has
none. -/
theorem placeAllNamed_rename (reject : NamedFault → String → Problem) (args : List Actual)
    (slots : List Slot) :
    placeAllNamed reject (rename f args) (rename f slots) =
      rename f (placeAllNamed reject args slots) := by
  induction args generalizing slots with
  | nil => rfl
  | cons arg rest ih =>
    obtain ⟨name, value⟩ := arg
    cases name with
    | none => exact ih slots
    | some name =>
      simp only [rename_cons, rename_actual, placeAllNamed, placeNamed_rename]
      cases placeNamed name value slots with
      | ok slots => exact ih slots
      | error fault => rfl

/-- Positional arguments are counted, whatever their values are. -/
theorem placePositional_rename (slots : List Slot) (values : List Value) :
    placePositional (rename f slots) (rename f values) =
      rename f (placePositional slots values) := by
  induction slots generalizing values with
  | nil => rfl
  | cons slot rest ih =>
    obtain ⟨param, value⟩ := slot
    simp only [rename_cons, rename_slot, placePositional]
    split
    · have hrest : placePositional (rename f rest) [] = rename f (placePositional rest []) := ih []
      simp only [hrest, rename_placement, rename_cons, rename_slot, rename_append]
      rfl
    · cases value with
      | some v =>
        simp only [rename_some, ih]
        rfl
      | none =>
        cases values with
        | nil =>
          have hrest : placePositional (rename f rest) [] = rename f (placePositional rest []) :=
            ih []
          simp only [rename_none, rename_nil, hrest]
          rfl
        | cons v values =>
          simp only [rename_none, rename_cons, ih]
          rfl

/-- Renumbered arguments have the same places or the same fault, with other numbers in them. -/
theorem Mixin.place_rename (m : Mixin) (call : String) (args : List Actual) :
    m.place call (rename f args) = rename f (m.place call args) := by
  have hempty : rename f (m.params.map fun p => Slot.mk p none) =
      m.params.map fun p => Slot.mk p none := List.map_map
  have hpositional :
      (rename f args).filterMap (fun a => if a.name.isNone then some a.value else none) =
        rename f (args.filterMap fun a => if a.name.isNone then some a.value else none) := by
    refine filterMap_rename (fun x => ?_) args
    show (if x.name.isNone then some (rename f x.value) else none) = _
    split <;> rfl
  simp only [Mixin.place, length_rename, hpositional]
  refine rename_bind ?_ fun slots => ?_
  · rw [← placeAllNamed_rename, hempty]
  · rw [placePositional_rename]
    show (if (rename f (placePositional slots _).surplus).isEmpty then _ else _) = _
    rw [isEmpty_rename]
    split <;> rfl

end

/-! ## Binding arguments -/

/-- An expression has corresponding values in corresponding scopes. -/
theorem Scoped.mirrors_eval (s : ScopeId) (e : Expr) :
    Mirrors n k (Scoped.eval s e) (Scoped.eval (shift n k s) e) :=
  Scoped.mirrors_observe fun _ _ h => Expr.eval_shift (h.view s none) e

/-- A parameter is bound to the corresponding value, be it given or its default. -/
theorem bindSlot_mirrors (s : ScopeId) (rest : List Value) (slot : Slot) :
    Mirrors n k (bindSlot s rest slot)
      (bindSlot (shift n k s) (rename (shift n k) rest) (rename (shift n k) slot)) := by
  obtain ⟨param, value⟩ := slot
  cases param with
  | named name default =>
    cases value with
    | some value =>
      refine (Scoped.mirrors_define s name value).bind fun _ => ?_
      exact .pure [value]
    | none =>
      cases default with
      | some default =>
        refine (Scoped.mirrors_eval s default).bind fun value => ?_
        refine (Scoped.mirrors_define s name value).bind fun _ => ?_
        exact .pure [value]
      | none => exact .pure []
  | pattern e =>
    cases value with
    | none => exact .pure []
    | some value => exact .pure [value]
  | rest name =>
    cases name with
    | none => exact .pure rest
    | some name =>
      have hdefine := Scoped.mirrors_define (n := n) (k := k) s name (.list .space rest)
      rw [rename_list] at hdefine
      exact hdefine.bind fun _ => .pure rest

/-- Parameters are bound one after the other, each after what corresponds. -/
theorem bindSlots_mirrors (s : ScopeId) (rest : List Value) (slots : List Slot) :
    Mirrors n k (bindSlots s rest slots)
      (bindSlots (shift n k s) (rename (shift n k) rest) (rename (shift n k) slots)) := by
  induction slots with
  | nil => exact .pure []
  | cons slot slots ih =>
    refine (bindSlot_mirrors s rest slot).bind fun values => ?_
    refine ih.bind fun more => ?_
    rw [← rename_append]
    exact .pure (values ++ more)

/-- The new scopes are inside the corresponding closures. -/
theorem Placement.bind_mirrors (closure : ScopeId) (p : Placement) :
    Mirrors n k (p.bind closure) ((rename (shift n k) p).bind (shift n k closure)) := by
  refine (Scoped.mirrors_create (.child closure)).bind fun s => ?_
  refine (bindSlots_mirrors s p.rest p.slots).bind fun values => ?_
  have hdefine := Scoped.mirrors_define (n := n) (k := k) s "arguments" (.list .space values)
  rw [rename_list] at hdefine
  exact hdefine.bind fun _ => .pure (Binding.bound s)

/-- Binding the arguments of a call does the same for corresponding closures and values. -/
theorem Mixin.bind_mirrors (m : Mixin) (closure : ScopeId) (call : String) (args : List Actual) :
    Mirrors n k (m.bind closure call args)
      (m.bind (shift n k closure) call (rename (shift n k) args)) := by
  rw [Mixin.bind, Mixin.bind, Mixin.place_rename, length_rename]
  cases m.place call args with
  | error problem => exact .pure (Binding.rejected problem)
  | ok placement =>
    refine Mirrors.bind (Scoped.mirrors_observe fun a b h =>
      checkSlots_shift h _ closure placement.slots) fun fault => ?_
    cases fault with
    | some fault => exact .pure fault
    | none => exact Placement.bind_mirrors closure placement

/-! ## Finding candidates -/

/-- A statement is registered with the origin that its place in the corresponding log makes. -/
theorem hoistItem_mirrors (s : ScopeId) (item : Item) :
    Mirrors n k (hoistItem s item) (hoistItem (shift n k s) item) := by
  refine Mirrors.bind (Scoped.mirrors_observe fun a b h => ?_) fun r => ?_
  · rw [h.log, length_rename, Item.registration?_rename]
    rfl
  · cases r with
    | some r => exact Scoped.mirrors_register s r
    | none => exact .pure ()

/-- Registering what a block defines does the same in the corresponding scope. -/
theorem hoist_mirrors (s : ScopeId) (body : List Item) :
    Mirrors n k (hoist s body) (hoist (shift n k s) body) := by
  induction body with
  | nil => exact .pure ()
  | cons item rest ih => exact (hoistItem_mirrors s item).bind fun _ => ih

/-- Variables of a namespace get corresponding values. -/
theorem defineVariables_mirrors (s : ScopeId) (body : List Item) :
    Mirrors n k (defineVariables s body) (defineVariables (shift n k s) body) := by
  induction body with
  | nil => exact .pure ()
  | cons item rest ih =>
    cases item with
    | assign name value =>
      refine (Scoped.mirrors_eval s value).bind fun v => ?_
      exact (Scoped.mirrors_define s name v).bind fun _ => ih
    | declaration _ | rule _ | atRule _ _ _ | detachedCall _ _ | mixin _ _ | call _ => exact ih

/-- The scopes of a namespace that is opened from corresponding registrations correspond. -/
theorem openNamespace_mirrors (r : Registration) :
    Mirrors n k (openNamespace r) (openNamespace (rename (shift n k) r)) := by
  refine (Scoped.mirrors_create (.child r.closure)).bind fun s => ?_
  refine (hoist_mirrors s r.mixin.body).bind fun _ => ?_
  exact (defineVariables_mirrors s r.mixin.body).bind fun _ => .pure s

/-- Definitions become candidates with renumbered guards. -/
theorem map_candidate_rename {f : ScopeId → ScopeId} (found : List Registration)
    (guards : List ScopedGuard) :
    (rename f found).map (fun r => Candidate.mk r (rename f guards)) =
      rename f (found.map fun r => Candidate.mk r guards) := by
  induction found with
  | nil => rfl
  | cons r found ih =>
    rw [rename_cons, List.map_cons, ih, List.map_cons, rename_cons, rename_candidate]

/-- A guard that is added to others has the corresponding scope. -/
theorem guards_rename {f : ScopeId → ScopeId} (guards : List ScopedGuard) (guard : Option Condition)
    (s : ScopeId) : rename f (guards ++ (guard.map fun g => (g, s)).toList) =
      rename f guards ++ (guard.map fun g => (g, f s)).toList := by
  cases guard <;> simp

/-- The members of corresponding namespaces, with corresponding guards on the way. -/
theorem namespaceMembers_mirrors (caller : ScopeId) (name : String) (arity : Option Nat)
    (c : Candidate) :
    Mirrors n k (namespaceMembers caller name arity c)
      (namespaceMembers (shift n k caller) name arity (rename (shift n k) c)) := by
  refine (openNamespace_mirrors c.registration).bind fun s => ?_
  refine (Scoped.mirrors_create (.join caller s)).bind fun guardScope => ?_
  refine Mirrors.bind (Scoped.mirrors_observe fun a b h =>
    congrArg Except.ok (h.ownMixins s name arity)) fun members => ?_
  have hguards := guards_rename (f := shift n k) c.pathGuards c.registration.mixin.guard guardScope
  show Mirrors n k (pure (members.map fun r => Candidate.mk r
      (c.pathGuards ++ (c.registration.mixin.guard.map fun g => (g, guardScope)).toList)))
    (pure ((rename (shift n k) members).map fun r => Candidate.mk r
      (rename (shift n k) c.pathGuards ++
        (c.registration.mixin.guard.map fun g => (g, shift n k guardScope)).toList)))
  rw [← hguards, map_candidate_rename]
  exact .pure _

/-- What corresponds for each of several corresponds for all of them. -/
theorem gather_mirrors {f g : Candidate → Scoped (List Candidate)}
    (h : ∀ c, Mirrors n k (f c) (g (rename (shift n k) c))) (found : List Candidate) :
    Mirrors n k (gather f found) (gather g (rename (shift n k) found)) := by
  induction found with
  | nil => exact .pure []
  | cons c rest ih =>
    refine (h c).bind fun members => ih.bind fun more => ?_
    rw [← rename_append]
    exact .pure (members ++ more)

/-- Following a path from namespaces that correspond. -/
theorem descend_mirrors (caller : ScopeId) (arity : Option Nat) (path : List String)
    (found : List Candidate) :
    Mirrors n k (descend caller arity path found)
      (descend (shift n k caller) arity path (rename (shift n k) found)) := by
  induction path generalizing found with
  | nil => exact .pure found
  | cons name rest ih =>
    exact gather_mirrors (fun c => (namespaceMembers_mirrors caller name _ c).bind ih) found

/-- Corresponding scopes see corresponding definitions. -/
theorem visibleMixins_mirrors (s : ScopeId) (name : String) (arity : Option Nat) :
    Mirrors n k (visibleMixins s name arity) (visibleMixins (shift n k s) name arity) := by
  refine Mirrors.bind (Scoped.mirrors_observe fun a b h =>
    congrArg Except.ok (h.lookupMixins s name arity)) fun found => ?_
  have hfound := map_candidate_rename (f := shift n k) found []
  rw [rename_nil] at hfound
  rw [hfound]
  exact .pure _

/-- A path may be meant for corresponding definitions from corresponding callers. -/
theorem findMixins_mirrors (caller : ScopeId) (arity : Option Nat) (path : List String) :
    Mirrors n k (findMixins caller arity path) (findMixins (shift n k caller) arity path) := by
  match path with
  | [] => exact .pure []
  | [name] => exact visibleMixins_mirrors caller name arity
  | name :: next :: rest =>
    exact (visibleMixins_mirrors caller name (some 0)).bind fun found =>
      descend_mirrors caller arity (next :: rest) found

/-! ## Trying candidates -/

/-- The guards of a candidate, with the scopes they are evaluated in. -/
theorem Candidate.guards_shift (c : Candidate) (working : ScopeId) :
    (rename (shift n k) c).guards (shift n k working) =
      rename (shift n k) (c.guards working) :=
  (guards_rename c.pathGuards c.registration.mixin.guard working).symm

/-- What guards come to is a verdict or a problem, and neither has scopes in it. -/
theorem Candidate.judge_rename {f : ScopeId → ScopeId} (c : Candidate) (working : ScopeId)
    (r : Except EvalError Verdict) :
    (rename f c).judge (f working) r = rename f (c.judge working r) := by
  cases r with
  | error e => rfl
  | ok verdict => cases verdict <;> rfl

/-- What guards say has no scope numbers. -/
theorem rename_outcome {f : ScopeId → ScopeId} (r : Except EvalError Verdict) : rename f r = r := by
  cases r <;> rfl

/-- An attempt binds in corresponding scopes, and guards there have the same verdict. -/
theorem Candidate.attempt_mirrors (c : Candidate) (call : String) (args : List Actual)
    (caller : ScopeId) :
    Mirrors n k (c.attempt call args caller)
      ((rename (shift n k) c).attempt call (rename (shift n k) args) (shift n k caller)) := by
  refine (Mixin.bind_mirrors c.registration.mixin c.registration.closure call args).bind
    fun bound => ?_
  cases bound with
  | patternMismatch => exact .pure (Trial.mk none none)
  | rejected problem => exact .pure (Trial.mk none (some problem))
  | bound scope =>
    refine (Scoped.mirrors_create (.join caller scope)).bind fun working => ?_
    refine Mirrors.bind (Scoped.mirrors_observe fun a b h => ?_) fun verdict => ?_
    · have hverdict := verdictOf_shift h (c.guards working)
      rw [← Candidate.guards_shift] at hverdict
      rw [rename_scopeId, hverdict, rename_ok, rename_outcome]
    · rw [rename_outcome, rename_scopeId, Candidate.judge_rename]
      exact .pure (c.judge working verdict)

/-- A candidate that is out is out in both, and both go back to corresponding snapshots. -/
theorem Trial.settle_mirrors {x : Snapshot} (hx : n ≤ x.scopes) (t : Trial) :
    Mirrors n k (t.settle x) ((rename (shift n k) t).settle (x.renumber (shift n k))) := by
  obtain ⟨accepted, problem⟩ := t
  cases accepted with
  | some accepted => exact .pure (Trial.mk (some accepted) problem)
  | none =>
    exact (Scoped.mirrors_change (c := .restore x) fun _ => hx).bind
      fun _ => .pure (Trial.mk none problem)

/-- Trials of corresponding candidates come to corresponding results. -/
theorem Candidate.trial_mirrors (c : Candidate) (call : String) (args : List Actual)
    (caller : ScopeId) :
    Mirrors n k (c.trial call args caller)
      ((rename (shift n k) c).trial call (rename (shift n k) args) (shift n k caller)) :=
  .mark fun _ hx => (c.attempt_mirrors call args caller).bind (Trial.settle_mirrors hx)

/-- Trials of several corresponding candidates come to corresponding results, in order. -/
theorem tryAll_mirrors (call : String) (args : List Actual) (caller : ScopeId)
    (candidates : List Candidate) :
    Mirrors n k (tryAll call args caller candidates)
      (tryAll call (rename (shift n k) args) (shift n k caller)
        (rename (shift n k) candidates)) := by
  induction candidates with
  | nil => exact .pure (Trials.mk [] [])
  | cons c rest ih =>
    refine (c.trial_mirrors call args caller).bind fun t => ih.bind fun ts => ?_
    obtain ⟨accepted, problem⟩ := t
    cases accepted with
    | none => exact .pure (Trials.mk ts.accepted (problem.toList ++ ts.problems))
    | some found =>
      exact .pure (Trials.mk ((found.1, Selected.mk c found.2) :: ts.accepted)
        (problem.toList ++ ts.problems))

/-! ## Exports -/

/-- A ruleset is exported with a join of the corresponding scopes. -/
theorem exportValue_mirrors (caller : ScopeId) (v : Value) :
    Mirrors n k (exportValue caller v)
      (exportValue (shift n k caller) (rename (shift n k) v)) := by
  cases v with
  | ruleset site body s =>
    exact (Scoped.mirrors_create (.join caller s)).bind fun u => .pure (Value.ruleset site body u)
  | number _ | keyword _ | quoted _ _ | list _ _ | function _ _ => exact .pure _

/-- Variables are exported one after the other, with corresponding values. -/
theorem exportVariables_mirrors (caller exports : ScopeId) (vars : List (String × Value)) :
    Mirrors n k (exportVariables caller exports vars)
      (exportVariables (shift n k caller) (shift n k exports) (rename (shift n k) vars)) := by
  induction vars with
  | nil => exact .pure ()
  | cons var rest ih =>
    obtain ⟨name, value⟩ := var
    refine (exportValue_mirrors caller value).bind fun v => ?_
    exact (Scoped.mirrors_define exports name v).bind fun _ => ih

/-- Mixins are exported one after the other, with corresponding closures. -/
theorem exportMixins_mirrors (exports : ScopeId) (mixins : List Registration) :
    Mirrors n k (exportMixins exports mixins)
      (exportMixins (shift n k exports) (rename (shift n k) mixins)) := by
  induction mixins with
  | nil => exact .pure ()
  | cons r rest ih => exact (Scoped.mirrors_register exports r).bind fun _ => ih

/-- What a body has defined is collected from corresponding logs. -/
theorem collectExports_mirrors (withVariables : Bool) (caller body : ScopeId) :
    Mirrors n k (collectExports withVariables caller body)
      (collectExports withVariables (shift n k caller) (shift n k body)) := by
  refine (Scoped.mirrors_create .detached).bind fun exports => ?_
  refine Mirrors.bind (Scoped.mirrors_observe fun a b h =>
    congrArg Except.ok (exportedVariables_shift h withVariables body)) fun vars => ?_
  refine (exportVariables_mirrors caller exports vars).bind fun _ => ?_
  refine Mirrors.bind (Scoped.mirrors_observe fun a b h => congrArg Except.ok (h.mixins body))
    fun mixins => ?_
  exact (exportMixins_mirrors exports mixins).bind fun _ => .pure exports

/-- The exports of corresponding scopes are staged in the same order. -/
theorem stageAll_mirrors (caller : ScopeId) (exports : List ScopeId) :
    Mirrors n k (stageAll caller exports)
      (stageAll (shift n k caller) (rename (shift n k) exports)) := by
  induction exports with
  | nil => exact .pure ()
  | cons e rest ih =>
    exact (Scoped.mirrors_change (c := .stage caller e) trivial).bind fun _ => ih

/-- The exports of corresponding scopes are committed to the corresponding callers. -/
theorem commitExports_mirrors (caller : ScopeId) (exports : List ScopeId) :
    Mirrors n k (commitExports caller exports)
      (commitExports (shift n k caller) (rename (shift n k) exports)) := by
  refine (Scoped.mirrors_change (c := .openStaging caller) trivial).bind fun _ => ?_
  refine (stageAll_mirrors caller exports).bind fun _ => ?_
  exact Scoped.mirrors_change (c := .commit caller) trivial

/-! ## Calls -/

/-- A way to expand what a call reaches that does the same to corresponding scopes. -/
def Expander.Mirrors (n k : Nat) (expand : Expander) : Prop :=
  ∀ fetched, Script.Mirrors n k (expand fetched) (expand (rename (shift n k) fetched))

variable {expand : Expander}

/-- Evaluating something that says the same of corresponding views. -/
theorem Expand.mirrors_view {α : Type} [Carries α] [Renames α] {f : View → Except EvalError α}
    (s : ScopeId) (h : ∀ v w, ShiftedView n k v w → f w = rename (shift n k) (f v)) :
    Mirrors n k (Expand.view s f) (Expand.view (shift n k s) f) :=
  Expand.mirrors_onScopes (Scoped.mirrors_observe fun _ _ hab => h _ _ (hab.view s none))

/-- The arguments of a call have corresponding values. -/
theorem evalArguments_mirrors (caller : ScopeId) (args : List Argument) :
    Mirrors n k (evalArguments caller args) (evalArguments (shift n k caller) args) := by
  induction args with
  | nil => exact .pure []
  | cons arg rest ih =>
    refine (Expand.mirrors_view caller fun v w h => Expr.eval_shift h arg.value).bind
      fun value => ih.bind fun more => ?_
    exact .pure (Actual.mk arg.name value :: more)

/-- The choice among candidates is by their verdicts. -/
theorem choose_rename {α : Type} [Carries α] [Renames α] {f : ScopeId → ScopeId}
    (candidates : List (Verdict × α)) :
    choose (rename f candidates) = rename f (choose candidates) := by
  have hmatched : (rename f candidates).any (fun c => c.1 == .use) =
      candidates.any fun c => c.1 == .use := List.any_map
  have hsnd : ∀ cs : List (Verdict × α),
      (rename f cs).map Prod.snd = rename f (cs.map Prod.snd) := by
    intro cs
    induction cs with
    | nil => rfl
    | cons c cs ih => rw [rename_cons, List.map_cons, ih, List.map_cons, rename_cons]; rfl
  rw [choose, choose, hmatched, filter_rename (fun _ => rfl), hsnd]
  rfl

/-- Bodies are expanded in corresponding scopes, and what they export is collected there. -/
theorem expandSelected_mirrors (h : expand.Mirrors n k) (caller : ScopeId)
    (selected : List Selected) :
    Mirrors n k (expandSelected expand caller selected)
      (expandSelected expand (shift n k caller) (rename (shift n k) selected)) := by
  induction selected with
  | nil => exact .pure ([], [])
  | cons s rest ih =>
    refine (h _).bind fun expanded => ?_
    refine (Expand.mirrors_onScopes (collectExports_mirrors true caller expanded.scope)).bind
      fun exports => ih.bind fun (nodes, more) => ?_
    rw [rename_pair, rename_nodes]
    have hpure := Mirrors.pure (ε := Error) (n := n) (k := k)
      (expanded.nodes ++ nodes, exports :: more)
    rwa [rename_pair, rename_nodes] at hpure

/-- The problem of a call without candidates names no scope. -/
theorem unmatchedProblem_rename {f : ScopeId → ScopeId} (call : Call) (actual : Nat)
    (others : List Candidate) :
    unmatchedProblem call actual (rename f others) = unmatchedProblem call actual others := by
  cases others <;> rfl

/-- The nodes of the output have no scopes in them. -/
theorem Mirrors.nodes (nodes : List Css.Node) :
    Mirrors n k (pure nodes : Expand (List Css.Node)) (pure nodes) := by
  have hpure := Mirrors.pure (ε := Error) (n := n) (k := k) nodes
  rwa [rename_nodes] at hpure

/-- A call among corresponding candidates settles on those that correspond. -/
theorem Call.expandAmong_mirrors (h : expand.Mirrors n k) (call : Call) (caller : ScopeId)
    (args : List Actual) (candidates : List Candidate) :
    Mirrors n k (call.expandAmong expand caller args candidates)
      (call.expandAmong expand (shift n k caller) (rename (shift n k) args)
        (rename (shift n k) candidates)) := by
  refine (Expand.mirrors_onScopes (tryAll_mirrors call.displayName args caller candidates)).bind
    fun trials => ?_
  refine (Expand.mirrors_report trials.problems.eraseDups).bind fun _ => ?_
  have hselected := expandSelected_mirrors h caller (choose trials.accepted)
  rw [← choose_rename] at hselected
  refine hselected.bind fun (nodes, exports) => ?_
  refine (Expand.mirrors_onScopes (commitExports_mirrors caller exports)).bind fun _ => ?_
  rw [rename_nodes]
  exact Mirrors.nodes (call.finish nodes)

/-- A call does the same from corresponding callers, if bodies do the same when expanded. -/
theorem Call.expand_mirrors (h : expand.Mirrors n k) (call : Call) (caller : ScopeId) :
    Mirrors n k (call.expand expand caller) (call.expand expand (shift n k caller)) := by
  refine (evalArguments_mirrors caller call.args).bind fun args => ?_
  rw [length_rename]
  refine (Expand.mirrors_onScopes (findMixins_mirrors caller _ call.path)).bind
    fun candidates => ?_
  rw [isEmpty_rename]
  split
  · refine (Expand.mirrors_onScopes (findMixins_mirrors caller none call.path)).bind
      fun others => ?_
    rw [unmatchedProblem_rename]
    exact (Expand.mirrors_report _).bind fun _ => Mirrors.nodes []
  · exact call.expandAmong_mirrors h caller args candidates

/-- The call of a ruleset does the same from corresponding callers: the variable holds it with a
corresponding scope. -/
theorem expandDetached_mirrors (h : expand.Mirrors n k) (caller : ScopeId) (name : String)
    (comments : Comments) :
    Mirrors n k (expandDetached expand caller name comments)
      (expandDetached expand (shift n k caller) name comments) := by
  refine (Expand.mirrors_view caller fun v w h => h.lookup name).bind fun v => ?_
  cases v with
  | ruleset site body scope =>
    refine (Expand.mirrors_onScopes (Scoped.mirrors_create (.join caller scope))).bind
      fun working => ?_
    refine (h ⟨"@" ++ name, body, working, scope⟩).bind fun expanded => ?_
    refine (Expand.mirrors_onScopes (collectExports_mirrors false caller expanded.scope)).bind
      fun exports => ?_
    exact (Expand.mirrors_onScopes (commitExports_mirrors caller [exports])).bind
      fun _ => Mirrors.nodes _
  | number _ | keyword _ | quoted _ _ | list _ _ | function _ _ => exact .throw _

/-! ## Statements -/

/-- The guard of a rule has the same outcome in corresponding scopes. -/
theorem ruleApplies_mirrors (s : ScopeId) (guard : Option Condition) :
    Mirrors n k (ruleApplies s guard) (ruleApplies (shift n k s) guard) := by
  cases guard with
  | none => exact .pure true
  | some guard =>
    refine Expand.mirrors_onScopes (Scoped.mirrors_observe fun a b h => ?_)
    rw [allowsRule_shift h]
    cases allowsRule a s guard <;> rfl

/-- What has no scope numbers comes to the same at scopes that correspond. -/
theorem Expand.mirrors_view_plain {α : Type} [Carries α] [Renames α]
    {f : View → Except EvalError α} (hα : ∀ x : α, rename (shift n k) x = x) (s : ScopeId)
    (h : ∀ v w, ShiftedView n k v w → f w = f v) :
    Mirrors n k (Expand.view s f) (Expand.view (shift n k s) f) := by
  refine Expand.mirrors_view s fun v w hvw => ?_
  rw [h v w hvw]
  cases f v with
  | ok x => rw [rename_ok, hα]
  | error e => rfl

section
variable {inside : ScopeId → Expand (List Css.Node)}

/-- A rule is the same in corresponding scopes, if its block is. -/
theorem expandRule_mirrors (h : ∀ u, Mirrors n k (inside u) (inside (shift n k u))) (s : ScopeId)
    (selectors : List String) (guard : Option Condition) :
    Mirrors n k (expandRule s selectors guard inside)
      (expandRule (shift n k s) selectors guard inside) := by
  refine (ruleApplies_mirrors s guard).bind fun applies => ?_
  rw [rename_bool]
  split
  · refine (Expand.mirrors_view_plain rename_strings s fun v w hvw =>
      interpolateAll_shift hvw selectors).bind fun texts => ?_
    refine (Expand.mirrors_onScopes (Scoped.mirrors_create (.child s))).bind fun child => ?_
    refine (h child).bind fun nodes => ?_
    rw [rename_strings, rename_nodes]
    exact Mirrors.nodes _
  · exact Mirrors.nodes []

/-- An at-rule is the same in corresponding scopes, if its block is. -/
theorem expandAtRule_mirrors (h : ∀ u, Mirrors n k (inside u) (inside (shift n k u)))
    (s : ScopeId) (name params : String) :
    Mirrors n k (expandAtRule s name params inside)
      (expandAtRule (shift n k s) name params inside) := by
  refine (Expand.mirrors_view_plain rename_string s fun v w hvw =>
    congrArg Except.ok (hvw.substitute params)).bind fun text => ?_
  refine (Expand.mirrors_onScopes (Scoped.mirrors_create (.child s))).bind fun child => ?_
  refine (h child).bind fun nodes => ?_
  rw [rename_string, rename_nodes]
  exact Mirrors.nodes _

/-- A block is entered by registering its mixins in corresponding scopes. -/
theorem enterBlock_mirrors (h : ∀ u, Mirrors n k (inside u) (inside (shift n k u)))
    (body : List Item) (s : ScopeId) :
    Mirrors n k (enterBlock body inside s) (enterBlock body inside (shift n k s)) :=
  (Expand.mirrors_onScopes (hoist_mirrors s body)).bind fun _ => h s

end

mutual

/-- A statement does the same in scopes that correspond. -/
theorem Item.expand_mirrors (h : expand.Mirrors n k) (s : ScopeId) :
    ∀ item : Item, Mirrors n k (item.expand expand s) (item.expand expand (shift n k s))
  | .assign name value => by
    refine (Expand.mirrors_view s fun v w hvw => Expr.eval_shift hvw value).bind fun v => ?_
    exact (Expand.mirrors_onScopes (Scoped.mirrors_define s name v)).bind fun _ => Mirrors.nodes []
  | .declaration d =>
    (Expand.mirrors_view_plain rename_property s fun v w hvw => Declaration.eval_shift hvw d).bind
      fun _ => Mirrors.nodes _
  | .rule ⟨selectors, guard, body⟩ =>
    expandRule_mirrors (enterBlock_mirrors (fun u => expandItems_mirrors h u body) body) s
      selectors guard
  | .atRule name params body =>
    expandAtRule_mirrors (enterBlock_mirrors (fun u => expandItems_mirrors h u body) body) s
      name params
  | .mixin _ _ => Mirrors.nodes []
  | .call call => call.expand_mirrors h s
  | .detachedCall name comments => expandDetached_mirrors h s name comments

/-- Statements do the same in scopes that correspond. -/
theorem expandItems_mirrors (h : expand.Mirrors n k) (s : ScopeId) :
    ∀ items : List Item,
      Mirrors n k (expandItems expand s items) (expandItems expand (shift n k s) items)
  | [] => Mirrors.nodes []
  | item :: rest => by
    refine (Item.expand_mirrors h s item).bind fun nodes => ?_
    refine (expandItems_mirrors h s rest).bind fun more => ?_
    rw [rename_nodes, rename_nodes]
    exact Mirrors.nodes (nodes ++ more)

end

/-! ## The recursion through calls -/

/-- A body is expanded in new scopes that correspond, and both go back in its closure. -/
theorem expandFetched_mirrors (h : expand.Mirrors n k) :
    Expander.Mirrors n k (expandFetched expand) := by
  intro fetched
  refine .mark fun x hx => ?_
  refine (Expand.mirrors_onScopes (Scoped.mirrors_create (.child fetched.working))).bind
    fun scope => ?_
  have hblock : Mirrors n k (expandBlock expand fetched.body scope)
      (expandBlock expand fetched.body (shift n k scope)) :=
    enterBlock_mirrors (fun u => expandItems_mirrors h u fetched.body) fetched.body scope
  have hback : Mirrors n k (Expand.restoring x (expandBlock expand fetched.body scope))
      (Expand.restoring (x.renumber (shift n k))
        (expandBlock expand fetched.body (shift n k scope))) :=
    hblock.andThen fun r => .change (c := .restore x) (fun _ => hx) (.done r)
  refine Mirrors.bind hback fun nodes => ?_
  rw [rename_nodes]
  exact .pure (Expanded.mk nodes scope)

/-- Going one level deeper is the same everywhere. -/
theorem Expand.mirrors_deeper {α : Type} [Carries α] [Renames α] {x y : Expand α}
    (h : Mirrors n k x y) (limit : Nat) (error : Error) :
    Mirrors n k (Expand.deeper limit error x) (Expand.deeper limit error y) := by
  refine .level fun depth => ?_
  split
  · exact .throw error
  · exact .level fun _ => h.andThen fun r => .level fun _ => .done r

/-- What a call reaches is expanded in the same way in scopes that correspond. -/
theorem expandBody_mirrors (n k limit left : Nat) :
    Expander.Mirrors n k (expandBody limit left) := by
  induction left with
  | zero => exact fun fetched => .throw _
  | succ left ih =>
    exact fun fetched => Expand.mirrors_deeper (expandFetched_mirrors ih fetched) limit _

end LessSheet
