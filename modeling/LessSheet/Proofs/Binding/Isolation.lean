import LessSheet.Proofs.Binding.Fit
import LessSheet.Proofs.Scope.Sight

/-! # Binding does not depend on the caller

Patterns are evaluated in the scope of the definition, and defaults in the new scope inside it as it
grows. This module compares binding in two arenas that agree on the scopes the definition's scope
leads to (`Arena.AgreesFrom`) and may differ in all others, among them those of the caller.

Searches, and with them expressions, come to the same in both (`Expr.eval_agrees`). A script that
works on the new scope is determined by the scopes they agree on if its answer and what it leaves in
the new scope are (`Arena.Determines`). This is closed under putting scripts together, so it holds
of every parameter and, one after the other, of all of them. Nothing is asked of the arenas beside:
links may lead in circles.
-/

namespace LessSheet

open Relation (ReflTransGen)
open Script

/-! ## Arenas that agree -/

/-- `a.AgreesFrom s b`: as many scopes, and the same links and logs wherever the links lead from
`s`. -/
structure Arena.AgreesFrom (a : Arena) (s : ScopeId) (b : Arena) : Prop where
  size : b.size = a.size
  link {t : ScopeId} : ReflTransGen a.Leads s t → (b.scope t).link = (a.scope t).link
  log {t : ScopeId} : ReflTransGen a.Leads s t → b.log t = a.log t

namespace Arena

variable {a b : Arena} {s : ScopeId}

/-- An arena agrees with itself. -/
theorem AgreesFrom.refl (a : Arena) (s : ScopeId) : a.AgreesFrom s a :=
  ⟨rfl, fun _ => rfl, fun _ => rfl⟩

/-- An entry in a scope that the links do not lead to. -/
theorem AgreesFrom.record {t : ScopeId} (ht : ¬ ReflTransGen a.Leads s t) (e : Entry) :
    a.AgreesFrom s (a.record t e) := by
  refine ⟨size_record a t e, fun _ => link_record a t _ e, fun {u} hu => ?_⟩
  have hne : t ≠ u := by
    rintro rfl
    exact ht hu
  rw [log_record, if_neg fun h => hne h.1]

/-- A walk over scopes that the links lead to stays on them. -/
theorem AgreesFrom.visit (h : a.AgreesFrom s b) {α : Type} {f g : ScopeId → Option α}
    (hfg : ∀ t, ReflTransGen a.Leads s t → g t = f t) {fuel : Nat} {stack seen : List ScopeId}
    (hstack : ∀ t ∈ stack, ReflTransGen a.Leads s t) :
    b.visit g fuel stack seen = a.visit f fuel stack seen := by
  -- the fuel is the same on both sides, so the links need not be in order for this
  induction fuel generalizing stack seen with
  | zero => rfl
  | succ fuel ih =>
    cases stack with
    | nil => rfl
    | cons t stack =>
      obtain ⟨ht, hrest⟩ := List.forall_mem_cons.1 hstack
      have htargets : ∀ u ∈ (a.scope t).link.targets ++ stack, ReflTransGen a.Leads s u := by
        intro u hu
        rcases List.mem_append.1 hu with hu | hu
        · exact ht.tail hu
        · exact hrest u hu
      simp only [Arena.visit, hfg t ht, h.link ht, ih hrest, ih htargets]

/-- Arenas that agree from a scope give every variable the same value there. -/
theorem AgreesFrom.lookup (h : a.AgreesFrom s b) (name : String) :
    b.lookup s name = a.lookup s name := by
  have hown : ∀ t, ReflTransGen a.Leads s t → b.ownValue? t name = a.ownValue? t name := by
    intro t ht
    rw [ownValue?, ownValue?, h.log ht]
  rw [Arena.lookup, Arena.lookup, search, search, h.size]
  exact h.visit hown fun t ht => List.mem_singleton.1 ht ▸ .refl

/-! ## The new scope -/

variable {closure : ScopeId} {log : List Entry}

@[simp] theorem size_inside : (a.inside closure log).size = a.size + 1 := Array.size_push ..

/-- The new scope is the next one, and the others are as they were. -/
theorem scope_inside (t : ScopeId) : (a.inside closure log).scope t =
    if t = a.size then ⟨.child closure, log, none⟩ else a.scope t := by
  by_cases h : t = a.size
  · simp [inside, scope, size, h]
  · have h' : ¬ t = a.scopes.size := h
    simp [inside, scope, Array.getElem?_push, h, h']

/-- Links lead from the new scope to where they lead from the scope around it. -/
theorem leads_inside {t : ScopeId} (h : ReflTransGen (a.inside closure log).Leads a.size t) :
    t = a.size ∨ ReflTransGen a.Leads closure t := by
  induction h with
  | refl => exact .inl rfl
  | @tail u t _ hut ih =>
    refine .inr ?_
    rw [Leads, scope_inside] at hut
    by_cases hu : u = a.size
    · rw [if_pos hu] at hut
      obtain rfl := List.mem_singleton.1 hut
      exact .refl
    · rw [if_neg hu] at hut
      exact (ih.resolve_left hu).tail hut

/-- A new scope sees nothing but itself and what the scope around it sees. -/
theorem AgreesFrom.inside (h : a.AgreesFrom closure b) (log : List Entry) :
    (a.inside closure log).AgreesFrom a.size (b.inside closure log) := by
  have hscope : ∀ t, ReflTransGen (a.inside closure log).Leads a.size t →
      ((b.inside closure log).scope t).link = ((a.inside closure log).scope t).link ∧
        (b.inside closure log).log t = (a.inside closure log).log t := by
    intro t ht
    rw [Arena.log, Arena.log, scope_inside, scope_inside, h.size]
    split
    · exact ⟨rfl, rfl⟩
    · next hne =>
      have hclosure := (leads_inside ht).resolve_left hne
      exact ⟨h.link hclosure, h.log hclosure⟩
  exact ⟨by simp [h.size], fun ht => (hscope _ ht).1, fun ht => (hscope _ ht).2⟩

end Arena

/-! ## Expressions -/

/-- Views in which every variable has the same value. -/
structure View.Agrees (v w : View) : Prop where
  scope : w.scope = v.scope
  default : w.default? = v.default?
  lookup (name : String) : w.lookup name = v.lookup name

/-- Arenas that agree from a scope give views that agree. -/
theorem Arena.AgreesFrom.view {a b : Arena} {s : ScopeId} (h : a.AgreesFrom s b)
    (default : Option Bool) : View.Agrees ⟨a, s, default⟩ ⟨b, s, default⟩ := by
  refine ⟨rfl, rfl, fun name => ?_⟩
  rw [View.lookup, View.lookup, h.lookup]

section
variable {v w : View}

/-- Views that agree fill in placeholders alike. -/
theorem View.Agrees.fill (h : View.Agrees v w) (pieces : List Text.Piece) :
    w.fill pieces = v.fill pieces := by
  induction pieces with
  | nil => rfl
  | cons piece rest ih =>
    cases piece with
    | char c => rw [View.fill, View.fill, ih]
    | hole name raw => rw [View.fill, View.fill, ih, h.lookup]

mutual

/-- The variables of a view, its scope and what `default()` stands for decide the value of an
expression. -/
theorem Expr.eval_agrees (h : View.Agrees v w) : ∀ e : Expr, e.eval w = e.eval v
  | .number _ _ | .keyword _ => rfl
  | .quoted text quote escaped => by
    rw [Expr.eval, Expr.eval, View.interpolate, View.interpolate, h.fill]
  | .ref name => h.lookup name
  | .negate inner => by rw [Expr.eval, Expr.eval, Expr.eval_agrees h inner]
  | .operation op lhs rhs => by
    rw [Expr.eval, Expr.eval, Expr.eval_agrees h lhs, Expr.eval_agrees h rhs]
  | .list separator items => by rw [Expr.eval, Expr.eval, Expr.evalAll_agrees h items]
  | .function name args => by
    rw [Expr.eval, Expr.eval, h.default, Expr.evalAll_agrees h args]
  | .ruleset site body => by rw [Expr.eval, Expr.eval, h.scope]

/-- Expressions are evaluated one after the other. -/
theorem Expr.evalAll_agrees (h : View.Agrees v w) : ∀ es : List Expr,
    Expr.evalAll w es = Expr.evalAll v es
  | [] => rfl
  | e :: es => by
    rw [Expr.evalAll, Expr.evalAll, Expr.eval_agrees h e, Expr.evalAll_agrees h es]

end

/-- Patterns are checked alike in views that agree. -/
theorem checkSlots_agrees (h : View.Agrees v w) (arity : Problem) (slots : List Slot) :
    checkSlots arity w slots = checkSlots arity v slots := by
  fun_induction checkSlots arity v slots with
  | case1 => rfl
  | case2 e value rest ih => simp only [checkSlots, Expr.eval_agrees h, ih]
  | case3 => rfl
  | case4 => rfl
  | case5 slot rest hmatched hpattern hnamed ih => rw [checkSlots, ih] <;> assumption

end

/-! ## Scripts on the new scope -/

/-- What `closure` leads to in `a` determines what a script on the new scope answers and what it
leaves there. The rest of the arena is neither read nor changed. -/
def Arena.Determines {α : Type} (a : Arena) (closure : ScopeId) (x : Scoped α) : Prop :=
  ∀ log, ∃ r log', ∀ b, a.AgreesFrom closure b → ∀ problems depth,
    x.run ⟨b.inside closure log, problems, depth⟩ = (r, ⟨b.inside closure log', problems, depth⟩)

namespace Arena

variable {α β : Type} {a : Arena} {closure : ScopeId}

/-- A script that is over depends on nothing. -/
theorem determines_done (r : Except EvalError α) : a.Determines closure (Script.done r) :=
  fun log => ⟨r, log, fun _ _ _ _ => rfl⟩

/-- Two scripts on the new scope, one after the other. -/
theorem Determines.bind {x : Scoped α} {f : α → Scoped β} (hx : a.Determines closure x)
    (hf : ∀ y, a.Determines closure (f y)) : a.Determines closure (x >>= f) := by
  intro log
  obtain ⟨r, log₁, hx⟩ := hx log
  cases r with
  | error e =>
    refine ⟨.error e, log₁, fun b hb problems depth => ?_⟩
    rw [bind_eq, run_andThen, hx b hb]
    rfl
  | ok y =>
    obtain ⟨r, log₂, hf⟩ := hf y log₁
    refine ⟨r, log₂, fun b hb problems depth => ?_⟩
    rw [run_bind_ok (hx b hb problems depth), hf b hb]

/-- Binding a variable in the new scope depends on nothing else. -/
theorem determines_define (name : String) (v : Value) :
    a.Determines closure (Scoped.define a.size name v) := by
  intro log
  refine ⟨.ok (), log ++ [.binding name v], fun b hb problems depth => ?_⟩
  rw [← hb.size, define_run]

/-- The new scope is where a default is evaluated. -/
theorem determines_eval (e : Expr) : a.Determines closure (Scoped.eval a.size e) := by
  intro log
  refine ⟨e.eval ⟨a.inside closure log, a.size, none⟩, log, fun b hb problems depth => ?_⟩
  exact Prod.ext (Expr.eval_agrees ((hb.inside log).view none) e) rfl

/-- One parameter: an argument or a pattern asks nothing of the arena, and a default sees the new
scope as it is by then. -/
theorem determines_bindSlot (rest : List Value) (slot : Slot) :
    a.Determines closure (bindSlot a.size rest slot) := by
  have hdefine : ∀ name v (vs : List Value),
      a.Determines closure (do Scoped.define a.size name v; return vs) :=
    fun name v vs => (determines_define name v).bind fun _ => determines_done (.ok vs)
  obtain ⟨param, value⟩ := slot
  cases param with
  | rest name =>
    cases name with
    | none => exact determines_done _
    | some name => exact hdefine _ _ _
  | pattern e => exact determines_done _
  | named name default =>
    cases value with
    | some v => exact hdefine _ _ _
    | none =>
      cases default with
      | none => exact determines_done _
      | some e => exact (determines_eval e).bind fun v => hdefine _ _ _

/-- All parameters, each in the scope that the ones before it leave. -/
theorem determines_bindSlots (rest : List Value) (slots : List Slot) :
    a.Determines closure (bindSlots a.size rest slots) := by
  induction slots with
  | nil => exact determines_done _
  | cons slot slots ih =>
    exact (determines_bindSlot rest slot).bind fun _ => ih.bind fun _ => determines_done _

end Arena

/-! ## The whole -/

/-- A script that binds comes to the same from both states: to the same answer, and to the same new
scope if it binds. -/
def BindsAlike (x : Scoped Binding) (p q : Progress) : Prop :=
  (x.run q).1 = (x.run p).1 ∧
    ∀ s, (x.run p).1 = .ok (.bound s) → (x.run q).2.arena.scope s = (x.run p).2.arena.scope s

/-- The new scope is the next one in either arena, and what the parameters leave in it is
determined. -/
theorem Placement.bindsAlike (placement : Placement) {closure : ScopeId} {p q : Progress}
    (h : p.arena.AgreesFrom closure q.arena) : BindsAlike (placement.bind closure) p q := by
  have hscript : p.arena.Determines closure (do
      let values ← bindSlots p.arena.size placement.rest placement.slots
      Scoped.define p.arena.size "arguments" (.list .space values)
      return Binding.bound p.arena.size) :=
    (Arena.determines_bindSlots placement.rest placement.slots).bind fun _ =>
      (Arena.determines_define _ _).bind fun _ => Arena.determines_done _
  obtain ⟨r, log, hrun⟩ := hscript []
  have hp := hrun p.arena (.refl _ _) p.problems p.depth
  have hq := hrun q.arena h q.problems q.depth
  have hbound : ∀ s, r = .ok (.bound s) → s = p.arena.size := by
    rintro s rfl
    obtain ⟨_, _, -, hdefine⟩ := ok_of_run_bind hp
    obtain ⟨_, _, -, hreturn⟩ := ok_of_run_bind hdefine
    cases hreturn
    rfl
  have hp' : (placement.bind closure).run p = (r, { p with arena := p.arena.inside closure log }) :=
    hp
  have hq' : (placement.bind closure).run q =
      (r, { q with arena := q.arena.inside closure log }) := by
    rw [← h.size] at hq
    exact hq
  rw [BindsAlike, hp', hq']
  refine ⟨rfl, fun s hs => ?_⟩
  obtain rfl := hbound s hs
  simp [Arena.scope_inside, h.size]

/-- A mixin binds alike in arenas that agree from its closure. -/
theorem Mixin.bindsAlike (m : Mixin) {closure : ScopeId} (call : String) (args : List Actual)
    {p q : Progress} (h : p.arena.AgreesFrom closure q.arena) :
    BindsAlike (m.bind closure call args) p q := by
  cases hplace : m.place call args with
  | error problem =>
    rw [Mixin.bind, hplace]
    refine ⟨rfl, fun s hs => ?_⟩
    cases hs
  | ok placement =>
    have hcheck := checkSlots_agrees (h.view none) (m.arityMismatch call args.length)
      placement.slots
    rw [BindsAlike, Mixin.bind_run_of_place hplace, Mixin.bind_run_of_place hplace, hcheck]
    cases hfault : checkSlots (m.arityMismatch call args.length) ⟨p.arena, closure, none⟩
        placement.slots with
    | error e =>
      refine ⟨rfl, fun s hs => ?_⟩
      cases hs
    | ok fault =>
      cases fault with
      | none => exact placement.bindsAlike h
      | some fault =>
        refine ⟨rfl, fun s hs => ?_⟩
        cases hs
        exact absurd hfault checkSlots_ne_bound

/-- Binding in two arenas with as many scopes, which agree on the links and logs of all scopes that
the definition's scope leads to, for any parameters and arguments: it comes to the same scope
number, mismatch, rejection or error, and what is bound is bound in the same new scope. So nothing
that is defined where the definition does not see it has a part in a default or a pattern. -/
theorem Mixin.bind_isolated (m : Mixin) (closure : ScopeId) (call : String) (args : List Actual)
    (p : Progress) :
    (∀ q : Progress, p.arena.AgreesFrom closure q.arena →
      BindsAlike (m.bind closure call args) p q) ∧
    ∀ caller name v, ¬ ReflTransGen p.arena.Leads closure caller →
      BindsAlike (m.bind closure call args) p
        { p with arena := p.arena.define caller name v } :=
  ⟨fun _ hq => m.bindsAlike call args hq,
    fun _ _ _ hcaller => m.bindsAlike call args (.record hcaller _)⟩

/-- A pattern and a default with a variable that the caller has another value for, in one arena and
again in the other. -/
theorem Mixin.bind_isolated_variable :
    let m : Mixin := ⟨".m", [.pattern (.ref "x"), .named "a" (some (.list .space
      [.ref "x", .quoted "@\x7bx\x7d" '"' false]))], none, []⟩
    let args : List Actual := [⟨none, .keyword "red"⟩]
    let state (x : String) : Progress := ⟨⟨#[⟨.root, [.binding "x" (.keyword "red")], none⟩,
      ⟨.child 0, [.binding "x" (.keyword x)], none⟩]⟩, [], 0⟩
    let a : Value := .list .space [.keyword "red", .quoted "red" '"']
    let run (p : Progress) := (m.bind Arena.root ".m" args).run p
    (state "blue").arena.lookup 1 "x" ≠ (state "green").arena.lookup 1 "x" ∧
      (run (state "green")).1 = .ok (.bound 2) ∧
      (run (state "green")).2.arena.scope 2 = ⟨.child 0, [.binding "a" a,
        .binding "arguments" (.list .space [.keyword "red", a])], none⟩ ∧
      (run { state "blue" with arena := (state "blue").arena.define 1 "x" a }).1 =
        .ok (.bound 2) := by
  intro m args state a run
  have hroot : ∀ t, ReflTransGen (state "blue").arena.Leads 0 t → t = 0 := by
    intro t ht
    induction ht with
    | refl => rfl
    | tail _ hleads ih =>
      subst ih
      exact absurd hleads List.not_mem_nil
  have hagrees : (state "blue").arena.AgreesFrom Arena.root (state "green").arena := by
    refine ⟨rfl, fun ht => ?_, fun ht => ?_⟩
    all_goals
      obtain rfl := hroot _ ht
      rfl
  have hcaller : ¬ ReflTransGen (state "blue").arena.Leads 0 1 := by
    intro h
    cases hroot 1 h
  have hblue : (run (state "blue")).1 = .ok (.bound 2) := by rfl
  obtain ⟨hother, hdefined⟩ := Mixin.bind_isolated m Arena.root ".m" args (state "blue")
  obtain ⟨hanswer, hscope⟩ := hother (state "green") hagrees
  have hnew := hscope 2 hblue
  refine ⟨?_, hanswer.trans hblue, hnew.trans ?_, (hdefined 1 "x" a hcaller).1.trans hblue⟩
  · show some (Value.keyword "blue") ≠ some (.keyword "green")
    simp
  · rfl

end LessSheet
