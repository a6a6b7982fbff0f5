import LessSheet.Binding
import LessSheet.Proofs.Binding.Arity
import LessSheet.Proofs.Scope.Mention
import LessSheet.Proofs.Script.Steps
import Mathlib.Data.List.TakeWhile

/-! # When a call fits a definition

Binding fills one table of slots in several passes: the named arguments, the positional ones, a
check, and then the parameters one by one in the new scope. Here is what comes of it, said of each
parameter by what stands before it and without a table that changes.

* `Param.byName`: an argument given by name goes to the first variable of that name.
* `Slot.received`: otherwise the parameter has the positional argument whose number is the number of
  open parameters before it, unless a rest parameter stands before it.
* `restValues`: a rest parameter has the positional arguments from there on.
* `Slot.Stands`: the values a parameter stands for, which for a default depend on the earlier
  parameters.

Binding succeeds exactly if the call fits (`Mixin.Fits`), and then the new scope has the parameters
in their order and `arguments` after them (`Mixin.bind_iff_fits`). One lemma says so for each pass.
-/

namespace LessSheet

open Script

/-! ## Arguments by their places -/

/-- Applies `f` to every item together with the items before it. -/
def withEarlier {α β : Type} (f : List α → α → β) : List α → List β
  | [] => []
  | x :: rest => f [] x :: withEarlier (fun earlier => f (x :: earlier)) rest

/-- The values of the positional arguments, in order. -/
def positional (args : List Actual) : List Value :=
  args.filterMap fun a => if a.name.isNone then some a.value else none

/-- The names of the named arguments, in order. -/
def argumentNames (args : List Actual) : List String := args.filterMap Actual.name

/-- The value given under a name. -/
def valueNamed (args : List Actual) (name : String) : Option Value :=
  (args.find? fun a => a.name == some name).map Actual.value

/-- What a parameter receives by name. The first variable of a name receives it. -/
def Param.byName (args : List Actual) (earlier : List Param) : Param → Option Value
  | .named name _ => if earlier.any (Param.isNamed name) then none else valueNamed args name
  | _ => none

/-- Parameters with what they receive by name, where `earlier` stand before all of them. -/
def namedSlots (args : List Actual) (earlier params : List Param) : List Slot :=
  withEarlier (fun before p => ⟨p, p.byName args (earlier ++ before)⟩) params

/-- A parameter that waits for a positional argument. -/
def Slot.isOpen (slot : Slot) : Bool := !slot.param.isRest && slot.value.isNone

/-- What a parameter has when the positional arguments `values` are given out from left to right:
what it had, or the next of them. Behind a rest parameter there is none. -/
def Slot.received (values : List Value) (earlier : List Slot) (slot : Slot) : Option Value :=
  slot.value.or <|
    if slot.param.isRest || earlier.any fun s => s.param.isRest then none
    else values[earlier.countP Slot.isOpen]?

/-- The positional arguments that remain when the first rest parameter is reached. -/
def restValues (slots : List Slot) (values : List Value) : List Value :=
  values.drop ((slots.takeWhile fun s => !s.param.isRest).countP Slot.isOpen)

/-- The parameters of a mixin with the arguments they receive. -/
def Mixin.slots (m : Mixin) (args : List Actual) : List Slot :=
  withEarlier (fun earlier slot => ⟨slot.param, slot.received (positional args) earlier⟩)
    (namedSlots args [] m.params)

/-- The arguments that the rest parameter of a mixin collects. -/
def Mixin.restValues (m : Mixin) (args : List Actual) : List Value :=
  LessSheet.restValues (namedSlots args [] m.params) (positional args)

/-! ## Fitting -/

/-- An arena with one more scope, inside `closure` and with the given log. -/
def Arena.inside (a : Arena) (closure : ScopeId) (log : List Entry) : Arena :=
  ⟨a.scopes.push ⟨.child closure, log, none⟩⟩

/-- What a parameter leaves in the log of the new scope, if it stands for these values. -/
def Param.entries (values : List Value) : Param → List Entry
  | .named name _ => values.map (Entry.binding name)
  | .rest (some name) => [.binding name (.list .space values)]
  | .rest none => []
  | .pattern _ => []

/-- `slot.Stands a closure rest log values`: the parameter stands for `values`, where the new scope
inside `closure` has `log` so far and the rest parameter collects `rest`. A pattern has to equal its
argument, and a variable without an argument stands for its default. -/
def Slot.Stands (a : Arena) (closure : ScopeId) (rest : List Value) (log : List Entry) :
    Slot → List Value → Prop
  | ⟨.named _ _, some v⟩, values => values = [v]
  | ⟨.named _ (some default), none⟩, values =>
    ∃ v, default.eval ⟨a.inside closure log, a.size, none⟩ = .ok v ∧ values = [v]
  | ⟨.named _ none, none⟩, _ => False
  | ⟨.rest _, _⟩, values => values = rest
  | ⟨.pattern e, some v⟩, values =>
    (∃ w, e.eval ⟨a, closure, none⟩ = .ok w ∧ w.compare v = some .eq) ∧ values = [v]
  | ⟨.pattern _, none⟩, _ => False

/-- The log that parameters leave which stand for these values. -/
def takenLog (taken : List (Slot × List Value)) : List Entry :=
  taken.flatMap fun t => t.1.param.entries t.2

/-- Every parameter stands for its values, where the new scope has `log` before the first of them
and what the earlier ones left after that. -/
def AllStand (a : Arena) (closure : ScopeId) (rest : List Value) (log : List Entry)
    (taken : List (Slot × List Value)) : Prop :=
  ∀ before slot values after, taken = before ++ (slot, values) :: after →
    slot.Stands a closure rest (log ++ takenLog before) values

/-- The entry for all values of the parameters. -/
def argumentsEntry (taken : List (Slot × List Value)) : Entry :=
  .binding "arguments" (.list .space (taken.flatMap Prod.snd))

/-- The arguments of a call fit a mixin defined in `closure`, and `taken` is what each parameter
receives and the values it then stands for. -/
structure Mixin.Fits (m : Mixin) (a : Arena) (closure : ScopeId) (args : List Actual)
    (taken : List (Slot × List Value)) : Prop where
  known : ∀ name ∈ argumentNames args, m.params.any (Param.isNamed name)
  distinct : (argumentNames args).Nodup
  usedUp : m.hasRest ∨
    (positional args).length ≤ (namedSlots args [] m.params).countP Slot.isOpen
  slots : taken.map Prod.fst = m.slots args
  stands : AllStand a closure (m.restValues args) [] taken

/-! ## The named arguments -/

section
variable {args args' done : List Actual} {earlier params : List Param} {name : String} {v : Value}

/-- A name that was given before is not taken from what comes after. -/
theorem valueNamed_concat (k : String) :
    valueNamed (done ++ [⟨some name, v⟩]) k =
      (valueNamed done k).or (if name = k then some v else none) := by
  simp only [valueNamed, List.find?_append, Option.map_or, List.find?_singleton, beq_iff_eq,
    Option.some.injEq]
  split <;> rfl

/-- The first argument of a name gives its value. -/
theorem valueNamed_cons_some (k : String) :
    valueNamed (⟨some name, v⟩ :: args) k = if name = k then some v else valueNamed args k := by
  simp only [valueNamed, List.find?_cons, Option.some_beq_some]
  by_cases h : name = k
  · simp [h]
  · simp [h, beq_false_of_ne h]

@[simp] theorem argumentNames_nil : argumentNames [] = [] := rfl

@[simp] theorem argumentNames_cons_none : argumentNames (⟨none, v⟩ :: args) = argumentNames args :=
  rfl

@[simp] theorem argumentNames_cons_some :
    argumentNames (⟨some name, v⟩ :: args) = name :: argumentNames args :=
  rfl

@[simp] theorem argumentNames_append :
    argumentNames (args ++ args') = argumentNames args ++ argumentNames args' :=
  List.filterMap_append

/-- A value is given under the names of the arguments, and no others. -/
theorem isSome_valueNamed : (valueNamed args name).isSome ↔ name ∈ argumentNames args := by
  simp [valueNamed, argumentNames]

/-- A named argument changes what its variable receives, and nothing else. -/
theorem Param.byName_concat {p : Param}
    (h : p.isNamed name = false ∨ earlier.any (Param.isNamed name) = true) :
    p.byName (done ++ [⟨some name, v⟩]) earlier = p.byName done earlier := by
  cases p with
  | rest n => rfl
  | pattern e => rfl
  | named n default =>
    simp only [Param.byName]
    split
    · rfl
    · next hfirst =>
      have hne : name ≠ n := by
        rintro rfl
        simp [Param.isNamed, hfirst] at h
      rw [valueNamed_concat, if_neg hne, Option.or_none]

/-- The arguments matter by what they give to each name. -/
theorem namedSlots_congr (h : ∀ n, valueNamed args n = valueNamed args' n) :
    namedSlots args earlier params = namedSlots args' earlier params := by
  have hbyName : Param.byName args = Param.byName args' := by
    funext before p
    cases p <;> simp [Param.byName, h]
  simp only [namedSlots, hbyName]

/-- The first parameter receives its value by name, and then the others, which stand behind it. -/
theorem namedSlots_cons (p : Param) :
    namedSlots args earlier (p :: params) =
      ⟨p, p.byName args earlier⟩ :: namedSlots args (earlier ++ [p]) params := by
  simp [namedSlots, withEarlier]

/-- Receiving values by name makes no rest parameters. -/
theorem any_isRest_namedSlots :
    (namedSlots args earlier params).any (fun s => s.param.isRest) = params.any Param.isRest := by
  induction params generalizing earlier with
  | nil => rfl
  | cons p params ih => rw [namedSlots_cons, List.any_cons, List.any_cons, ih]

/-- Before any argument has a place. -/
theorem namedSlots_empty (earlier params : List Param) :
    (params.map fun p => (⟨p, none⟩ : Slot)) = namedSlots [] earlier params := by
  induction params generalizing earlier with
  | nil => rfl
  | cons p params ih =>
    have hnone : p.byName [] earlier = none := by
      cases p <;> simp [Param.byName, valueNamed]
    rw [namedSlots_cons, hnone, List.map_cons, ih]

/-- Behind the first variable of its name an argument makes no difference. -/
theorem namedSlots_concat (h : earlier.any (Param.isNamed name) = true) :
    namedSlots (done ++ [⟨some name, v⟩]) earlier params = namedSlots done earlier params := by
  induction params generalizing earlier with
  | nil => rfl
  | cons p params ih =>
    rw [namedSlots_cons, namedSlots_cons, Param.byName_concat (.inr h),
      ih (by rw [List.any_append, h]; rfl)]

/-- One more named argument: it has a place if a variable has its name and no argument before it
had. -/
theorem placeNamed_namedSlots (h : earlier.any (Param.isNamed name) = false) :
    placeNamed name v (namedSlots done earlier params) =
      if params.any (Param.isNamed name) then
        if (valueNamed done name).isSome then .error .taken
        else .ok (namedSlots (done ++ [⟨some name, v⟩]) earlier params)
      else .error .unknown := by
  induction params generalizing earlier with
  | nil => rfl
  | cons p params ih =>
    rw [namedSlots_cons, namedSlots_cons, placeNamed, List.any_cons]
    cases hp : p.isNamed name with
    | false =>
      have hlater : (earlier ++ [p]).any (Param.isNamed name) = false := by
        simp [List.any_append, h, hp]
      rw [ih hlater, Param.byName_concat (.inl hp), Bool.false_or]
      cases params.any (Param.isNamed name) <;> cases (valueNamed done name).isSome <;> rfl
    | true =>
      have hlater : (earlier ++ [p]).any (Param.isNamed name) = true := by
        simp [List.any_append, hp]
      cases p with
      | rest n => cases hp
      | pattern e => cases hp
      | named n default =>
        have hn : n = name := beq_iff_eq.1 hp
        subst hn
        rw [namedSlots_concat hlater]
        simp only [Param.byName, h, valueNamed_concat]
        cases valueNamed done n <;> rfl

/-- All named arguments have places if each has a variable of its name and no two have one name. -/
theorem placeAllNamed_namedSlots {reject : NamedFault → String → Problem} {slots : List Slot} :
    placeAllNamed reject args (namedSlots done [] params) = .ok slots ↔
      (∀ n ∈ argumentNames args, params.any (Param.isNamed n) ∧ n ∉ argumentNames done) ∧
        (argumentNames args).Nodup ∧ slots = namedSlots (done ++ args) [] params := by
  induction args generalizing done with
  | nil =>
    simp only [placeAllNamed, argumentNames_nil, List.append_nil, Except.ok.injEq,
      List.not_mem_nil, false_implies, implies_true, List.nodup_nil, true_and]
    exact eq_comm
  | cons arg args ih =>
    obtain ⟨name, v⟩ := arg
    cases name with
    | none =>
      have hsame : namedSlots done [] params = namedSlots (done ++ [⟨none, v⟩]) [] params :=
        namedSlots_congr fun n => by simp [valueNamed, List.find?_append]
      rw [placeAllNamed, hsame, ih, List.append_assoc]
      simp
    | some name =>
      rw [placeAllNamed, placeNamed_namedSlots rfl, argumentNames_cons_some, List.forall_mem_cons,
        List.nodup_cons]
      by_cases hknown : params.any (Param.isNamed name) = true
      · by_cases htaken : name ∈ argumentNames done
        · rw [if_pos hknown, if_pos (isSome_valueNamed.2 htaken)]
          refine ⟨fun h => ?_, fun h => absurd htaken h.1.1.2⟩
          cases h
        · rw [if_pos hknown, if_neg (mt isSome_valueNamed.1 htaken)]
          dsimp only
          rw [ih, List.append_assoc, argumentNames_append]
          simp only [argumentNames_cons_some, argumentNames_nil, List.mem_append,
            List.mem_singleton, not_or, List.singleton_append]
          grind
      · rw [if_neg hknown]
        refine ⟨fun h => ?_, fun h => absurd h.1.1.1 hknown⟩
        cases h

end

/-! ## The positional arguments -/

section
variable {slot : Slot} {slots earlier : List Slot} {values : List Value} {v : Value}

/-- Without positional arguments every parameter keeps what it has. -/
theorem Slot.received_nil : slot.received [] earlier = slot.value := by
  simp [Slot.received]

/-- Behind a rest parameter there is nothing left. -/
theorem Slot.received_of_rest {t : Slot} (h : t.param.isRest) :
    slot.received values (t :: earlier) = slot.received [] earlier := by
  simp [Slot.received, h]

/-- An open parameter takes the next argument from those behind it. -/
theorem Slot.received_of_open {t : Slot} (h : t.isOpen) :
    slot.received (v :: values) (t :: earlier) = slot.received values earlier := by
  have hrest : t.param.isRest = false := by
    simpa using (Bool.and_eq_true_iff.1 h).1
  simp [Slot.received, h, hrest]

/-- Any other parameter, or one for which there is no argument, leaves them to those behind it. -/
theorem Slot.received_of_closed {t : Slot} (hrest : t.param.isRest = false)
    (h : t.isOpen = false ∨ values = []) :
    slot.received values (t :: earlier) = slot.received values earlier := by
  rcases h with h | rfl
  · simp [Slot.received, h, hrest]
  · rw [Slot.received_nil, Slot.received_nil]

/-- A rest parameter collects what is left when it is reached. -/
theorem restValues_of_rest (h : slot.param.isRest) :
    restValues (slot :: slots) values = values := by
  simp [restValues, h]

/-- A parameter that waits takes the next argument. -/
theorem restValues_of_open (h : slot.isOpen) :
    restValues (slot :: slots) (v :: values) = restValues slots values := by
  have hrest : slot.param.isRest = false := by
    simpa using (Bool.and_eq_true_iff.1 h).1
  simp [restValues, h, hrest]

/-- A parameter that does not wait takes none, nor is there any to take where none is left. -/
theorem restValues_of_closed (hrest : slot.param.isRest = false)
    (h : slot.isOpen = false ∨ values = []) :
    restValues (slot :: slots) values = restValues slots values := by
  rcases h with h | rfl
  · simp [restValues, h, hrest]
  · simp [restValues]

/-- The positional arguments are given out by counting open parameters. What remains goes to the
rest parameter, or is left over if there is none. -/
theorem placePositional_eq (slots : List Slot) (values : List Value) :
    placePositional slots values =
      ⟨withEarlier (fun earlier slot => ⟨slot.param, slot.received values earlier⟩) slots,
        if slots.any fun s => s.param.isRest then restValues slots values else [],
        if slots.any fun s => s.param.isRest then [] else restValues slots values⟩ := by
  induction slots, values using placePositional.induct with
  | case1 values => rfl
  | case2 slot slots values hrest ih =>
    have hnone : restValues slots [] = [] := List.drop_nil
    have hkeeps : slot.received values [] = slot.value := by simp [Slot.received, hrest]
    rw [placePositional_of_rest hrest, ih, restValues_of_rest hrest, hnone]
    simp [withEarlier, Slot.received_of_rest hrest, hkeeps, hrest]
  | case3 slot slots hrest v values hnone ih =>
    have hopen : slot.isOpen := by simp [Slot.isOpen, hrest, hnone]
    have htakes : slot.received (v :: values) [] = some v := by
      simp [Slot.received, hrest, hnone]
    rw [placePositional_of_none hrest hnone, ih, restValues_of_open hopen]
    simp [withEarlier, Slot.received_of_open hopen, htakes, hrest]
  | case4 slot slots hrest values hother ih =>
    have hclosed : slot.isOpen = false ∨ values = [] := by
      cases hv : slot.value with
      | some w => simp [Slot.isOpen, hv]
      | none =>
        cases values with
        | nil => exact .inr rfl
        | cons v values => exact (hother v values hv rfl).elim
    have hrest' : slot.param.isRest = false := by simpa using hrest
    have hkeeps : slot.received values [] = slot.value := by
      rcases hclosed with hclosed | rfl
      · have hsome : slot.value.isSome := by simpa [Slot.isOpen, hrest'] using hclosed
        rw [Slot.received, Option.or_of_isSome hsome]
      · exact Slot.received_nil
    rw [placePositional_of_other hrest hother, ih, restValues_of_closed hrest' hclosed]
    simp [withEarlier, Slot.received_of_closed hrest' hclosed, hkeeps, hrest']

end

/-- With a rest parameter, or with at least as many open parameters as there are positional
arguments, nothing is left over. -/
theorem Mixin.placePositional_surplus (m : Mixin) (args : List Actual) :
    (placePositional (namedSlots args [] m.params) (positional args)).surplus = [] ↔ m.hasRest ∨
      (positional args).length ≤ (namedSlots args [] m.params).countP Slot.isOpen := by
  have hsurplus : (placePositional (namedSlots args [] m.params) (positional args)).surplus =
      if m.hasRest then [] else m.restValues args := by
    simp only [placePositional_eq, any_isRest_namedSlots]
    rfl
  rw [hsurplus]
  cases hrest : m.hasRest with
  | true => simp
  | false =>
    have hall : ∀ slot ∈ namedSlots args [] m.params, (!slot.param.isRest) = true := by
      have hany : (namedSlots args [] m.params).any (fun s => s.param.isRest) = false :=
        any_isRest_namedSlots.trans hrest
      simpa using hany
    simp [Mixin.restValues, LessSheet.restValues, List.takeWhile_eq_self_iff.2 hall]

/-- Where nothing is left over, the parameters have what is said of each of them. -/
theorem Mixin.placePositional_eq_of_surplus {m : Mixin} {args : List Actual}
    (h : (placePositional (namedSlots args [] m.params) (positional args)).surplus = []) :
    placePositional (namedSlots args [] m.params) (positional args) =
      ⟨m.slots args, m.restValues args, []⟩ := by
  rw [placePositional_eq, any_isRest_namedSlots] at h ⊢
  cases hrest : m.params.any Param.isRest with
  | true => rfl
  | false =>
    rw [hrest] at h
    have hnil : m.restValues args = [] := h
    rw [hnil]
    exact congrArg (Placement.mk _ _) h

/-- The arguments of a call have places if the named ones do and nothing is left over. -/
theorem Mixin.place_iff {m : Mixin} {call : String} {args : List Actual} {placement : Placement} :
    m.place call args = .ok placement ↔
      (∀ n ∈ argumentNames args, m.params.any (Param.isNamed n)) ∧ (argumentNames args).Nodup ∧
        (m.hasRest ∨
          (positional args).length ≤ (namedSlots args [] m.params).countP Slot.isOpen) ∧
        placement = ⟨m.slots args, m.restValues args, []⟩ := by
  rw [← Mixin.placePositional_surplus]
  constructor
  · intro h
    obtain ⟨slots, hslots, h⟩ := ok_of_bind h
    rw [namedSlots_empty [], placeAllNamed_namedSlots] at hslots
    obtain ⟨hknown, hdistinct, rfl⟩ := hslots
    refine ⟨fun n hn => (hknown n hn).1, hdistinct, ?_⟩
    dsimp only at h
    split at h
    · next hempty =>
      have hnil := List.isEmpty_iff.1 hempty
      cases h
      exact ⟨hnil, Mixin.placePositional_eq_of_surplus hnil⟩
    · cases h
  · rintro ⟨hknown, hdistinct, hnil, rfl⟩
    rw [Mixin.place, namedSlots_empty [], placeAllNamed_namedSlots.2
      ⟨fun n hn => ⟨hknown n hn, List.not_mem_nil⟩, hdistinct, rfl⟩]
    have hempty := List.isEmpty_iff.2 hnil
    rw [← Mixin.placePositional_eq_of_surplus hnil]
    exact if_pos hempty

/-! ## The check -/

/-- A parameter passes the check, where patterns are evaluated in `view`. -/
def Slot.Passes (view : View) : Slot → Prop
  | ⟨.pattern e, some v⟩ => ∃ w, e.eval view = .ok w ∧ w.compare v = some .eq
  | ⟨.pattern _, none⟩ => False
  | ⟨.named _ none, none⟩ => False
  | _ => True

/-- The check is passed if every parameter passes it. -/
theorem checkSlots_eq_none_iff {arity : Problem} {view : View} {slots : List Slot} :
    checkSlots arity view slots = .ok none ↔ ∀ slot ∈ slots, slot.Passes view := by
  fun_induction checkSlots arity view slots with
  | case1 => simp
  | case2 e v rest ih =>
    rw [List.forall_mem_cons, ← ih]
    cases heval : e.eval view with
    | error err => simp [Slot.Passes, heval, bind, Except.bind]
    | ok w =>
      by_cases heq : w.compare v = some .eq
      · simp [Slot.Passes, heval, heq, bind, Except.bind]
      · simp [Slot.Passes, heval, heq, bind, Except.bind, pure, Except.pure]
  | case3 => simp [Slot.Passes]
  | case4 => simp [Slot.Passes]
  | case5 slot rest hmatched hpattern hnamed ih =>
    rw [List.forall_mem_cons, ih]
    refine (and_iff_right ?_).symm
    obtain ⟨param, value⟩ := slot
    cases param with
    | rest n => trivial
    | pattern e =>
      cases value with
      | none => exact (hpattern e rfl).elim
      | some v => exact (hmatched e v rfl).elim
    | named n default =>
      cases value with
      | some v => cases default <;> trivial
      | none =>
        cases default with
        | some e => trivial
        | none => exact (hnamed n rfl).elim

/-- A parameter that stands for values has passed the check. -/
theorem Slot.Stands.passes {a : Arena} {closure : ScopeId} {rest : List Value} {log : List Entry}
    {slot : Slot} {values : List Value} (h : slot.Stands a closure rest log values) :
    slot.Passes ⟨a, closure, none⟩ := by
  obtain ⟨param, value⟩ := slot
  cases param with
  | rest n => trivial
  | pattern e =>
    cases value with
    | none => exact h
    | some v => exact h.1
  | named n default =>
    cases value with
    | some v => cases default <;> trivial
    | none =>
      cases default with
      | some e => trivial
      | none => exact h

/-! ## The new scope -/

section
variable {a : Arena} {closure : ScopeId} {rest values : List Value} {log : List Entry}
  {slot : Slot} {taken : List (Slot × List Value)} {problems : List Problem} {depth : Nat}
  {q : Progress}

/-- What is recorded in the new scope comes at the end of its log. -/
theorem Arena.record_inside (a : Arena) (closure : ScopeId) (log : List Entry) (e : Entry) :
    (a.inside closure log).record a.size e = a.inside closure (log ++ [e]) := by
  refine congrArg Arena.mk (Array.ext (by simp [Arena.inside]) fun i h₁ h₂ => ?_)
  simp only [Arena.inside, Arena.size, Array.getElem_modify, Array.getElem_push]
  by_cases hi : i < a.scopes.size
  · simp [hi, Nat.ne_of_gt hi]
  · have hi' : i = a.scopes.size := by
      have hlt : i < (a.scopes.push ⟨.child closure, log ++ [e], none⟩).size := h₂
      rw [Array.size_push] at hlt
      omega
    simp [hi']

/-- There is nothing to stand for without parameters. -/
theorem allStand_nil : AllStand a closure rest log [] := by
  intro before slot values after h
  cases before <;> cases h

/-- The first parameter stands for its values with the log as it is, and the others with what it
leaves. -/
theorem allStand_cons {t : Slot × List Value} :
    AllStand a closure rest log (t :: taken) ↔
      t.1.Stands a closure rest log t.2 ∧
        AllStand a closure rest (log ++ t.1.param.entries t.2) taken := by
  constructor
  · intro h
    refine ⟨by simpa [takenLog] using h [] t.1 t.2 taken rfl, ?_⟩
    rintro before slot values after rfl
    simpa [takenLog] using h (t :: before) slot values after rfl
  · rintro ⟨hhead, htail⟩ before slot values after h
    cases before with
    | nil =>
      cases h
      simpa [takenLog] using hhead
    | cons u before =>
      cases h
      simpa [takenLog] using htail before slot values after rfl

/-- Defining a variable in the new scope. -/
theorem define_run (name : String) (v : Value) :
    (Scoped.define a.size name v).run ⟨a.inside closure log, problems, depth⟩ =
      (.ok (), ⟨a.inside closure (log ++ [.binding name v]), problems, depth⟩) := by
  rw [← Arena.record_inside]
  rfl

/-- Defining a variable and answering values. -/
theorem define_return_run (name : String) (v : Value) (vs : List Value) :
    (do Scoped.define a.size name v; return vs : Scoped (List Value)).run
        ⟨a.inside closure log, problems, depth⟩ = (.ok values, q) ↔
      values = vs ∧ q = ⟨a.inside closure (log ++ [.binding name v]), problems, depth⟩ := by
  rw [run_bind_ok (define_run name v)]
  constructor
  · rintro ⟨⟩
    exact ⟨rfl, rfl⟩
  · rintro ⟨rfl, rfl⟩
    rfl

/-- One parameter that passes the check: it is bound to the values it stands for. -/
theorem bindSlot_run (h : slot.Passes ⟨a, closure, none⟩) :
    (bindSlot a.size rest slot).run ⟨a.inside closure log, problems, depth⟩ = (.ok values, q) ↔
      slot.Stands a closure rest log values ∧
        q = ⟨a.inside closure (log ++ slot.param.entries values), problems, depth⟩ := by
  obtain ⟨param, value⟩ := slot
  cases param with
  | rest n =>
    cases n with
    | none => simp [bindSlot, Slot.Stands, Param.entries, eq_comm]
    | some n =>
      rw [bindSlot, define_return_run]
      refine and_congr_right fun hvalues => ?_
      rw [hvalues, Param.entries]
  | pattern e =>
    cases value with
    | none => exact h.elim
    | some v =>
      constructor
      · rintro ⟨⟩
        exact ⟨⟨h, rfl⟩, by simp [Param.entries]⟩
      · rintro ⟨⟨_, rfl⟩, rfl⟩
        simp [bindSlot, Param.entries]
  | named n default =>
    cases value with
    | some v =>
      rw [bindSlot, define_return_run]
      refine and_congr_right fun hvalues => ?_
      rw [hvalues, Param.entries, List.map_singleton]
    | none =>
      cases default with
      | none => exact h.elim
      | some e =>
        rw [bindSlot]
        constructor
        · intro hrun
          obtain ⟨v, m, heval, hrun⟩ := ok_of_run_bind hrun
          obtain ⟨hvalue, rfl⟩ := Prod.mk.inj heval
          obtain ⟨rfl, rfl⟩ := (define_return_run n v [v]).1 hrun
          exact ⟨⟨v, hvalue, rfl⟩, rfl⟩
        · rintro ⟨⟨v, heval, rfl⟩, rfl⟩
          have hrun : (Scoped.eval a.size e).run ⟨a.inside closure log, problems, depth⟩ =
              (.ok v, ⟨a.inside closure log, problems, depth⟩) := Prod.ext heval rfl
          rw [run_bind_ok hrun]
          exact (define_return_run n v [v]).2 ⟨rfl, rfl⟩

/-- All parameters, if they pass the check: they are bound one after the other. -/
theorem bindSlots_run {slots : List Slot} (h : ∀ slot ∈ slots, slot.Passes ⟨a, closure, none⟩) :
    (bindSlots a.size rest slots).run ⟨a.inside closure log, problems, depth⟩ = (.ok values, q) ↔
      ∃ taken, taken.map Prod.fst = slots ∧ AllStand a closure rest log taken ∧
        values = taken.flatMap Prod.snd ∧
        q = ⟨a.inside closure (log ++ takenLog taken), problems, depth⟩ := by
  induction slots generalizing log values q with
  | nil =>
    constructor
    · rintro ⟨⟩
      exact ⟨[], rfl, allStand_nil, rfl, by simp [takenLog]⟩
    · rintro ⟨taken, htaken, _, rfl, rfl⟩
      obtain rfl := List.map_eq_nil_iff.1 htaken
      simp [bindSlots, takenLog]
  | cons slot slots ih =>
    obtain ⟨hslot, hslots⟩ := List.forall_mem_cons.1 h
    rw [bindSlots]
    constructor
    · intro hrun
      obtain ⟨first, m, hfirst, hrun⟩ := ok_of_run_bind hrun
      obtain ⟨hstands, rfl⟩ := (bindSlot_run hslot).1 hfirst
      obtain ⟨others, m, hothers, hrun⟩ := ok_of_run_bind hrun
      obtain ⟨taken, rfl, hall, rfl, rfl⟩ := (ih hslots).1 hothers
      cases hrun
      refine ⟨(slot, first) :: taken, rfl, allStand_cons.2 ⟨hstands, hall⟩, rfl, ?_⟩
      simp [takenLog]
    · rintro ⟨taken, htaken, hall, rfl, rfl⟩
      obtain ⟨t, others, rfl, rfl, hothers⟩ := List.map_eq_cons_iff.1 htaken
      obtain ⟨hstands, hall⟩ := allStand_cons.1 hall
      rw [run_bind_ok ((bindSlot_run hslot).2 ⟨hstands, rfl⟩),
        run_bind_ok ((ih hslots).2 ⟨others, hothers, hall, rfl, rfl⟩)]
      simp [takenLog]

end

/-! ## The whole -/

section
variable {m : Mixin} {a : Arena} {closure : ScopeId} {args args' : List Actual}
  {taken : List (Slot × List Value)}

/-- The parameters of a call that fits pass the check. -/
theorem Mixin.Fits.passes (h : m.Fits a closure args taken) :
    ∀ slot ∈ m.slots args, slot.Passes ⟨a, closure, none⟩ := by
  intro slot hslot
  rw [← h.slots] at hslot
  obtain ⟨t, ht, rfl⟩ := List.mem_map.1 hslot
  obtain ⟨before, after, rfl⟩ := List.append_of_mem ht
  exact (h.stands before t.1 t.2 after rfl).passes

/-- No two arguments of one name: the value of a name is that of the argument with it. -/
theorem valueNamed_eq_some_iff {name : String} {v : Value} (h : (argumentNames args).Nodup) :
    valueNamed args name = some v ↔ ⟨some name, v⟩ ∈ args := by
  induction args with
  | nil => simp [valueNamed]
  | cons arg args ih =>
    obtain ⟨key, w⟩ := arg
    cases key with
    | none =>
      rw [List.mem_cons, ← ih h]
      simp [valueNamed]
    | some key =>
      obtain ⟨hkey, hargs⟩ := List.nodup_cons.1 h
      have hnone : valueNamed args key = none :=
        Option.not_isSome_iff_eq_none.1 (mt isSome_valueNamed.1 hkey)
      rw [List.mem_cons, ← ih hargs, valueNamed_cons_some]
      by_cases heq : key = name
      · subst heq
        simp [hnone, eq_comm]
      · simp [heq, Ne.symm heq]

/-- Named arguments may stand anywhere. -/
theorem Mixin.Fits.perm (h : m.Fits a closure args taken) (hperm : args.Perm args')
    (hpositional : positional args' = positional args) : m.Fits a closure args' taken := by
  have hnames : (argumentNames args).Perm (argumentNames args') := hperm.filterMap _
  have hvalues : ∀ n, valueNamed args' n = valueNamed args n := by
    intro n
    refine Option.ext fun v => ?_
    rw [valueNamed_eq_some_iff h.distinct, valueNamed_eq_some_iff (hnames.nodup_iff.1 h.distinct),
      hperm.mem_iff]
  have hslots : namedSlots args' [] m.params = namedSlots args [] m.params :=
    namedSlots_congr hvalues
  refine ⟨fun n hn => h.known n (hnames.mem_iff.2 hn), hnames.nodup_iff.1 h.distinct, ?_, ?_, ?_⟩
  · rw [hpositional, hslots]
    exact h.usedUp
  · rw [h.slots, Mixin.slots, Mixin.slots, hpositional, hslots]
  · rw [Mixin.restValues, hpositional, hslots]
    exact h.stands

/-- What binding does once the arguments have places: it checks the parameters where the definition
stands, and makes the new scope if there is no fault. -/
theorem Mixin.bind_run_of_place {call : String} {placement : Placement}
    (hplace : m.place call args = .ok placement) (p : Progress) :
    (m.bind closure call args).run p =
      (match checkSlots (m.arityMismatch call args.length) ⟨p.arena, closure, none⟩
          placement.slots with
        | .error e => .done (.error e)
        | .ok (some fault) => .done (.ok fault)
        | .ok none => placement.bind closure : Scoped Binding).run p := by
  rw [Mixin.bind, hplace]
  dsimp only
  rw [bind_eq, run_andThen]
  cases hcheck : checkSlots (m.arityMismatch call args.length) ⟨p.arena, closure, none⟩
      placement.slots with
  | error e => simp [Scoped.observe, hcheck, orFail]
  | ok fault => cases fault <;> simp [Scoped.observe, hcheck, orFail]

/-- Where the arguments have places and the parameters pass the check, what remains is the new
scope. -/
theorem Mixin.bind_run_of_checked {call : String} {p : Progress} {placement : Placement}
    (hplace : m.place call args = .ok placement)
    (hcheck : checkSlots (m.arityMismatch call args.length) ⟨p.arena, closure, none⟩
      placement.slots = .ok none) :
    (m.bind closure call args).run p =
      (do
        let values ← bindSlots p.arena.size placement.rest placement.slots
        Scoped.define p.arena.size "arguments" (.list .space values)
        return Binding.bound p.arena.size : Scoped Binding).run
        { p with arena := p.arena.inside closure [] } := by
  rw [Mixin.bind_run_of_place hplace, hcheck]
  rfl

/-- Binding succeeds exactly if the call fits. -/
theorem Mixin.bind_run_iff {call : String} {p q : Progress} {s : ScopeId} :
    (m.bind closure call args).run p = (.ok (.bound s), q) ↔
      ∃ taken, m.Fits p.arena closure args taken ∧ s = p.arena.size ∧
        q = { p with
          arena := p.arena.inside closure (takenLog taken ++ [argumentsEntry taken]) } := by
  constructor
  · intro h
    obtain ⟨placement, hplace, hcheck⟩ := Mixin.checked_of_bind h
    obtain ⟨hknown, hdistinct, husedUp, rfl⟩ := Mixin.place_iff.1 hplace
    rw [Mixin.bind_run_of_checked hplace hcheck] at h
    obtain ⟨values, r, hvalues, h⟩ := ok_of_run_bind h
    obtain ⟨taken, hslots, hall, rfl, rfl⟩ :=
      (bindSlots_run (checkSlots_eq_none_iff.1 hcheck)).1 hvalues
    rw [List.nil_append, run_bind_ok (define_run _ _)] at h
    cases h
    exact ⟨taken, ⟨hknown, hdistinct, husedUp, hslots, hall⟩, rfl, rfl⟩
  · rintro ⟨taken, hfits, rfl, rfl⟩
    have hplace : m.place call args = .ok ⟨m.slots args, m.restValues args, []⟩ :=
      Mixin.place_iff.2 ⟨hfits.known, hfits.distinct, hfits.usedUp, rfl⟩
    have hcheck : checkSlots (m.arityMismatch call args.length) ⟨p.arena, closure, none⟩
        (m.slots args) = .ok none := checkSlots_eq_none_iff.2 hfits.passes
    rw [Mixin.bind_run_of_checked hplace hcheck, run_bind_ok
      ((bindSlots_run hfits.passes).2 ⟨taken, hfits.slots, hfits.stands, rfl, rfl⟩),
      List.nil_append, run_bind_ok (define_run _ _)]
    rfl

/-- Binding the arguments of a call to the parameters of a mixin, whatever the parameters, the
arguments and the scopes are. It succeeds exactly if the call fits: the named arguments name
variables and no two the same, the positional ones are used up, every pattern equals its argument
and every variable has an argument or a default with a value. The new scope is then inside the
definition's scope, and its log has the parameters in order and `arguments` after them. Neither the
name of the call nor the places of the named arguments have a part in it. -/
theorem Mixin.bind_iff_fits (m : Mixin) (closure : ScopeId) (call : String) (args : List Actual)
    (p q : Progress) (s : ScopeId) :
    ((m.bind closure call args).run p = (.ok (.bound s), q) ↔
      ∃ taken, m.Fits p.arena closure args taken ∧ s = p.arena.size ∧
        q = { p with
          arena := p.arena.inside closure (takenLog taken ++ [argumentsEntry taken]) }) ∧
    ∀ (call' : String) (args' : List Actual),
      args.Perm args' → positional args' = positional args →
      ((m.bind closure call' args').run p = (.ok (.bound s), q) ↔
        (m.bind closure call args).run p = (.ok (.bound s), q)) := by
  refine ⟨Mixin.bind_run_iff, fun call' args' hperm hpositional => ?_⟩
  rw [Mixin.bind_run_iff, Mixin.bind_run_iff]
  constructor
  · rintro ⟨taken, hfits, h⟩
    exact ⟨taken, hfits.perm hperm.symm hpositional.symm, h⟩
  · rintro ⟨taken, hfits, h⟩
    exact ⟨taken, hfits.perm hperm hpositional, h⟩

end

/-- A pattern, a rest parameter in the middle, a variable given by name behind it, and a default
that uses it. The named argument may come first or last. -/
theorem Mixin.bind_iff_fits_rest :
    let m : Mixin := ⟨".m", [.pattern (.keyword "dark"), .rest (some "r"), .named "a" none,
      .named "b" (some (.ref "a"))], none, []⟩
    let a : Actual := ⟨some "a", .keyword "y"⟩
    let dark : Actual := ⟨none, .keyword "dark"⟩
    let x : Actual := ⟨none, .keyword "x"⟩
    let log : List Entry := [.binding "r" (.list .space [.keyword "x"]),
      .binding "a" (.keyword "y"), .binding "b" (.keyword "y"),
      .binding "arguments" (.list .space
        [.keyword "dark", .keyword "x", .keyword "y", .keyword "y"])]
    let q : Progress := ⟨Arena.empty.inside Arena.root log, [], 0⟩
    (m.bind Arena.root ".m" [a, dark, x]).run Progress.start = (.ok (.bound 1), q) ∧
      (m.bind Arena.root ".n" [dark, x, a]).run Progress.start = (.ok (.bound 1), q) ∧
      ∃ taken, m.Fits Arena.empty Arena.root [a, dark, x] taken := by
  intro m a dark x log q
  have h : (m.bind Arena.root ".m" [a, dark, x]).run Progress.start = (.ok (.bound 1), q) := by
    rfl
  obtain ⟨hiff, hplaces⟩ :=
    Mixin.bind_iff_fits m Arena.root ".m" [a, dark, x] Progress.start q 1
  obtain ⟨taken, hfits, -⟩ := hiff.1 h
  refine ⟨h, (hplaces ".n" [dark, x, a] ?_ rfl).2 h, taken, hfits⟩
  exact (List.perm_append_singleton a [dark, x]).symm

end LessSheet
