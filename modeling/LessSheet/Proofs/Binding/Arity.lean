import LessSheet.Binding
import LessSheet.Proofs.Scope.Mention
import LessSheet.Proofs.Script.Steps

/-! # Arity

Calls are matched with definitions twice. A look-up asks by counting alone whether a definition
takes so many arguments (`Mixin.acceptsArity`), and binding then gives each argument its place. What
binding accepts the look-up has let through (`Mixin.acceptsArity_of_bind`).

The argument is that no argument is lost and none is counted twice. `filled` counts the parameters
that have received an argument of their own. Every named argument fills one more
(`placeNamed_fills`), and every positional one fills one more, goes to a rest parameter or is left
over (`placePositional_fills`). So when nothing is left over, the parameters that are filled and the
values of rest parameters are as many as the arguments (`Mixin.place_count`).
-/

namespace LessSheet

open Script

/-! ## Counting arguments by their places -/

/-- The number of parameters, other than rest parameters, that have received a value. -/
def filled (slots : List Slot) : Nat :=
  slots.countP fun slot => !slot.param.isRest && slot.value.isSome

/-- The slots `after` are those of `before` with `n` more of them filled. -/
structure Fills (n : Nat) (before after : List Slot) : Prop where
  params : after.map Slot.param = before.map Slot.param
  count : filled after = filled before + n

section
variable {n k : Nat} {slots slots' slots'' : List Slot} {slot : Slot}

/-- The first slot counts if it has a value and is no rest parameter. -/
theorem filled_cons (slot : Slot) (slots : List Slot) :
    filled (slot :: slots) =
      filled slots + if !slot.param.isRest && slot.value.isSome then 1 else 0 :=
  List.countP_cons

/-- No slot is filled by doing nothing. -/
theorem Fills.refl (slots : List Slot) : Fills 0 slots slots := ⟨rfl, rfl⟩

/-- The numbers of slots filled one time and the next add up. -/
theorem Fills.trans (h : Fills n slots slots') (h' : Fills k slots' slots'') :
    Fills (n + k) slots slots'' :=
  ⟨h'.params.trans h.params, by rw [h'.count, h.count, Nat.add_assoc]⟩

/-- A slot in front that stays as it is. -/
theorem Fills.cons (h : Fills n slots slots') (slot : Slot) :
    Fills n (slot :: slots) (slot :: slots') := by
  refine ⟨congrArg (slot.param :: ·) h.params, ?_⟩
  rw [filled_cons, filled_cons, h.count]
  omega

/-- A slot in front that receives a value. -/
theorem Fills.fill (h : Fills n slots slots') (hrest : slot.param.isRest = false)
    (hnone : slot.value = none) (v : Value) :
    Fills (n + 1) (slot :: slots) ({ slot with value := some v } :: slots') := by
  refine ⟨congrArg (slot.param :: ·) h.params, ?_⟩
  simp only [filled_cons, h.count, hrest, hnone, Option.isSome_some, Option.isSome_none]
  simp only [Bool.not_false, Bool.and_self, Bool.and_false, Bool.false_eq_true, ↓reduceIte]
  omega

end

/-- A rest parameter has no name for an argument. -/
theorem Param.isRest_of_isNamed {name : String} {p : Param} (h : p.isNamed name) :
    p.isRest = false := by
  cases p with
  | named n default => rfl
  | rest n => cases h
  | pattern e => cases h

/-- A rest parameter needs no argument. -/
theorem Param.isRest_of_isRequired {p : Param} (h : p.isRequired) : p.isRest = false := by
  cases p with
  | named n default => rfl
  | rest n => cases h
  | pattern e => rfl

/-- A named argument that has a place fills one slot. -/
theorem placeNamed_fills {name : String} {value : Value} {slots slots' : List Slot}
    (h : placeNamed name value slots = .ok slots') : Fills 1 slots slots' := by
  induction slots generalizing slots' with
  | nil => cases h
  | cons slot rest ih =>
    rw [placeNamed] at h
    split at h
    · next hnamed =>
      split at h
      · cases h
      · next hempty =>
        cases h
        exact (Fills.refl rest).fill (Param.isRest_of_isNamed hnamed)
          (Option.not_isSome_iff_eq_none.1 hempty) value
    · obtain ⟨rest', hrest, h⟩ := ok_of_bind h
      cases h
      exact (ih hrest).cons slot

/-- The named arguments that have places fill one slot each. -/
theorem placeAllNamed_fills {reject : NamedFault → String → Problem} {args : List Actual}
    {slots slots' : List Slot} (h : placeAllNamed reject args slots = .ok slots') :
    Fills (args.countP fun a => a.name.isSome) slots slots' := by
  induction args generalizing slots with
  | nil =>
    cases h
    exact .refl slots'
  | cons arg rest ih =>
    obtain ⟨name, value⟩ := arg
    cases name with
    | none => exact ih h
    | some name =>
      rw [placeAllNamed] at h
      split at h
      · next placed hplaced =>
        rw [List.countP_cons_of_pos rfl, Nat.add_comm]
        exact (placeNamed_fills hplaced).trans (ih h)
      · cases h

/-! ## Positional arguments -/

section
variable {slot : Slot} {slots : List Slot} {values : List Value}

/-- A rest parameter takes all that remain. -/
theorem placePositional_of_rest (hrest : slot.param.isRest) :
    placePositional (slot :: slots) values =
      ⟨slot :: (placePositional slots []).slots, values ++ (placePositional slots []).rest,
        (placePositional slots []).surplus⟩ := by
  simp only [placePositional, if_pos hrest]

/-- An empty slot takes the next argument. -/
theorem placePositional_of_none (hrest : ¬ slot.param.isRest) (hnone : slot.value = none)
    (v : Value) : placePositional (slot :: slots) (v :: values) =
      ⟨{ slot with value := some v } :: (placePositional slots values).slots,
        (placePositional slots values).rest, (placePositional slots values).surplus⟩ := by
  rw [placePositional, if_neg hrest]
  exact hnone

/-- A slot that has its value, or for which no argument is left, stays as it is. -/
theorem placePositional_of_other (hrest : ¬ slot.param.isRest)
    (hother : ∀ v rest, slot.value = none → values = v :: rest → False) :
    placePositional (slot :: slots) values =
      ⟨slot :: (placePositional slots values).slots, (placePositional slots values).rest,
        (placePositional slots values).surplus⟩ := by
  rw [placePositional, if_neg hrest]
  exact hother

/-- The positional arguments fill one slot each, go to rest parameters, or are left over. -/
theorem placePositional_fills (slots : List Slot) (values : List Value) :
    ∃ n, Fills n slots (placePositional slots values).slots ∧
      n + (placePositional slots values).rest.length +
        (placePositional slots values).surplus.length = values.length := by
  induction slots, values using placePositional.induct with
  | case1 values => exact ⟨0, .refl [], Nat.zero_add _⟩
  | case2 slot slots values hrest ih =>
    obtain ⟨n, hfills, hcount⟩ := ih
    rw [placePositional_of_rest hrest]
    refine ⟨n, hfills.cons slot, ?_⟩
    simp only [List.length_append, List.length_nil] at hcount ⊢
    omega
  | case3 slot slots hrest v values hnone ih =>
    obtain ⟨n, hfills, hcount⟩ := ih
    rw [placePositional_of_none hrest hnone]
    refine ⟨n + 1, hfills.fill (Bool.not_eq_true _ ▸ hrest) hnone v, ?_⟩
    simp only [List.length_cons]
    omega
  | case4 slot slots hrest values hother ih =>
    obtain ⟨n, hfills, hcount⟩ := ih
    rw [placePositional_of_other hrest hother]
    exact ⟨n, hfills.cons slot, hcount⟩

/-- Without a rest parameter nothing goes to one. -/
theorem placePositional_rest (h : slots.any (fun slot => slot.param.isRest) = false) :
    (placePositional slots values).rest = [] := by
  induction slots, values using placePositional.induct with
  | case1 values => rfl
  | case2 slot slots values hrest ih =>
    rw [List.any_cons, hrest] at h
    cases h
  | case3 slot slots hrest v values hnone ih =>
    rw [placePositional_of_none hrest hnone]
    exact ih (Bool.or_eq_false_iff.1 h).2
  | case4 slot slots hrest values hother ih =>
    rw [placePositional_of_other hrest hother]
    exact ih (Bool.or_eq_false_iff.1 h).2

end

/-! ## All arguments -/

/-- Each argument is named or positional. -/
theorem countP_name_add (args : List Actual) :
    args.countP (fun a => a.name.isSome) +
      (args.filterMap fun a => if a.name.isNone then some a.value else none).length =
        args.length := by
  induction args with
  | nil => rfl
  | cons arg rest ih =>
    obtain ⟨name, value⟩ := arg
    cases name with
    | none =>
      rw [List.countP_cons_of_neg Bool.false_ne_true, List.length_cons, ← ih]
      rfl
    | some name =>
      rw [List.countP_cons_of_pos rfl, List.filterMap_cons_none rfl, List.length_cons, ← ih]
      omega

/-- Before any argument has a place, no parameter is filled. -/
theorem filled_empty (params : List Param) :
    filled (params.map fun p => (⟨p, none⟩ : Slot)) = 0 := by
  rw [filled, List.countP_map, List.countP_eq_zero]
  intro p _
  simp

/-- Arguments that fit are as many as the parameters they fill and the values that rest parameters
take. -/
theorem Mixin.place_count {m : Mixin} {call : String} {args : List Actual} {placement : Placement}
    (h : m.place call args = .ok placement) :
    placement.slots.map Slot.param = m.params ∧
      filled placement.slots + placement.rest.length = args.length ∧
      (m.hasRest = false → placement.rest = []) := by
  obtain ⟨slots, hslots, h⟩ := ok_of_bind h
  dsimp only at h
  split at h
  · next hsurplus =>
    cases h
    have hnamed := placeAllNamed_fills hslots
    obtain ⟨n, hfills, hcount⟩ := placePositional_fills slots
      (args.filterMap fun a => if a.name.isNone then some a.value else none)
    have hall := countP_name_add args
    have hparams : slots.map Slot.param = m.params := by
      rw [hnamed.params, List.map_map]
      exact List.map_id m.params
    have hfilled := hfills.count
    rw [hnamed.count, filled_empty] at hfilled
    rw [List.isEmpty_iff.1 hsurplus, List.length_nil] at hcount
    refine ⟨hfills.params.trans hparams, by omega, fun hrest => placePositional_rest ?_⟩
    rw [← hrest, Mixin.hasRest, ← hparams, List.any_map]
    rfl
  · cases h

/-! ## Binding -/

/-- Parameters that pass the check have a value if they need one. -/
theorem checkSlots_eq_none {arity : Problem} {view : View} {slots : List Slot}
    (h : checkSlots arity view slots = .ok none) :
    ∀ slot ∈ slots, slot.param.isRequired → slot.value.isSome := by
  fun_induction checkSlots arity view slots with
  | case1 => exact List.forall_mem_nil _
  | case2 e value rest ih =>
    obtain ⟨expected, _, h⟩ := ok_of_bind h
    split at h
    · exact List.forall_mem_cons.2 ⟨fun _ => rfl, ih h⟩
    · cases h
  | case3 => cases h
  | case4 => cases h
  | case5 slot rest _ hpattern hnamed ih =>
    refine List.forall_mem_cons.2 ⟨fun hrequired => ?_, ih h⟩
    obtain ⟨param, value⟩ := slot
    cases value with
    | some v => rfl
    | none =>
      cases param with
      | pattern e => exact (hpattern e rfl).elim
      | rest name => cases hrequired
      | named name default =>
        cases default with
        | none => exact (hnamed name rfl).elim
        | some e => cases hrequired

/-- The check never answers that binding has been done. -/
theorem checkSlots_ne_bound {arity : Problem} {view : View} {slots : List Slot} {scope : ScopeId} :
    checkSlots arity view slots ≠ .ok (some (.bound scope)) := by
  intro h
  fun_induction checkSlots arity view slots with
  | case1 => cases h
  | case2 e value rest ih =>
    obtain ⟨expected, _, h⟩ := ok_of_bind h
    split at h
    · exact ih h
    · cases h
  | case3 => cases h
  | case4 => cases h
  | case5 slot rest _ _ _ ih => exact ih h

/-- What is bound has passed the check. -/
theorem Mixin.checked_of_bind {m : Mixin} {closure scope : ScopeId} {call : String}
    {args : List Actual} {p q : Progress}
    (h : (m.bind closure call args).run p = (.ok (.bound scope), q)) :
    ∃ placement, m.place call args = .ok placement ∧
      checkSlots (m.arityMismatch call args.length) ⟨p.arena, closure, none⟩ placement.slots =
        .ok none := by
  unfold Mixin.bind at h
  split at h
  · cases h
  · next placement hplace =>
    obtain ⟨fault, r, hcheck, h⟩ := ok_of_run_bind h
    cases fault with
    | some fault =>
      cases h
      exact absurd (congrArg Prod.fst hcheck) checkSlots_ne_bound
    | none => exact ⟨placement, hplace, congrArg Prod.fst hcheck⟩

/-- Whatever the parameters of a mixin and the arguments of a call, and whatever scopes there are:
if the arguments are bound, the mixin accepts their number. -/
theorem Mixin.acceptsArity_of_bind (m : Mixin) (closure : ScopeId) (call : String)
    (args : List Actual) (p q : Progress) (scope : ScopeId)
    (h : (m.bind closure call args).run p = (.ok (.bound scope), q)) :
    m.acceptsArity args.length = true := by
  obtain ⟨placement, hplace, hcheck⟩ := Mixin.checked_of_bind h
  obtain ⟨hparams, hcount, hrest⟩ := Mixin.place_count hplace
  have hrequired : m.requiredCount ≤ filled placement.slots := by
    rw [Mixin.requiredCount, ← hparams, List.countP_map]
    refine List.countP_mono_left fun slot hslot hneeds => ?_
    have hnotRest : slot.param.isRest = false := Param.isRest_of_isRequired hneeds
    rw [hnotRest, checkSlots_eq_none hcheck slot hslot hneeds]
    rfl
  have hpositional : filled placement.slots ≤ m.positionalCount := by
    rw [Mixin.positionalCount, ← hparams, List.countP_map]
    refine List.countP_mono_left fun slot _ hfilled => ?_
    exact (Bool.and_eq_true_iff.1 hfilled).1
  rw [Mixin.acceptsArity, Bool.and_eq_true_iff, Bool.or_eq_true_iff, decide_eq_true_iff,
    decide_eq_true_iff]
  refine ⟨by omega, ?_⟩
  cases hhas : m.hasRest with
  | true => exact .inl rfl
  | false =>
    rw [hrest hhas, List.length_nil] at hcount
    exact .inr (by omega)

/-- A pattern, a parameter that needs an argument and one that does not, called with the second by
name and the first by position. Two arguments are accepted, and four would not be. -/
theorem Mixin.acceptsArity_of_bind_named :
    let m : Mixin := ⟨".m",
      [.pattern (.keyword "dark"), .named "a" none, .named "b" (some (.keyword "x"))], none, []⟩
    let args : List Actual := [⟨some "a", .keyword "y"⟩, ⟨none, .keyword "dark"⟩]
    (∃ q, (m.bind Arena.root ".m" args).run Progress.start = (.ok (.bound 1), q)) ∧
      m.acceptsArity args.length = true ∧ m.acceptsArity 4 = false := by
  intro m args
  have h : (m.bind Arena.root ".m" args).run Progress.start = (.ok (.bound 1), _) := rfl
  exact ⟨⟨_, h⟩, Mixin.acceptsArity_of_bind m Arena.root ".m" args _ _ _ h, by decide⟩

end LessSheet
