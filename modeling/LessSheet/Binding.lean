import LessSheet.Guard
import LessSheet.Script

/-! # Binding arguments to parameters

The arguments of a call arrive evaluated. Named ones go to the parameter of their name, the others
from left to right to the parameters that are still empty; a rest parameter takes all that remain
when it is reached. If every parameter that needs a value has one and the patterns match, a new
scope inside the definition's scope binds the parameters, and `arguments` to all their values.
Defaults are evaluated in that scope as it grows, so they see earlier parameters and what surrounds
the definition, and nothing of the caller.
-/

namespace LessSheet

/-- Evaluates an expression in a scope, outside guards. -/
def Scoped.eval (scope : ScopeId) (e : Expr) : Scoped Value :=
  Scoped.observe [scope] fun a => e.eval ⟨a, scope, none⟩

/-- An evaluated argument of a call. -/
structure Actual where
  name : Option String
  value : Value

/-- A parameter and the value it has received. -/
structure Slot where
  param : Param
  value : Option Value

/-- What comes of binding: a scope with the parameters, a pattern that does not match, or a call
that does not fit the definition. -/
inductive Binding where
  | bound (scope : ScopeId)
  | patternMismatch
  | rejected (problem : Problem)

/-- A call with the wrong number of arguments. With too many, the number of parameters is what was
expected, otherwise the number of required ones. -/
def Mixin.arityMismatch (m : Mixin) (call : String) (actual : Nat) : Problem :=
  let expected := if m.positionalCount < actual then m.positionalCount else m.requiredCount
  .arityMismatch call expected actual

/-- Whether a parameter is the variable of this name. -/
def Param.isNamed (name : String) : Param → Bool
  | .named n _ => n == name
  | _ => false

/-- Why a named argument has no place. -/
inductive NamedFault where
  | unknown
  | taken
deriving DecidableEq, Repr, Inhabited

/-- Gives a value to the first variable of a name. -/
def placeNamed (name : String) (value : Value) : List Slot → Except NamedFault (List Slot)
  | [] => .error .unknown
  | slot :: rest =>
    if slot.param.isNamed name then
      if slot.value.isSome then .error .taken else .ok ({ slot with value := some value } :: rest)
    else do return slot :: (← placeNamed name value rest)

/-- Places the named arguments, in order. -/
def placeAllNamed (reject : NamedFault → String → Problem) :
    List Actual → List Slot → Except Problem (List Slot)
  | [], slots => .ok slots
  | ⟨none, _⟩ :: rest, slots => placeAllNamed reject rest slots
  | ⟨some name, value⟩ :: rest, slots =>
    match placeNamed name value slots with
    | .ok slots => placeAllNamed reject rest slots
    | .error fault => .error (reject fault name)

/-- What placing positional arguments gives: the slots, what a rest parameter took, and what found
no place. -/
structure Placement where
  slots : List Slot
  rest : List Value
  surplus : List Value

/-- Places positional arguments from left to right. -/
def placePositional : List Slot → List Value → Placement
  | [], values => ⟨[], [], values⟩
  | slot :: slots, values =>
    if slot.param.isRest then
      let p := placePositional slots []
      ⟨slot :: p.slots, values ++ p.rest, p.surplus⟩
    else match slot.value, values with
      | none, v :: values =>
        let p := placePositional slots values
        ⟨{ slot with value := some v } :: p.slots, p.rest, p.surplus⟩
      | _, values =>
        let p := placePositional slots values
        ⟨slot :: p.slots, p.rest, p.surplus⟩

/-- Places all arguments of a call, or says why they do not fit. -/
def Mixin.place (m : Mixin) (call : String) (args : List Actual) : Except Problem Placement := do
  let reject : NamedFault → String → Problem
    | .unknown, name => .unknownArgument call name
    | .taken, _ => m.arityMismatch call args.length
  let slots ← placeAllNamed reject args (m.params.map fun p => ⟨p, none⟩)
  let positional := args.filterMap fun a => if a.name.isNone then some a.value else none
  let placement := placePositional slots positional
  if placement.surplus.isEmpty then return placement
  else .error (m.arityMismatch call args.length)

/-- Checks the parameters in order: each that needs a value has one, and each pattern equals its
value. The answer is the first fault, if any. -/
def checkSlots (arity : Problem) (view : View) : List Slot → Except EvalError (Option Binding)
  | [] => .ok none
  | ⟨.pattern e, some value⟩ :: rest => do
    let expected ← e.eval view
    if expected.compare value == some .eq then checkSlots arity view rest
    else return some .patternMismatch
  | ⟨.pattern _, none⟩ :: _ => .ok (some (.rejected arity))
  | ⟨.named _ none, none⟩ :: _ => .ok (some (.rejected arity))
  | _ :: rest => checkSlots arity view rest

/-- Binds one parameter in the new scope, and answers the values it stands for. -/
def bindSlot (scope : ScopeId) (rest : List Value) : Slot → Scoped (List Value)
  | ⟨.named name _, some value⟩ => do
    Scoped.define scope name value
    return [value]
  | ⟨.named name (some default), none⟩ => do
    let value ← Scoped.eval scope default
    Scoped.define scope name value
    return [value]
  | ⟨.named _ none, none⟩ => return []
  | ⟨.pattern _, value⟩ => return value.toList
  | ⟨.rest (some name), _⟩ => do
    Scoped.define scope name (.list .space rest)
    return rest
  | ⟨.rest none, _⟩ => return rest

/-- Binds the parameters in order, and answers the values of all of them. -/
def bindSlots (scope : ScopeId) (rest : List Value) : List Slot → Scoped (List Value)
  | [] => return []
  | slot :: slots => do
    let values ← bindSlot scope rest slot
    return values ++ (← bindSlots scope rest slots)

/-- A new scope inside `closure` with the parameters of a call that fits. -/
def Placement.bind (closure : ScopeId) (placement : Placement) : Scoped Binding := do
  let scope ← Scoped.create (.child closure)
  let values ← bindSlots scope placement.rest placement.slots
  Scoped.define scope "arguments" (.list .space values)
  return .bound scope

/-- Binds the arguments of a call to the parameters of a mixin defined in `closure`. -/
def Mixin.bind (m : Mixin) (closure : ScopeId) (call : String) (args : List Actual) :
    Scoped Binding :=
  match m.place call args with
  | .error problem => return .rejected problem
  | .ok placement => do
    let arity := m.arityMismatch call args.length
    match ← Scoped.observe [closure] fun a =>
        checkSlots arity ⟨a, closure, none⟩ placement.slots with
    | some fault => return fault
    | none => placement.bind closure

end LessSheet
