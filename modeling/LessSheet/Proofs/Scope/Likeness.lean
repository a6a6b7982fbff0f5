import LessSheet.Candidate
import LessSheet.Proofs.Scope.Growth
import LessSheet.Proofs.Syntax.Likeness

/-! # Arenas that are alike

Values are alike if they are the same but for the bodies of rulesets, which are alike, and so on
through registrations and logs to whole arenas (`Arena.Alike`). Scope numbers and origins are the
same in both: the two arenas come of the same operations.

What is read in arenas that are alike is alike (`Arena.Alike.lookup`, `Arena.Alike.lookupMixins`),
and every operation leaves arenas that are (`Creation.apply_alike`, `Change.apply_alike`).
-/

namespace LessSheet

open List (Forall₂)

/-- The texts that may stand in a stylesheet, and the texts that may come of them when their
placeholders are filled in. -/
structure Diction where
  leaf : Leaf → Prop
  filled : String → Prop

/-! ## Lists and options that are alike -/

section
variable {α β γ δ : Type} {R : α → β → Prop} {S : γ → δ → Prop}

/-- Options that are related have something together. -/
theorem isSome_of_rel {x : Option α} {y : Option β} (h : Option.Rel R x y) :
    y.isSome = x.isSome := by
  cases h <;> rfl

/-- Lists that may be missing are related with none in their place. -/
theorem getD_of_rel {x : Option (List α)} {y : Option (List β)} (h : Option.Rel (Forall₂ R) x y) :
    Forall₂ R (x.getD []) (y.getD []) := by
  cases h with
  | none => exact .nil
  | some h => exact h

/-- A test that cannot tell two lists apart counts the same in both. -/
theorem countP_of_forall₂ {f : α → Bool} {g : β → Bool} (hfg : ∀ x y, R x y → g y = f x)
    {xs : List α} {ys : List β} (h : Forall₂ R xs ys) : ys.countP g = xs.countP f := by
  induction h with
  | nil => rfl
  | cons hxy _ ih => rw [List.countP_cons, List.countP_cons, ih, hfg _ _ hxy]

/-- A test that cannot tell two lists apart is met in both or in none. -/
theorem any_of_forall₂ {f : α → Bool} {g : β → Bool} (hfg : ∀ x y, R x y → g y = f x)
    {xs : List α} {ys : List β} (h : Forall₂ R xs ys) : ys.any g = xs.any f := by
  induction h with
  | nil => rfl
  | cons hxy _ ih => rw [List.any_cons, List.any_cons, ih, hfg _ _ hxy]

/-- What such a test leaves is related one by one. -/
theorem filter_of_forall₂ {f : α → Bool} {g : β → Bool} (hfg : ∀ x y, R x y → g y = f x)
    {xs : List α} {ys : List β} (h : Forall₂ R xs ys) : Forall₂ R (xs.filter f) (ys.filter g) :=
  List.rel_filter (fun x y hxy => by simp only [hfg x y hxy]) h

/-- Searches with answers that are related find such, at the same place. -/
theorem findSome?_of_forall₂ {f : α → Option γ} {g : β → Option δ}
    (hfg : ∀ x y, R x y → Option.Rel S (f x) (g y)) {xs : List α} {ys : List β}
    (h : Forall₂ R xs ys) : Option.Rel S (xs.findSome? f) (ys.findSome? g) := by
  induction h with
  | nil => exact .none
  | @cons x y _ _ hxy _ ih =>
    rw [List.findSome?_cons, List.findSome?_cons]
    have hanswer := hfg x y hxy
    cases hf : f x <;> cases hg : g y <;> rw [hf, hg] at hanswer
    · exact ih
    · cases hanswer
    · cases hanswer
    · exact hanswer

end

/-! ## Definitions -/

section
variable {L : Leaf → Prop}

/-- Parameters that are alike take arguments alike. -/
theorem Param.Alike.kind {p q : Param} (h : Param.Alike L p q) :
    q.isRest = p.isRest ∧ q.isRequired = p.isRequired ∧
      ∀ name, q.isNamed name = p.isNamed name := by
  cases h <;> exact ⟨rfl, rfl, fun _ => rfl⟩

/-- Parameters that are alike are so one by one. -/
theorem Param.ListAlike.forall₂ : ∀ {ps qs : List Param}, Param.ListAlike L ps qs →
    Forall₂ (Param.Alike L) ps qs
  | _, _, .nil => .nil
  | _, _, .cons h hs => .cons h hs.forall₂

section
variable {m n : Mixin}

/-- Mixins that are alike have the same name. -/
theorem Mixin.Alike.name (h : Mixin.Alike L m n) : n.name = m.name := by
  cases h
  rfl

/-- Mixins that are alike have parameters that are. -/
theorem Mixin.Alike.params (h : Mixin.Alike L m n) : Forall₂ (Param.Alike L) m.params n.params := by
  cases h with
  | mk _ hparams => exact hparams.forall₂

/-- Mixins that are alike have guards that are, or none. -/
theorem Mixin.Alike.guard (h : Mixin.Alike L m n) : Guard.Alike L m.guard n.guard := by
  cases h
  assumption

/-- Mixins that are alike have bodies that are. -/
theorem Mixin.Alike.body (h : Mixin.Alike L m n) : Body.Alike L m.body n.body := by
  cases h
  assumption

/-- Mixins that are alike take as many positional arguments. -/
theorem Mixin.Alike.positionalCount (h : Mixin.Alike L m n) :
    n.positionalCount = m.positionalCount :=
  countP_of_forall₂ (fun _ _ hpq => congrArg not hpq.kind.1) h.params

/-- Mixins that are alike require as many arguments. -/
theorem Mixin.Alike.requiredCount (h : Mixin.Alike L m n) : n.requiredCount = m.requiredCount :=
  countP_of_forall₂ (fun _ _ hpq => hpq.kind.2.1) h.params

/-- A call with a number of arguments is for both of two mixins that are alike, or for none. -/
theorem Mixin.Alike.acceptsArity (h : Mixin.Alike L m n) (arity : Nat) :
    n.acceptsArity arity = m.acceptsArity arity := by
  have hrest : n.hasRest = m.hasRest := any_of_forall₂ (fun _ _ hpq => hpq.kind.1) h.params
  rw [Mixin.acceptsArity, h.requiredCount, hrest, h.positionalCount, Mixin.acceptsArity]

/-- The problem with such a number is the same. -/
theorem Mixin.Alike.arityMismatch (h : Mixin.Alike L m n) (call : String) (actual : Nat) :
    n.arityMismatch call actual = m.arityMismatch call actual := by
  rw [Mixin.arityMismatch, h.positionalCount, h.requiredCount, Mixin.arityMismatch]

end

end

variable {D : Diction}

/-! ## Values -/

mutual

/-- Values that differ in the bodies of rulesets, which are alike. -/
inductive Value.Alike (D : Diction) : Value → Value → Prop where
  | number (value : Float) {unit : String} : D.leaf (.word unit) →
    Value.Alike D (.number ⟨value, unit⟩) (.number ⟨value, unit⟩)
  | keyword {text : String} : D.filled text → Value.Alike D (.keyword text) (.keyword text)
  | quoted {text : String} {quote : Char} : D.filled text →
    D.filled (Value.quoted text quote).text →
    Value.Alike D (.quoted text quote) (.quoted text quote)
  | list (separator : Separator) {vs ws : List Value} : Value.ListAlike D vs ws →
    Value.Alike D (.list separator vs) (.list separator ws)
  | function {name : String} {vs ws : List Value} : D.leaf (.word name) →
    Value.ListAlike D vs ws → Value.Alike D (.function name vs) (.function name ws)
  | ruleset (site : Site) (scope : ScopeId) {xs ys : List Item} : Body.Alike D.leaf xs ys →
    Value.Alike D (.ruleset site xs scope) (.ruleset site ys scope)

/-- Values that are alike one by one. -/
inductive Value.ListAlike (D : Diction) : List Value → List Value → Prop where
  | nil : Value.ListAlike D [] []
  | cons {v w : Value} {vs ws : List Value} : Value.Alike D v w → Value.ListAlike D vs ws →
    Value.ListAlike D (v :: vs) (w :: ws)

end

/-- Values that are alike one by one. -/
theorem Value.listAlike_of_forall₂ {vs ws : List Value} (h : Forall₂ (Value.Alike D) vs ws) :
    Value.ListAlike D vs ws := by
  induction h with
  | nil => exact .nil
  | cons hvw _ ih => exact .cons hvw ih

mutual

/-- Values that are alike have the same text, since the body of a ruleset is not in it. -/
theorem Value.Alike.text : ∀ {v w : Value}, Value.Alike D v w → w.text = v.text
  | _, _, .number _ _ => rfl
  | _, _, .keyword _ => rfl
  | _, _, .quoted _ _ => rfl
  | _, _, .list separator h => congrArg separator.glue.intercalate h.texts
  | _, _, .function _ h => by rw [Value.text, Value.text, h.texts]
  | _, _, .ruleset _ _ _ => rfl

/-- Values that are alike one by one have the same texts. -/
theorem Value.ListAlike.texts : ∀ {vs ws : List Value}, Value.ListAlike D vs ws →
    Value.texts ws = Value.texts vs
  | _, _, .nil => rfl
  | _, _, .cons h hs => by rw [Value.texts, Value.texts, h.text, hs.texts]

end

section
variable {v w v' w' : Value}

/-- Values that are alike put the same text into a placeholder. -/
theorem Value.Alike.content (h : Value.Alike D v w) : w.content = v.content := by
  have htext := h.text
  cases h <;> first | rfl | exact htext

/-- Values that are alike are true in a guard together. -/
theorem Value.Alike.isTrue (h : Value.Alike D v w) : w.isTrue = v.isTrue := by
  cases h <;> rfl

/-- Values that are alike compare alike: rulesets are compared by where they are written. -/
theorem Value.Alike.compare (h : Value.Alike D v w) (h' : Value.Alike D v' w') :
    w.compare w' = v.compare v' := by
  have hcontent := h.content
  have hcontent' := h'.content
  cases h <;> cases h' <;> simp only [Value.compare, hcontent, hcontent']

end

/-! ## Arenas -/

/-- Registrations of one origin with the same closure, of mixins that are alike. -/
structure Registration.Alike (D : Diction) (r q : Registration) : Prop where
  origin : q.origin = r.origin
  closure : q.closure = r.closure
  mixin : Mixin.Alike D.leaf r.mixin q.mixin

/-- Entries that bind one name to values that are alike, or register mixins that are. -/
inductive Entry.Alike (D : Diction) : Entry → Entry → Prop where
  | binding (name : String) {v w : Value} : Value.Alike D v w →
    Entry.Alike D (.binding name v) (.binding name w)
  | mixin {r q : Registration} : Registration.Alike D r q → Entry.Alike D (.mixin r) (.mixin q)

/-- Scopes with the same link, whose entries are alike one by one. -/
structure Scope.Alike (D : Diction) (x y : Scope) : Prop where
  link : y.link = x.link
  log : Forall₂ (Entry.Alike D) x.log y.log
  staged : Option.Rel (Forall₂ (Entry.Alike D)) x.staged y.staged

/-- Arenas whose scopes are alike, number by number. -/
structure Arena.Alike (D : Diction) (a b : Arena) : Prop where
  size : b.size = a.size
  scope : ∀ s, Scope.Alike D (a.scope s) (b.scope s)

/-- The arena with the root scope alone holds nothing that could differ. -/
theorem Arena.alike_empty : Arena.Alike D Arena.empty Arena.empty := by
  refine ⟨rfl, fun s => ?_⟩
  have hempty : Arena.empty.scope s = ⟨.root, [], none⟩ := by
    cases s <;> rfl
  rw [hempty]
  exact ⟨rfl, .nil, .none⟩

section
variable {a b : Arena} {s : ScopeId}

/-- Arenas that are alike have logs that are. -/
theorem Arena.Alike.log (h : Arena.Alike D a b) (s : ScopeId) :
    Forall₂ (Entry.Alike D) (a.log s) (b.log s) := (h.scope s).log

/-! ## Reading -/

/-- A walk through scopes that are alike comes to answers that are. -/
theorem Arena.Alike.visit {α β : Type} {R : α → β → Prop} (h : Arena.Alike D a b)
    {f : ScopeId → Option α} {g : ScopeId → Option β} (hfg : ∀ s, Option.Rel R (f s) (g s))
    (fuel : Nat) (stack seen : List ScopeId) :
    Option.Rel R (a.visit f fuel stack seen) (b.visit g fuel stack seen) := by
  induction fuel generalizing stack seen with
  | zero => exact .none
  | succ fuel ih =>
    cases stack with
    | nil => exact .none
    | cons s stack =>
      simp only [Arena.visit]
      split
      · exact ih stack seen
      · have hs := hfg s
        cases hf : f s with
        | some x =>
          rw [hf] at hs
          cases hg : g s with
          | some y =>
            rw [hg] at hs
            exact hs
          | none =>
            rw [hg] at hs
            cases hs
        | none =>
          rw [hf] at hs
          cases hg : g s with
          | some y =>
            rw [hg] at hs
            cases hs
          | none =>
            show Option.Rel R (a.visit f fuel _ _) (b.visit g fuel _ _)
            rw [(h.scope s).link]
            exact ih _ _

/-- Links are the same, so searches with answers that are alike find such. -/
theorem Arena.Alike.search {α β : Type} {R : α → β → Prop} (h : Arena.Alike D a b)
    {f : ScopeId → Option α} {g : ScopeId → Option β} (hfg : ∀ s, Option.Rel R (f s) (g s))
    (s : ScopeId) : Option.Rel R (a.search s f) (b.search s g) := by
  rw [Arena.search, Arena.search, h.size]
  exact h.visit hfg _ _ _

/-- In arenas that are alike the same scopes are in sight. -/
theorem Arena.Alike.reaches (h : Arena.Alike D a b) (s target : ScopeId) :
    b.reaches s target = a.reaches s target := by
  have hsame : ∀ t : ScopeId, Option.Rel Eq (if t = target then some () else none)
      (if t = target then some () else none) := by
    intro t
    split
    · exact .some rfl
    · exact .none
  exact isSome_of_rel (h.search hsame s)

/-- Entries that are alike have values that are for the same name. -/
theorem Entry.Alike.bound? {e f : Entry} (h : Entry.Alike D e f) (name : String) :
    Option.Rel (Value.Alike D) (Arena.bound? name e) (Arena.bound? name f) := by
  cases h with
  | binding n hvw =>
    rw [Arena.bound?, Arena.bound?]
    split
    · exact .some hvw
    · exact .none
  | mixin _ => exact .none

/-- Variables have values that are alike. -/
theorem Arena.Alike.lookup (h : Arena.Alike D a b) (s : ScopeId) (name : String) :
    Option.Rel (Value.Alike D) (a.lookup s name) (b.lookup s name) :=
  h.search (fun t => findSome?_of_forall₂ (fun _ _ hef => hef.bound? name)
    (List.rel_reverse (h.log t))) s

/-- Variables of one name whose values are alike. -/
def VariableAlike (D : Diction) (x y : String × Value) : Prop :=
  y.1 = x.1 ∧ Value.Alike D x.2 y.2

/-- Setting a variable to values that are alike. -/
theorem put_alike (name : String) {v w : Value} (hvw : Value.Alike D v w)
    {vs ws : List (String × Value)} (h : Forall₂ (VariableAlike D) vs ws) :
    Forall₂ (VariableAlike D) (Arena.put name v vs) (Arena.put name w ws) := by
  induction h with
  | nil => exact .cons ⟨rfl, hvw⟩ .nil
  | @cons x y _ _ hxy hrest ih =>
    obtain ⟨n, v'⟩ := x
    obtain ⟨n', w'⟩ := y
    obtain ⟨rfl, hvalue⟩ : n' = n ∧ Value.Alike D v' w' := hxy
    rw [Arena.put, Arena.put]
    split
    · exact .cons ⟨rfl, hvw⟩ hrest
    · exact .cons ⟨rfl, hvalue⟩ ih

/-- The variables of a scope are the same, with values that are alike. -/
theorem Arena.Alike.ownVariables (h : Arena.Alike D a b) (s : ScopeId) :
    Forall₂ (VariableAlike D) (a.ownVariables s) (b.ownVariables s) := by
  refine List.rel_foldl (P := Forall₂ (VariableAlike D)) (R := Entry.Alike D) ?_ .nil (h.log s)
  intro vs ws hvars e f hef
  cases hef with
  | binding name hvw => exact put_alike name hvw hvars
  | mixin _ => exact hvars

/-- Entries that are alike register mixins that are, or none. -/
theorem Entry.Alike.registration? {e f : Entry} (h : Entry.Alike D e f) :
    Option.Rel (Registration.Alike D) (Arena.registration? e) (Arena.registration? f) := by
  cases h with
  | binding _ _ => exact .none
  | mixin hr => exact .some hr

/-- The mixins of a scope's own log are alike. -/
theorem Arena.Alike.mixins (h : Arena.Alike D a b) (s : ScopeId) :
    Forall₂ (Registration.Alike D) (a.mixins s) (b.mixins s) :=
  List.rel_filterMap (fun _ _ hef => hef.registration?) (h.log s)

/-- Registrations that are alike answer the same calls. -/
theorem Registration.Alike.answers {r q : Registration} (h : Registration.Alike D r q)
    (name : String) (arity : Option Nat) :
    Arena.answers name arity q = Arena.answers name arity r := by
  have harity : q.mixin.acceptsArity = r.mixin.acceptsArity := funext h.mixin.acceptsArity
  rw [Arena.answers, h.mixin.name, harity, Arena.answers]

/-- Registrations that are alike take the same place among those found, which is decided by
origins. -/
theorem keepLatest_alike {r q : Registration} (hrq : Registration.Alike D r q)
    {rs qs : List Registration} (h : Forall₂ (Registration.Alike D) rs qs) :
    Forall₂ (Registration.Alike D) (Arena.keepLatest r rs) (Arena.keepLatest q qs) := by
  induction h with
  | nil => exact .cons hrq .nil
  | cons hxy hrest ih =>
    rw [Arena.keepLatest, Arena.keepLatest, hxy.origin, hrq.origin]
    split
    · exact .cons hrq hrest
    · exact .cons hxy ih

/-- The definitions found in a scope are alike. -/
theorem Arena.Alike.ownMixins (h : Arena.Alike D a b) (s : ScopeId) (name : String)
    (arity : Option Nat) :
    Forall₂ (Registration.Alike D) (a.ownMixins s name arity) (b.ownMixins s name arity) := by
  refine List.rel_foldl (P := Forall₂ (Registration.Alike D)) (R := Registration.Alike D)
    (fun _ _ hfound _ _ hrq => keepLatest_alike hrq hfound) .nil ?_
  exact filter_of_forall₂ (fun _ _ hrq => hrq.answers name arity) (h.mixins s)

/-- A call may be meant for definitions that are alike. -/
theorem Arena.Alike.lookupMixins (h : Arena.Alike D a b) (s : ScopeId) (name : String)
    (arity : Option Nat) :
    Forall₂ (Registration.Alike D) (a.lookupMixins s name arity) (b.lookupMixins s name arity) := by
  have hown : ∀ t, Option.Rel (Forall₂ (Registration.Alike D)) (a.ownMixins? t name arity)
      (b.ownMixins? t name arity) := by
    intro t
    have hfound := h.ownMixins t name arity
    rw [Arena.ownMixins?, Arena.ownMixins?]
    generalize a.ownMixins t name arity = rs at hfound ⊢
    generalize b.ownMixins t name arity = qs at hfound ⊢
    cases hfound with
    | nil => exact .none
    | cons hrq hrest => exact .some (.cons hrq hrest)
  exact getD_of_rel (h.search hown s)

/-! ## Operations -/

/-- A new scope has the same number, and is empty in both. -/
theorem Arena.Alike.push (h : Arena.Alike D a b) (link : Link) :
    Arena.Alike D (a.push link).2 (b.push link).2 := by
  refine ⟨?_, fun t => ?_⟩
  · rw [Arena.size_push, Arena.size_push, h.size]
  · rw [Arena.scope_push, Arena.scope_push, h.size]
    split
    · exact ⟨rfl, .nil, .none⟩
    · exact h.scope t

/-- A creation answers the same scope. -/
theorem Creation.apply_alike (c : Creation) (h : Arena.Alike D a b) :
    (c.apply b).1 = (c.apply a).1 ∧ Arena.Alike D (c.apply a).2 (c.apply b).2 := by
  cases c with
  | child parent => exact ⟨h.size, h.push (.child parent)⟩
  | detached => exact ⟨h.size, h.push .root⟩
  | join caller callee =>
    simp only [Creation.apply, Arena.join, h.reaches]
    split
    · exact ⟨rfl, h⟩
    · exact ⟨h.size, h.push (.join callee caller)⟩

/-- Changing one scope in a way that keeps it alike. -/
theorem Arena.Alike.update (h : Arena.Alike D a b) (s : ScopeId) {f g : Scope → Scope}
    (hfg : ∀ x y, Scope.Alike D x y → Scope.Alike D (f x) (g y)) :
    Arena.Alike D (a.update s f) (b.update s g) := by
  refine ⟨?_, fun t => ?_⟩
  · rw [Arena.size_update, Arena.size_update, h.size]
  · rw [Arena.scope_update, Arena.scope_update, h.size]
    split
    · exact hfg _ _ (h.scope t)
    · exact h.scope t

/-- Recording entries that are alike. -/
theorem Arena.Alike.record (h : Arena.Alike D a b) (s : ScopeId) {e f : Entry}
    (hef : Entry.Alike D e f) : Arena.Alike D (a.record s e) (b.record s f) :=
  h.update s fun _ _ hxy => ⟨hxy.link, List.rel_append hxy.log (.cons hef .nil), hxy.staged⟩

/-- Snapshots of the same scope are the same, since logs have the same lengths. -/
theorem Arena.Alike.snapshot (h : Arena.Alike D a b) (s : ScopeId) (kind : Snapshot.Kind) :
    b.snapshot s kind = a.snapshot s kind := by
  rw [Arena.snapshot, h.size, ← (h.log s).length_eq, Arena.snapshot]

/-- Dropping the same scopes. -/
theorem Arena.Alike.truncate (h : Arena.Alike D a b) (n : Nat) :
    Arena.Alike D (a.truncate n) (b.truncate n) := by
  refine ⟨?_, fun t => ?_⟩
  · rw [Arena.size_truncate, Arena.size_truncate, h.size]
  · by_cases ht : t < n
    · rw [Arena.scope_truncate ht, Arena.scope_truncate ht]
      exact h.scope t
    · have ht := Nat.le_of_not_lt ht
      rw [Arena.scope_truncate_of_le ht, Arena.scope_truncate_of_le ht]
      exact ⟨rfl, .nil, .none⟩

/-- Going back to the same snapshot. -/
theorem Arena.Alike.restore (h : Arena.Alike D a b) (x : Snapshot) :
    Arena.Alike D (a.restore x) (b.restore x) := by
  have hcut : ∀ u v : Scope, Scope.Alike D u v → Scope.Alike D
      { u with log := u.log.take x.entries } { v with log := v.log.take x.entries } :=
    fun _ _ huv => ⟨huv.link, List.forall₂_take _ huv.log, huv.staged⟩
  rw [Arena.restore, Arena.restore]
  cases x.kind with
  | attempt => exact (h.truncate x.scopes).update x.scope hcut
  | log => exact h.update x.scope hcut

/-- Staging the log of the same scope. -/
theorem Arena.Alike.stage (h : Arena.Alike D a b) (s exports : ScopeId) :
    Arena.Alike D (a.stage s exports) (b.stage s exports) :=
  h.update s fun _ _ hxy =>
    ⟨hxy.link, hxy.log, .some (List.rel_append (getD_of_rel hxy.staged) (h.log exports))⟩

/-- Logs that are alike are in the way of the same entries. -/
theorem shadows_alike {log log' : List Entry} (hlog : Forall₂ (Entry.Alike D) log log')
    {e f : Entry} (hef : Entry.Alike D e f) : Arena.shadows log' f = Arena.shadows log e := by
  cases hef with
  | mixin _ => rfl
  | binding name _ => exact any_of_forall₂ (fun _ _ hxy => isSome_of_rel (hxy.bound? name)) hlog

/-- In arenas that are alike the same entries come into force. -/
theorem Arena.Alike.commit (h : Arena.Alike D a b) (s : ScopeId) :
    Arena.Alike D (a.commit s) (b.commit s) := by
  refine h.update s fun x y hxy => ?_
  obtain ⟨link, log, staged⟩ := x
  obtain ⟨link', log', staged'⟩ := y
  obtain ⟨hlink, hlog, hstaged⟩ := hxy
  cases hstaged with
  | none => exact ⟨hlink, hlog, .none⟩
  | some hstaged =>
    have hkept := filter_of_forall₂ (fun _ _ hef => congrArg not (shadows_alike hlog hef)) hstaged
    exact ⟨hlink, List.rel_append hlog hkept, .none⟩

/-- A change and the same one, but for the entry that it may bring in. -/
inductive Change.Alike (D : Diction) : Change → Change → Prop where
  | record (s : ScopeId) {e f : Entry} : Entry.Alike D e f →
    Change.Alike D (.record s e) (.record s f)
  | restore (x : Snapshot) : Change.Alike D (.restore x) (.restore x)
  | openStaging (s : ScopeId) : Change.Alike D (.openStaging s) (.openStaging s)
  | stage (s exports : ScopeId) : Change.Alike D (.stage s exports) (.stage s exports)
  | commit (s : ScopeId) : Change.Alike D (.commit s) (.commit s)

/-- Changes that are alike leave arenas that are. -/
theorem Change.apply_alike {c d : Change} (hcd : Change.Alike D c d) (h : Arena.Alike D a b) :
    Arena.Alike D (c.apply a) (d.apply b) := by
  cases hcd with
  | record s hef => exact h.record s hef
  | restore x => exact h.restore x
  | openStaging s => exact h.update s fun _ _ hxy => ⟨hxy.link, hxy.log, .some .nil⟩
  | stage s exports => exact h.stage s exports
  | commit s => exact h.commit s

end

end LessSheet
