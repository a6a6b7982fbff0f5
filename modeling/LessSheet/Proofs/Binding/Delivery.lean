import LessSheet.Compile
import LessSheet.Proofs.Binding.Fit
import Mathlib.Data.List.Forall2

/-! # Who is given which argument

Placing the arguments of a call gives each of them away once: a named one to a variable, a
positional one to the next parameter that is still empty, and what remains to a common store
(`Mixin.place_holding`). The store is emptied into every rest parameter, so with two of them what is
in it is given twice, and listed twice in `arguments` (`rest_given_twice`).

`Given` says which arguments a parameter is given, and `GivenOnce` that the shares of all parameters
together are the arguments of the call. That is so exactly if there is no second rest parameter or
the store is empty (`Mixin.bind_givenOnce`).
-/

namespace LessSheet

open Script

/-! ## Shares -/

/-- Whether a parameter may be given an argument: a named one goes to a variable of its name, and a
positional one to any parameter. -/
def Param.MayHave (a : Actual) : Param → Prop
  | .named name _ => ∀ n ∈ a.name, n = name
  | .pattern _ | .rest _ => a.name = none

/-- The parameter `t` is given the arguments `share`: it may have them, and it stands for their
values. One that is still open stands for its default and is given none. -/
structure Given (t : Slot × List Value) (share : List Actual) : Prop where
  kind : ∀ a ∈ share, t.1.param.MayHave a
  values : share.map Actual.value = if t.1.isOpen then [] else t.2

/-- Every argument is given to exactly one parameter. -/
def GivenOnce (args : List Actual) (taken : List (Slot × List Value)) : Prop :=
  ∃ shares, List.Forall₂ Given taken shares ∧ shares.flatten.Perm args

/-- The values of the parameters that stand for their defaults. -/
def defaultValues (taken : List (Slot × List Value)) : List Value :=
  (taken.filter fun t => t.1.isOpen).flatMap Prod.snd

/-- The values of all parameters are those of the arguments, each of them once, and the defaults. -/
def ListedOnce (args : List Actual) (taken : List (Slot × List Value)) : Prop :=
  (taken.flatMap Prod.snd).Perm (args.map Actual.value ++ defaultValues taken)

/-- No two rest parameters, or nothing for them to collect. -/
def Mixin.SharesNothing (m : Mixin) (args : List Actual) : Prop :=
  m.params.countP Param.isRest ≤ 1 ∨ m.restValues args = []

/-! ## Placing -/

/-- What a parameter holds while the arguments are placed. A rest parameter holds nothing of its
own. -/
structure Slot.Holds (slot : Slot) (share : List Actual) : Prop where
  kind : ∀ a ∈ share, slot.param.MayHave a
  values : share.map Actual.value = if slot.param.isRest then [] else slot.value.toList

/-- The parameters together hold these arguments, each of them once. -/
def Holding (slots : List Slot) (args : List Actual) : Prop :=
  ∃ shares, List.Forall₂ Slot.Holds slots shares ∧ shares.flatten.Perm args

section
variable {slot : Slot} {slots slots' : List Slot} {args args' share : List Actual} {name : String}
  {v : Value} {values : List Value}

/-- What the parameters hold has no order. -/
theorem Holding.perm (h : Holding slots args) (hperm : args.Perm args') : Holding slots args' := by
  obtain ⟨shares, hshares, hflat⟩ := h
  exact ⟨shares, hshares, hflat.trans hperm⟩

/-- What one more parameter holds joins what the others hold. -/
theorem Holding.cons (hslot : slot.Holds share) (h : Holding slots args) :
    Holding (slot :: slots) (share ++ args) := by
  obtain ⟨shares, hshares, hflat⟩ := h
  exact ⟨share :: shares, .cons hslot hshares, hflat.append_left share⟩

/-- What parameters hold is the share of the first and what the others hold. -/
theorem Holding.uncons (h : Holding (slot :: slots) args) :
    ∃ share args', slot.Holds share ∧ Holding slots args' ∧ (share ++ args').Perm args := by
  obtain ⟨_, hshares, hflat⟩ := h
  cases hshares with
  | cons hslot hrest => exact ⟨_, _, hslot, ⟨_, hrest, .refl _⟩, hflat⟩

/-- Before any argument has a place. -/
theorem holding_empty (params : List Param) :
    Holding (params.map fun p => (⟨p, none⟩ : Slot)) [] := by
  induction params with
  | nil => exact ⟨[], .nil, .refl _⟩
  | cons p params ih =>
    have hslot : (⟨p, none⟩ : Slot).Holds [] := ⟨nofun, by simp⟩
    exact ih.cons hslot

/-- An empty slot that receives an argument. -/
theorem Slot.Holds.fill (h : slot.Holds share) (hrest : slot.param.isRest = false)
    (hnone : slot.value = none) {a : Actual} (ha : slot.param.MayHave a) :
    share = [] ∧ { slot with value := some a.value }.Holds [a] := by
  refine ⟨?_, List.forall_mem_singleton.2 ha, by simp [hrest]⟩
  simpa [hrest, hnone] using h.values

/-- A variable may be given a value under its name. -/
theorem Param.mayHave_of_isNamed {p : Param} (h : p.isNamed name) (v : Value) :
    p.MayHave ⟨some name, v⟩ := by
  cases p with
  | named n default =>
    rintro _ ⟨⟩
    exact (beq_iff_eq.1 h).symm
  | rest n => cases h
  | pattern e => cases h

/-- Every parameter may be given a positional argument. -/
theorem Param.mayHave_positional (p : Param) (v : Value) : p.MayHave ⟨none, v⟩ := by
  cases p with
  | named n default => exact nofun
  | rest n => rfl
  | pattern e => rfl

/-- A named argument that has a place is held there. -/
theorem placeNamed_holding (h : placeNamed name v slots = .ok slots') (hheld : Holding slots args) :
    Holding slots' (⟨some name, v⟩ :: args) := by
  induction slots generalizing slots' args with
  | nil => cases h
  | cons slot rest ih =>
    obtain ⟨share, others, hslot, hothers, hperm⟩ := hheld.uncons
    rw [placeNamed] at h
    split at h
    · next hnamed =>
      split at h
      · cases h
      · next hempty =>
        cases h
        obtain ⟨rfl, hfilled⟩ := hslot.fill (Param.isRest_of_isNamed hnamed)
          (Option.not_isSome_iff_eq_none.1 hempty) (Param.mayHave_of_isNamed hnamed v)
        exact (Holding.cons hfilled hothers).perm (hperm.cons _)
    · obtain ⟨rest', hrest, h⟩ := ok_of_bind h
      cases h
      exact (Holding.cons hslot (ih hrest hothers)).perm
        (List.perm_middle.trans (hperm.cons _))

/-- The named arguments are held, each by one parameter. -/
theorem placeAllNamed_holding {reject : NamedFault → String → Problem}
    (h : placeAllNamed reject args slots = .ok slots') {held : List Actual}
    (hheld : Holding slots held) :
    Holding slots' (args.filter (fun a => a.name.isSome) ++ held) := by
  induction args generalizing slots held with
  | nil =>
    cases h
    exact hheld
  | cons arg rest ih =>
    obtain ⟨name, v⟩ := arg
    cases name with
    | none => exact ih h hheld
    | some name =>
      rw [placeAllNamed] at h
      split at h
      · next placed hplaced =>
        exact (ih h (placeNamed_holding hplaced hheld)).perm List.perm_middle
      · cases h

/-- The positional arguments are held by the parameters from left to right, as far as they go. What
is behind these goes to the store of the rest parameters, or is left over. -/
theorem placePositional_holding (slots : List Slot) (values : List Value) :
    ∃ placed, placed ++ (placePositional slots values).rest ++
        (placePositional slots values).surplus = values ∧
      ∀ held, Holding slots held →
        Holding (placePositional slots values).slots (placed.map (Actual.mk none) ++ held) := by
  induction slots, values using placePositional.induct with
  | case1 values => exact ⟨[], rfl, fun _ h => h⟩
  | case2 slot slots values hrest ih =>
    obtain ⟨placed, hcut, hkeeps⟩ := ih
    obtain ⟨hplaced, hsurplus⟩ := List.append_eq_nil_iff.1 hcut
    obtain ⟨rfl, hstored⟩ := List.append_eq_nil_iff.1 hplaced
    rw [placePositional_of_rest hrest, hstored, hsurplus]
    refine ⟨[], by simp, fun held hheld => ?_⟩
    obtain ⟨share, others, hslot, hothers, hperm⟩ := hheld.uncons
    exact (Holding.cons hslot (hkeeps others hothers)).perm hperm
  | case3 slot slots hrest v values hnone ih =>
    obtain ⟨placed, hcut, hkeeps⟩ := ih
    rw [placePositional_of_none hrest hnone]
    refine ⟨v :: placed, congrArg (v :: ·) hcut, fun held hheld => ?_⟩
    obtain ⟨share, others, hslot, hothers, hperm⟩ := hheld.uncons
    obtain ⟨rfl, hfilled⟩ := hslot.fill (Bool.not_eq_true _ ▸ hrest) hnone
      (slot.param.mayHave_positional v)
    exact (Holding.cons hfilled (hkeeps others hothers)).perm ((hperm.append_left _).cons _)
  | case4 slot slots hrest values hother ih =>
    obtain ⟨placed, hcut, hkeeps⟩ := ih
    rw [placePositional_of_other hrest hother]
    refine ⟨placed, hcut, fun held hheld => ?_⟩
    obtain ⟨share, others, hslot, hothers, hperm⟩ := hheld.uncons
    exact (Holding.cons hslot (hkeeps others hothers)).perm
      ((List.perm_append_comm_assoc _ _ _).trans (hperm.append_left _))

end

/-- The positional arguments are the arguments without a name. -/
theorem map_positional (args : List Actual) :
    (positional args).map (Actual.mk none) = args.filter fun a => !a.name.isSome := by
  induction args with
  | nil => rfl
  | cons arg rest ih =>
    obtain ⟨_ | name, v⟩ := arg
    · exact congrArg (⟨none, v⟩ :: ·) ih
    · exact ih

/-- Arguments that have places are held by the parameters or stand in the store of the rest
parameters, each of them once. -/
theorem Mixin.place_holding {m : Mixin} {call : String} {args : List Actual} {placement : Placement}
    (h : m.place call args = .ok placement) :
    ∃ held, Holding placement.slots held ∧
      (held ++ placement.rest.map (Actual.mk none)).Perm args := by
  obtain ⟨slots, hslots, h⟩ := ok_of_bind h
  dsimp only at h
  split at h
  · next hsurplus =>
    cases h
    have hnamed := placeAllNamed_holding hslots (holding_empty m.params)
    rw [List.append_nil] at hnamed
    have hnone : (placePositional slots (positional args)).surplus = [] :=
      List.isEmpty_iff.1 hsurplus
    obtain ⟨placed, hcut, hkeeps⟩ := placePositional_holding slots (positional args)
    rw [hnone, List.append_nil] at hcut
    refine ⟨_, hkeeps _ hnamed, ?_⟩
    have hunnamed : placed.map (Actual.mk none) ++
        (placePositional slots (positional args)).rest.map (Actual.mk none) =
          args.filter fun a => !a.name.isSome := by
      rw [← List.map_append, hcut, map_positional]
    have hperm := List.filter_append_perm (fun a : Actual => a.name.isSome) args
    rw [← hunnamed] at hperm
    rw [List.append_assoc]
    exact (List.perm_append_comm_assoc _ _ _).trans hperm
  · cases h

/-! ## What the parameters stand for -/

section
variable {a : Arena} {closure : ScopeId} {rest : List Value} {log : List Entry} {slot : Slot}
  {values : List Value} {share : List Actual} {taken : List (Slot × List Value)}

/-- A parameter is given what it holds, and a rest parameter all that is in the store. -/
theorem Slot.Stands.given (h : slot.Stands a closure rest log values) (hslot : slot.Holds share) :
    Given (slot, values)
      (share ++ if slot.param.isRest then rest.map (Actual.mk none) else []) := by
  obtain ⟨param, value⟩ := slot
  have hheld := hslot.values
  cases param with
  | rest n =>
    obtain rfl : values = rest := h
    obtain rfl : share = [] := List.map_eq_nil_iff.1 hheld
    refine ⟨?_, by simp [Slot.isOpen, Param.isRest, Function.comp_def]⟩
    simp [Param.isRest, Param.MayHave]
  | pattern e =>
    have hshare := List.append_nil share
    cases value with
    | none => exact h.elim
    | some v =>
      obtain rfl : values = [v] := h.2
      exact ⟨hshare.symm ▸ hslot.kind, hshare.symm ▸ hheld⟩
  | named n default =>
    have hshare := List.append_nil share
    cases value with
    | none => exact ⟨hshare.symm ▸ hslot.kind, hshare.symm ▸ hheld⟩
    | some v =>
      obtain rfl : values = [v] := by cases default <;> exact h
      exact ⟨hshare.symm ▸ hslot.kind, hshare.symm ▸ hheld⟩

/-- The parameters are given what they hold, and the store once for each rest parameter. -/
theorem AllStand.given (h : AllStand a closure rest log taken) {held : List Actual}
    (hheld : Holding (taken.map Prod.fst) held) :
    ∃ shares, List.Forall₂ Given taken shares ∧ shares.flatten.Perm (held ++
      (List.replicate (taken.countP fun t => t.1.param.isRest)
        (rest.map (Actual.mk none))).flatten) := by
  induction taken generalizing log held with
  | nil =>
    obtain ⟨shares, hshares, hflat⟩ := hheld
    cases hshares
    exact ⟨[], .nil, by simpa using hflat⟩
  | cons t taken ih =>
    obtain ⟨hstands, hothers⟩ := allStand_cons.1 h
    obtain ⟨share, others, hslot, hheld, hperm⟩ := hheld.uncons
    obtain ⟨shares, hgiven, hflat⟩ := ih hothers hheld
    refine ⟨_, .cons (hstands.given hslot) hgiven, ?_⟩
    cases hrest : t.1.param.isRest with
    | false =>
      simp only [hrest, List.countP_cons, Bool.false_eq_true, if_false, Nat.add_zero,
        List.append_nil, List.flatten_cons]
      exact (hflat.append_left share).trans (by simpa using hperm.append_right _)
    | true =>
      simp only [hrest, List.countP_cons, if_true, List.replicate_succ, List.flatten_cons]
      rw [List.append_assoc]
      refine ((hflat.append_left _).append_left share).trans ?_
      refine (List.Perm.append_left share (List.perm_append_comm_assoc _ _ _)).trans ?_
      simpa using hperm.append_right _

/-- What is listed is what is given, and the defaults. -/
theorem perm_of_given {shares : List (List Actual)} (h : List.Forall₂ Given taken shares) :
    (taken.flatMap Prod.snd).Perm
      (shares.flatten.map Actual.value ++ defaultValues taken) := by
  induction h with
  | nil => exact .refl _
  | @cons t share taken shares hgiven _ ih =>
    have hvalues := hgiven.values
    cases hopen : t.1.isOpen with
    | true =>
      rw [hopen, if_pos rfl, List.map_eq_nil_iff] at hvalues
      have hfirst : defaultValues (t :: taken) = t.2 ++ defaultValues taken := by
        simp [defaultValues, hopen]
      rw [hfirst, hvalues, List.flatMap_cons, List.flatten_cons, List.nil_append]
      exact (ih.append_left t.2).trans (List.perm_append_comm_assoc _ _ _)
    | false =>
      rw [hopen, if_neg Bool.false_ne_true] at hvalues
      have hskip : defaultValues (t :: taken) = defaultValues taken := by
        simp [defaultValues, hopen]
      rw [hskip, List.flatMap_cons, List.flatten_cons, List.map_append, hvalues, List.append_assoc]
      exact ih.append_left t.2

/-- If every argument is given to one parameter, its value is listed once. -/
theorem GivenOnce.listedOnce {args : List Actual} (h : GivenOnce args taken) :
    ListedOnce args taken := by
  obtain ⟨shares, hshares, hflat⟩ := h
  exact (perm_of_given hshares).trans ((hflat.map Actual.value).append_right _)

end

/-! ## The whole -/

section
variable {m : Mixin} {a : Arena} {closure : ScopeId} {args : List Actual}
  {taken : List (Slot × List Value)}

/-- Where a call fits, all parameters together are given the arguments, and once more what is in the
store for every rest parameter but one. -/
theorem Mixin.Fits.given (h : m.Fits a closure args taken) :
    ∃ held shares, List.Forall₂ Given taken shares ∧
      (held ++ (m.restValues args).map (Actual.mk none)).Perm args ∧
      shares.flatten.Perm (held ++ (List.replicate (m.params.countP Param.isRest)
        ((m.restValues args).map (Actual.mk none))).flatten) ∧
      (m.params.countP Param.isRest = 0 → m.restValues args = []) := by
  have hplace : m.place "" args = .ok ⟨m.slots args, m.restValues args, []⟩ :=
    Mixin.place_iff.2 ⟨h.known, h.distinct, h.usedUp, rfl⟩
  obtain ⟨held, hheld, hargs⟩ := Mixin.place_holding hplace
  obtain ⟨hparams, -, hrest⟩ := Mixin.place_count hplace
  rw [← h.slots] at hheld hparams
  obtain ⟨shares, hshares, hflat⟩ := h.stands.given hheld
  have hcount : (taken.countP fun t => t.1.param.isRest) = m.params.countP Param.isRest := by
    rw [← hparams, List.map_map, List.countP_map]
    rfl
  rw [hcount] at hflat
  refine ⟨held, shares, hshares, hargs, hflat, fun hzero => hrest ?_⟩
  rw [List.countP_eq_zero] at hzero
  simpa [Mixin.hasRest] using hzero

/-- With one rest parameter the store is given once, and with none it is empty. -/
theorem Mixin.Fits.givenOnce (h : m.Fits a closure args taken) (hshares : m.SharesNothing args) :
    GivenOnce args taken := by
  obtain ⟨held, shares, hgiven, hargs, hflat, hnone⟩ := h.given
  refine ⟨shares, hgiven, hflat.trans ?_⟩
  rcases hshares with hle | hempty
  · rcases Nat.le_one_iff_eq_zero_or_eq_one.1 hle with hcount | hcount
    · simpa [hcount, hnone hcount] using hargs
    · simpa [hcount] using hargs
  · simpa [hempty] using hargs

/-- If every argument is listed once, nothing is given to two rest parameters: the list would be too
long. -/
theorem Mixin.Fits.sharesNothing (h : m.Fits a closure args taken)
    (hlisted : ListedOnce args taken) :
    m.SharesNothing args := by
  obtain ⟨held, shares, hgiven, hargs, hflat, -⟩ := h.given
  have hvalues := (perm_of_given hgiven).length_eq
  have hlist := hlisted.length_eq
  have hgivenLength := hflat.length_eq
  have hargsLength := hargs.length_eq
  simp only [List.length_append, List.length_map, List.length_flatten, List.map_replicate,
    List.sum_replicate_nat] at hvalues hlist hgivenLength hargsLength
  have hstore : m.params.countP Param.isRest * (m.restValues args).length =
      1 * (m.restValues args).length := by omega
  rcases Nat.eq_zero_or_pos (m.restValues args).length with hzero | hpos
  · exact .inr (List.length_eq_zero_iff.1 hzero)
  · exact .inl (Nat.le_of_eq (Nat.eq_of_mul_eq_mul_right hpos hstore))

/-- Binding the arguments of a call, whatever the parameters, the arguments and the scopes are.
Where it succeeds, every argument is given to exactly one parameter that may have it, a positional
one to any and a named one to a variable of its name, if and only if the mixin does not have two
rest parameters with something to collect. The same holds of the list bound to `arguments`: it has
the value of every argument once, and besides only the defaults. -/
theorem Mixin.bind_givenOnce (m : Mixin) (closure : ScopeId) (call : String) (args : List Actual)
    (p q : Progress) (s : ScopeId) (h : (m.bind closure call args).run p = (.ok (.bound s), q)) :
    ∃ taken, m.Fits p.arena closure args taken ∧
      q.arena.log s = takenLog taken ++ [argumentsEntry taken] ∧
      (GivenOnce args taken ↔ m.SharesNothing args) ∧
      (ListedOnce args taken ↔ m.SharesNothing args) := by
  obtain ⟨taken, hfits, rfl, rfl⟩ := Mixin.bind_run_iff.1 h
  refine ⟨taken, hfits, ?_, ⟨fun hgiven => ?_, hfits.givenOnce⟩,
    ⟨hfits.sharesNothing, fun hshares => ?_⟩⟩
  · simp [Arena.log, Arena.scope, Arena.inside, Arena.size]
  · exact hfits.sharesNothing hgiven.listedOnce
  · exact (hfits.givenOnce hshares).listedOnce

end

/-- A pattern, a rest parameter that collects two arguments, a variable given by name and one that
stands for its default. -/
theorem Mixin.bind_givenOnce_rest :
    let m : Mixin := ⟨".m", [.pattern (.keyword "dark"), .rest (some "r"), .named "a" none,
      .named "b" (some (.ref "a"))], none, []⟩
    let args : List Actual := [⟨none, .keyword "dark"⟩, ⟨some "a", .keyword "y"⟩,
      ⟨none, .keyword "x"⟩, ⟨none, .keyword "x"⟩]
    ∃ taken, m.Fits Arena.empty Arena.root args taken ∧
      argumentsEntry taken = .binding "arguments" (.list .space [.keyword "dark", .keyword "x",
        .keyword "x", .keyword "y", .keyword "y"]) ∧
      GivenOnce args taken ∧ ListedOnce args taken := by
  intro m args
  have hshares : m.SharesNothing args := .inl (by decide)
  obtain ⟨taken, hfits, hlog, hgiven, hlisted⟩ :=
    Mixin.bind_givenOnce m Arena.root ".m" args Progress.start _ 1 rfl
  refine ⟨taken, hfits, ?_, hgiven.2 hshares, hlisted.2 hshares⟩
  exact (List.append_inj' hlog.symm rfl).2 |> List.singleton_inj.1

/-- The one argument of the call is collected by both rest parameters and listed twice. -/
theorem rest_given_twice :
    let m : Mixin := ⟨".m", [.rest (some "a"), .rest (some "b")], none, []⟩
    let red : Value := .keyword "red"
    (m.bind Arena.root ".m" [⟨none, red⟩]).run Progress.start =
        (.ok (.bound 1), ⟨Arena.empty.inside Arena.root [.binding "a" (.list .space [red]),
          .binding "b" (.list .space [red]),
          .binding "arguments" (.list .space [red, red])], [], 0⟩) ∧
      (compile ".m(@a..., @b...) \x7b w: @arguments; \x7d\n.x \x7b .m(red); \x7d").toOption.map
        (·.css) = some ".x \x7b\n  w: red red;\n\x7d" := by
  intro m red
  exact ⟨rfl, by decide +kernel⟩

end LessSheet
