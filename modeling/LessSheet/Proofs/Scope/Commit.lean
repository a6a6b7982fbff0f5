import LessSheet.Proofs.Scope.Sight

/-! # Committed entries

A scope's own value of a variable is the latest of its log. This module says what becomes of it when
entries are committed to a scope: a value that the scope has itself stays, and any other is taken
from the entries (`Commits.ownValue?_eq`). The scopes that the scope's link leads to are older and
stay as they are, so what the scope sees follows (`Commits.lookup_eq`).

The list of a scope's own variables, in which each stands once, says the same about them as its log
(`latest_ownVariables`).
-/

namespace LessSheet

namespace Arena

variable {a b : Arena} {s : ScopeId}

/-! ## What a commit comes to -/

/-- A log is in the way of a variable if it has a value for it. -/
theorem shadows_binding (log : List Entry) (name : String) (value : Value) :
    shadows log (.binding name value) = (latest name log).isSome := by
  rw [latest, List.isSome_findSome?, List.any_reverse]
  rfl

/-- Dropping what a log is in the way of leaves the value of a variable that it does not have, and
nothing of one that it has. -/
theorem latest_filter_shadows (log entries : List Entry) (name : String) :
    latest name (entries.filter fun e => !shadows log e) =
      if (latest name log).isSome then none else latest name entries := by
  induction entries with
  | nil => split <;> rfl
  | cons e rest ih =>
    cases e with
    | mixin r =>
      rw [List.filter_cons_of_pos rfl, latest_cons, latest_cons, ih, bound?, Option.or_none,
        Option.or_none]
    | binding n value =>
      rw [List.filter_cons, shadows_binding]
      cases hn : (latest n log).isSome with
      | true =>
        rw [Bool.not_true, if_neg Bool.false_ne_true, ih, latest_cons, bound?]
        by_cases hname : n = name
        · rw [← hname, if_pos hn, if_pos hn]
        · rw [if_neg hname, Option.or_none]
      | false =>
        rw [Bool.not_false, if_pos rfl, latest_cons, latest_cons, ih, bound?]
        by_cases hname : n = name
        · rw [← hname, hn, if_neg Bool.false_ne_true, if_neg Bool.false_ne_true]
        · rw [if_neg hname, Option.or_none, Option.or_none]

/-- The arena `b` is `a` with entries committed to scope `s`: those for variables that `s` has
itself are dropped, the others follow its log, and no other scope changes. -/
structure Commits (s : ScopeId) (entries : List Entry) (a b : Arena) : Prop where
  size : b.size = a.size
  frame : ∀ t, t ≠ s → b.scope t = a.scope t
  link : (b.scope s).link = (a.scope s).link
  log : b.log s = a.log s ++ entries.filter fun e => !shadows (a.log s) e

variable {entries : List Entry}

/-- Committing nothing changes nothing. -/
theorem Commits.refl (s : ScopeId) (a : Arena) : Commits s [] a a :=
  ⟨rfl, fun _ _ => rfl, rfl, (List.append_nil _).symm⟩

/-- Staged entries that are brought into force. -/
theorem Commits.of_stages (h : Stages s a b) (hs : s < a.size)
    (hstaged : (b.scope s).staged = some entries) : Commits s entries a (b.commit s) := by
  have hsb : s < b.size := h.size.symm ▸ hs
  refine ⟨by rw [Arena.commit, size_update, h.size], fun t hts => ?_, ?_, ?_⟩
  · rw [Arena.commit, scope_update, if_neg fun hu => hts hu.1.symm, h.frame t hts]
  · rw [← h.link, Arena.commit, scope_update, if_pos ⟨rfl, hsb⟩, hstaged]
  · rw [← h.log, Arena.log, Arena.commit, scope_update, if_pos ⟨rfl, hsb⟩, hstaged]
    rfl

/-- Where nothing is staged, staging nothing and committing it changes nothing. -/
theorem commit_openStaging (h : (a.scope s).staged = none) : (a.openStaging s).commit s = a := by
  refine ext_scope ?_ fun t _ => ?_
  · rw [Arena.commit, Arena.openStaging, size_update, size_update]
  · rw [Arena.commit, scope_update, Arena.openStaging, size_update, scope_update]
    split
    · next ht =>
      obtain ⟨rfl, -⟩ := ht
      simp [← h]
    · rfl

/-- A commit changes no link. -/
theorem Commits.link_eq (h : Commits s entries a b) (t : ScopeId) :
    (b.scope t).link = (a.scope t).link := by
  by_cases hts : t = s
  · rw [hts, h.link]
  · rw [h.frame t hts]

/-- What a scope has itself stays, and anything else comes from the entries. -/
theorem Commits.ownValue?_eq (h : Commits s entries a b) (name : String) :
    b.ownValue? s name = (a.ownValue? s name).or (latest name entries) := by
  rw [ownValue?_eq_latest, ownValue?_eq_latest, h.log, latest_append, latest_filter_shadows]
  cases latest name (a.log s) with
  | some value => rfl
  | none => exact Option.or_none

/-- What a scope sees after entries have been committed to it: a variable that it has itself is what
it was, any other is what the entries make it, and if they have none of that name it is what it
was. -/
theorem Commits.lookup_eq (h : Commits s entries a b) (ha : a.Ordered) (name : String) :
    b.lookup s name =
      if (a.ownValue? s name).isSome then a.lookup s name
      else (latest name entries).or (a.lookup s name) := by
  have hb : b.Ordered := fun t u hu => ha t u (h.link_eq t ▸ hu)
  have hown := h.ownValue?_eq name
  -- where the scope's own value is what it was, all that a search meets is
  have hsame : b.ownValue? s name = a.ownValue? s name → b.lookup s name = a.lookup s name := by
    intro hs
    refine search_congr ha hb (fun t _ => h.link_eq t) fun t _ => ?_
    by_cases hts : t = s
    · rw [hts, hs]
    · exact ownValue?_congr (h.frame t hts) name
  cases ha' : a.ownValue? s name with
  | some value =>
    rw [ha', Option.some_or] at hown
    exact hsame (hown.trans ha'.symm)
  | none =>
    rw [ha', Option.none_or] at hown
    cases hentries : latest name entries with
    | none => exact hsame (hown.trans (hentries.trans ha'.symm))
    | some value =>
      exact (search_eq_resolve hb _ s).trans (resolve_of_some hb _ (hown.trans hentries))

/-! ## The list of a scope's variables -/

/-- The variables of a list as entries of a log. -/
def bindings (vars : List (String × Value)) : List Entry := vars.map fun x => .binding x.1 x.2

@[simp] theorem latest_bindings_cons (name : String) (x : String × Value)
    (rest : List (String × Value)) : latest name (bindings (x :: rest)) =
      (latest name (bindings rest)).or (if x.1 = name then some x.2 else none) :=
  latest_cons name (.binding x.1 x.2) (bindings rest)

/-- A variable that is not in a list has no value there. -/
theorem latest_bindings_of_not_mem {name : String} {vars : List (String × Value)}
    (h : name ∉ vars.map Prod.fst) : latest name (bindings vars) = none := by
  induction vars with
  | nil => rfl
  | cons x rest ih =>
    rw [List.map_cons, List.mem_cons, not_or] at h
    rw [latest_bindings_cons, ih h.2, if_neg (Ne.symm h.1)]
    rfl

/-- Setting a variable keeps the names, and adds one if it is new. -/
theorem mem_put {n m : String} {value : Value} {vars : List (String × Value)} :
    m ∈ (put n value vars).map Prod.fst ↔ m = n ∨ m ∈ vars.map Prod.fst := by
  induction vars with
  | nil => simp [put]
  | cons x rest ih =>
    rw [put]
    split
    · next h => simp [h]
    · simp only [List.map_cons, List.mem_cons, ih]
      exact or_left_comm

/-- Setting a variable leaves each variable in the list once. -/
theorem nodup_put {vars : List (String × Value)} (h : (vars.map Prod.fst).Nodup) (n : String)
    (value : Value) : ((put n value vars).map Prod.fst).Nodup := by
  induction vars with
  | nil => exact List.nodup_singleton _
  | cons x rest ih =>
    rw [List.map_cons, List.nodup_cons] at h
    rw [put]
    split
    · exact List.nodup_cons.2 h
    · next hne =>
      refine List.nodup_cons.2 ⟨fun hmem => ?_, ih h.2⟩
      rcases mem_put.1 hmem with hn | hmem
      · exact hne hn
      · exact h.1 hmem

/-- Setting a variable gives it its value and leaves the others. -/
theorem latest_put {vars : List (String × Value)} (h : (vars.map Prod.fst).Nodup) (n : String)
    (value : Value) (name : String) :
    latest name (bindings (put n value vars)) =
      if n = name then some value else latest name (bindings vars) := by
  induction vars with
  | nil =>
    rw [put, latest_bindings_cons]
    rfl
  | cons x rest ih =>
    rw [List.map_cons, List.nodup_cons] at h
    rw [put]
    split
    · next hx =>
      rw [latest_bindings_cons, latest_bindings_cons, hx]
      by_cases hn : n = name
      · -- the variable is set where it stands, and it does not stand anywhere after that
        have hrest := latest_bindings_of_not_mem (hn ▸ hx ▸ h.1)
        rw [hrest, if_pos hn, if_pos hn]
        rfl
      · rw [if_neg hn, if_neg hn, if_neg hn]
    · rw [latest_bindings_cons, latest_bindings_cons, ih h.2]
      split <;> rfl

/-- The list of a scope's variables has each once and says the same about them as its log. -/
theorem ownVariables_spec (a : Arena) (s : ScopeId) :
    ((a.ownVariables s).map Prod.fst).Nodup ∧
      ∀ name, latest name (bindings (a.ownVariables s)) = a.ownValue? s name := by
  rw [ownVariables]
  simp only [ownValue?_eq_latest]
  -- from the oldest entry to the newest, with what the entries so far have come to
  induction a.log s using List.reverseRecOn with
  | nil => exact ⟨List.nodup_nil, fun _ => rfl⟩
  | append_singleton log e ih =>
    rw [List.foldl_append, List.foldl_cons, List.foldl_nil]
    cases e with
    | mixin r =>
      refine ⟨ih.1, fun name => ?_⟩
      rw [latest_append, ih.2]
      rfl
    | binding n value =>
      refine ⟨nodup_put ih.1 n value, fun name => ?_⟩
      rw [latest_put ih.1, latest_append, ih.2, latest_cons, bound?]
      split <;> rfl

/-- The list of a scope's variables says the same about them as its log. -/
theorem latest_ownVariables (a : Arena) (s : ScopeId) (name : String) :
    latest name (bindings (a.ownVariables s)) = a.ownValue? s name :=
  (ownVariables_spec a s).2 name

end Arena

end LessSheet
