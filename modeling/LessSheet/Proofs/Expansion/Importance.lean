import LessSheet.Proofs.Expansion.Comments
import LessSheet.Proofs.Expansion.Relocation
import LessSheet.Proofs.Grammar.Leaves
import LessSheet.Proofs.Text.Marker

/-! # At most one importance marker

A property is important by its flag, which a declaration sets and every important call around it
sets again. The text of its value is another matter: a variable can be declared with the marker, and
then the marker is part of its value and of every value it is used in, next to the flag
(`important_twice`).

Apart from that and from strings, no value has the marker in its text
(`Stylesheet.markers_of_parse`): each property of the flat stylesheet has the marker at most once,
and each that comes of an important call has it exactly once. Strings may have any text but the
marker as long as none has placeholders. Where placeholders are filled, parts of strings can come
together to the marker, so then no string may have an exclamation mark (`StringsUnmarked`).
-/

namespace LessSheet

open Text Plan

/-- The importance marker. -/
def marker : List Char := "!important".toList

/-- How often a property is marked as important: in the text of its value and by its flag. -/
def Css.Property.markers (p : Css.Property) : Nat :=
  occurrences marker p.value.toList + if p.important then 1 else 0

/-! ## Texts without exclamation marks -/

/-- Whether a text has no exclamation mark. -/
def Bangless (t : String) : Prop := '!' ∉ t.toList

instance (t : String) : Decidable (Bangless t) := inferInstanceAs (Decidable ('!' ∉ t.toList))

/-- Two texts without exclamation marks, one after the other. -/
theorem Bangless.append {t u : String} (ht : Bangless t) (hu : Bangless u) : Bangless (t ++ u) := by
  rw [Bangless, String.toList_append]
  exact List.not_mem_append ht hu

/-- A number has the exclamation marks of its unit only. -/
theorem bangless_quantity (value : Float) {unit : String} (h : Bangless unit) :
    Bangless (Quantity.text ⟨value, unit⟩) :=
  .append (Decimal.bang_not_mem_fixedPlaces _ _) h

/-- No separator of a list has an exclamation mark. -/
theorem bangless_glue (separator : Separator) : Bangless separator.glue := by
  cases separator <;> decide

/-- The text of a quotation mark is one of two. -/
theorem toString_quote {quote : Char} (h : isQuote quote = true) :
    toString quote = "\"" ∨ toString quote = "'" := by
  rcases Bool.or_eq_true_iff.1 h with h | h
  · exact .inl (by rw [beq_iff_eq.1 h]; rfl)
  · exact .inr (by rw [beq_iff_eq.1 h]; rfl)

/-- A quotation mark is not an exclamation mark. -/
theorem bangless_quote {quote : Char} (h : isQuote quote = true) : Bangless (toString quote) := by
  rcases toString_quote h with h | h <;> rw [h] <;> decide

/-- Texts without exclamation marks. -/
def Diction.bangless : Diction where
  leaf
    | .word t => Bangless t
    | .string t quote => Bangless t ∧ isQuote quote = true
  filled := Bangless

/-- Where no text has an exclamation mark, none comes of them. -/
theorem Diction.bangless_lawful : Diction.bangless.Lawful where
  word h := h
  minus h := .append (t := "-") (by decide) h
  truth := (by decide : ∀ b : Bool, Bangless (if b then "true" else "false"))
  number value _ h := bangless_quantity value h
  none := (by decide : Bangless "")
  glue separator _ _ ht hu := .append (.append ht (bangless_glue separator)) hu
  call hname ht :=
    .append (u := ")") (.append (.append (u := "(") hname (by decide)) ht) (by decide)
  ruleset := (by decide : Bangless "[detached ruleset]")
  fill := by
    intro t u quote view hleaf hview h
    have hu : Bangless u := View.not_mem_of_interpolate hview hleaf.1 h
    have hquote : Bangless (toString quote) := bangless_quote hleaf.2
    exact ⟨hu, .append (.append hquote hu) hquote⟩

/-! ## Texts without the marker -/

/-- Whether the marker does not occur in a text. -/
def Unmarked (t : String) : Prop := occurrences marker t.toList = 0

/-- The marker starts with an exclamation mark. -/
theorem Bangless.unmarked {t : String} (h : Bangless t) : Unmarked t := occurrences_eq_zero h

/-- Whether a text keeps others apart: it has characters, and the marker has none of them. -/
def separates (sep : String) : Bool :=
  !sep.toList.isEmpty && sep.toList.all fun c => !marker.contains c

/-- The separators of lists keep values apart. -/
theorem separates_glue (separator : Separator) : separates separator.glue := by
  cases separator <;> decide

/-- Quotation marks keep a string apart from what surrounds it. -/
theorem separates_quote {quote : Char} (h : isQuote quote = true) : separates (toString quote) := by
  rcases toString_quote h with h | h <;> rw [h] <;> decide

/-- What separates texts makes no marker of them. -/
theorem Unmarked.append {t sep u : String} (ht : Unmarked t) (hsep : separates sep)
    (hu : Unmarked u) : Unmarked (t ++ sep ++ u) := by
  have hchars : sep.toList ≠ [] ∧ ∀ c ∈ sep.toList, c ∉ marker := by simpa [separates] using hsep
  have hcount := occurrences_append_append (by decide : marker ≠ []) hchars.1 hchars.2 t.toList
    u.toList
  rw [Unmarked, String.toList_append, String.toList_append, hcount, ht, hu]

/-- Strings without placeholders and without the marker, and words without exclamation marks. -/
def Diction.unmarked : Diction where
  leaf
    | .word t => Bangless t
    | .string t quote => Unmarked t ∧ Whole t.toList ∧ isQuote quote = true
  filled := Unmarked

/-- Where no text has the marker and nothing is filled in, none comes of them. -/
theorem Diction.unmarked_lawful : Diction.unmarked.Lawful where
  word h := h.unmarked
  minus h := by
    have hminus := Unmarked.append (t := "") rfl (by decide : separates "-") h
    rwa [String.empty_append] at hminus
  truth b := by cases b <;> rfl
  number value _ h := (bangless_quantity value h).unmarked
  none := rfl
  glue separator _ _ ht hu := ht.append (separates_glue separator) hu
  call hname ht := by
    have hopen := hname.unmarked.append (by decide : separates "(") ht
    have hclose := hopen.append (u := "") (by decide : separates ")") rfl
    rwa [String.append_empty] at hclose
  ruleset := rfl
  fill := by
    intro t u quote view hleaf _ h
    obtain ⟨ht, hwhole, hquote⟩ := hleaf
    rw [view.interpolate_of_whole hwhole] at h
    cases h
    have hopen := Unmarked.append (t := "") rfl (separates_quote hquote) ht
    have hclose := hopen.append (u := "") (separates_quote hquote) rfl
    rw [String.empty_append, String.append_empty] at hclose
    exact ⟨ht, hclose⟩

/-- Strings that are not filled in to the marker: none of them has an exclamation mark, or none has
the marker and none has placeholders. -/
def StringsUnmarked (leaves : List Leaf) : Prop :=
  (∀ t quote, .string t quote ∈ leaves → Bangless t) ∨
    ∀ t quote, .string t quote ∈ leaves → Unmarked t ∧ Whole t.toList

/-- Where the texts of a stylesheet have the marker neither in a string nor as a word, they are of a
diction in which no text has it. -/
theorem exists_diction {leaves : List Leaf} (hread : AllRead leaves)
    (hword : .word "!important" ∉ leaves) (hstrings : StringsUnmarked leaves) :
    ∃ D : Diction, D.Lawful ∧ (∀ l ∈ leaves, D.leaf l) ∧ ∀ t, D.filled t → Unmarked t := by
  have hbangless : ∀ t, .word t ∈ leaves → Bangless t := by
    intro t ht
    rcases hread _ ht with h | rfl
    · exact h
    · exact absurd ht hword
  rcases hstrings with hstrings | hstrings
  · refine ⟨.bangless, Diction.bangless_lawful, fun l hl => ?_, fun _ ht => ht.unmarked⟩
    cases l with
    | word t => exact hbangless t hl
    | string t quote => exact ⟨hstrings t quote hl, hread _ hl⟩
  · refine ⟨.unmarked, Diction.unmarked_lawful, fun l hl => ?_, fun _ ht => ht⟩
    cases l with
    | word t => exact hbangless t hl
    | string t quote => exact ⟨(hstrings t quote hl).1, (hstrings t quote hl).2, hread _ hl⟩

/-! ## Evaluation -/

/-- A property whose value does not have the marker is marked by its flag alone. -/
theorem Css.Property.markers_eq {p : Css.Property} (h : Unmarked p.value) :
    p.markers = if p.important then 1 else 0 := by
  rw [markers, h, Nat.zero_add]

section
variable {limit : Nat}

/-- What a task comes to is what the function it stands for gives. -/
theorem Task.run_of_evaluates {α : Type} (t : Task α) {p q : Progress} {r : Except Error α}
    (h : Evaluates limit (t.plan limit) p r q) : (t.expand limit limit).run p = (r, q) := by
  obtain ⟨hr, hq⟩ := (t.settles limit limit p (Nat.le_add_right _ _)).evaluates.unique h
  exact Prod.ext hr.symm hq.symm

/-- Every property of what an important call comes to is important. -/
theorem Call.returns_important (caller : ScopeId) {call : Call} (h : call.important = true) :
    Returns limit (fun nodes => ∀ d ∈ Css.declaredOf nodes, d.important = true)
      ((Task.call caller call).plan limit) := by
  refine Returns.bind fun args => Returns.bind fun candidates => ?_
  split
  · exact Returns.bind fun _ => Returns.bind fun _ => returns_pure nofun
  · refine Returns.bind fun _ => Returns.bind fun _ => Returns.bind fun selected =>
      Returns.bind fun _ => returns_pure fun d hd => ?_
    have hflags := Css.declaredOf_attachComments (f := Css.Property.important) (fun _ _ => rfl)
      call.comments (Css.Node.markAllImportant selected.1)
    rw [Css.declaredOf_markAllImportant, List.map_map] at hflags
    rw [Call.finish, if_pos h] at hd
    obtain ⟨e, -, he⟩ := List.mem_map.1 (hflags ▸ List.mem_map_of_mem hd)
    exact he.symm

/-- The values of an expanded stylesheet whose texts do not have the marker do not have it. -/
theorem Stylesheet.values_unmarked {sheet : Stylesheet} {nodes : List Css.Node}
    (hread : AllRead (Item.leavesOf sheet.body))
    (hword : .word "!important" ∉ Item.leavesOf sheet.body)
    (hstrings : StringsUnmarked (Item.leavesOf sheet.body))
    (h : (sheet.expand limit).1 = .ok nodes) : ∀ t ∈ Css.valuesOf nodes, Unmarked t := by
  obtain ⟨D, hD, hleaves, hfilled⟩ := exists_diction hread hword hstrings
  have halike := (Stylesheet.expand_alike hD sheet sheet (Body.alike_self _ hleaves) limit).1
  rw [h] at halike
  cases halike with
  | ok hnodes => exact fun t ht => hfilled t (hnodes.2 t ht)

/-- A stylesheet that was read and is evaluated, with the marker neither as part of a variable nor
in a string. Every property of the flat stylesheet has at most one marker. Every important call that
is carried out comes to properties that have exactly one, and each of them is in the flat
stylesheet. -/
theorem Stylesheet.markers_of_parse {source : String} {sheet : Stylesheet}
    (hparse : Stylesheet.parse source = .ok sheet) {flat : Css.Sheet} {problems : List Problem}
    (hsheet : sheet.evaluate limit = .ok (flat, problems))
    (hword : .word "!important" ∉ Item.leavesOf sheet.body)
    (hstrings : StringsUnmarked (Item.leavesOf sheet.body)) :
    (∀ d ∈ Css.flatOf flat.blocks, d.markers ≤ 1) ∧
    ∀ (caller : ScopeId) (call : Call) (p : Progress), call.important = true →
      Relation.ReflTransGen (Situation.Calls limit) ⟨.block Arena.root sheet.body, Progress.start⟩
        ⟨.call caller call, p⟩ →
      ∃ nodes q, (call.expand (expandBody limit limit) caller).run p = (.ok nodes, q) ∧
        ∀ d ∈ Css.declaredOf nodes, d.markers = 1 ∧
          ∃ e ∈ Css.flatOf flat.blocks, e = { d with comments := e.comments } := by
  obtain ⟨nodes, q, hnodes, rfl, htop⟩ := evaluates_of_evaluate hsheet
  have hexpand : (sheet.expand limit).1 = .ok nodes :=
    congrArg Prod.fst (Task.run_of_evaluates _ hnodes)
  have hvalues := values_unmarked (leaves_read hparse) hword hstrings hexpand
  have hflat := Css.flatOf_perm htop
  refine ⟨fun d hd => ?_, fun caller call p himportant hcalled => ?_⟩
  · have hd : d ∈ Css.declaredOf nodes := hflat.mem_iff.1 hd
    rw [Css.Property.markers_eq (hvalues _ (List.mem_map_of_mem hd))]
    split <;> omega
  · obtain ⟨inner, r, ms, hinner, hms, hstands⟩ :=
      Situation.delivers_of_reaches hcalled rfl hnodes rfl
    cases hms
    refine ⟨inner, r, Task.run_of_evaluates _ hinner, fun d hd => ?_⟩
    have hmarked : d.important = true :=
      Call.returns_important caller himportant p inner r hinner d hd
    have hvalue : d.value ∈ Css.valuesOf nodes := hstands.values (List.mem_map_of_mem hd)
    obtain ⟨e, he, heq⟩ := hstands.declared hd hmarked
    refine ⟨?_, e, hflat.mem_iff.2 he, heq⟩
    rw [Css.Property.markers_eq (hvalues _ hvalue), if_pos hmarked]

end

namespace Importance

/-- A mixin with a rule, and an important call of it. -/
def source : String := ".m() \x7b .a \x7b color: red; \x7d \x7d\n.m() !important;"

/-- The call, which is important. -/
def call : Call := ⟨[".m"], [], true, {}⟩

/-- What the source says, where the definition is at a site. -/
def sheet (site : Site) : Stylesheet := ⟨[], [
  .mixin site ⟨".m", [], none, [
    .rule ⟨[".a"], none, [.declaration ⟨"color", .keyword "red", false, {}⟩]⟩]⟩,
  .call call]⟩

/-- The site of the definition, if this is what was read. -/
def site? : Except ParseError Stylesheet → Option Site
  | .ok ⟨[], [.mixin site ⟨".m", [], none, [
      .rule ⟨[".a"], none, [.declaration ⟨"color", .keyword "red", false, ⟨[], []⟩⟩]⟩]⟩,
      .call ⟨[".m"], [], true, ⟨[], []⟩⟩]⟩ => some site
  | _ => none

/-- If what was read has the form of the example, it is the example with the definition at that
site. -/
theorem eq_sheet {read : Except ParseError Stylesheet} {site : Site} (h : site? read = some site) :
    read = .ok (sheet site) := by
  unfold site? at h
  split at h
  · cases h
    rfl
  · cases h

end Importance

open Importance in
/-- An important call of a mixin with a rule: the rule's property is marked once, by its flag. -/
theorem Stylesheet.markers_of_parse_rule :
    Stylesheet.parse source = .ok (sheet ⟨0, 44⟩) ∧ ∃ flat p nodes q,
      (sheet ⟨0, 44⟩).evaluate 1 = .ok (flat, []) ∧ (∀ d ∈ Css.flatOf flat.blocks, d.markers ≤ 1) ∧
      (call.expand (expandBody 1 1) Arena.root).run p = (.ok nodes, q) ∧
      nodes = [.rule [".a"] [.property ⟨"color", "red", true, {}⟩] {}] ∧
      ∀ d ∈ Css.declaredOf nodes, d.markers = 1 := by
  have hparse : Stylesheet.parse source = .ok (sheet ⟨0, 44⟩) := eq_sheet (by decide +kernel)
  have hword : .word "!important" ∉ Item.leavesOf (sheet ⟨0, 44⟩).body := by decide
  have hstrings : StringsUnmarked (Item.leavesOf (sheet ⟨0, 44⟩).body) := by
    refine .inl fun t quote h => ?_
    cases List.mem_singleton.1 h
  obtain ⟨flat, p, hsheet, hcalls, hrun⟩ : ∃ flat p, (sheet ⟨0, 44⟩).evaluate 1 = .ok (flat, []) ∧
      Situation.Calls 1 ⟨.block Arena.root (sheet ⟨0, 44⟩).body, Progress.start⟩
        ⟨.call Arena.root call, p⟩ ∧
      ((call.expand (expandBody 1 1) Arena.root).run p).1 =
        .ok [.rule [".a"] [.property ⟨"color", "red", true, {}⟩] {}] :=
    ⟨_, _, rfl, Asks.own .now, rfl⟩
  obtain ⟨hflat, hcall⟩ := Stylesheet.markers_of_parse hparse hsheet hword hstrings
  obtain ⟨nodes, q, hnodes, hmarkers⟩ := hcall Arena.root call p rfl (.single hcalls)
  rw [hnodes] at hrun
  cases hrun
  exact ⟨hparse, flat, p, _, q, hsheet, hflat, hnodes, rfl, fun d hd => (hmarkers d hd).1⟩

/-- A declaration and the variable in its value both have the marker, and there are no strings: the
property has it twice. -/
theorem important_twice :
    let source := "@c: red !important;\n.a \x7b color: @c !important; \x7d"
    ((Stylesheet.parse source).toOption.bind fun sheet =>
      (sheet.evaluate 256).toOption.map fun result =>
        (Item.leavesOf sheet.body, (Css.flatOf result.1.blocks).map Css.Property.markers)) =
      some ([.word "red", .word "!important"], [2]) ∧
    (compile source).toOption.map (·.css) =
      some ".a \x7b\n  color: red !important !important;\n\x7d" := by
  decide +kernel

end LessSheet
