import LessSheet.Proofs.Grammar.Shape
import LessSheet.Proofs.Syntax.Likeness

/-! # The texts that are read

In the texts of a stylesheet that was read from a source, the importance marker stands for itself: a
word holds an exclamation mark only if it is the marker, which comes of a variable declared with it
(`Item.IsRead.important`). Everything else is kept in strings, and a string has one of the two
quotes (`Stylesheet.leaves_read`).
-/

namespace LessSheet

open Text

/-- A text as it can be read: a word without exclamation marks or the importance marker, or a string
with one of the two quotes. -/
def Leaf.IsRead : Leaf → Prop
  | .word text => '!' ∉ text.toList ∨ text = "!important"
  | .string _ quote => isQuote quote = true

/-- Whether texts can all be read. -/
def AllRead (leaves : List Leaf) : Prop := ∀ l ∈ leaves, l.IsRead

@[simp] theorem allRead_nil : AllRead [] := nofun

@[simp] theorem allRead_cons {l : Leaf} {ls : List Leaf} :
    AllRead (l :: ls) ↔ l.IsRead ∧ AllRead ls := List.forall_mem_cons

@[simp] theorem allRead_append {ls ks : List Leaf} :
    AllRead (ls ++ ks) ↔ AllRead ls ∧ AllRead ks := List.forall_mem_append

@[simp] theorem allRead_flatMap {α : Type} {xs : List α} {f : α → List Leaf} :
    AllRead (xs.flatMap f) ↔ ∀ x ∈ xs, AllRead (f x) := List.forall_mem_flatMap

/-- A word without exclamation marks. -/
theorem allRead_word {text : String} (h : '!' ∉ text.toList) : AllRead [.word text] :=
  allRead_cons.2 ⟨.inl h, allRead_nil⟩

/-- A guard has the texts of its condition, if it has one. -/
theorem allRead_guard {g : Option Condition} (h : ∀ c ∈ g, AllRead c.leaves) :
    AllRead (Guard.leaves g) := by
  cases g with
  | none => exact allRead_nil
  | some c => exact h c rfl

/-- Expressions have the texts of each of them. -/
theorem allRead_exprs {es : List Expr} (h : ∀ e ∈ es, AllRead e.leaves) :
    AllRead (Expr.leavesOf es) := by
  rw [Expr.leavesOf_eq]
  exact allRead_flatMap.2 h

/-- A block has the texts of each of its statements. -/
theorem allRead_body {xs : List Item} (h : ∀ x ∈ xs, AllRead x.leaves) :
    AllRead (Item.leavesOf xs) := by
  rw [Item.leavesOf_eq]
  exact allRead_flatMap.2 h

/-! What has a shape in which it can be read holds texts that can be read, by induction on that
shape. -/

mutual

/-- An expression in such a shape has texts that can be read. -/
theorem Expr.IsRead.leaves : ∀ {e : Expr}, e.IsRead → AllRead e.leaves
  | _, .number _ h => allRead_word h
  | _, .keyword h => allRead_word h
  | _, .quoted _ _ h => allRead_cons.2 ⟨h, allRead_nil⟩
  | _, .ref _ => allRead_nil
  | _, .negate h => h.leaves
  | _, .operation _ hlhs hrhs => allRead_append.2 ⟨hlhs.leaves, hrhs.leaves⟩
  | _, .list _ _ h => allRead_exprs fun e he => (h e he).leaves
  | _, .function hname h => allRead_cons.2 ⟨.inl hname, allRead_exprs fun e he => (h e he).leaves⟩
  | _, .ruleset _ h => allRead_body fun x hx => (h x hx).leaves

/-- A condition has texts that can be read: they are those of its expressions. -/
theorem Condition.IsRead.leaves : ∀ {c : Condition}, c.IsRead → AllRead c.leaves
  | _, .truthy h => h.leaves
  | _, .compare _ hlhs hrhs => allRead_append.2 ⟨hlhs.leaves, hrhs.leaves⟩
  | _, .not h => h.leaves
  | _, .and hlhs hrhs => allRead_append.2 ⟨hlhs.leaves, hrhs.leaves⟩
  | _, .or hlhs hrhs => allRead_append.2 ⟨hlhs.leaves, hrhs.leaves⟩

/-- A parameter has texts that can be read: they are those of its default or its pattern. -/
theorem Param.IsRead.leaves : ∀ {p : Param}, p.IsRead → AllRead p.leaves
  | .named _ none, .named _ _ => allRead_nil
  | .named _ (some e), .named _ h => (h e rfl).leaves
  | _, .rest _ => allRead_nil
  | _, .pattern h => h.leaves

/-- A statement has texts that can be read. The importance marker after the value of a variable is
the one word with an exclamation mark. -/
theorem Item.IsRead.leaves : ∀ {x : Item}, x.IsRead → AllRead x.leaves
  | .declaration ⟨_, _, _, _⟩, .declaration h => h.leaves
  | .rule ⟨_, _, _⟩, .rule _ _ hguard hbody => allRead_append.2
      ⟨allRead_guard fun c hc => (hguard c hc).leaves, allRead_body fun x hx => (hbody x hx).leaves⟩
  | _, .atRule _ _ h => allRead_body fun x hx => (h x hx).leaves
  | _, .detachedCall _ _ => allRead_nil
  | _, .assign _ h => h.leaves
  | _, .important _ h => allRead_append.2 ⟨h.leaves, allRead_cons.2 ⟨.inr rfl, allRead_nil⟩⟩
  | .mixin _ ⟨_, params, _, _⟩, .mixin _ _ hparams hguard hbody => by
    have hdefaults : AllRead (Param.leavesOf params) := by
      rw [Param.leavesOf_eq]
      exact allRead_flatMap.2 fun p hp => (hparams p hp).leaves
    have hcondition := allRead_guard fun c hc => (hguard c hc).leaves
    exact allRead_append.2 ⟨allRead_append.2 ⟨hdefaults, hcondition⟩,
      allRead_body fun x hx => (hbody x hx).leaves⟩
  | .call ⟨_, args, _, _⟩, .call _ hargs => by
    show AllRead (Argument.leavesOf args)
    rw [Argument.leavesOf_eq]
    exact allRead_flatMap.2 fun arg harg => (hargs arg harg).leaves

end

/-- The texts of a stylesheet that was read. -/
theorem Stylesheet.leaves_read {source : String} {document : Nat} {sheet : Stylesheet}
    (h : Stylesheet.parse source document = .ok sheet) : AllRead (Item.leavesOf sheet.body) := by
  have hread : ∀ x ∈ sheet.body, x.IsRead := Grammar.parse_yields (fun document depth =>
    Grammar.stylesheet_read (Grammar.level_reads document depth)) h
  exact allRead_body fun x hx => (hread x hx).leaves

end LessSheet
