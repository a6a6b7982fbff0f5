import LessSheet.Compile
import LessSheet.Proofs.Css.Flattening
import Mathlib.Data.List.Chain

/-! # What separates the properties of a minified stylesheet

Minified text is a sequence of pieces: headers with the brace that opens a block, properties,
semicolons, and the braces that close blocks (`piecesOf`). A property is kept apart from what
follows it in its block if the next piece is a semicolon; nothing follows it if that piece is the
closing brace.

Semicolons are put between two properties and nowhere else. So a stylesheet keeps its properties
apart exactly if none of its at-rules has properties beside children that are written
(`Sheet.minified_separated_iff`). In one that has both, the last property runs into the first child
(`minified_runs_on`).
-/

namespace LessSheet.Css

/-! ## Pieces -/

/-- A piece of minified text. -/
inductive Piece where
  | opening (header : String)
  | property (property : Property)
  | semicolon
  | closing

namespace Piece

/-- How a piece is written. -/
def text : Piece → String
  | .opening header => header ++ "\x7b"
  | .property p => p.minified
  | .semicolon => ";"
  | .closing => "\x7d"

/-- The property that a piece is, if it is one. -/
def property? : Piece → Option Property
  | .property p => some p
  | _ => none

/-- A piece does not run into the next one: after a property, there is a semicolon or the end of
the block. -/
def KeepsApart (x y : Piece) : Prop :=
  ∀ p, x = .property p → y = .semicolon ∨ y = .closing

end Piece

/-- The text of pieces one after the other. -/
def textOf (pieces : List Piece) : String := String.join (pieces.map Piece.text)

/-- Each property has a semicolon directly after it, unless it is the last thing in its block. -/
def Separated (pieces : List Piece) : Prop := pieces.IsChain Piece.KeepsApart

/-- The pieces of properties. -/
def propertyPieces (properties : List Property) : List Piece :=
  (properties.map Piece.property).intersperse .semicolon

/-- What an at-rule has before its block. -/
def atRuleHeader (name params : String) : String :=
  "@" ++ name ++ (if Text.trimString params == "" then "" else " " ++ Text.collapseString params)

mutual

/-- The pieces of a block. -/
def Block.pieces : Block → List Piece
  | .rule selectors properties _ =>
    if properties.isEmpty then []
    else .opening (",".intercalate selectors) :: (propertyPieces properties ++ [.closing])
  | .atRule name params properties children _ =>
    .opening (atRuleHeader name params) ::
      (propertyPieces properties ++ (piecesOf children ++ [.closing]))

/-- The pieces of several blocks, in order. -/
def piecesOf : List Block → List Piece
  | [] => []
  | b :: bs => b.pieces ++ piecesOf bs

end

/-- Whether a block is written at all: a rule without properties is not. -/
def Block.Written : Block → Prop
  | .rule _ properties _ => properties ≠ []
  | .atRule _ _ _ _ _ => True

mutual

/-- Whether no at-rule in a block has properties beside children that are written. -/
def Block.Unmixed : Block → Prop
  | .rule _ _ _ => True
  | .atRule _ _ properties children _ =>
    (properties = [] ∨ ∀ b ∈ children, ¬ b.Written) ∧ UnmixedAll children

/-- Whether no at-rule in several blocks has properties beside children that are written. -/
def UnmixedAll : List Block → Prop
  | [] => True
  | b :: bs => b.Unmixed ∧ UnmixedAll bs

end

/-! ## Minified text is made of the pieces -/

@[simp] theorem textOf_nil : textOf [] = "" := rfl

@[simp] theorem textOf_cons (x : Piece) (xs : List Piece) :
    textOf (x :: xs) = x.text ++ textOf xs := String.join_cons

@[simp] theorem textOf_append (xs ys : List Piece) :
    textOf (xs ++ ys) = textOf xs ++ textOf ys := by
  rw [textOf, List.map_append, String.join_append]
  rfl

/-- The pieces of properties give their minified text. -/
theorem textOf_propertyPieces (ps : List Property) :
    textOf (propertyPieces ps) = minifiedProperties ps := by
  induction ps with
  | nil => rfl
  | cons p ps ih =>
    cases ps with
    | nil => simp [propertyPieces, minifiedProperties, Piece.text]
    | cons q qs =>
      simp only [propertyPieces, minifiedProperties, List.map_cons, List.intersperse_cons_cons,
        String.intercalate_cons_cons, textOf_cons] at ih ⊢
      rw [ih]
      simp [Piece.text, String.append_assoc]

mutual

/-- The pieces of a block give its minified text, by recursion on its children. -/
theorem Block.textOf_pieces : ∀ b : Block, textOf b.pieces = b.minified
  | .rule selectors properties _ => by
    rw [Block.pieces, Block.minified]
    split
    · rfl
    · simp [textOf_propertyPieces, Piece.text, String.append_assoc]
  | .atRule name params properties children _ => by
    simp [Block.pieces, Block.minified, textOf_propertyPieces, textOf_piecesOf children,
      Piece.text, atRuleHeader, String.append_assoc]

/-- Blocks are minified to the text of their pieces. -/
theorem textOf_piecesOf : ∀ bs : List Block, textOf (piecesOf bs) = minifiedBlocks bs
  | [] => rfl
  | b :: bs => by
    rw [piecesOf, textOf_append, Block.textOf_pieces b, textOf_piecesOf bs, minifiedBlocks]

end

/-! ## The properties among the pieces -/

@[simp] theorem filterMap_propertyPieces (ps : List Property) :
    (propertyPieces ps).filterMap Piece.property? = ps := by
  induction ps with
  | nil => rfl
  | cons p ps ih =>
    cases ps with
    | nil => rfl
    | cons q qs => exact congrArg (p :: ·) ih

mutual

/-- The properties among the pieces of a block are those in it, in order. -/
theorem Block.filterMap_pieces (around : List (String × String)) : ∀ b : Block,
    b.pieces.filterMap Piece.property? = (b.placed around).map fun x => x.2.2
  | .rule selectors properties _ => by
    rw [Block.pieces, Block.placed, List.map_map]
    split
    · next h => simp [List.isEmpty_iff.1 h]
    · simp [List.filterMap_cons, Piece.property?, Function.comp_def]
  | .atRule name params properties children _ => by
    simp [Block.pieces, Block.placed, List.filterMap_cons, Piece.property?, Function.comp_def,
      filterMap_piecesOf (around ++ [(name, params)]) children]

/-- The properties among the pieces are those of the blocks, in order. -/
theorem filterMap_piecesOf (around : List (String × String)) : ∀ bs : List Block,
    (piecesOf bs).filterMap Piece.property? = (placedOf around bs).map fun x => x.2.2
  | [] => rfl
  | b :: bs => by
    rw [piecesOf, placedOf, List.filterMap_append, List.map_append, b.filterMap_pieces around,
      filterMap_piecesOf around bs]

end

/-! ## Where pieces are kept apart -/

/-- Only a property can run into what follows. -/
theorem Piece.keepsApart_of_property? {x : Piece} (h : x.property? = none) (y : Piece) :
    x.KeepsApart y := by
  rintro p rfl
  cases h

/-- Pieces after pieces that do not end with a property. -/
theorem separated_append {xs ys : List Piece}
    (h : ∀ x ∈ xs.getLast?, x.property? = none) :
    Separated (xs ++ ys) ↔ Separated xs ∧ Separated ys := by
  rw [Separated, List.isChain_append]
  refine and_congr_right fun _ => and_iff_left fun x hx y _ => ?_
  exact Piece.keepsApart_of_property? (h x hx) y

/-- What a header opens is kept apart from it. -/
theorem separated_opening {header : String} {xs : List Piece} :
    Separated (.opening header :: xs) ↔ Separated xs :=
  List.isChain_cons.trans (and_iff_right fun _ _ => Piece.keepsApart_of_property? rfl _)

/-- Properties are separated from each other. -/
theorem separated_propertyPieces (ps : List Property) : Separated (propertyPieces ps) := by
  induction ps with
  | nil => exact .nil
  | cons p ps ih =>
    cases ps with
    | nil => exact .singleton _
    | cons q qs =>
      have hnext : Piece.KeepsApart .semicolon (.property q) := Piece.keepsApart_of_property? rfl _
      have hhead : ∀ y ∈ (propertyPieces (q :: qs)).head?, y = .property q := by
        cases qs <;> simp [propertyPieces]
      refine List.isChain_cons_cons.2 ⟨fun _ _ => .inl rfl, List.isChain_cons.2 ⟨?_, ih⟩⟩
      intro y hy
      exact hhead y hy ▸ hnext

/-- Properties end with a property. -/
theorem getLast?_propertyPieces {ps : List Property} (h : ps ≠ []) :
    ∃ p, (propertyPieces ps).getLast? = some (.property p) := by
  induction ps with
  | nil => exact absurd rfl h
  | cons p ps ih =>
    cases ps with
    | nil => exact ⟨p, rfl⟩
    | cons q qs =>
      obtain ⟨last, hlast⟩ := ih (List.cons_ne_nil _ _)
      refine ⟨last, ?_⟩
      have hne : propertyPieces (q :: qs) ≠ [] := by
        intro h
        rw [h] at hlast
        cases hlast
      show (.property p :: .semicolon :: propertyPieces (q :: qs)).getLast? = _
      rw [List.getLast?_cons_cons, List.getLast?_cons_of_ne_nil hne]
      exact hlast

/-- A block that is written starts with its header and ends with its brace. -/
theorem Block.pieces_eq (b : Block) :
    (b.pieces = [] ∧ ¬ b.Written) ∨
      (∃ header inside, b.pieces = .opening header :: (inside ++ [.closing])) ∧ b.Written := by
  cases b with
  | rule selectors properties comments =>
    cases properties with
    | nil => exact .inl ⟨rfl, fun h => h rfl⟩
    | cons p ps => exact .inr ⟨⟨_, _, rfl⟩, List.cons_ne_nil _ _⟩
  | atRule name params properties children comments =>
    refine .inr ⟨⟨atRuleHeader name params, propertyPieces properties ++ piecesOf children, ?_⟩,
      trivial⟩
    rw [Block.pieces, List.append_assoc]

/-- Blocks have no pieces, and then none of them is written, or they start with a header. -/
theorem piecesOf_eq (bs : List Block) :
    (piecesOf bs = [] ∧ ∀ b ∈ bs, ¬ b.Written) ∨
      (∃ header rest, piecesOf bs = .opening header :: rest) ∧ ∃ b ∈ bs, b.Written := by
  induction bs with
  | nil => exact .inl ⟨rfl, fun _ h => nomatch h⟩
  | cons b bs ih =>
    rcases b.pieces_eq with ⟨hb, hw⟩ | ⟨⟨header, inside, hb⟩, hw⟩
    · rw [piecesOf, hb, List.nil_append]
      rcases ih with ⟨h, hall⟩ | ⟨h, c, hc, hcw⟩
      · exact .inl ⟨h, List.forall_mem_cons.2 ⟨hw, hall⟩⟩
      · exact .inr ⟨h, c, .tail _ hc, hcw⟩
    · refine .inr ⟨⟨header, inside ++ [.closing] ++ piecesOf bs, ?_⟩, b, .head _, hw⟩
      rw [piecesOf, hb, List.cons_append]

/-- Blocks are kept apart from each other by their braces. -/
theorem separated_piecesOf_cons (b : Block) (bs : List Block) :
    Separated (piecesOf (b :: bs)) ↔ Separated b.pieces ∧ Separated (piecesOf bs) := by
  refine separated_append fun x hx => ?_
  rcases b.pieces_eq with ⟨hb, -⟩ | ⟨⟨header, inside, hb⟩, -⟩
  · rw [hb] at hx
    cases hx
  · rw [hb, ← List.cons_append, List.getLast?_concat] at hx
    cases hx
    rfl

/-- The block of an at-rule: its properties run into its children, if it has both. -/
theorem separated_inside (properties : List Property) (children : List Block) :
    Separated (propertyPieces properties ++ (piecesOf children ++ [.closing])) ↔
      (properties = [] ∨ ∀ b ∈ children, ¬ b.Written) ∧ Separated (piecesOf children) := by
  have hclosed : Separated (piecesOf children ++ [.closing]) ↔ Separated (piecesOf children) := by
    refine List.isChain_append.trans ⟨fun h => h.1, fun h => ⟨h, .singleton _, ?_⟩⟩
    intro x _ y hy _ _
    cases hy
    exact .inr rfl
  rw [Separated, List.isChain_append]
  refine Iff.trans (and_iff_right (separated_propertyPieces properties)) ?_
  refine (and_congr_left' hclosed).trans ?_
  rw [and_comm]
  refine and_congr_left' ?_
  by_cases hps : properties = []
  · subst hps
    exact ⟨fun _ => .inl rfl, fun _ _ hx => nomatch hx⟩
  obtain ⟨p, hp⟩ := getLast?_propertyPieces hps
  rw [hp]
  -- the piece after the last property is the brace, or the header of the first child
  rcases piecesOf_eq children with ⟨hnil, hall⟩ | ⟨⟨header, rest, hcons⟩, b, hb, hw⟩
  · rw [hnil]
    refine ⟨fun _ => .inr hall, fun _ x _ y hy _ _ => ?_⟩
    cases hy
    exact .inr rfl
  · rw [hcons]
    constructor
    · intro h
      rcases h _ rfl _ rfl p rfl with h | h <;> cases h
    · rintro (h | h)
      · exact absurd h hps
      · exact absurd hw (h b hb)

mutual

/-- Properties are separated in a block exactly if none of its at-rules has some beside children
that are written. -/
theorem Block.separated_pieces : ∀ b : Block, Separated b.pieces ↔ b.Unmixed
  | .rule selectors properties comments => by
    have hinside := separated_inside properties []
    rw [Block.pieces, Block.Unmixed, iff_true]
    split
    · exact .nil
    · exact separated_opening.2 (hinside.2 ⟨.inr fun _ h => (nomatch h), .nil⟩)
  | .atRule name params properties children _ => by
    rw [Block.pieces, Block.Unmixed, separated_opening, separated_inside,
      separated_piecesOf children]

/-- Blocks keep their properties apart exactly if they are not mixed. -/
theorem separated_piecesOf : ∀ bs : List Block, Separated (piecesOf bs) ↔ UnmixedAll bs
  | [] => ⟨fun _ => trivial, fun _ => .nil⟩
  | b :: bs => by
    rw [separated_piecesOf_cons, UnmixedAll, b.separated_pieces, separated_piecesOf bs]

end

/-- The minified text of a stylesheet is made of its imports and the pieces of its blocks, and the
properties among the pieces are those of the stylesheet, in order. Each of them that is followed by
something in its block has a semicolon directly after its text, exactly if no at-rule of the
stylesheet has properties beside children that are written. -/
theorem Sheet.minified_separated_iff (sheet : Sheet) :
    sheet.minified = dropLineEnds (importLines sheet.imports ++ textOf (piecesOf sheet.blocks)) ∧
    (piecesOf sheet.blocks).filterMap Piece.property? =
      (placedOf [] sheet.blocks).map (fun x => x.2.2) ∧
    (Separated (piecesOf sheet.blocks) ↔ UnmixedAll sheet.blocks) := by
  refine ⟨?_, filterMap_piecesOf [] sheet.blocks, separated_piecesOf sheet.blocks⟩
  rw [Sheet.minified, textOf_piecesOf]

/-- A page with a margin and a box in its corner: the margin runs into the box. -/
theorem minified_runs_on :
    let source := "@page { margin: 0; @top-left { content: none; } }"
    let margin : Property := ⟨"margin", "0", false, {}⟩
    let corner : Block := .atRule "top-left" "" [⟨"content", "none", false, {}⟩] [] {}
    let page : Block := .atRule "page" "" [margin] [corner] {}
    (compile source { minify := true }).toOption.map (·.css) =
        some "@page\x7bmargin:0@top-left\x7bcontent:none\x7d\x7d" ∧
      Sheet.minified ⟨[], [page]⟩ = "@page\x7bmargin:0@top-left\x7bcontent:none\x7d\x7d" ∧
      ¬ Separated (piecesOf [page]) := by
  refine ⟨by decide +kernel, by decide +kernel, ?_⟩
  rw [separated_piecesOf]
  rintro ⟨⟨h | h, -⟩, -⟩
  · cases h
  · exact h _ (.head _) trivial

end LessSheet.Css
