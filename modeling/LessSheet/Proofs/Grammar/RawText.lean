import LessSheet.Compile
import LessSheet.Proofs.Grammar.StatementText
import LessSheet.Proofs.Text.Interpolation

/-! # Strings in raw functions

The argument of a raw function such as `url` is kept as it is written, with a pair of braces put
around every name after an `@` (`braceNames`), and is then filled in like a string. So it has two
passes over its text where a string has one: together they fill in what either pass finds
(`fill_braceNames`), which is `@{name}` and `@name`.

A string is therefore the same inside `url` as outside exactly if no `@` in it stands directly
before a character of a name (`Stylesheet.parse_url`). File names such as `img@2x.png` are not.
-/

namespace LessSheet

namespace Text

/-! ## Holes -/

section
variable {c d : Char} {name r s t : List Char} {h : Hole}

/-- The name after `@` is a hole up to where it ends. -/
theorem bare?_name (hname : IsHoleName name) (hr : EndsHoleName r) :
    bare? ('@' :: (name ++ r)) = some ⟨name, name.length + 1⟩ := by
  simp only [bare?, holeName?_name hname hr, Option.map_some]

/-- A hole without braces is `@` and a name. -/
theorem eq_of_bare? (hs : bare? s = some h) :
    ∃ name r, IsHoleName name ∧ EndsHoleName r ∧ h = ⟨name, name.length + 1⟩ ∧
      s = '@' :: (name ++ r) := by
  unfold bare? at hs
  split at hs
  · next u =>
    obtain ⟨name, hfound, rfl⟩ := Option.map_eq_some_iff.1 hs
    obtain ⟨hname, r, hr, rfl⟩ := eq_append_of_holeName? hfound
    exact ⟨name, r, hname, hr, rfl, rfl⟩
  · cases hs

/-- Every text is made of holes of both shapes and of characters that begin neither. -/
@[elab_as_elim]
theorem hole_induction {P : List Char → Prop} (nil : P [])
    (braced : ∀ name r, IsHoleName name → P r → P ('@' :: '{' :: (name ++ '}' :: r)))
    (bare : ∀ name r, IsHoleName name → EndsHoleName r → P r → P ('@' :: (name ++ r)))
    (char : ∀ c r, braced? (c :: r) = none → bare? (c :: r) = none → P r → P (c :: r))
    (s : List Char) : P s := by
  induction hlen : s.length using Nat.strong_induction_on generalizing s with
  | h n ih =>
    subst hlen
    cases s with
    | nil => exact nil
    | cons c r =>
      cases hbraced : braced? (c :: r) with
      | some x =>
        obtain ⟨name, u, hname, -, heq⟩ := eq_of_braced? hbraced
        rw [heq] at ih ⊢
        have hlt : u.length < ('@' :: '{' :: (name ++ '}' :: u)).length := by
          simp only [List.length_cons, List.length_append]
          omega
        exact braced name u hname (ih _ hlt u rfl)
      | none =>
        cases hbare : bare? (c :: r) with
        | some x =>
          obtain ⟨name, u, hname, hu, -, heq⟩ := eq_of_bare? hbare
          rw [heq] at ih ⊢
          have hlt : u.length < ('@' :: (name ++ u)).length := by
            simp only [List.length_cons, List.length_append]
            omega
          exact bare name u hname hu (ih _ hlt u rfl)
        | none => exact char c r hbraced hbare (ih _ (by simp) r rfl)

end

/-! ## Both shapes -/

/-- A hole of the shape `@{name}` or `@name`. -/
def named? (s : List Char) : Option Hole := (braced? s).or (bare? s)

section
variable {c : Char} {name r s t w : List Char}

/-- A hole without braces begins with `@`. -/
theorem bare?_of_ne (hc : c ≠ '@') (r : List Char) : bare? (c :: r) = none := by
  unfold bare?
  split
  · next heq => exact absurd (List.cons.inj heq).1 hc
  · rfl

/-- A hole of either shape begins with `@`. -/
theorem named?_of_ne (hc : c ≠ '@') (r : List Char) : named? (c :: r) = none := by
  rw [named?, braced?_of_ne hc, bare?_of_ne hc, Option.or_none]

/-- A brace is no character of a name. -/
theorem bare?_brace (r : List Char) : bare? ('@' :: '{' :: r) = none := by
  have hnone : ('{' :: r).takeWhile isHoleChar = [] :=
    List.takeWhile_cons_of_neg (by decide)
  simp only [bare?, holeName?, hnone, Option.map_none]

/-- A name has no brace in front. -/
theorem braced?_bare (hname : IsHoleName name) (r : List Char) :
    braced? ('@' :: (name ++ r)) = none := by
  cases name with
  | nil => exact absurd rfl hname.ne_nil
  | cons c name =>
    have hc : c ≠ '{' := ne_of_isHoleChar (hname.chars c (.head _)) rfl
    rw [List.cons_append]
    unfold braced?
    split
    · next heq => exact absurd (List.cons.inj (List.cons.inj heq).2).1 hc
    · rfl

/-- A name in braces is a hole if both shapes are searched for. -/
theorem pieces_named_braced (hname : IsHoleName name) (r : List Char) :
    pieces named? ('@' :: '{' :: (name ++ '}' :: r)) =
      .hole name ('@' :: '{' :: (name ++ ['}'])) :: pieces named? r := by
  have hfound : named? ('@' :: '{' :: (name ++ '}' :: r)) = some ⟨name, name.length + 3⟩ := by
    rw [named?, braced?_name hname, Option.some_or]
  rw [hole_text] at hfound ⊢
  exact pieces_hole (hfound.trans (by simp))

/-- A name without braces is a hole if both shapes are searched for. -/
theorem pieces_named_bare (hname : IsHoleName name) (hr : EndsHoleName r) :
    pieces named? ('@' :: (name ++ r)) = .hole name ('@' :: name) :: pieces named? r := by
  have hfound : named? ('@' :: (name ++ r)) = some ⟨name, name.length + 1⟩ := by
    rw [named?, braced?_bare hname, bare?_name hname hr, Option.none_or]
  exact pieces_hole hfound

/-- A name without braces is no hole if only braces are searched for. -/
theorem pieces_braced_bare (hname : IsHoleName name) (r : List Char) :
    pieces braced? ('@' :: (name ++ r)) = ('@' :: name).map .char ++ pieces braced? r := by
  have hplain : ∀ c ∈ name, ∀ r, braced? (c :: r) = none := fun c hc =>
    braced?_of_ne (ne_of_isHoleChar (hname.chars c hc) rfl)
  rw [pieces_char (braced?_bare hname r), pieces_plain hplain]
  rfl

/-! ## Braces around names -/

/-- A character that begins no bare name stays as it is. -/
theorem braceNames_char (h : bare? (c :: r) = none) : braceNames (c :: r) = c :: braceNames r := by
  rw [braceNames, pieces_char h]
  rfl

/-- A text without `@` stays as it is. -/
theorem braceNames_plain (hw : '@' ∉ w) (r : List Char) :
    braceNames (w ++ r) = w ++ braceNames r := by
  induction w with
  | nil => rfl
  | cons c w ih =>
    rw [List.mem_cons, not_or] at hw
    rw [List.cons_append, braceNames_char (bare?_of_ne (Ne.symm hw.1) _), ih hw.2]
    rfl

/-- A name in braces stays as it is. -/
theorem braceNames_braced (hname : IsHoleName name) (r : List Char) :
    braceNames ('@' :: '{' :: (name ++ '}' :: r)) =
      '@' :: '{' :: (name ++ '}' :: braceNames r) := by
  have hplain : '@' ∉ '{' :: (name ++ ['}']) := by simp [hname.not_mem (d := '@') rfl]
  have hrest := braceNames_plain hplain r
  rw [braceNames_char (bare?_brace _)]
  simpa using hrest

/-- A name without braces gets braces. -/
theorem braceNames_bare (hname : IsHoleName name) (hr : EndsHoleName r) :
    braceNames ('@' :: (name ++ r)) = '@' :: '{' :: (name ++ '}' :: braceNames r) := by
  have hcut : pieces bare? ('@' :: (name ++ r)) = .hole name ('@' :: name) :: pieces bare? r :=
    pieces_hole (bare?_name hname hr)
  rw [braceNames, hcut]
  simp [braceNames]

/-- What stands before the first `@` stays. -/
theorem takeWhile_braceNames (s : List Char) :
    (braceNames s).takeWhile (· != '@') = s.takeWhile (· != '@') := by
  induction s using hole_induction with
  | nil => rfl
  | braced name r hname ih => rw [braceNames_braced hname]; rfl
  | bare name r hname hr ih => rw [braceNames_bare hname hr]; rfl
  | char c r _ hbare ih =>
    rw [braceNames_char hbare]
    by_cases hc : c = '@'
    · simp [hc]
    · simp [hc, ih]

/-! ## What follows a string -/

/-- A quotation mark is in no name, so what stands behind it makes no difference to a hole before
it. -/
theorem bare?_quote (c : Char) (s t : List Char) :
    bare? (c :: (s ++ '"' :: t)) = bare? (c :: s) := by
  have hends : EndsHoleName ('"' :: t) := by
    rintro _ ⟨⟩
    rfl
  by_cases hc : c = '@'
  · subst hc
    rw [bare?, bare?, holeName?, holeName?, takeWhile_append_stop hends]
  · rw [bare?_of_ne hc, bare?_of_ne hc]

/-- What stands behind a quotation mark makes no difference to a hole of either shape before it. -/
theorem named?_quote (c : Char) (s t : List Char) :
    named? (c :: (s ++ '"' :: t)) = named? (c :: s) := by
  rw [named?, named?, braced?_append rfl (by decide), bare?_quote]

/-- A hole is not wider than the text that it is found in. -/
theorem bare?_width {x : Hole} (h : bare? s = some x) : x.width ≤ s.length := by
  obtain ⟨name, r, -, -, rfl, rfl⟩ := eq_of_bare? h
  simp

/-- A hole of either shape is not wider than the text that it is found in. -/
theorem named?_width {x : Hole} (h : named? s = some x) : x.width ≤ s.length := by
  rcases Option.or_eq_some_iff.1 h with h | ⟨-, h⟩
  · exact braced?_width h
  · exact bare?_width h

/-- Text in quotes is cut by itself. -/
theorem pieces_named_quoted {before after : List Char} (hbefore : '@' ∉ before)
    (hafter : '@' ∉ after) (s : List Char) :
    pieces named? (before ++ (s ++ '"' :: after)) =
      before.map .char ++ (pieces named? s ++ ('"' :: after).map .char) := by
  have hplain : ∀ w : List Char, '@' ∉ w → ∀ c ∈ w, ∀ r, named? (c :: r) = none :=
    fun w hw c hc => named?_of_ne fun heq => hw (heq ▸ hc)
  have hlast := pieces_plain (hplain ('"' :: after) (by simpa using hafter)) []
  rw [List.append_nil] at hlast
  rw [pieces_plain (hplain before hbefore), pieces_append (fun _ _ => named?_width)
    fun c s => named?_quote c s after, hlast]
  simp [pieces, piecesFrom]

/-- Around the string of a `url`, where there is no `@`, nothing gets braces. -/
theorem braceNames_quoted {before after : List Char} (hbefore : '@' ∉ before)
    (hafter : '@' ∉ after) (s : List Char) :
    braceNames (before ++ (s ++ '"' :: after)) = before ++ (braceNames s ++ '"' :: after) := by
  have happend : braceNames (s ++ '"' :: after) = braceNames s ++ braceNames ('"' :: after) := by
    rw [braceNames, pieces_append (fun _ _ => bare?_width) fun c s => bare?_quote c s after,
      List.flatMap_append]
    rfl
  have hlast := braceNames_plain (w := '"' :: after) (by simpa using hafter) []
  rw [List.append_nil] at hlast
  rw [braceNames_plain hbefore, happend, hlast]
  simp [braceNames, pieces, piecesFrom]

/-! ## Names without braces -/

/-- No `@` stands directly before a character of a name. -/
def NoBareName (s : List Char) : Prop := s.IsChain fun c d => c = '@' → isHoleChar d = false

instance (s : List Char) : Decidable (NoBareName s) :=
  inferInstanceAs (Decidable (List.IsChain _ s))

/-- No bare name begins at the first character, nor at any behind it. -/
theorem noBareName_cons : NoBareName (c :: r) ↔ bare? (c :: r) = none ∧ NoBareName r := by
  rw [NoBareName, List.isChain_cons]
  refine and_congr_left' ?_
  by_cases hc : c = '@'
  · subst hc
    cases r with
    | nil => simp [bare?, holeName?]
    | cons d r =>
      cases hd : isHoleChar d <;> simp [bare?, holeName?, hd]
  · simp [hc, bare?_of_ne hc]

/-- No bare name begins in a text without `@`. -/
theorem noBareName_plain (hw : '@' ∉ w) : NoBareName (w ++ r) ↔ NoBareName r := by
  induction w with
  | nil => rfl
  | cons c w ih =>
    rw [List.mem_cons, not_or] at hw
    rw [List.cons_append, noBareName_cons, ih hw.2, bare?_of_ne (Ne.symm hw.1)]
    simp

/-- A name in braces is not bare. -/
theorem noBareName_braced (hname : IsHoleName name) (r : List Char) :
    NoBareName ('@' :: '{' :: (name ++ '}' :: r)) ↔ NoBareName r := by
  have hplain : '@' ∉ '{' :: (name ++ ['}']) := by simp [hname.not_mem (d := '@') rfl]
  have hrest := noBareName_plain (r := r) hplain
  rw [noBareName_cons, bare?_brace]
  simpa using hrest

end

/-- The name of a hole. -/
def Piece.name? : Piece → Option (List Char)
  | .char _ => none
  | .hole name _ => some name

/-- The character outside holes. -/
def Piece.char? : Piece → Option Char
  | .char c => some c
  | .hole _ _ => none

/-- In a text without bare names both shapes find the same. -/
theorem pieces_named_of_noBareName {s : List Char} (h : NoBareName s) :
    pieces named? s = pieces braced? s := by
  induction s using hole_induction with
  | nil => rfl
  | braced name r hname ih =>
    rw [pieces_named_braced hname, pieces_braced hname, ih ((noBareName_braced hname r).1 h)]
  | bare name r hname hr _ =>
    have hnone := (noBareName_cons.1 h).1
    rw [bare?_name hname hr] at hnone
    cases hnone
  | char c r hbraced hbare ih =>
    have hnamed : named? (c :: r) = none := by rw [named?, hbraced, hbare, Option.or_none]
    rw [pieces_char hnamed, pieces_char hbraced, ih (noBareName_cons.1 h).2]

/-- A hole of the first shape is one of both. -/
theorem names_sublist (s : List Char) :
    ((pieces braced? s).filterMap Piece.name?).Sublist
      ((pieces named? s).filterMap Piece.name?) := by
  induction s using hole_induction with
  | nil => exact .slnil
  | braced name r hname ih =>
    rw [pieces_named_braced hname, pieces_braced hname]
    exact ih.cons_cons name
  | bare name r hname hr ih =>
    rw [pieces_named_bare hname hr, pieces_braced_bare hname, List.filterMap_append]
    have hnone : (('@' :: name).map Piece.char).filterMap Piece.name? = [] := by
      simp [Piece.name?]
    rw [hnone]
    exact ih.cons name
  | char c r hbraced hbare ih =>
    have hnamed : named? (c :: r) = none := by rw [named?, hbraced, hbare, Option.or_none]
    rw [pieces_char hnamed, pieces_char hbraced]
    exact ih

/-- A bare name is outside the holes of the first shape and in those of both. -/
theorem length_chars (s : List Char) :
    ((pieces named? s).filterMap Piece.char?).length ≤
        ((pieces braced? s).filterMap Piece.char?).length ∧
      (((pieces named? s).filterMap Piece.char?).length =
        ((pieces braced? s).filterMap Piece.char?).length → NoBareName s) := by
  induction s using hole_induction with
  | nil => exact ⟨Nat.le_refl _, fun _ => .nil⟩
  | braced name r hname ih =>
    rw [pieces_named_braced hname, pieces_braced hname, noBareName_braced hname]
    exact ih
  | bare name r hname hr ih =>
    have hchars : (('@' :: name).map Piece.char).filterMap Piece.char? = '@' :: name := by
      simp [Function.comp_def, Piece.char?]
    rw [pieces_named_bare hname hr, pieces_braced_bare hname, List.filterMap_append, hchars,
      List.filterMap_cons_none rfl, List.length_append, List.length_cons]
    exact ⟨by omega, fun heq => by omega⟩
  | char c r hbraced hbare ih =>
    have hnamed : named? (c :: r) = none := by rw [named?, hbraced, hbare, Option.or_none]
    rw [pieces_char hnamed, pieces_char hbraced, noBareName_cons]
    exact ⟨Nat.succ_le_succ ih.1, fun heq => ⟨hbare, ih.2 (Nat.succ.inj heq)⟩⟩

end Text

open Text

/-! ## Filling in -/

section
variable {view : View} {ps : List Piece} {s t w : List Char}

/-- Characters before the holes stay before what the holes are filled with. -/
theorem View.fill_chars_append (w : List Char) :
    view.fill (w.map .char ++ ps) = (w ++ ·) <$> view.fill ps := by
  rw [View.fill_append, View.fill_map_char]
  rfl

/-- Characters behind the holes stay behind what the holes are filled with. -/
theorem View.fill_append_chars (w : List Char) :
    view.fill (ps ++ w.map .char) = (· ++ w) <$> view.fill ps := by
  rw [View.fill_append, View.fill_map_char]
  rfl

/-- Two passes over a text fill in the holes of both shapes: what the first puts braces around is a
hole for the second, and no other hole comes or goes. -/
theorem View.fill_braceNames (view : View) (s : List Char) :
    view.fill (pieces braced? (braceNames s)) = view.fill (pieces named? s) := by
  induction s using hole_induction with
  | nil => rfl
  | braced name r hname ih =>
    rw [braceNames_braced hname, pieces_braced hname, pieces_named_braced hname, View.fill_hole,
      View.fill_hole, ih]
  | bare name r hname hr ih =>
    rw [braceNames_bare hname hr, pieces_braced hname, pieces_named_bare hname hr, View.fill_hole,
      View.fill_hole, ih]
  | char c r hbraced hbare ih =>
    have hnamed : named? (c :: r) = none := by rw [named?, hbraced, hbare, Option.or_none]
    have hstill : braced? (c :: braceNames r) = none := by
      by_cases hc : c = '@'
      · subst hc
        exact braced?_congr rfl (by decide) (takeWhile_braceNames r).symm hbraced
      · exact braced?_of_ne hc _
    rw [braceNames_char hbare, pieces_char hstill, pieces_char hnamed, View.fill_char,
      View.fill_char, ih]

/-- A text is filled in exactly if every hole has a value. -/
theorem View.fill_eq_ok_iff :
    (∃ t, view.fill ps = .ok t) ↔
      ∀ name ∈ ps.filterMap Piece.name?, ∃ v, view.lookup (String.ofList name) = .ok v := by
  induction ps with
  | nil => simp [View.fill]
  | cons p ps ih =>
    cases p with
    | char c =>
      rw [View.fill_char, List.filterMap_cons_none rfl, ← ih]
      cases view.fill ps <;> simp
    | hole name raw =>
      rw [View.fill_hole, List.filterMap_cons_some (f := Piece.name?) rfl, List.forall_mem_cons,
        ← ih]
      cases view.lookup (String.ofList name) with
      | error e => simp [bind, Except.bind]
      | ok v => cases view.fill ps <;> simp [bind, Except.bind]

/-- Where all variables are empty, the holes vanish and the characters stay. -/
theorem fill_blankView {names : List String}
    (h : ∀ name ∈ ps.filterMap Piece.name?, String.ofList name ∈ names) :
    (blankView names).fill ps = .ok (ps.filterMap Piece.char?) := by
  induction ps with
  | nil => rfl
  | cons p ps ih =>
    cases p with
    | char c =>
      rw [View.fill_char, ih h]
      rfl
    | hole name raw =>
      rw [List.filterMap_cons_some (f := Piece.name?) rfl, List.forall_mem_cons] at h
      rw [View.fill_hole, lookup_blankView h.1, ih h.2]
      rfl

end

/-! ## Strings in `url` -/

/-- A string, as an expression. -/
def stringExpr (text : List Char) : Expr := .quoted (String.ofList text) '"' false

/-- A string in `url`, as an expression. -/
def urlExpr (text : List Char) : Expr :=
  .quoted (String.ofList ("url".toList ++ '(' :: '"' :: (braceNames text ++ ['"', ')']))) '"' true

section
variable {view : View} {text : List Char}

/-- Evaluating a string fills in its placeholders, and those only. -/
theorem eval_stringExpr :
    (stringExpr text).eval view =
      (fun t => .quoted (String.ofList t) '"') <$> view.fill (pieces braced? text) := by
  simp [stringExpr, Expr.eval, View.interpolate]

/-- A string in `url` is filled in like any other text, but in the holes of both shapes. -/
theorem eval_urlExpr :
    (urlExpr text).eval view =
      (fun t => .keyword ("url(\"" ++ String.ofList t ++ "\")")) <$>
        view.fill (pieces named? text) := by
  have hopen : '@' ∉ ['u', 'r', 'l', '(', '"'] := by decide
  have hclose : '@' ∉ [')'] := by decide
  have hfill : view.fill (pieces braced? (['u', 'r', 'l', '(', '"'] ++
      (braceNames text ++ ['"', ')']))) =
        (fun t => ['u', 'r', 'l', '(', '"'] ++ (t ++ ['"', ')'])) <$>
          view.fill (pieces named? text) := by
    rw [← braceNames_quoted hopen hclose, View.fill_braceNames, pieces_named_quoted hopen hclose,
      View.fill_chars_append, View.fill_append_chars, Functor.map_map]
  have htext : ∀ t, "url".toList ++ '(' :: '"' :: (t ++ ['"', ')']) =
      ['u', 'r', 'l', '(', '"'] ++ (t ++ ['"', ')']) := fun t => rfl
  have hurl : ∀ t, String.ofList (['u', 'r', 'l', '(', '"'] ++ (t ++ ['"', ')'])) =
      "url(\"" ++ String.ofList t ++ "\")" := by
    intro t
    apply String.toList_inj.1
    simp
  rw [urlExpr, htext, Expr.eval, View.interpolate, String.toList_ofList, hfill, Functor.map_map]
  simp only [hurl]
  simp

/-- Where the string has no value, it has none in `url`: the holes of a string are holes there. -/
theorem eval_urlExpr_error {e : EvalError} (h : (stringExpr text).eval view = .error e) :
    ∃ e', (urlExpr text).eval view = .error e' := by
  rw [eval_stringExpr] at h
  rw [eval_urlExpr]
  cases hurl : view.fill (pieces named? text) with
  | error e' => exact ⟨e', rfl⟩
  | ok t =>
    have hnames := View.fill_eq_ok_iff.1 ⟨t, hurl⟩
    obtain ⟨u, hu⟩ := View.fill_eq_ok_iff.2 fun name hname =>
      hnames name ((names_sublist text).subset hname)
    rw [hu] at h
    cases h

/-- The string is the same in `url` in every view exactly if it has no bare name: with one, the view
in which all names are empty tells the two apart. -/
theorem eval_urlExpr_iff :
    (∀ (view : View) (t : String), (stringExpr text).eval view = .ok (.quoted t '"') →
      (urlExpr text).eval view = .ok (.keyword ("url(\"" ++ t ++ "\")"))) ↔ NoBareName text := by
  constructor
  · intro h
    obtain ⟨names, hnames⟩ : ∃ names : List String,
        ∀ name ∈ (pieces named? text).filterMap Piece.name?, String.ofList name ∈ names :=
      ⟨_, fun name hname => List.mem_map_of_mem hname⟩
    have hnamed := fill_blankView hnames
    have hbraced := fill_blankView fun name hname =>
      hnames name ((names_sublist text).subset hname)
    have hsame := h _ _ (by rw [eval_stringExpr, hbraced]; rfl)
    rw [eval_urlExpr, hnamed] at hsame
    have hchars : (pieces named? text).filterMap Piece.char? =
        (pieces braced? text).filterMap Piece.char? := by
      have htext := congrArg String.toList (Value.keyword.inj (Except.ok.inj hsame))
      simpa using htext
    exact (length_chars text).2 (congrArg List.length hchars)
  · intro h view t ht
    rw [eval_stringExpr] at ht
    rw [eval_urlExpr, pieces_named_of_noBareName h]
    cases hfill : view.fill (pieces braced? text) with
    | error e =>
      rw [hfill] at ht
      cases ht
    | ok u =>
      rw [hfill] at ht
      cases ht
      rfl

end

namespace Grammar

section
variable {document : Nat} {name : String} {text r : List Char} {e : Expr}

/-- The string in parentheses is found whole, parentheses in it or not. -/
theorem balanced?_string (hquote : '"' ∉ text) (hescape : '\\' ∉ text) (r : List Char) :
    balanced? ('(' :: '"' :: (text ++ '"' :: ')' :: r)) = some ('"' :: (text ++ ['"']), r) := by
  have hinside : balancedFrom 0 (some '"') (text ++ '"' :: ')' :: r) = some (text ++ ['"'], r) := by
    induction text with
    | nil => rfl
    | cons c text ih =>
      have hc : c ≠ '\\' := fun heq => hescape (heq ▸ .head _)
      have hne : c ≠ '"' := fun heq => hquote (heq ▸ .head _)
      have hrest := ih (fun hmem => hquote (.tail _ hmem)) fun hmem => hescape (.tail _ hmem)
      rw [List.cons_append, balancedFrom]
      · simp [hne, hrest]
      · exact fun heq => absurd heq hc
      · exact fun _ _ heq => absurd heq hc
  rw [balanced?, balancedFrom]
  simp [isQuote, hinside]

/-- A string in `url` as it is written. -/
def urlText (text : List Char) : List Char := "url".toList ++ '(' :: '"' :: (text ++ ['"', ')'])

/-- A `url` with a string is read as a text with its bare names in braces. -/
theorem signedTerm_url (L : Level) (hquote : '"' ∉ text) (hescape : '\\' ∉ text) (r : List Char) :
    signedTerm L (urlText text ++ r) = .ok (urlExpr text, r) := by
  have hsource : urlText text ++ r =
      "url".toList ++ '(' :: '"' :: (text ++ '"' :: ')' :: r) := by simp [urlText]
  have hnumeral : numeral? ("url".toList ++ '(' :: '"' :: (text ++ '"' :: ')' :: r)) = none :=
    numeral?_of_isAlpha (by decide) _
  have hname : identifier ("url".toList ++ '(' :: '"' :: (text ++ '"' :: ')' :: r)) =
      ("url".toList, '(' :: '"' :: (text ++ '"' :: ')' :: r)) :=
    identifier_name (by decide) (endsName_cons rfl _)
  have hraw : isRawFunction "url".toList = true := by decide
  have hstart : ("url".toList ++ '(' :: '"' :: (text ++ '"' :: ')' :: r)).head?.any startsKeyword =
      true := rfl
  have hbraced : braceNames ('"' :: (text ++ ['"'])) = '"' :: (braceNames text ++ ['"']) := by
    have hquotes : '@' ∉ ['"'] := by decide
    exact braceNames_quoted hquotes List.not_mem_nil text
  have hterm : plainTerm L ("url".toList ++ '(' :: '"' :: (text ++ '"' :: ')' :: r)) =
      .ok (urlExpr text, r) := by
    simp only [plainTerm, hnumeral, hstart, if_true, keywordOrFunction, hname, hraw, rawFunction,
      balanced?_string hquote hescape, hbraced]
    simp [urlExpr]
  rw [hsource]
  exact (signedTerm_of_isAlpha (by decide) _).trans hterm

/-- A string in `url` is a value. -/
theorem value_url (document : Nat) (hquote : '"' ∉ text) (hescape : '\\' ∉ text) (r : List Char) :
    value (unbounded document) true (urlText text ++ ';' :: r) =
      .ok (urlExpr text, ';' :: r) := by
  have hbegins : Begins (urlText text) := ⟨'u', _, rfl, rfl, by decide, rfl⟩
  exact value_of_signedTerm hbegins (fun r _ => signedTerm_url _ hquote hescape r)
    ⟨';', r, rfl, rfl⟩ (by simp)

end

end Grammar

open Grammar

/-- A string outside `url` and in it, as the value of a variable. Both are read, whatever the string
is, and where the first has no value, neither has the second. The second is the first with `url`
around it, in every view, exactly if no `@` in the string stands directly before a character of a
name. -/
theorem Stylesheet.parse_url (document : Nat) {name text : String} (hname : IsName name)
    (himport : name.toList.map Char.toLower ≠ "import".toList)
    (htext : ∀ c ∈ ['"', '\\'], c ∉ text.toList) :
    let literal : Expr := .quoted text '"' false
    Stylesheet.parse ("@" ++ name ++ ": \"" ++ text ++ "\";") document =
        .ok ⟨[], [.assign name literal]⟩ ∧
    ∃ url : Expr,
      Stylesheet.parse ("@" ++ name ++ ": url(\"" ++ text ++ "\");") document =
        .ok ⟨[], [.assign name url]⟩ ∧
      (∀ (view : View) (e : EvalError), literal.eval view = .error e →
        ∃ e', url.eval view = .error e') ∧
      ((∀ (view : View) (t : String), literal.eval view = .ok (.quoted t '"') →
        url.eval view = .ok (.keyword ("url(\"" ++ t ++ "\")"))) ↔ NoBareName text.toList) := by
  have hquote := htext '"' (by simp)
  have hescape := htext '\\' (by simp)
  have hstring : "@" ++ name ++ ": \"" ++ text ++ "\";" =
      String.ofList ('@' :: (name.toList ++ ':' :: ' ' :: '"' :: (text.toList ++ ['"', ';']))) := by
    apply String.toList_inj.1
    simp
  have hurl : "@" ++ name ++ ": url(\"" ++ text ++ "\");" =
      String.ofList ('@' :: (name.toList ++ ':' :: ' ' :: (urlText text.toList ++ [';']))) := by
    apply String.toList_inj.1
    simp [urlText]
  intro literal
  have hliteral : literal = stringExpr text.toList := by simp [literal, stringExpr]
  refine ⟨?_, urlExpr text.toList, ?_, ?_, ?_⟩
  · rw [hstring, hliteral]
    exact parse_assign hname himport ⟨'"', _, rfl, rfl, by decide⟩ (by simp)
      (value_string document hquote hescape [])
  · rw [hurl]
    exact parse_assign hname himport ⟨'u', _, rfl, rfl, by decide⟩ (by simp [urlText])
      (value_url document hquote hescape [])
  · rw [hliteral]
    exact fun view e => eval_urlExpr_error
  · rw [hliteral]
    exact eval_urlExpr_iff

/-- Parentheses, a semicolon, a placeholder, and an `@` before a space and at the end. -/
theorem Stylesheet.parse_url_plain :
    let view : View := ⟨Arena.empty.define Arena.root "n" (.keyword "x"), Arena.root, none⟩
    ∃ url : Expr,
      Stylesheet.parse "@u: url(\"a(b;@\x7bn\x7d @ @\");" = .ok ⟨[], [.assign "u" url]⟩ ∧
      url.eval view = .ok (.keyword "url(\"a(b;x @ @\")") := by
  intro view
  let text := "a(b;@\x7bn\x7d @ @"
  have hliteral : (Expr.quoted text '"' false).eval view = .ok (.quoted "a(b;x @ @" '"') := by
    have hfill : view.interpolate text = .ok "a(b;x @ @" := by decide +kernel
    rw [Expr.eval, hfill]
    rfl
  have hname : IsName "u" := by decide
  have htext : ∀ c ∈ ['"', '\\'], c ∉ text.toList := List.all_iff_forall_prop.1 (by decide)
  obtain ⟨-, url, hurl, -, hsame⟩ := Stylesheet.parse_url 0 hname (by decide) htext
  exact ⟨url, hurl, hsame.2 (by decide) view _ hliteral⟩

/-- An image for screens of twice the density: in `url` the name of its file has a variable. -/
theorem image_name_filled_in :
    (compile ".a \x7b background: \"img@2x.png\"; \x7d").toOption.map (·.css) =
        some ".a \x7b\n  background: \"img@2x.png\";\n\x7d" ∧
      (match compile ".a \x7b background: url(\"img@2x.png\"); \x7d" with
        | .ok _ => none
        | .error e => some e) = some (.eval (.undefinedVariable "2x")) :=
  ⟨by decide +kernel, by decide +kernel⟩

end LessSheet
