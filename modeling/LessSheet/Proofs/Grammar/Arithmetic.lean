import LessSheet.Proofs.Grammar.Precedence

/-! # Formulas as they are written

A formula is written with as few parentheses as its operators need, and read back from its text.
Variables are atoms, `*` and `/` bind tightly, `+` and `-` bind loosely, and a sign makes an operand
of an atom. In parentheses, where formulas stand, spaces around a sign or a slash do not matter.
-/

namespace LessSheet

open Grammar

/-! ## The text of a formula -/

/-- Variables, signs and operators. -/
inductive Expr.Arithmetic : Expr → Prop where
  | ref {name : String} : IsName name → Arithmetic (.ref name)
  | negate {inner : Expr} : Arithmetic inner → Arithmetic (.negate inner)
  | operation {op : Operator} {lhs rhs : Expr} :
    Arithmetic lhs → Arithmetic rhs → Arithmetic (.operation op lhs rhs)

/-- How tightly an operator binds. -/
def Operator.strength : Operator → Nat
  | .add | .subtract => 0
  | .multiply | .divide => 1

/-- How tightly an expression binds: as a sum, a product, a signed term or a term. -/
def Expr.strength : Expr → Nat
  | .operation op _ _ => op.strength
  | .negate _ => 2
  | _ => 3

/-- An operator between spaces. -/
def Operator.spaced (op : Operator) : List Char := " ".toList ++ op.symbol.toList ++ " ".toList

/-- A formula as it is written. Operators group to the left: on its right an operator needs what
binds tighter than itself. -/
def Expr.formula : Expr → List Char
  | .ref name => '@' :: name.toList
  | .negate inner => '-' :: enclose inner.strength 3 inner.formula
  | .operation op lhs rhs =>
    enclose lhs.strength op.strength lhs.formula ++ op.spaced ++
      enclose rhs.strength (op.strength + 1) rhs.formula
  | _ => []

namespace Grammar

/-! ## Operators -/

/-- The operators of formulas in parentheses. -/
def formulaOperators (document : Nat) : Operators document Expr where
  atom := term (unbounded document)
  operand := signedTerm (unbounded document)
  tight? := productOperator? true
  loose? := sumOperator? true
  Ends := EndsName
  operand_paren _ := rfl
  tight_repeats := .product true
  loose_repeats := .sum true

section
variable {document : Nat} {op : Operator} {e : Expr} {s : List Char}

/-- A slash before a space starts no comment. -/
theorem skipTrivia_slash (s : List Char) : skipTrivia ('/' :: ' ' :: s) = '/' :: ' ' :: s := by
  have hblank : Text.isBlank '/' = false := rfl
  simp [skipTrivia, scanTrivia, hblank]

/-- The space before an operator ends a name. -/
theorem endsName_spaced (op : Operator) (s : List Char) : EndsName (op.spaced ++ s) :=
  endsName_space _

/-- A multiplication or division between spaces is found, up to the space behind it. -/
theorem productOperator?_spaced (hop : op.strength = 1) (hs : Firm s) :
    productOperator? true (op.spaced ++ s) = some (.operation op, s) := by
  have hskip := skipTrivia_of_firm hs
  cases op with
  | add => cases hop
  | subtract => cases hop
  | multiply =>
    change productOperator? true (' ' :: '*' :: ' ' :: s) = _
    simp [productOperator?, skipTrivia_cons (c := '*') rfl (by decide), hskip]
  | divide =>
    change productOperator? true (' ' :: '/' :: ' ' :: s) = _
    simp [productOperator?, skipTrivia_slash, hskip]

/-- An addition or subtraction between spaces is found, up to the space behind it. -/
theorem sumOperator?_spaced (hop : op.strength = 0) (hs : Firm s) :
    sumOperator? true (op.spaced ++ s) = some (.operation op, s) := by
  have hskip := skipTrivia_of_firm hs
  cases op with
  | add =>
    change sumOperator? true (' ' :: '+' :: ' ' :: s) = _
    simp [sumOperator?, startsWord, skipTrivia_cons (c := '+') rfl (by decide), hskip]
  | subtract =>
    change sumOperator? true (' ' :: '-' :: ' ' :: s) = _
    simp [sumOperator?, startsWord, skipTrivia_cons (c := '-') rfl (by decide), hskip]
  | multiply => cases hop
  | divide => cases hop

/-- The operator of a sum ends a product. -/
theorem productOperator?_loose (hop : op.strength = 0) (s : List Char) :
    productOperator? true (op.spaced ++ s) = none := by
  cases op with
  | add =>
    have hskip : skipTrivia (Operator.add.spaced ++ s) = '+' :: ' ' :: s :=
      skipTrivia_spaced rfl (by decide) _
    exact productOperator?_eq_none (by simp [hskip])
  | subtract =>
    have hskip : skipTrivia (Operator.subtract.spaced ++ s) = '-' :: ' ' :: s :=
      skipTrivia_spaced rfl (by decide) _
    exact productOperator?_eq_none (by simp [hskip])
  | multiply => cases hop
  | divide => cases hop

/-! ## Formulas -/

/-- A formula begins with a variable, a minus sign or a parenthesis. -/
theorem formula_firm (he : e.Arithmetic) : Firm e.formula := by
  induction he with
  | ref _ => exact ⟨'@', _, rfl, rfl, by decide⟩
  | negate _ _ => exact ⟨'-', _, rfl, rfl, by decide⟩
  | operation _ _ ih _ =>
    rw [Expr.formula, List.append_assoc]
    exact (ih.enclose _ _).append _

/-- A sign is written before a parenthesis or a variable. -/
theorem formula_atom (he : e.Arithmetic) :
    ∃ t, enclose e.strength 3 e.formula = '(' :: t ∨ enclose e.strength 3 e.formula = '@' :: t := by
  by_cases h : e.strength < 3
  · exact ⟨_, .inl (if_pos h)⟩
  · rw [enclose, if_neg h]
    cases he with
    | ref _ => exact ⟨_, .inr rfl⟩
    | negate _ => exact absurd (Nat.lt_succ_self 2) h
    | @operation op _ _ _ _ =>
      have hop : op.strength < 3 := by cases op <;> decide
      exact absurd hop h

/-- A minus sign before a variable or a parenthesis negates the term. -/
theorem signedTerm_negate {L : Level} {r : List Char} (hs : ∃ t, s = '(' :: t ∨ s = '@' :: t)
    (h : term L (s ++ r) = .ok (e, r)) : signedTerm L ('-' :: (s ++ r)) = .ok (.negate e, r) := by
  obtain ⟨t, rfl | rfl⟩ := hs
  · exact map_of_ok _ h
  · exact map_of_ok _ h

/-- A formula in parentheses is an atom. -/
theorem term_formula (he : e.Arithmetic)
    (h : (formulaOperators document).Reads e.strength e.formula e) (r : List Char) :
    term (unbounded document) ('(' :: (e.formula ++ ')' :: r)) = .ok (e, r) := by
  have hclose : skipTrivia (')' :: r) = ')' :: r := skipTrivia_cons rfl (by decide) r
  have hproduct : productOperator? true (')' :: r) = none :=
    productOperator?_eq_none (by simp [hclose])
  have hsum : sumOperator? true (')' :: r) = none := sumOperator?_eq_none (by simp [hclose])
  exact term_paren ((formula_firm he).append _) (h.whole (endsName_cons rfl r) hproduct hsum)

/-- A formula is read by the productions its strength allows. -/
theorem formula_reads (document : Nat) (he : e.Arithmetic) :
    (formulaOperators document).Reads e.strength e.formula e := by
  have hparens : ∀ {e : Expr}, e.Arithmetic →
      (formulaOperators document).Reads e.strength e.formula e → ∀ needed, needed ≤ 3 →
        (formulaOperators document).Reads needed (enclose e.strength needed e.formula) e :=
    fun he h _ hle => h.enclose hle fun _ r _ => term_formula he h r
  induction he with
  | ref hname =>
    exact .of_atom (fun _ => rfl) fun r hr => term_ref (L := unbounded document) hname hr
  | @negate inner hinner ih =>
    refine .of_operand fun r hr => ?_
    have hatom := (hparens hinner ih 3 (Nat.le_refl 3)).atom (Nat.le_refl 3) r hr
    exact signedTerm_negate (formula_atom hinner) hatom
  | @operation op lhs rhs hlhs hrhs ihl ihr =>
    have hfirm : ∀ needed t, Firm (enclose rhs.strength needed rhs.formula ++ t) := fun needed t =>
      ((formula_firm hrhs).enclose _ needed).append t
    have hop : op.strength = 0 ∨ op.strength = 1 := by cases op <;> decide
    rcases hop with hop | hop
    · rw [Expr.strength, Expr.formula, hop]
      exact .loose_operation (hparens hlhs ihl 0 (by decide)) (hparens hrhs ihr 1 (by decide))
        (endsName_spaced op) (productOperator?_loose hop)
        fun t => ⟨_, sumOperator?_spaced hop (hfirm 1 t), rfl⟩
    · rw [Expr.strength, Expr.formula, hop]
      exact .tight_operation (hparens hlhs ihl 1 (by decide)) (hparens hrhs ihr 2 (by decide))
        (endsName_spaced op) fun t => ⟨_, productOperator?_spaced hop (hfirm 2 t), rfl⟩

end

/-! ## Values of variables -/

/-- A formula in parentheses is a value. -/
theorem value_formula (document : Nat) {e : Expr} (he : e.Arithmetic) (s : List Char) :
    value (unbounded document) true ('(' :: (e.formula ++ ')' :: ';' :: s)) =
      .ok (e, ';' :: s) := by
  have hterm : ∀ r, signedTerm (unbounded document) ('(' :: (e.formula ++ ')' :: r)) =
      .ok (e, r) := term_formula he (formula_reads document he)
  have hsum : ∀ r, EndsTerm r →
      sum (unbounded document) false ('(' :: (e.formula ++ [')']) ++ r) = .ok (e, r) := by
    intro r hr
    simpa using sum_of_signedTerm (hterm r) hr.operator
  have hwords := fun r => words_of_sum (s := r) (begins_paren _) hsum
  simpa using value_of_words hwords ⟨';', s, rfl, rfl⟩ (by simp)

/-- A variable, a colon, and a value that is no ruleset. -/
theorem item_assign_of_firm {document : Nat} {name : String} {e : Expr} {s : List Char}
    {leading : List String} (hname : IsName name) (hs : Firm s) (hbrace : s.head? ≠ some '{')
    (h : value (unbounded document) true s = .ok (e, [';'])) :
    item (unbounded document) leading ('@' :: (name.toList ++ ':' :: ' ' :: s)) =
      .ok (.assign name e, []) := by
  have hassigned : assignedValue (unbounded document) s = .ok (e, [';']) := by
    have hplain : importance [';'] = .ok (false, [';']) := rfl
    unfold assignedValue
    split
    · exact absurd rfl hbrace
    · rw [bind_of_ok h, trivia_bind, skipTrivia_cons rfl (by decide), bind_of_ok hplain]
      rfl
  rw [item, assignHead?_name hname]
  simp only [assignment, trivia_bind, skipTrivia_space, skipTrivia_of_firm hs]
  rw [bind_of_ok hassigned]
  rfl

/-- A variable, a colon, and a value that starts with a parenthesis. -/
theorem item_assign {document : Nat} {name : String} {e : Expr} {s : List Char}
    {leading : List String} (hname : IsName name)
    (h : value (unbounded document) true ('(' :: s) = .ok (e, [';'])) :
    item (unbounded document) leading ('@' :: (name.toList ++ ':' :: ' ' :: '(' :: s)) =
      .ok (.assign name e, []) :=
  item_assign_of_firm hname (begins_paren s).firm (by simp) h

/-- A variable of another name than `import`, in any case, is not the head of an import. -/
theorem importHead?_name {name : String} {s : List Char} (hname : IsName name) (hs : EndsName s)
    (h : name.toList.map Char.toLower ≠ "import".toList) :
    importHead? ('@' :: (name.toList ++ s)) = none := by
  simp only [importHead?, atName?_name hname hs, if_neg h]

/-- A source that is the assignment of a value that is no ruleset. -/
theorem parse_assign {document : Nat} {name : String} {e : Expr} {s : List Char}
    (hname : IsName name) (himport : name.toList.map Char.toLower ≠ "import".toList) (hs : Firm s)
    (hbrace : s.head? ≠ some '{') (h : value (unbounded document) true s = .ok (e, [';'])) :
    Stylesheet.parse (String.ofList ('@' :: (name.toList ++ ':' :: ' ' :: s))) document =
      .ok ⟨[], [.assign name e]⟩ := by
  have hends : EndsName (':' :: ' ' :: s) := endsName_cons rfl _
  exact parse_single ⟨_, _, rfl, rfl, by decide⟩ (importHead?_name hname hends himport)
    (item_assign_of_firm hname hs hbrace h) rfl

end Grammar

/-- A formula as the value of a variable: a text that is written as `formula` has it, in one pair of
parentheses more, is read as the expression it was written from. -/
theorem Stylesheet.parse_formula (document : Nat) {name : String} {e : Expr} (hname : IsName name)
    (himport : name.toList.map Char.toLower ≠ "import".toList) (he : e.Arithmetic) :
    Stylesheet.parse ("@" ++ name ++ ": (" ++ String.ofList e.formula ++ ");") document =
      .ok ⟨[], [.assign name e]⟩ := by
  have htext : "@" ++ name ++ ": (" ++ String.ofList e.formula ++ ");" =
      String.ofList ('@' :: (name.toList ++ ':' :: ' ' :: '(' :: (e.formula ++ [')', ';']))) := by
    apply String.toList_inj.1
    simp
  have hends : EndsName (':' :: ' ' :: '(' :: (e.formula ++ [')', ';'])) := endsName_cons rfl _
  rw [htext]
  exact parse_single ⟨_, _, rfl, rfl, by decide⟩ (importHead?_name hname hends himport)
    (item_assign hname (value_formula document he [])) rfl

/-- Signs before and after operators of both strengths, a name that ends in a sign, and only the
parentheses that are needed. -/
theorem Stylesheet.parse_formula_signs :
    Stylesheet.parse "@v: (-@a - -(@b- - @c) * @d / (@e / -(-@f)));" 3 =
      .ok ⟨[], [.assign "v" (.operation .subtract (.negate (.ref "a"))
        (.operation .divide
          (.operation .multiply (.negate (.operation .subtract (.ref "b-") (.ref "c"))) (.ref "d"))
          (.operation .divide (.ref "e") (.negate (.negate (.ref "f"))))))]⟩ := by
  refine (congrArg (Stylesheet.parse · 3) ?_).trans (Stylesheet.parse_formula 3 (by decide)
    (by decide) (.operation (.negate (.ref (by decide))) (.operation (.operation (.negate
      (.operation (.ref (by decide)) (.ref (by decide)))) (.ref (by decide))) (.operation
        (.ref (by decide)) (.negate (.negate (.ref (by decide))))))))
  decide

end LessSheet
