import LessSheet.Proofs.Grammar.StatementText

/-! # Comments inside statements

Between the parts of a statement a comment is passed over like white space. What looks ahead does
not know comments: it sees their text as if it were not in a comment.

* A name with a colon behind it is a variable. With a comment in front of the colon it is taken for
  something else, whatever the comment is.
* A call is known by the parentheses of its arguments and by what comes after them, and a semicolon
  in them separates. A comment in them is passed over exactly if its text, alone in the parentheses
  of a call, would pass for arguments without a semicolon (`PassesForArguments`).

`Stylesheet.parse_comment` says so for a variable and for a call.
-/

namespace LessSheet

namespace Grammar

open Text

/-! ## The text of a comment -/

/-- The text of a comment does not end it. -/
def CommentBody (text : List Char) : Prop := ¬ ['*', '/'] <:+: text

section
variable {c : Char} {text r s w : List Char}

/-- A text does not end a comment if neither its first two characters do so nor the rest. -/
theorem commentBody_cons :
    CommentBody (c :: text) ↔ (c = '*' → text.head? ≠ some '/') ∧ CommentBody text := by
  rw [CommentBody, List.infix_cons_iff, not_or]
  refine and_congr_left' ?_
  cases text with
  | nil => simp
  | cons d text => simp [List.cons_prefix_cons, eq_comm]

/-- No end of the text of a comment ends it either. -/
theorem CommentBody.suffix (h : CommentBody text) (hr : r <:+ text) : CommentBody r :=
  fun hends => h (hends.trans hr.isInfix)

/-- A comment goes on through its text. -/
theorem scanBlockComment_text (h : CommentBody text) (hs : s.head? ≠ some '/') :
    scanBlockComment (text ++ s) =
      (text ++ (scanBlockComment s).1, (scanBlockComment s).2) := by
  induction text with
  | nil => rfl
  | cons c text ih =>
    obtain ⟨hstar, htext⟩ := commentBody_cons.1 h
    have hnext : c = '*' → (text ++ s).head? ≠ some '/' := by
      intro hc
      cases text with
      | nil => exact hs
      | cons d text => exact hstar hc
    rw [List.cons_append, scanBlockComment.eq_def]
    split
    · next heq =>
      obtain ⟨rfl, htail⟩ := List.cons.inj heq
      exact absurd (congrArg List.head? htail) (hnext rfl)
    · next heq =>
      obtain ⟨rfl, rfl⟩ := List.cons.inj heq
      rw [ih htext]
      rfl
    · next heq => cases heq

/-- A comment is passed over, whatever its text is. -/
theorem skipTrivia_comment (h : CommentBody text) (s : List Char) :
    skipTrivia ('/' :: '*' :: (text ++ '*' :: '/' :: s)) = skipTrivia s := by
  have hscan : scanBlockComment (text ++ '*' :: '/' :: s) = _ :=
    scanBlockComment_text h (by simp)
  rw [skipTrivia, scanTrivia, hscan, scanBlockComment]
  rfl

/-- A comment that is not closed reaches to the end. -/
theorem skipTrivia_open (h : CommentBody text) : skipTrivia ('/' :: '*' :: text) = [] := by
  have hscan := scanBlockComment_text h (s := []) (by simp)
  rw [List.append_nil] at hscan
  rw [skipTrivia, scanTrivia, hscan]
  rfl

/-- Without an end of the line, a line comment reaches to the end. -/
theorem scanLineComment_open (h : '\n' ∉ s) : scanLineComment s = ([], []) := by
  induction s with
  | nil => rfl
  | cons c s ih =>
    rw [List.mem_cons, not_or] at h
    rw [scanLineComment, if_neg (Ne.symm h.1), ih h.2]

/-- Neither white space nor a comment comes first. -/
def Settled (s : List Char) : Prop := scanTrivia s = ([], s)

mutual

/-- Once white space and comments are skipped, none comes next. -/
theorem scanTrivia_settled (s : List Char) : Settled (scanTrivia s).2 := by
  unfold scanTrivia
  split
  · exact scanLineComment_settled _
  · exact scanBlockComment_settled _
  · next c r hline hblock =>
    split
    · exact scanTrivia_settled r
    · next hblank =>
      rw [Settled, scanTrivia]
      · rw [if_neg hblank]
      · exact hline
      · exact hblock
  · rfl

/-- Once a line comment and what follows it are skipped, none comes next. -/
theorem scanLineComment_settled (s : List Char) : Settled (scanLineComment s).2 := by
  unfold scanLineComment
  split
  · next c r =>
    split
    · exact scanTrivia_settled r
    · exact scanLineComment_settled r
  · rfl

/-- Once a block comment and what follows it are skipped, none comes next. -/
theorem scanBlockComment_settled (s : List Char) : Settled (scanBlockComment s).2.2 := by
  unfold scanBlockComment
  split
  · exact scanTrivia_settled _
  · next c r _ => exact scanBlockComment_settled r
  · rfl

end

/-- After white space and comments there are no more of them. -/
theorem skipTrivia_skipTrivia (s : List Char) : skipTrivia (skipTrivia s) = skipTrivia s := by
  rw [skipTrivia, skipTrivia, scanTrivia_settled s]

/-! ## What comes after the text of a comment -/

/-- A text that starts with none of the signs that end a call. -/
def Inert (s : List Char) : Prop := ∀ c ∈ s.head?, c ∉ [';', '}', '!']

/-- A text that goes on with nothing of what a comment may have begun: it starts with neither white
space nor a word, ends no line comment, and what may come after a block comment that it ends does
not end a call. -/
structure Closing (s : List Char) : Prop where
  firm : Firm s
  inert : Inert s
  mark : ∀ c ∈ s.head?, c ∉ "!important".toList
  line : '\n' ∉ s
  slash : Inert (skipTrivia ('/' :: s))
  block : ∀ text, CommentBody text → Inert (scanBlockComment (text ++ s)).2.2

/-- What `s` behind a text makes of what is left of it after white space and comments: it comes
after that, or, if nothing or the start of a comment is left, there is no sign that ends a call. -/
def LeftBefore (s left all : List Char) : Prop :=
  (left ∉ [[], ['/']] ∧ all = left ++ s) ∨ (left ∈ [[], ['/']] ∧ Inert all)

mutual

/-- What follows the text of a comment stays behind what is left of it or, where that is nothing or
begins a comment, ends no call. -/
theorem scanTrivia_leftBefore (hs : Closing s) (text : List Char) (h : CommentBody text) :
    LeftBefore s (scanTrivia text).2 (scanTrivia (text ++ s)).2 := by
  match text with
  | [] =>
    rw [List.nil_append, scanTrivia_of_firm hs.firm]
    exact .inr ⟨by simp [scanTrivia], hs.inert⟩
  | c :: r =>
    have hr := (commentBody_cons.1 h).2
    by_cases hblank : isBlank c = true
    · rw [List.cons_append, scanTrivia_blank hblank, scanTrivia_blank hblank]
      exact scanTrivia_leftBefore hs r hr
    · rw [Bool.not_eq_true] at hblank
      by_cases hc : c = '/'
      · subst hc
        match r with
        | [] => exact .inr ⟨by simp [scanTrivia, hblank], hs.slash⟩
        | d :: r =>
          by_cases hline : d = '/'
          · subst hline
            exact scanLineComment_leftBefore hs r (commentBody_cons.1 hr).2
          · by_cases hblock : d = '*'
            · subst hblock
              have hbody := (commentBody_cons.1 hr).2
              have hopen : (scanTrivia ('/' :: '*' :: r)).2 = [] := skipTrivia_open hbody
              exact .inr ⟨hopen ▸ .head _, hs.block r hbody⟩
            · refine .inl ⟨?_, ?_⟩ <;> simp [scanTrivia, hline, hblock, hblank]
      · have hfirm : Firm (c :: r) := ⟨c, r, rfl, hblank, hc⟩
        rw [scanTrivia_of_firm hfirm, scanTrivia_of_firm (hfirm.append s)]
        exact .inl ⟨by simp [hc], rfl⟩

/-- From within a line comment, what follows the text stays behind what is left of it or ends no
call. -/
theorem scanLineComment_leftBefore (hs : Closing s) (text : List Char) (h : CommentBody text) :
    LeftBefore s (scanLineComment text).2 (scanLineComment (text ++ s)).2 := by
  match text with
  | [] =>
    rw [List.nil_append, scanLineComment_open hs.line]
    exact .inr ⟨by simp [scanLineComment], nofun⟩
  | c :: r =>
    have hr := (commentBody_cons.1 h).2
    by_cases hc : c = '\n'
    · simpa [scanLineComment, hc] using scanTrivia_leftBefore hs r hr
    · simpa [scanLineComment, hc] using scanLineComment_leftBefore hs r hr

end

/-- A text without a sign that ends a call does not end a statement. -/
theorem endsStatement_of_inert (h : Inert s) : endsStatement s = false := by
  cases s with
  | nil => rfl
  | cons c s =>
    have hc := h c rfl
    simp only [List.mem_cons, List.not_mem_nil, or_false, not_or] at hc
    simp [endsStatement, hc.1, hc.2.1]

/-- Whether a statement ends is decided by the first character. -/
theorem endsStatement_append (h : s ≠ []) (t : List Char) :
    endsStatement (s ++ t) = endsStatement s := by
  cases s with
  | nil => exact absurd rfl h
  | cons c s => rfl

/-- Whether a statement ends behind the text of a comment shows in that text. -/
theorem endsStatement_closing (hs : Closing s) (h : CommentBody text) :
    endsStatement (skipTrivia (text ++ s)) = endsStatement (skipTrivia text) := by
  have hleft : LeftBefore s (skipTrivia text) (skipTrivia (text ++ s)) :=
    scanTrivia_leftBefore hs text h
  rcases hleft with ⟨hne, hall⟩ | ⟨hnone, hinert⟩
  · rw [hall, endsStatement_append fun hnil => hne (hnil ▸ .head _)]
  · rw [endsStatement_of_inert hinert]
    simp only [List.mem_cons, List.not_mem_nil, or_false] at hnone
    rcases hnone with hnil | hslash
    · rw [hnil]
      rfl
    · rw [hslash]
      rfl

/-- A word is stripped off a text, unless it goes on behind it. -/
theorem strip?_before {word : List Char} (hs : s ≠ []) (h : ∀ c ∈ s.head?, c ∉ word)
    (text : List Char) : strip? word (text ++ s) = (strip? word text).map (· ++ s) := by
  induction word generalizing text with
  | nil => simp [strip?]
  | cons w word ih =>
    have hword : ∀ c ∈ s.head?, c ∉ word := fun c hc hmem => h c hc (.tail _ hmem)
    cases text with
    | nil =>
      cases s with
      | nil => exact absurd rfl hs
      | cons c s =>
        have hc : w ≠ c := fun heq => h c rfl (heq ▸ .head _)
        simp [strip?, hc]
    | cons c text =>
      rw [List.cons_append, strip?, strip?]
      split
      · exact ih hword text
      · rfl

/-- Whether the statement of a call ends here. -/
def endsCall (s : List Char) : Bool :=
  endsStatement (skipTrivia ((important? (skipTrivia s)).getD (skipTrivia s)))

/-- There is no marker where there is no exclamation mark. -/
theorem important?_of_inert (h : Inert s) : important? s = none := by
  cases s with
  | nil => rfl
  | cons c s =>
    have hc : '!' ≠ c := fun heq => h c rfl (by simp [← heq])
    exact if_neg hc

/-- A text without a sign that ends a call does not end one. -/
theorem endsCall_of_inert (h : Inert (skipTrivia s)) : endsCall s = false := by
  rw [endsCall, important?_of_inert h, Option.getD_none, skipTrivia_skipTrivia,
    endsStatement_of_inert h]

/-- Whether a call ends behind the text of a comment shows in that text. -/
theorem endsCall_closing (hs : Closing s) (h : CommentBody text) :
    endsCall (text ++ s) = endsCall text := by
  have hne : s ≠ [] := by
    obtain ⟨c, r, rfl, -⟩ := hs.firm
    simp
  have hleft : LeftBefore s (skipTrivia text) (skipTrivia (text ++ s)) :=
    scanTrivia_leftBefore hs text h
  rcases hleft with ⟨-, hall⟩ | ⟨hnone, hinert⟩
  · have hbody := h.suffix (skipTrivia_suffix text)
    have hmark : important? (skipTrivia text ++ s) = (important? (skipTrivia text)).map (· ++ s) :=
      strip?_before hne hs.mark _
    rw [endsCall, endsCall, hall, hmark]
    cases hfound : important? (skipTrivia text) with
    | none => exact endsStatement_closing hs hbody
    | some r =>
      have hr : r <:+ skipTrivia text := ⟨_, strip?_append hfound⟩
      exact endsStatement_closing hs (hbody.suffix hr)
  · simp only [List.mem_cons, List.not_mem_nil, or_false] at hnone
    rw [endsCall_of_inert hinert, endsCall_of_inert]
    rcases hnone with hnil | hslash
    · simp [hnil, Inert]
    · simp [hslash, Inert]

end

/-! ## Looking ahead through a comment -/

/-- What is left after the parenthesis that closes the one before the text. -/
def afterParens (depth : Nat) (quote : Option Char) (s : List Char) : Option (List Char) :=
  (balancedFrom depth quote s).map Prod.snd

section
variable {depth : Nat} {q c : Char} {quote : Option Char} {text r s t : List Char}

/-- In a string the character after a backslash counts for nothing. -/
theorem afterParens_escape :
    afterParens depth (some q) ('\\' :: c :: r) = afterParens depth (some q) r := by
  simp [afterParens, balancedFrom, Function.comp_def]

/-- In a string only its quotation mark counts. -/
theorem afterParens_quoted (hc : c ≠ '\\') (r : List Char) :
    afterParens depth (some q) (c :: r) =
      afterParens depth (if c = q then none else some q) r := by
  simp [afterParens, balancedFrom, hc, Function.comp_def]

/-- A closing parenthesis closes one of those that are open. -/
theorem afterParens_close (r : List Char) :
    afterParens (depth + 1) none (')' :: r) = afterParens depth none r := by
  simp [afterParens, balancedFrom, Function.comp_def]

/-- An opening parenthesis opens one more. -/
theorem afterParens_open (r : List Char) :
    afterParens depth none ('(' :: r) = afterParens (depth + 1) none r := by
  simp [afterParens, balancedFrom.eq_def depth none, Function.comp_def]

/-- Any other character may open a string, and no more. -/
theorem afterParens_other (hclose : c ≠ ')') (hopen : c ≠ '(') (r : List Char) :
    afterParens depth none (c :: r) =
      afterParens depth (if isQuote c = true then some c else none) r := by
  rw [afterParens, balancedFrom.eq_def]
  simp [hclose, hopen, afterParens, Function.comp_def]

/-- A text without brackets and quotes is passed over. -/
theorem afterParens_plain (h : ∀ c ∈ brackets, c ∉ text) (s : List Char) :
    afterParens depth none (text ++ s) = afterParens depth none s := by
  induction text with
  | nil => rfl
  | cons c text ih =>
    obtain ⟨hne, htext⟩ := not_mem_of_cons h
    rw [List.cons_append, afterParens_other (hne ')' (by decide)) (hne '(' (by decide)),
      isQuote_of_ne hne, if_neg Bool.false_ne_true, ih htext]

/-- A string is opened by a quote. -/
theorem isQuote_of_opened :
    ∀ q ∈ (if isQuote c = true then some c else none), isQuote q = true := by
  split
  · next hc =>
    rintro _ ⟨⟩
    exact hc
  · exact nofun

/-- A string goes on or is closed. -/
theorem isQuote_of_quoted (h : ∀ d ∈ some q, isQuote d = true) :
    ∀ d ∈ (if c = q then none else some q), isQuote d = true := by
  split
  · exact nofun
  · exact h

/-- A string that is not closed hides everything behind it. -/
theorem afterParens_open_string (s : List Char) (h : q ∉ s) :
    afterParens depth (some q) s = none := by
  match s with
  | [] => simp [afterParens, balancedFrom]
  | [c] =>
    by_cases hc : c = '\\' <;> simp [afterParens, balancedFrom, hc]
  | c :: d :: s =>
    rw [List.mem_cons, not_or] at h
    by_cases hc : c = '\\'
    · rw [hc, afterParens_escape, afterParens_open_string s fun hmem => h.2 (.tail _ hmem)]
    · rw [afterParens_quoted hc, if_neg (Ne.symm h.1), afterParens_open_string _ h.2]

/-- In a string only its quotation mark counts, and no semicolon. -/
theorem hasSemicolonFrom_quoted (hc : c ≠ '\\') (r : List Char) :
    hasSemicolonFrom depth (some q) (c :: r) =
      hasSemicolonFrom depth (if c = q then none else some q) r := by
  rw [hasSemicolonFrom]
  · exact fun heq => absurd heq hc
  · exact fun _ _ heq => absurd heq hc

/-- In a string that is not closed there is no semicolon that separates. -/
theorem hasSemicolonFrom_open_string (s : List Char) (h : q ∉ s) :
    hasSemicolonFrom depth (some q) s = false := by
  match s with
  | [] => simp [hasSemicolonFrom]
  | [c] =>
    by_cases hc : c = '\\' <;> simp [hasSemicolonFrom, hc]
  | c :: d :: s =>
    rw [List.mem_cons, not_or] at h
    by_cases hc : c = '\\'
    · rw [hc, hasSemicolonFrom, hasSemicolonFrom_open_string s fun hmem => h.2 (.tail _ hmem)]
    · rw [hasSemicolonFrom_quoted hc, if_neg (Ne.symm h.1), hasSemicolonFrom_open_string _ h.2]

/-- Two texts that end a call alike: neither closes a string or goes on with a comment, and the
parentheses and semicolons in them come to the same at every depth. -/
structure EndsAlike (s t : List Char) : Prop where
  left : Closing s
  right : Closing t
  quotes : ∀ q, isQuote q = true → q ∉ s ∧ q ∉ t
  parens : ∀ depth,
    (afterParens depth none s).any endsCall = (afterParens depth none t).any endsCall
  semicolon : ∀ depth, hasSemicolonFrom depth none s = hasSemicolonFrom depth none t

/-- No quote is left of either. -/
theorem EndsAlike.not_mem (h : EndsAlike s t) (hq : isQuote q = true) (hr : r <:+ s ∨ r <:+ t) :
    q ∉ r := by
  obtain ⟨hs, ht⟩ := h.quotes q hq
  intro hmem
  rcases hr with hr | hr
  · exact hs (hr.subset hmem)
  · exact ht (hr.subset hmem)

/-- The rules for a backslash in a string do not apply. -/
theorem ne_backslash (hlast : c = '\\' → r = [] → False)
    (hescape : ∀ d u, c = '\\' → r = d :: u → False) : c ≠ '\\' := by
  intro hc
  cases r with
  | nil => exact hlast hc rfl
  | cons d u => exact hescape d u hc rfl

/-- Behind the text of a comment they end the call alike, whatever that text opens or closes. -/
theorem EndsAlike.afterParens (h : EndsAlike s t) (hbody : CommentBody text)
    (hquote : ∀ q ∈ quote, isQuote q = true) :
    (Grammar.afterParens depth quote (text ++ s)).any endsCall =
      (Grammar.afterParens depth quote (text ++ t)).any endsCall := by
  have hopen : ∀ {depth q} {r : List Char}, isQuote q = true → r <:+ s ∨ r <:+ t →
      Grammar.afterParens depth (some q) r = none := fun hq hr =>
    afterParens_open_string _ (h.not_mem hq hr)
  induction depth, quote, text using balancedFrom.induct with
  | case1 depth quote =>
    cases quote with
    | none => exact h.parens depth
    | some q =>
      have hq := hquote q rfl
      simp only [List.nil_append, hopen hq (.inl (List.suffix_refl s)),
        hopen hq (.inr (List.suffix_refl t))]
  | case2 depth q =>
    have hq := hquote q rfl
    obtain ⟨c, r, rfl, -⟩ := h.left.firm
    obtain ⟨d, u, rfl, -⟩ := h.right.firm
    simp only [List.singleton_append, afterParens_escape, hopen hq (.inl (List.suffix_cons c r)),
      hopen hq (.inr (List.suffix_cons d u))]
  | case3 depth q c r ih =>
    simp only [List.cons_append, afterParens_escape]
    exact ih (hbody.suffix ((List.suffix_cons c r).trans (List.suffix_cons _ _))) hquote
  | case4 depth q c r hlast hescape ih =>
    have hc : c ≠ '\\' := ne_backslash hlast hescape
    simp only [List.cons_append, afterParens_quoted hc]
    exact ih (commentBody_cons.1 hbody).2 (isQuote_of_quoted hquote)
  | case5 r =>
    have hr := (commentBody_cons.1 hbody).2
    have hclose : ∀ u, Grammar.afterParens 0 none (')' :: u) = some u := fun u => rfl
    simp only [List.cons_append, hclose, Option.any_some, endsCall_closing h.left hr,
      endsCall_closing h.right hr]
  | case6 r depth ih =>
    simp only [List.cons_append, Nat.succ_eq_add_one, afterParens_close]
    exact ih (commentBody_cons.1 hbody).2 hquote
  | case7 depth r _ ih =>
    simp only [List.cons_append, afterParens_open]
    exact ih (commentBody_cons.1 hbody).2 hquote
  | case8 depth c r hclose hparen _ ih =>
    simp only [List.cons_append, afterParens_other hclose hparen]
    exact ih (commentBody_cons.1 hbody).2 isQuote_of_opened

/-- Behind the text of a comment they have the same semicolons between arguments, whatever that text
opens or closes. -/
theorem EndsAlike.hasSemicolonFrom (h : EndsAlike s t) (text : List Char)
    (hquote : ∀ q ∈ quote, isQuote q = true) :
    Grammar.hasSemicolonFrom depth quote (text ++ s) =
      Grammar.hasSemicolonFrom depth quote (text ++ t) := by
  have hopen : ∀ {depth q} {r : List Char}, isQuote q = true → r <:+ s ∨ r <:+ t →
      Grammar.hasSemicolonFrom depth (some q) r = false := fun hq hr =>
    hasSemicolonFrom_open_string _ (h.not_mem hq hr)
  induction depth, quote, text using Grammar.hasSemicolonFrom.induct with
  | case1 depth quote =>
    cases quote with
    | none => exact h.semicolon depth
    | some q =>
      have hq := hquote q rfl
      simp only [List.nil_append, hopen hq (.inl (List.suffix_refl s)),
        hopen hq (.inr (List.suffix_refl t))]
  | case2 depth q =>
    have hq := hquote q rfl
    obtain ⟨c, r, rfl, -⟩ := h.left.firm
    obtain ⟨d, u, rfl, -⟩ := h.right.firm
    simp only [List.singleton_append, Grammar.hasSemicolonFrom,
      hopen hq (.inl (List.suffix_cons c r)), hopen hq (.inr (List.suffix_cons d u))]
  | case3 depth q c r ih =>
    simp only [List.cons_append, Grammar.hasSemicolonFrom]
    exact ih hquote
  | case4 depth q c r hlast hescape ih =>
    have hc : c ≠ '\\' := ne_backslash hlast hescape
    simp only [List.cons_append, hasSemicolonFrom_quoted hc]
    exact ih (isQuote_of_quoted hquote)
  | case5 c r hclose => simp [Grammar.hasSemicolonFrom, hclose]
  | case6 c r hclose depth ih =>
    simp only [List.cons_append, Grammar.hasSemicolonFrom, hclose, if_true]
    exact ih hquote
  | case7 depth c r hclose hopens ih =>
    have hstep : ∀ u, Grammar.hasSemicolonFrom depth none (c :: u) =
        Grammar.hasSemicolonFrom (depth + 1) none u := by
      intro u
      rw [Grammar.hasSemicolonFrom.eq_def]
      simp [hclose, hopens]
    simp only [List.cons_append, hstep]
    exact ih hquote
  | case8 depth c r hclose hopens hfound =>
    have hstep : ∀ u, Grammar.hasSemicolonFrom depth none (c :: u) = true := by
      intro u
      rw [Grammar.hasSemicolonFrom.eq_def]
      simp [hclose, hopens, hfound]
    simp only [List.cons_append, hstep]
  | case9 depth c r hclose hopens hfound ih =>
    have hstep : ∀ u, Grammar.hasSemicolonFrom depth none (c :: u) =
        Grammar.hasSemicolonFrom depth (if isQuote c = true then some c else none) u := by
      intro u
      rw [Grammar.hasSemicolonFrom.eq_def]
      simp only [hclose, hopens, hfound, Bool.false_eq_true, if_false]
    simp only [List.cons_append, hstep]
    exact ih isQuote_of_opened

/-- What is written behind the comment: the rest of the arguments and of the block. -/
def afterComment (word : List Char) : List Char :=
  ['*', '/', ',', ' '] ++ word ++ [')', ';', ' ', '}']

/-- A text without stars does not end a comment. -/
theorem commentBody_of_not_mem (h : '*' ∉ text) : CommentBody text := fun hends =>
  h (hends.subset (.head _))

/-- The parenthesis and semicolon of a call go on with nothing that a comment began. -/
theorem closing_parens : Closing [')', ';'] := by
  refine ⟨⟨')', _, rfl, rfl, by decide⟩, by simp [Inert], by simp, by decide, ?_,
    fun text h => ?_⟩
  · have hslash : skipTrivia ['/', ')', ';'] = ['/', ')', ';'] := rfl
    rw [hslash]
    simp [Inert]
  · rw [scanBlockComment_text h (by simp)]
    exact nofun

/-- What follows the comment goes on with nothing that the comment's text began. -/
theorem closing_afterComment (h : ∀ c ∈ ['*', '\n'], c ∉ text) : Closing (afterComment text) := by
  have htext : afterComment text = '*' :: '/' :: ',' :: ' ' :: (text ++ [')', ';', ' ', '}']) := by
    simp [afterComment]
  refine ⟨⟨'*', _, htext, rfl, by decide⟩, by simp [Inert, htext], by simp [htext],
    by simp [htext, h '\n' (by simp)], ?_, fun body hbody => ?_⟩
  · have hopen : CommentBody ('/' :: ',' :: ' ' :: (text ++ [')', ';', ' ', '}'])) :=
      commentBody_of_not_mem (by simp [h '*' (by simp)])
    rw [htext, skipTrivia_open hopen]
    exact nofun
  · have hcomma : Firm (',' :: ' ' :: (text ++ [')', ';', ' ', '}'])) :=
      ⟨',', _, rfl, rfl, by decide⟩
    rw [htext, scanBlockComment_text hbody (by simp), scanBlockComment, scanTrivia_of_firm hcomma]
    simp [Inert]

/-- Behind a comment, the rest of the call ends it like the parenthesis alone would. -/
theorem endsAlike_afterComment (h : ∀ c ∈ '*' :: '\n' :: ';' :: brackets, c ∉ text) :
    EndsAlike (afterComment text) [')', ';'] := by
  have hbrackets : ∀ c ∈ brackets, c ∉ text := fun c hc =>
    h c (.tail _ (.tail _ (.tail _ hc)))
  have hsigns : ∀ c ∈ brackets, c ∉ ['*', '/', ',', ' '] := List.all_iff_forall_prop.1 (by decide)
  have hplain : ∀ c ∈ brackets, c ∉ ['*', '/', ',', ' '] ++ text := fun c hc hmem =>
    (List.mem_append.1 hmem).elim (hsigns c hc) (hbrackets c hc)
  have hsemicolon : ';' ∉ ['*', '/', ',', ' '] ++ text := by simp [h ';' (by simp)]
  refine ⟨closing_afterComment fun c hc => h c (List.mem_append_left (';' :: brackets) hc),
    closing_parens, fun q hq => ?_, fun depth => ?_, fun depth => ?_⟩
  · have hmem : q = '"' ∨ q = '\'' := by simpa [isQuote] using hq
    rcases hmem with rfl | rfl
    · simp [afterComment, hbrackets '"' (by decide)]
    · simp [afterComment, hbrackets '\'' (by decide)]
  · rw [afterComment, afterParens_plain hplain]
    cases depth with
    | zero => rfl
    | succ depth =>
      rw [afterParens_close, afterParens_close]
      simp [Grammar.afterParens, balancedFrom.eq_def, isQuote]
  · rw [afterComment, hasSemicolonFrom_plain hplain hsemicolon]
    rcases depth with _ | _ | depth
    · simp [Grammar.hasSemicolonFrom]
    · simp [Grammar.hasSemicolonFrom]
    · simp [Grammar.hasSemicolonFrom, isQuote]

end

/-! ## Calls with a comment between their arguments -/

section
variable {document : Nat} {L : Level} {name a b : String} {text s r : List Char}

/-- A call is known by what comes after its parentheses. -/
theorem callHead?_parens (hname : IsSegment name) (s : List Char) :
    callHead? (name.toList ++ '(' :: s) =
      if (afterParens 0 none s).any endsCall then some ([name], '(' :: s) else none := by
  have hpath : path? (name.toList ++ '(' :: s) = some ([name], '(' :: s) := by
    simpa [pathText, pathTail] using
      path?_pathText (fun _ => .child) (List.cons_ne_nil name []) (by simpa using hname) s
  have hafter : afterArguments? ('(' :: s) = afterParens 0 none s := rfl
  simp only [callHead?, hpath, skipTrivia_cons (c := '(') rfl (by decide), hafter]
  cases afterParens 0 none s with
  | none => rfl
  | some after => rfl

/-- What is taken for a call is not taken for a definition. -/
theorem mixinHead?_parens (hname : IsSegment name)
    (h : (afterParens 0 none s).any endsCall = true) :
    mixinHead? (name.toList ++ '(' :: s) = none := by
  have hbalanced : balanced? ('(' :: s) = balancedFrom 0 none s := rfl
  have hsegment : segment? (name.toList ++ '(' :: s) = some (name, '(' :: s) :=
    segment?_segment hname (endsName_cons rfl s)
  simp only [mixinHead?, hsegment, skipTrivia_cons (c := '(') rfl (by decide), hbalanced]
  cases hfound : balancedFrom 0 none s with
  | none => rfl
  | some x =>
    obtain ⟨inner, after⟩ := x
    have hends : endsCall after = true := by simpa [afterParens, hfound] using h
    have hsign : ¬ Inert (skipTrivia after) := fun hinert =>
      Bool.false_ne_true ((endsCall_of_inert hinert).symm.trans hends)
    simp only [Inert, Classical.not_forall, Classical.not_not] at hsign
    obtain ⟨c, hc, hmem⟩ := hsign
    obtain ⟨u, hu⟩ := List.head?_eq_some_iff.1 hc
    have hall : ∀ c ∈ [';', '}', '!'], 'w' ≠ c ∧ c ≠ '{' := List.all_iff_forall_prop.1 (by decide)
    obtain ⟨hwhen, hbrace⟩ := hall c hmem
    have hkeyword : keyword? "when".toList (c :: u) = none := keyword?_of_ne hwhen _ _
    simp only [hu, hkeyword, List.head?_cons, Option.some.injEq, hbrace, if_false]

/-- A statement that starts like a call is read as one if it is taken for one. -/
theorem item_of_passes (hname : IsSegment name) (h : (afterParens 0 none s).any endsCall = true)
    (leading : List String) :
    item L leading (name.toList ++ '(' :: s) = mixinCall L [name] leading ('(' :: s) := by
  rw [hname.item, plainItem, mixinHead?_parens hname h, callHead?_parens hname, if_pos h]

/-- What is read as a declaration is one. -/
theorem declaration_yields (L : Level) (leading : List String) :
    Yields (fun x => ∃ d, x = .declaration d) (declaration L leading) := by
  refine Yields.get fun s => ?_
  exact Yields.after fun _ => Yields.after fun _ => Yields.after fun _ => Yields.after fun _ =>
    Yields.after fun _ => Yields.after fun _ => Yields.after fun _ => Yields.after fun _ =>
      Yields.after fun _ => .pure ⟨_, rfl⟩

/-- What is read as a definition is one. -/
theorem mixinDefinition_yields (L : Level) (start : List Char) (name : String) :
    Yields (fun x => ∃ site m, x = .mixin site m) (mixinDefinition L start name) :=
  Yields.after fun _ => Yields.after fun _ => Yields.after fun _ => Yields.after fun _ =>
    Yields.after fun _ => .pure ⟨_, _, rfl⟩

/-- Otherwise it is read as something else, if at all. -/
theorem item_ne_call (hname : IsSegment name) (h : (afterParens 0 none s).any endsCall = false)
    {leading : List String} {x : Item}
    (hitem : item L leading (name.toList ++ '(' :: s) = .ok (x, r)) (call : Call) :
    x ≠ .call call := by
  rw [hname.item, plainItem, callHead?_parens hname, h, if_neg Bool.false_ne_true] at hitem
  rintro rfl
  split at hitem
  · obtain ⟨site, m, hx⟩ := mixinDefinition_yields _ _ _ _ _ _ hitem
    cases hx
  · dsimp only at hitem
    split at hitem
    · obtain ⟨d, hx⟩ := declaration_yields _ _ _ _ _ hitem
      cases hx
    · obtain ⟨d, hx⟩ := rule_yields _ _ _ _ hitem
      cases hx
    · cases hitem

/-- A word with a comment behind it is read like the word alone, up to what follows the comment. -/
theorem words_comment (ha : IsKeyword a) (hbody : CommentBody text) (hs : EndsValue s) :
    words (unbounded document) false (a.toList ++ ' ' :: '/' :: '*' :: (text ++ '*' :: '/' :: s)) =
      .ok (.keyword a, s) := by
  have hskip : skipTrivia (' ' :: '/' :: '*' :: (text ++ '*' :: '/' :: s)) = s := by
    rw [skipTrivia_space, skipTrivia_comment hbody, skipTrivia_of_firm hs.firm]
  have hends : EndsTerm (' ' :: '/' :: '*' :: (text ++ '*' :: '/' :: s)) := by
    refine ⟨⟨endsName_space _, by simp⟩, by simp, fun c hc => hs.endsTerm.operator c ?_⟩
    rwa [hskip, ← skipTrivia_of_firm hs.firm] at hc
  have hword : IsWord (.keyword a) := .keyword ha
  have hfirst : wordRound (unbounded document) false
      (a.toList ++ ' ' :: '/' :: '*' :: (text ++ '*' :: '/' :: s)) =
        .ok (some (.keyword a), ' ' :: '/' :: '*' :: (text ++ '*' :: '/' :: s)) := by
    have hsum : sum (unbounded document) false
        (a.toList ++ ' ' :: '/' :: '*' :: (text ++ '*' :: '/' :: s)) =
          .ok (.keyword a, ' ' :: '/' :: '*' :: (text ++ '*' :: '/' :: s)) := sum_word hword hends
    exact wordRound_of_sum ((wordText_begins hword).append _).word hsum hends.slash
  have hlast : wordRound (unbounded document) false
      (' ' :: '/' :: '*' :: (text ++ '*' :: '/' :: s)) = .ok (none, s) := by
    rw [wordRound, trivia_bind, hskip, get_bind]
    obtain ⟨c, r, rfl, hc⟩ := hs
    rw [if_pos (by simpa using hc)]
    rfl
  have hcollect : collect (wordRound (unbounded document) false)
      (a.toList ++ ' ' :: '/' :: '*' :: (text ++ '*' :: '/' :: s)) = .ok ([.keyword a], s) := by
    rw [collect_eq, collect_next (.words false) hfirst, collect_end (.words false) hlast]
    rfl
  rw [words_eq, bind_of_ok hcollect]
  rfl

/-- Where the first list of words comes to the same on two texts, so does the value. -/
theorem value_congr (h : words L false s = words L false r) (allowComma : Bool) :
    value L allowComma s = value L allowComma r := by
  cases allowComma with
  | false => exact h
  | true => simp only [value, if_true, map_apply, separated_eq, bind, StateT.bind, h]

/-- A comment behind the first argument of a call makes no difference to the arguments. -/
theorem arguments_comment (ha : IsKeyword a) (hbody : CommentBody text) (semicolons : Bool)
    (s : List Char) :
    collect (argumentsRound document semicolons)
        (a.toList ++ ' ' :: '/' :: '*' :: (text ++ '*' :: '/' :: ',' :: s)) =
      collect (argumentsRound document semicolons) (a.toList ++ ',' :: s) := by
  have hcomma : EndsValue (',' :: s) := ⟨',', s, rfl, rfl⟩
  have hword : IsWord (.keyword a) := .keyword ha
  have hplain : words (unbounded document) false (a.toList ++ ',' :: s) =
      .ok (.keyword a, ',' :: s) :=
    words_of_sum (wordText_begins hword) (fun _ => sum_word hword) hcomma
  have hvalue : value (unbounded document) semicolons
      (a.toList ++ ' ' :: '/' :: '*' :: (text ++ '*' :: '/' :: ',' :: s)) =
        value (unbounded document) semicolons (a.toList ++ ',' :: s) :=
    value_congr ((words_comment ha hbody hcomma).trans hplain.symm) semicolons
  have hround : ∀ v, argumentsRound document semicolons (a.toList ++ v) =
      (value (unbounded document) semicolons >>= fun e =>
        separator semicolons .missingArgumentSeparator >>= fun _ =>
          pure (some ⟨none, e⟩)) (a.toList ++ v) := by
    intro v
    obtain ⟨c, u, hlist, hc⟩ := ha.cons
    have hargument : argument (unbounded document) semicolons (c :: (u ++ v)) =
        (Argument.mk none <$> value (unbounded document) semicolons) (c :: (u ++ v)) := by
      simp only [argument, assignHead?, atName?_of_isAlpha hc]
    rw [hlist, List.cons_append, argumentsRound, bracketRound, trivia_bind,
      skipTrivia_cons (isBlank_of_isAlpha hc) (ne_of_isAlpha hc rfl), get_bind]
    trans (argument (unbounded document) semicolons >>= fun arg =>
      separator semicolons .missingArgumentSeparator >>= fun _ => pure (some arg)) (c :: (u ++ v))
    · refine congrFun ?_ (c :: (u ++ v))
      split
      · next heq => cases heq
      · next heq => exact absurd (List.cons.inj heq).1 (ne_of_isAlpha hc rfl)
      · rfl
    · simp only [bind, StateT.bind, hargument, map_apply]
      cases value (unbounded document) semicolons (c :: (u ++ v)) with
      | error e => rfl
      | ok x => rfl
  refine collect_congr (.callArguments semicolons) ?_
  rw [hround, hround]
  simp only [bind, StateT.bind, hvalue]

/-- The arguments of the call, if commas separate or if they do not. -/
def twoWords (a b : String) : (semicolons : Bool) → List Argument
  | false => [⟨none, .keyword a⟩, ⟨none, .keyword b⟩]
  | true => [⟨none, .list .comma [.keyword a, .keyword b]⟩]

/-- Two keywords are plain arguments. -/
theorem twoWords_plain (ha : IsKeyword a) (hb : IsKeyword b) :
    ∀ arg ∈ twoWords a b false, arg.IsPlain ∧ arg.value.IsPhrase := by
  have hphrase : ∀ name, IsKeyword name → Expr.IsPhrase (.keyword name) := fun _ h =>
    .word (.keyword h)
  have hplain : ∀ name, IsKeyword name → Argument.IsPlain ⟨none, .keyword name⟩ := fun name h =>
    ⟨nofun, .phrase (hphrase name h)⟩
  simpa [twoWords] using And.intro ⟨hplain a ha, hphrase a ha⟩ ⟨hplain b hb, hphrase b hb⟩

/-- Two keywords with a comma between them are two arguments, or a list where semicolons
separate. -/
theorem arguments_twoWords (ha : IsKeyword a) (hb : IsKeyword b) (semicolons : Bool)
    (s : List Char) :
    collect (argumentsRound document semicolons)
        (a.toList ++ ',' :: ' ' :: (b.toList ++ ')' :: s)) = .ok (twoWords a b semicolons, s) := by
  cases semicolons with
  | false =>
    have hargs := twoWords_plain ha hb
    have hread : callArguments (unbounded document) _ = _ :=
      readsArguments_commas (fun arg h => (hargs arg h).1) (fun arg h => (hargs arg h).2) s
    rw [callArguments, parenthesised_eq, get_bind,
      hasSemicolon_commas fun arg h => (hargs arg h).1] at hread
    simpa [twoWords, ArgumentStyle.text, Argument.text, Expr.text, Expr.phrase, wordText]
      using hread
  | true =>
    have hlist : Expr.IsPlain (.list .comma [.keyword a, .keyword b]) :=
      .list (Nat.le_refl 2) (by simpa using ⟨.word (.keyword ha), .word (.keyword hb)⟩)
    have hsep : separator true .missingArgumentSeparator (')' :: s) = .ok ((), ')' :: s) := by
      rw [separator, trivia_bind, skipTrivia_cons rfl (by decide)]
      rfl
    have hfirst : argumentsRound document true
        (Argument.text ⟨none, .list .comma [.keyword a, .keyword b]⟩ ++ ')' :: s) = _ :=
      argumentsRound_text ⟨by simp, hlist⟩ (by simp) ⟨')', s, rfl, rfl⟩ (by simp) hsep
    have htext : Argument.text ⟨none, .list .comma [.keyword a, .keyword b]⟩ ++ ')' :: s =
        a.toList ++ ',' :: ' ' :: (b.toList ++ ')' :: s) := by
      simp [Argument.text, Expr.text, Expr.phrase, wordText]
    rw [htext] at hfirst
    rw [collect_eq, collect_next (.callArguments true) hfirst,
      collect_end (.callArguments true) (argumentsRound_close true s)]
    rfl

/-- A call of two arguments with a comment behind the first, up to the end of the block. -/
def commentedCall (name a b : String) (text : List Char) : List Char :=
  name.toList ++ '(' :: (a.toList ++ [' ', '/', '*'] ++ (text ++ afterComment b.toList))

/-- What a text looks like to whoever looks ahead, alone in the parentheses of a call. -/
def passesForCall (text : List Char) : Bool :=
  (afterParens 0 none (text ++ [')', ';'])).any endsCall

/-- A character that no name has is in no keyword. -/
theorem not_mem_keyword {c : Char} (ha : IsKeyword a) (hc : isNameChar c = false) : c ∉ a.toList :=
  fun hmem => Bool.false_ne_true (hc.symm.trans (ha.ascii c hmem))

/-- Behind the comment, a keyword and the end of the call look the same as the end alone to whoever
looks ahead. -/
theorem endsAlike_keyword (hb : IsKeyword b) : EndsAlike (afterComment b.toList) [')', ';'] := by
  have hall : ∀ c ∈ '*' :: '\n' :: ';' :: brackets, isNameChar c = false :=
    List.all_iff_forall_prop.1 (by decide)
  exact endsAlike_afterComment fun c hc => not_mem_keyword hb (hall c hc)

/-- Looking ahead, the comment is all that counts of the arguments. -/
theorem lookAhead_comment (ha : IsKeyword a) (hb : IsKeyword b) (hbody : CommentBody text) :
    (afterParens 0 none (a.toList ++ [' ', '/', '*'] ++ (text ++ afterComment b.toList))).any
        endsCall = passesForCall text ∧
      hasSemicolon (a.toList ++ [' ', '/', '*'] ++ (text ++ afterComment b.toList)) =
        hasSemicolon (text ++ [')', ';']) := by
  have hnames : ∀ c ∈ ';' :: brackets, isNameChar c = false :=
    List.all_iff_forall_prop.1 (by decide)
  have hsigns : ∀ c ∈ ';' :: brackets, c ∉ [' ', '/', '*'] := List.all_iff_forall_prop.1 (by decide)
  have hplain : ∀ c ∈ ';' :: brackets, c ∉ a.toList ++ [' ', '/', '*'] := fun c hc hmem =>
    (List.mem_append.1 hmem).elim (not_mem_keyword ha (hnames c hc)) (hsigns c hc)
  have hbrackets : ∀ c ∈ brackets, c ∉ a.toList ++ [' ', '/', '*'] := fun c hc =>
    hplain c (.tail _ hc)
  constructor
  · rw [afterParens_plain hbrackets, (endsAlike_keyword hb).afterParens hbody (by simp)]
    rfl
  · rw [hasSemicolon, hasSemicolonFrom_plain hbrackets (hplain ';' (.head _)),
      (endsAlike_keyword hb).hasSemicolonFrom text (by simp)]
    rfl

/-- A call with a comment that passes is read, and its arguments are split as the comment says. -/
theorem item_commentedCall (hname : IsSegment name) (ha : IsKeyword a) (hb : IsKeyword b)
    (hbody : CommentBody text) (hpasses : passesForCall text = true) :
    item (unbounded document) [] (commentedCall name a b text) =
      .ok (.call ⟨[name], twoWords a b (hasSemicolon (text ++ [')', ';'])), false, {}⟩,
        [' ', '}']) := by
  obtain ⟨hlook, hsemicolon⟩ := lookAhead_comment ha hb hbody
  have hargs : callArguments (unbounded document)
      ('(' :: (a.toList ++ [' ', '/', '*'] ++ (text ++ afterComment b.toList))) =
        .ok (twoWords a b (hasSemicolon (text ++ [')', ';'])), [';', ' ', '}']) := by
    have hsource : a.toList ++ [' ', '/', '*'] ++ (text ++ afterComment b.toList) =
        a.toList ++ ' ' :: '/' :: '*' :: (text ++ '*' :: '/' :: ',' :: ' ' ::
          (b.toList ++ ')' :: [';', ' ', '}'])) := by simp [afterComment]
    rw [callArguments, parenthesised_eq, get_bind, hsemicolon, hsource]
    exact (arguments_comment ha hbody _ _).trans (arguments_twoWords ha hb _ _)
  rw [commentedCall, item_of_passes hname (hlook.trans hpasses), mixinCall, trivia_bind,
    skipTrivia_cons rfl (by decide), bind_of_ok hargs]
  rfl

/-- The call is read as an item, behind a space. -/
theorem statementRound_commentedCall (hname : IsSegment name) (a b : String) (text : List Char) :
    statementRound (unbounded document) (' ' :: commentedCall name a b text) =
      (some <$> item (unbounded document) []) (commentedCall name a b text) :=
  (statementRound_space _ _).trans (hname.statementRound_eq _ _)

/-- A block of the call, if the comment passes and brings no semicolon. -/
theorem block_commentedCall (hname : IsSegment name) (ha : IsKeyword a) (hb : IsKeyword b)
    (hbody : CommentBody text) (hpasses : passesForCall text = true)
    (hsemicolon : hasSemicolon (text ++ [')', ';']) = false) :
    block (unbounded document) (' ' :: commentedCall name a b text) =
      .ok ([.call ⟨[name], twoWords a b false, false, {}⟩], []) := by
  have hitem : item (unbounded document) [] (commentedCall name a b text) = _ :=
    item_commentedCall hname ha hb hbody hpasses
  rw [hsemicolon] at hitem
  have hround := (statementRound_commentedCall hname a b text).trans (map_of_ok some hitem)
  have hlast := (statementRound_space (unbounded document) _).trans (statementRound_close _ [])
  rw [block_eq, collect_eq, collect_next .block hround, collect_end .block hlast]
  rfl

/-- Only then is the block of the call with its two arguments. -/
theorem passes_of_block (hname : IsSegment name) (ha : IsKeyword a) (hb : IsKeyword b)
    (hbody : CommentBody text)
    (h : block (unbounded document) (' ' :: commentedCall name a b text) =
      .ok ([.call ⟨[name], twoWords a b false, false, {}⟩], r)) :
    passesForCall text = true ∧ hasSemicolon (text ++ [')', ';']) = false := by
  have hround : statementRound (unbounded document) _ = _ :=
    statementRound_commentedCall hname a b text
  rcases collect_starts .block h with ⟨t, hnone⟩ | ⟨x, t, rest, hsome, hx⟩
  · obtain ⟨y, -, hy⟩ := ok_of_map (hround.symm.trans hnone)
    cases hy
  obtain ⟨y, hitem, hy⟩ := ok_of_map (hround.symm.trans hsome)
  cases hy
  cases hx
  cases hpasses : passesForCall text with
  | false =>
    have hlook := (lookAhead_comment ha hb hbody).1.trans hpasses
    exact absurd rfl (item_ne_call hname hlook hitem _)
  | true =>
    rw [item_commentedCall hname ha hb hbody hpasses] at hitem
    refine ⟨rfl, ?_⟩
    cases hsemicolon : hasSemicolon (text ++ [')', ';']) with
    | false => rfl
    | true =>
      rw [hsemicolon] at hitem
      cases hitem

end

/-! ## Variables with a comment before their colon -/

section
variable {document : Nat} {L : Level} {name a : String} {text s r : List Char}

/-- A variable with a comment before its colon. -/
def commentedAssign (name a : String) (text : List Char) : List Char :=
  '@' :: (name.toList ++ ' ' :: '/' :: '*' :: (text ++ '*' :: '/' :: ':' :: ' ' ::
    (a.toList ++ [';'])))

/-- With a semicolon first, no brace is reached. -/
theorem reachesBrace_semicolon (h : ∀ c ∈ ['{', '('], c ∉ text) (s : List Char) :
    reachesBrace 0 (text ++ ';' :: s) = false := by
  induction text with
  | nil => rfl
  | cons c text ih =>
    obtain ⟨hne, htext⟩ := not_mem_of_cons h
    simp [reachesBrace, hne '{' (by simp), hne '(' (by simp), ih htext]

/-- A variable with a comment before its colon is taken for a declaration or a rule, if for
anything. -/
theorem item_commentedAssign (hname : IsName name)
    (himport : name.toList.map Char.toLower ≠ "import".toList) (ha : IsKeyword a)
    (hbody : CommentBody text) {leading : List String} {x : Item}
    (h : item L leading (commentedAssign name a text) = .ok (x, r)) :
    (∃ d, x = .declaration d) ∨ ∃ d, x = .rule d := by
  have hatName : atName? (commentedAssign name a text) = some (name.toList, _) :=
    atName?_name hname (endsName_space _)
  have hskip : skipTrivia (' ' :: '/' :: '*' :: (text ++ '*' :: '/' :: ':' :: ' ' ::
      (a.toList ++ [';']))) = ':' :: ' ' :: (a.toList ++ [';']) := by
    rw [skipTrivia_space, skipTrivia_comment hbody, skipTrivia_cons rfl (by decide)]
  have hassign : assignHead? (commentedAssign name a text) = none := by
    simp only [assignHead?, hatName]
    rfl
  have himported : importHead? (commentedAssign name a text) = none := by
    simp only [importHead?, hatName, if_neg himport]
  have hdetached : detachedHead? (commentedAssign name a text) = none := by
    simp only [detachedHead?, hatName, hskip]
    rfl
  have hrule : atRuleHead? (commentedAssign name a text) = none := by
    have hplain : ∀ c ∈ ['{', '('], c ∉ ':' :: ' ' :: a.toList := by
      have hnames : ∀ c ∈ ['{', '('], isNameChar c = false ∧ c ∉ [':', ' '] :=
        List.all_iff_forall_prop.1 (by decide)
      intro c hc hmem
      obtain ⟨hname, hsign⟩ := hnames c hc
      exact (List.mem_append (s := [':', ' ']).1 hmem).elim hsign (not_mem_keyword ha hname)
    have hreaches : reachesBrace 0 (':' :: ' ' :: (a.toList ++ [';'])) = false :=
      reachesBrace_semicolon hplain []
    simp only [atRuleHead?, hatName, hskip, hreaches, Bool.false_eq_true, if_false]
  have hsegment : segment? (commentedAssign name a text) = none := rfl
  simp only [item, hassign, himported, hdetached, hrule, plainItem, mixinHead?, callHead?, path?,
    hsegment, Option.isSome_none, Bool.false_eq_true, if_false] at h
  split at h
  · exact .inl (declaration_yields _ _ _ _ _ h)
  · exact .inr (rule_yields _ _ _ _ h)
  · cases h

/-- Trimming keeps every character that is not white space. -/
theorem mem_trim {c : Char} (hc : isBlank c = false) (h : c ∈ s) : c ∈ trim s := by
  have hdrop : ∀ t : List Char, c ∈ t → c ∈ t.dropWhile isBlank := by
    intro t ht
    rw [← List.takeWhile_append_dropWhile (p := isBlank) (l := t)] at ht
    refine (List.mem_append.1 ht).resolve_left fun hmem => ?_
    exact Bool.false_ne_true (hc.symm.trans (List.mem_takeWhile_imp hmem))
  rw [trim, List.mem_reverse]
  exact hdrop _ (List.mem_reverse.2 (hdrop s h))

/-- An import with a comment behind its name keeps the comment. -/
theorem importStatement_comment {raw : String}
    (h : importStatement (' ' :: '/' :: s) = .ok (raw, r)) : '/' ∈ raw.toList := by
  unfold importStatement at h
  split at h
  · cases h
    have hmem : '/' ∈ trim ((' ' :: '/' :: s).takeWhile (· != ';')) := mem_trim rfl (by simp)
    simp only [String.toList_append, String.toList_ofList, List.mem_append]
    exact .inl (.inr hmem)
  · cases h

/-- A comment before the colon of what is named like an import stays in the import. -/
theorem parse_commentedImport_ne (hname : IsName name)
    (himport : name.toList.map Char.toLower = "import".toList) (ha : IsKeyword a)
    (text : List Char) :
    Stylesheet.parse (String.ofList (commentedAssign name a text)) document ≠
      Stylesheet.parse (String.ofList ('@' :: (name.toList ++ ':' :: ' ' :: (a.toList ++ [';']))))
        document := by
  have hfirm : ∀ u, Firm ('@' :: u) := fun u => ⟨'@', u, rfl, rfl, by decide⟩
  have hhead : ∀ u, EndsName u → importHead? ('@' :: (name.toList ++ u)) = some u := by
    intro u hu
    simp only [importHead?, atName?_name hname hu, if_pos himport]
  have hplain : importStatement (':' :: ' ' :: a.toList ++ [';']) =
      .ok ("@import " ++ String.ofList (trim (':' :: ' ' :: a.toList)) ++ ";", []) :=
    importStatement_plain (by simp [not_mem_keyword ha (c := ';') (by decide)]) []
  have hstatement : topStatement (unbounded document) []
      ('@' :: (name.toList ++ ':' :: ' ' :: (a.toList ++ [';']))) =
        .ok (.inl ("@import " ++ String.ofList (trim (':' :: ' ' :: a.toList)) ++ ";"), []) := by
    rw [topStatement, hhead _ (endsName_cons rfl _)]
    exact map_of_ok _ hplain
  intro h
  rw [parse_statement (hfirm _) hstatement rfl] at h
  obtain ⟨raw, r, hraw, hfirst⟩ := parse_starts_import (hfirm _) (hhead _ (endsName_space _)) h
  have hmem := importStatement_comment hraw
  cases hfirst
  have hin : '/' ∈ trim (':' :: ' ' :: a.toList) := by simpa using hmem
  simpa [not_mem_keyword ha (c := '/') (by decide)] using mem_of_mem_trim hin

/-- A comment before the colon is never neutral. -/
theorem parse_commentedAssign_ne (hname : IsName name) (ha : IsKeyword a)
    (hbody : CommentBody text) :
    Stylesheet.parse (String.ofList (commentedAssign name a text)) document ≠
      Stylesheet.parse (String.ofList ('@' :: (name.toList ++ ':' :: ' ' :: (a.toList ++ [';']))))
        document := by
  by_cases himport : name.toList.map Char.toLower = "import".toList
  · exact parse_commentedImport_ne hname himport ha text
  have hvalue : value (unbounded document) true (a.toList ++ [';']) = .ok (.keyword a, [';']) :=
    value_text (.phrase (.word (.keyword ha))) (by simp) ⟨';', [], rfl, rfl⟩ (by simp)
  have hbegins : Begins (a.toList ++ [';']) := (wordText_begins (.keyword ha)).append [';']
  have hbrace : (a.toList ++ [';']).head? ≠ some '{' := by
    obtain ⟨c, u, hlist, hc⟩ := ha.cons
    simp [hlist, ne_of_isAlpha hc (d := '{') rfl]
  have hhead : importHead? (commentedAssign name a text) = none :=
    importHead?_name hname (endsName_space _) himport
  intro h
  rw [parse_assign hname himport hbegins.firm hbrace hvalue] at h
  obtain ⟨x, r, hitem, hx⟩ := parse_starts_item ⟨'@', _, rfl, rfl, by decide⟩ hhead h
  rcases item_commentedAssign hname himport ha hbody hitem with ⟨d, rfl⟩ | ⟨d, rfl⟩
  · cases hx
  · cases hx

end

end Grammar

open Grammar

/-- A text that, alone in the parentheses of a call, passes for its arguments and has no semicolon
that separates them. -/
def PassesForArguments (text : String) : Prop :=
  (callHead? (".m(" ++ text ++ ");").toList).isSome ∧ hasSemicolon (text ++ ");").toList = false

instance (text : String) : Decidable (PassesForArguments text) :=
  inferInstanceAs (Decidable (_ ∧ _))

/-- Passing for arguments, by what the scanners that look ahead see. -/
theorem passesForArguments_iff (text : String) :
    PassesForArguments text ↔
      passesForCall text.toList = true ∧ hasSemicolon (text.toList ++ [')', ';']) = false := by
  have hname : IsSegment ".m" := by decide
  have hcall : (".m(" ++ text ++ ");").toList =
      ".m".toList ++ '(' :: (text.toList ++ [')', ';']) := by simp
  have htext : (text ++ ");").toList = text.toList ++ [')', ';'] := by simp
  rw [PassesForArguments, hcall, htext, callHead?_parens hname, passesForCall]
  cases (afterParens 0 none (text.toList ++ [')', ';'])).any endsCall <;> simp

/-- Without a comment the call is read with its two arguments. -/
theorem parse_plainCall (document : Nat) {a b : String} (ha : IsKeyword a) (hb : IsKeyword b) :
    Stylesheet.parse (".x \x7b .m(" ++ a ++ ", " ++ b ++ "); \x7d") document =
      .ok ⟨[], [.rule ⟨[".x"], none, [.call ⟨[".m"], twoWords a b false, false, {}⟩]⟩]⟩ := by
  have hselector : IsSegment ".x" := by decide
  have hname : IsSegment ".m" := by decide
  have hargs := twoWords_plain ha hb
  have hcall : Call.IsPlain ⟨[".m"], twoWords a b false, false, {}⟩ :=
    ⟨by simp, by simpa using hname, fun arg harg => (hargs arg harg).1, rfl⟩
  have hread : ReadsArguments document .commas (twoWords a b false) :=
    readsArguments_commas (fun arg harg => (hargs arg harg).1) fun arg harg => (hargs arg harg).2
  have hsource : ".x \x7b .m(" ++ a ++ ", " ++ b ++ "); \x7d" = String.ofList (".x".toList ++
      ' ' :: '{' :: ' ' :: (Call.text (fun _ => .child) .commas
        ⟨[".m"], twoWords a b false, false, {}⟩ ++ ' ' :: '}' :: [])) := by
    have hend : callEnd false = [';'] := rfl
    have htext : ∀ name, Argument.text ⟨none, .keyword name⟩ = name.toList := fun _ => rfl
    apply String.toList_inj.1
    simp [Call.text, pathText, pathTail, hend, ArgumentStyle.text, twoWords, htext]
  rw [hsource]
  -- The arguments become a variable, so that their text is not taken apart.
  generalize twoWords a b false = args at hcall hread ⊢
  exact parse_single hselector.firm hselector.importHead?
    (item_rule hselector (block_call hcall hread [])) rfl

/-- A comment between two arguments is neutral exactly if its text passes for arguments. -/
theorem parse_commentedCall_iff (document : Nat) {a b text : String} (ha : IsKeyword a)
    (hb : IsKeyword b) (htext : CommentBody text.toList) :
    Stylesheet.parse (".x \x7b .m(" ++ a ++ " /*" ++ text ++ "*/, " ++ b ++ "); \x7d") document =
        Stylesheet.parse (".x \x7b .m(" ++ a ++ ", " ++ b ++ "); \x7d") document ↔
      PassesForArguments text := by
  have hselector : IsSegment ".x" := by decide
  have hname : IsSegment ".m" := by decide
  have hcommented : ".x \x7b .m(" ++ a ++ " /*" ++ text ++ "*/, " ++ b ++ "); \x7d" =
      String.ofList (".x".toList ++ ' ' :: '{' :: ' ' ::
        commentedCall ".m" a b text.toList) := by
    apply String.toList_inj.1
    simp [commentedCall, afterComment]
  rw [parse_plainCall document ha hb, hcommented, passesForArguments_iff]
  constructor
  · intro h
    obtain ⟨x, r, hitem, hx⟩ := parse_starts_item hselector.firm hselector.importHead? h
    rw [item_selector hselector] at hitem
    obtain ⟨items, hblock, rfl⟩ := ok_of_map hitem
    cases hx
    exact passes_of_block hname ha hb htext hblock
  · rintro ⟨hpasses, hsemicolon⟩
    have hblock : block (unbounded document) _ = _ :=
      block_commentedCall hname ha hb htext hpasses hsemicolon
    exact parse_single hselector.firm hselector.importHead? (item_rule hselector hblock) rfl

/-- A comment before the colon of a variable makes something else of the statement, whatever the
comment is. A comment between the arguments of a call makes no difference exactly if its text, alone
in the parentheses of a call, passes for arguments without a semicolon. -/
theorem Stylesheet.parse_comment (document : Nat) {name a b text : String} (hname : IsName name)
    (ha : IsKeyword a) (hb : IsKeyword b) (htext : ¬ ['*', '/'] <:+: text.toList) :
    Stylesheet.parse ("@" ++ name ++ " /*" ++ text ++ "*/: " ++ a ++ ";") document ≠
        Stylesheet.parse ("@" ++ name ++ ": " ++ a ++ ";") document ∧
      (Stylesheet.parse (".x \x7b .m(" ++ a ++ " /*" ++ text ++ "*/, " ++ b ++ "); \x7d") document =
          Stylesheet.parse (".x \x7b .m(" ++ a ++ ", " ++ b ++ "); \x7d") document ↔
        PassesForArguments text) := by
  have hassign : "@" ++ name ++ " /*" ++ text ++ "*/: " ++ a ++ ";" =
      String.ofList (commentedAssign name a text.toList) := by
    apply String.toList_inj.1
    simp [commentedAssign]
  have hplainAssign : "@" ++ name ++ ": " ++ a ++ ";" =
      String.ofList ('@' :: (name.toList ++ ':' :: ' ' :: (a.toList ++ [';']))) := by
    apply String.toList_inj.1
    simp
  refine ⟨?_, ?_⟩
  · rw [hassign, hplainAssign]
    exact parse_commentedAssign_ne hname ha htext
  · exact parse_commentedCall_iff document ha hb htext

/-- Text of all kinds in a comment, with brackets and quotes that close and a semicolon in them. -/
theorem Stylesheet.parse_comment_closed :
    PassesForArguments " see (a; b), [c] and \"d\" * / " ∧
      Stylesheet.parse "@n /* see (a; b), [c] and \"d\" * / */: p;" ≠
        Stylesheet.parse "@n: p;" ∧
      Stylesheet.parse ".x \x7b .m(p /* see (a; b), [c] and \"d\" * / */, q); \x7d" =
        Stylesheet.parse ".x \x7b .m(p, q); \x7d" := by
  have hpasses : PassesForArguments " see (a; b), [c] and \"d\" * / " := by decide +kernel
  have htext : ¬ ['*', '/'] <:+: " see (a; b), [c] and \"d\" * / ".toList := by decide +kernel
  have hname : IsName "n" := by decide
  have hp : IsKeyword "p" := by decide
  have hq : IsKeyword "q" := by decide
  obtain ⟨hassign, hcall⟩ := Stylesheet.parse_comment 0 hname hp hq htext
  exact ⟨hpasses, hassign, hcall.2 hpasses⟩

/-- A variable with a comment before its colon is taken for a declaration. A comment with a
semicolon between two arguments makes one list of them. -/
theorem comment_not_neutral :
    ((Stylesheet.parse "@n /*c*/: a;").toOption.bind fun sheet =>
      match sheet.body with
      | [.declaration ⟨name, .keyword word, false, _⟩] => some (name, word)
      | _ => none) = some ("@n /*c*/", "a") ∧
    Stylesheet.parse "@n /*c*/: a;" ≠ .ok ⟨[], [.assign "n" (.keyword "a")]⟩ ∧
    ((Stylesheet.parse ".x \x7b .m(a /*;*/, b); \x7d").toOption.bind fun sheet =>
      match sheet.body with
      | [.rule ⟨_, _, [.call ⟨_, args, _, _⟩]⟩] => some args.length
      | _ => none) = some 1 := by
  have hassign : ((Stylesheet.parse "@n /*c*/: a;").toOption.bind fun sheet =>
      match sheet.body with
      | [.declaration ⟨name, .keyword word, false, _⟩] => some (name, word)
      | _ => none) = some ("@n /*c*/", "a") := by
    decide +kernel
  refine ⟨hassign, fun h => ?_, by decide +kernel⟩
  rw [h] at hassign
  cases hassign

end LessSheet
