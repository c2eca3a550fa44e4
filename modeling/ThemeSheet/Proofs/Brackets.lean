import ThemeSheet.Proofs.DataLiteral

namespace ThemeSheet.Literal

open Text

/-! What was found stays found when more text follows. -/

theorem afterString_more {quote : Char} {text rest : List Char}
    (h : afterString quote text = rest) (some : rest ≠ []) (more : List Char) :
    afterString quote (text ++ more) = rest ++ more := by
  fun_induction afterString quote text with
  | case1 => exact absurd h.symm some
  | case2 => exact absurd h.symm some
  | case3 c rest ih =>
    change afterString quote ('\\' :: c :: (rest ++ more)) = _
    rw [afterString]
    exact ih h
  | case4 rest alone pair =>
    subst h
    rw [List.cons_append, afterString_cons (ne_backslash alone pair), if_pos rfl]
  | case5 c rest alone pair other line =>
    subst h
    rw [List.cons_append, afterString_cons (ne_backslash alone pair), if_neg other, if_pos line]
  | case6 c rest alone pair other line ih =>
    rw [List.cons_append, afterString_cons (ne_backslash alone pair), if_neg other, if_neg line]
    exact ih h

theorem afterBlockComment_more {text rest : List Char} (h : afterBlockComment text = rest)
    (some : rest ≠ []) (more : List Char) : afterBlockComment (text ++ more) = rest ++ more := by
  fun_induction afterBlockComment text with
  | case1 => exact absurd h.symm some
  | case2 =>
    subst h
    rfl
  | case3 c rest pair ih =>
    rw [List.cons_append, afterBlockComment]
    · exact ih h
    · intro after star same
      cases rest with
      | nil => exact absurd h.symm some
      | cons d rest => exact pair _ star (by rw [(List.cons.inj same).1])

theorem afterOpaque?_quote {quote : Char} (h : isQuote quote = true) (rest : List Char) :
    afterOpaque? (quote :: rest) = some (afterString quote rest) := by
  simp only [isQuote, Bool.or_eq_true, beq_iff_eq] at h
  rcases h with (rfl | rfl) | rfl <;> simp [afterOpaque?, isQuote, backtick]

theorem afterOpaque?_code {c : Char} (slash : c ≠ '/') (quote : isQuote c = false)
    (rest : List Char) : afterOpaque? (c :: rest) = none := by
  unfold afterOpaque?
  split
  · rename_i eq
    exact absurd (List.cons.inj eq).1 slash
  · rename_i eq
    exact absurd (List.cons.inj eq).1 slash
  · rename_i eq
    rw [← (List.cons.inj eq).1, quote]
    rfl
  · rfl

/-- A string or comment with text behind it ends where it did. -/
theorem afterOpaque?_more {text rest : List Char} (h : afterOpaque? text = some rest)
    (left : rest ≠ []) (more : List Char) : afterOpaque? (text ++ more) = some (rest ++ more) := by
  unfold afterOpaque? at h
  split at h
  · rename_i tail
    cases h
    change some ((tail ++ more).dropWhile (· != '\n')) = _
    rw [List.dropWhile_append, if_neg (by simpa using left)]
  · rename_i tail
    cases h
    exact congrArg some (afterBlockComment_more rfl left more)
  · split at h
    · rename_i quoted
      cases h
      rw [List.cons_append, afterOpaque?_quote quoted, afterString_more rfl left]
    · cases h
  · cases h

/-- Code with a character behind it stays code. -/
theorem afterOpaque?_none {c d : Char} {rest : List Char}
    (h : afterOpaque? (c :: d :: rest) = none) (more : List Char) :
    afterOpaque? (c :: d :: (rest ++ more)) = none := by
  by_cases slash : c = '/'
  · subst slash
    by_cases line : d = '/'
    · subst line
      cases h
    · by_cases block : d = '*'
      · subst block
        cases h
      · simp [afterOpaque?, line, block, isQuote, backtick]
  · cases quote : isQuote c with
    | true =>
      rw [afterOpaque?_quote quote] at h
      cases h
    | false => exact afterOpaque?_code slash quote _

/-- A bracket and the one that closes it are code, whatever follows. -/
theorem afterOpaque?_bracket {opening closing : Char} (pair : closing? opening = some closing)
    {c : Char} (h : c = opening ∨ c = closing) (rest : List Char) :
    afterOpaque? (c :: rest) = none := by
  unfold closing? at pair
  split at pair <;> cases pair <;> rcases h with rfl | rfl <;>
    exact afterOpaque?_code (by decide) (by decide) rest

theorem afterClose?_of_afterOpaque? {opening closing : Char} {depth : Nat} {text rest : List Char}
    (h : afterOpaque? text = some rest) :
    afterClose? opening closing depth text = afterClose? opening closing depth rest := by
  rw [afterClose?]
  split
  · rename_i found
    rw [h] at found
    cases found
    rfl
  · rename_i none
    rw [h] at none
    cases none

theorem afterClose?_code {opening closing : Char} {depth : Nat} {c : Char} {rest : List Char}
    (h : afterOpaque? (c :: rest) = none) :
    afterClose? opening closing depth (c :: rest) =
      if c = opening then afterClose? opening closing (depth + 1) rest
      else if c = closing then
        if depth ≤ 1 then some rest else afterClose? opening closing (depth - 1) rest
      else afterClose? opening closing depth rest := by
  rw [afterClose?]
  split
  · rename_i found
    rw [h] at found
    cases found
  · rfl

/-- A bracket that is closed is closed at the same place when more text follows. -/
theorem afterClose?_more {opening closing : Char} (pair : closing? opening = some closing)
    {depth : Nat} {text rest : List Char} (h : afterClose? opening closing depth text = some rest)
    (more : List Char) : afterClose? opening closing depth (text ++ more) = some (rest ++ more) := by
  fun_induction afterClose? opening closing depth text with
  | case1 depth text after found _ ih =>
    have left : after ≠ [] := by
      rintro rfl
      rw [afterClose?] at h
      cases h
    rw [afterClose?_of_afterOpaque? (afterOpaque?_more found left more)]
    exact ih h
  | case2 => cases h
  | case3 depth rest _ ih =>
    have code := afterOpaque?_bracket pair (.inl rfl) (rest ++ more)
    rw [List.cons_append, afterClose?_code code, if_pos rfl]
    exact ih h
  | case4 depth rest last _ other =>
    have code := afterOpaque?_bracket pair (.inr rfl) (rest ++ more)
    cases h
    rw [List.cons_append, afterClose?_code code, if_neg other, if_pos rfl, if_pos last]
  | case5 depth rest other _ inner ih =>
    have code := afterOpaque?_bracket pair (.inr rfl) (rest ++ more)
    rw [List.cons_append, afterClose?_code code, if_neg other, if_pos rfl, if_neg inner]
    exact ih h
  | case6 depth c rest none opens closes ih =>
    cases rest with
    | nil =>
      rw [afterClose?] at h
      cases h
    | cons d rest =>
      have code := afterOpaque?_none none more
      rw [List.cons_append, List.cons_append, afterClose?_code code, if_neg opens, if_neg closes]
      exact ih h

theorem afterBalanced?_more {text rest : List Char} (h : afterBalanced? text = some rest)
    (more : List Char) : afterBalanced? (text ++ more) = some (rest ++ more) := by
  cases text with
  | nil => cases h
  | cons c text =>
    obtain ⟨closing, pair, closed⟩ := Option.bind_eq_some_iff.mp h
    rw [List.cons_append, afterBalanced?, pair]
    exact afterClose?_more pair closed more

/-- A text that begins with a bracket and ends with the one that closes it. -/
def Bracketed (opening : Char) (text : List Char) : Prop :=
  text.head? = some opening ∧ closingIndex text 0 = .ok (some (text.length - 1))

theorem afterBalanced?_bracketed {opening : Char} {text : List Char} (h : Bracketed opening text)
    (more : List Char) : afterBalanced? (text ++ more) = some more := by
  obtain ⟨first, closed⟩ := h
  cases text with
  | nil => cases first
  | cons c text =>
    unfold closingIndex at closed
    rw [List.drop_zero] at closed
    dsimp only at closed
    split at closed
    · cases closed
    · rename_i closing pair
      obtain ⟨rest, found, same⟩ := Option.map_eq_some_iff.mp (Except.ok.inj closed)
      have shorter := afterClose?_length_lt found
      rw [List.length_cons] at same
      have empty : rest = [] := List.length_eq_zero_iff.mp (by omega)
      subst empty
      have whole : afterBalanced? (c :: text) = some [] := by
        rw [afterBalanced?, pair]
        exact found
      exact afterBalanced?_more whole more

/-! Expressions. -/

/-- A text in which every string is closed, `depth` more brackets are closed than opened, none of
them too early, and no comma stands outside of brackets. -/
inductive Expression : Nat → List Char → Prop
  | nil : Expression 0 []
  | string {depth quote text body after} (quoted : isQuote quote = true)
    (closed : splitString? quote text = some (body, after)) (tail : Expression depth after) :
    Expression depth (quote :: text)
  | opens {depth c rest} (opening : opensBracket c = true) (tail : Expression (depth + 1) rest) :
    Expression depth (c :: rest)
  | closes {depth c rest} (closing : closesBracket c = true) (tail : Expression depth rest) :
    Expression (depth + 1) (c :: rest)
  | other {depth c rest} (quote : isQuote c = false) (opens : opensBracket c = false)
    (closes : closesBracket c = false) (comma : c = ',' → 0 < depth)
    (tail : Expression depth rest) : Expression depth (c :: rest)

theorem not_isQuote_of_bracket {c : Char} (h : opensBracket c = true ∨ closesBracket c = true) :
    isQuote c = false := by
  simp only [opensBracket, closesBracket, closesContainer, Bool.or_eq_true, beq_iff_eq] at h
  rcases h with ((rfl | rfl) | rfl) | rfl | rfl | rfl <;> decide

theorem not_opensBracket_of_closes {c : Char} (h : closesBracket c = true) :
    opensBracket c = false := by
  simp only [closesBracket, closesContainer, Bool.or_eq_true, beq_iff_eq] at h
  rcases h with rfl | rfl | rfl <;> decide

/-- An expression ends where the member does. -/
theorem afterExpression_more {depth : Nat} {text more : List Char} (h : Expression depth text)
    (ends : EndsMember more) : afterExpression depth (text ++ more) = more := by
  induction h with
  | nil =>
    obtain ⟨c, rest, rfl, last⟩ := ends
    rcases last with rfl | rfl <;>
      simp [afterExpression, isQuote, backtick, opensBracket, closesBracket, closesContainer]
  | @string depth quote text body after quoted closed _ ih =>
    rw [List.cons_append, afterExpression, if_pos quoted,
      afterString_of_splitString? (splitString?_more closed more)]
    exact ih
  | @opens depth c rest opening _ ih =>
    rw [List.cons_append, afterExpression, if_neg (by simp [not_isQuote_of_bracket (.inl opening)]),
      if_pos opening]
    exact ih
  | @closes depth c rest closing _ ih =>
    rw [List.cons_append, afterExpression, if_neg (by simp [not_isQuote_of_bracket (.inr closing)]),
      if_neg (by simp [not_opensBracket_of_closes closing]), if_pos closing, if_neg (Nat.succ_ne_zero depth)]
    exact ih
  | @other depth c rest quote opens closes comma _ ih =>
    have inner : ¬ (c = ',' ∧ depth = 0) := by
      rintro ⟨here, top⟩
      have := comma here
      omega
    rw [List.cons_append, afterExpression, if_neg (by simp [quote]), if_neg (by simp [opens]),
      if_neg (by simp [closes]), if_neg inner]
    exact ih

theorem code_of_isSpace {c : Char} (h : isSpace c = true) :
    isQuote c = false ∧ opensBracket c = false ∧ closesBracket c = false ∧ c ≠ ',' := by
  have apart (d : Char) (dark : isSpace d = false) : c ≠ d := by
    rintro rfl
    rw [dark] at h
    cases h
  refine ⟨?_, ?_, ?_, apart ',' rfl⟩
  · simp [isQuote, apart '"' rfl, apart '\'' rfl, apart backtick rfl]
  · simp [opensBracket, apart '(' rfl, apart '[' rfl, apart '{' rfl]
  · simp [closesBracket, closesContainer, apart ')' rfl, apart ']' rfl, apart '}' rfl]

/-- Spaces in front of an expression are no part of it. -/
theorem Expression.trimLeft {text : List Char} (h : Expression 0 text) :
    Expression 0 (trimLeft text) := by
  induction text with
  | nil => exact h
  | cons c text ih =>
    cases space : isSpace c with
    | false => simpa [Text.trimLeft, space] using h
    | true =>
      obtain ⟨quote, opens, closes, -⟩ := code_of_isSpace space
      rw [Text.trimLeft, List.dropWhile_cons, if_pos space]
      apply ih
      cases h with
      | string quoted => simp [quote] at quoted
      | opens opening => simp [opens] at opening
      | other _ _ _ _ tail => exact tail

/-- Blanks behind an expression may be counted to it. -/
theorem Expression.append_blanks {depth : Nat} {text blanks : List Char}
    (h : Expression depth text) (all : Blanks blanks) :
    Expression depth (text ++ blanks) := by
  induction h with
  | nil =>
    induction blanks with
    | nil => exact .nil
    | cons c blanks ih =>
      obtain ⟨quote, opens, closes, comma⟩ :=
        code_of_isSpace (isSpace_of_isBlank (all c List.mem_cons_self))
      exact .other quote opens closes (fun here => absurd here comma)
        (ih fun d hd => all d (List.mem_cons_of_mem c hd))
  | string quoted closed _ ih => exact .string quoted (splitString?_more closed blanks) ih
  | opens opening _ ih => exact .opens opening ih
  | closes closing _ ih => exact .closes closing ih
  | other quote opens closes comma _ ih => exact .other quote opens closes comma ih

end ThemeSheet.Literal
