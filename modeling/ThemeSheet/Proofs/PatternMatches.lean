import ThemeSheet.Literal.Pattern
import ThemeSheet.Proofs.Pieces

/-! What the patterns for strings and comments match: the pieces that a text is cut into. -/

namespace ThemeSheet.Literal

open Text

/-- A place further on in the same text. -/
def Cursor.past (here : Cursor) (front rest : List Char) : Cursor :=
  ⟨front.getLast?.or here.before, rest⟩

/-- The place behind a run of characters. -/
def Cursor.skip (holds : Char → Bool) (here : Cursor) : Cursor :=
  here.past (here.rest.takeWhile holds) (here.rest.dropWhile holds)

theorem Cursor.past_past (here : Cursor) (front more between rest : List Char) :
    (here.past front between).past more rest = here.past (front ++ more) rest := by
  simp [past, List.getLast?_append, Option.or_assoc]

theorem Cursor.past_concat (here : Cursor) (front : List Char) (c : Char) (rest : List Char) :
    here.past (front ++ [c]) rest = ⟨some c, rest⟩ := by
  simp [past]

/-- Whether the piece is a string in such quotes. -/
def Piece.isQuoted (quote : Char) : Piece → Bool
  | quoted q _ => q == quote
  | _ => false

namespace Pattern

variable {here there : Cursor}

theorem ends_one (holds : Char → Bool) (before : Option Char) (c : Char) (rest : List Char) :
    (one holds).ends ⟨before, c :: rest⟩ = if holds c then [⟨some c, rest⟩] else [] := rfl

theorem ends_char_self (before : Option Char) (c : Char) (rest : List Char) :
    (char c).ends ⟨before, c :: rest⟩ = [⟨some c, rest⟩] := by
  rw [char, ends_one, if_pos (beq_self_eq_true c)]

theorem ends_char_other {c d : Char} (h : d ≠ c) (before : Option Char) (rest : List Char) :
    (char c).ends ⟨before, d :: rest⟩ = [] := by
  rw [char, ends_one, if_neg (by simpa using h)]

theorem ends_seq_char_self (p : Pattern) (before : Option Char) (c : Char) (rest : List Char) :
    (seq (char c) p).ends ⟨before, c :: rest⟩ = p.ends ⟨some c, rest⟩ := by
  rw [ends, ends_char_self, List.flatMap_singleton]

theorem ends_seq_char_other (p : Pattern) {c d : Char} (h : d ≠ c) (before : Option Char)
    (rest : List Char) : (seq (char c) p).ends ⟨before, d :: rest⟩ = [] := by
  rw [ends, ends_char_other h, List.flatMap_nil]

/-! Strings. -/

theorem ne_of_isQuote {quote : Char} (quoted : isQuote quote = true) :
    quote ≠ '\\' ∧ quote ≠ '\n' ∧ quote ≠ '/' := by
  simp only [isQuote, Bool.or_eq_true, beq_iff_eq] at quoted
  rcases quoted with (rfl | rfl) | rfl <;> decide

theorem repeated_of_none {greedy : Bool} {once : Cursor → List Cursor} (none : once here = [])
    (most : Nat) : repeated greedy once most here = [here] := by
  cases most with
  | zero => rfl
  | succ most =>
    rw [repeated, none]
    cases greedy <;> rfl

theorem repeated_of_one {greedy : Bool} {once : Cursor → List Cursor} (step : once here = [there])
    (shorter : there.rest.length < here.rest.length) (most : Nat) :
    repeated greedy once (most + 1) here =
      if greedy then repeated greedy once most there ++ [here]
      else here :: repeated greedy once most there := by
  rw [repeated, step]
  simp only [List.filter_cons, shorter, decide_true, if_true, List.filter_nil,
    List.flatMap_singleton]

theorem ends_part_escape (quote : Char) (before : Option Char) (c : Char) (rest : List Char) :
    (stringPart quote).ends ⟨before, '\\' :: c :: rest⟩ = [⟨some c, rest⟩] := by
  rw [stringPart, ends, ends_seq_char_self, ends_one, if_neg (by simp [isPlainIn])]
  rfl

theorem ends_part_alone (quote : Char) (before : Option Char) :
    (stringPart quote).ends ⟨before, ['\\']⟩ = [] := by
  rw [stringPart, ends, ends_seq_char_self, ends_one, if_neg (by simp [isPlainIn])]
  rfl

theorem ends_part_plain {quote c : Char} (slash : c ≠ '\\') (before : Option Char)
    (rest : List Char) : (stringPart quote).ends ⟨before, c :: rest⟩ =
      if c = quote ∨ c = '\n' ∧ quote ≠ backtick then [] else [⟨some c, rest⟩] := by
  have plain : isPlainIn quote c = true ↔ ¬(c = quote ∨ c = '\n' ∧ quote ≠ backtick) := by
    simp [isPlainIn, slash, imp_iff_not_or]
  rw [stringPart, ends, ends_seq_char_other _ slash, List.nil_append, ends_one]
  simp only [plain, ite_not]

/-- There is one way to read the body of a string. -/
theorem flatMap_ends_body {quote : Char} (quoted : isQuote quote = true) (before : Option Char)
    {text : List Char} {most : Nat} (enough : text.length ≤ most) :
    (repeated true (stringPart quote).ends most ⟨before, text⟩).flatMap (char quote).ends =
      ((splitString? quote text).map fun (_, after) => ⟨some quote, after⟩).toList := by
  obtain ⟨slash, line, -⟩ := ne_of_isQuote quoted
  fun_induction splitString? quote text generalizing before most with
  | case1 =>
    rw [repeated_of_none rfl]
    rfl
  | case2 =>
    rw [repeated_of_none (ends_part_alone _ _), List.flatMap_singleton, ends_char_other slash.symm]
    rfl
  | case3 c rest ih =>
    obtain ⟨most, rfl⟩ : ∃ n, most = n + 1 := ⟨most - 1, by simp at enough; omega⟩
    have further := ih (some c) (by simp at enough; omega : rest.length ≤ most)
    have shorter : rest.length < ('\\' :: c :: rest).length := by
      simp only [List.length_cons]
      omega
    rw [repeated_of_one (ends_part_escape _ _ _ _) shorter, if_pos rfl, List.flatMap_append,
      further, List.flatMap_singleton, ends_char_other slash.symm, List.append_nil, Option.map_map]
    rfl
  | case4 rest alone pair =>
    rw [repeated_of_none, List.flatMap_singleton, ends_char_self]
    · rfl
    · rw [ends_part_plain slash, if_pos (.inl rfl)]
  | case5 c rest alone pair other ended =>
    rw [repeated_of_none, List.flatMap_singleton, ends_char_other other]
    · rfl
    · rw [ends_part_plain (ne_backslash alone pair), if_pos (.inr ended)]
  | case6 c rest alone pair other goes ih =>
    obtain ⟨most, rfl⟩ : ∃ n, most = n + 1 := ⟨most - 1, by simp at enough; omega⟩
    have further := ih (some c) (by simp at enough; omega : rest.length ≤ most)
    have step : (stringPart quote).ends ⟨before, c :: rest⟩ = [⟨some c, rest⟩] := by
      rw [ends_part_plain (ne_backslash alone pair), if_neg (not_or.mpr ⟨other, goes⟩)]
    rw [repeated_of_one step (by simp), if_pos rfl, List.flatMap_append, further,
      List.flatMap_singleton, ends_char_other other, List.append_nil, Option.map_map]
    rfl

theorem ends_string {quote : Char} (quoted : isQuote quote = true) (before : Option Char)
    (text : List Char) : (string quote).ends ⟨before, quote :: text⟩ =
      ((splitString? quote text).map fun (_, after) => ⟨some quote, after⟩).toList := by
  rw [string, ends_seq_char_self, ends]
  exact flatMap_ends_body quoted _ (Nat.le_refl _)

/-! Comments. -/

theorem ends_mark (before : Option Char) (rest : List Char) :
    (seq (char '*') (char '/')).ends ⟨before, '*' :: '/' :: rest⟩ = [⟨some '/', rest⟩] := by
  rw [ends_seq_char_self, ends_char_self]

theorem ends_mark_other {c : Char} {rest : List Char}
    (pair : ∀ tail, c = '*' → rest = '/' :: tail → False) (before : Option Char) :
    (seq (char '*') (char '/')).ends ⟨before, c :: rest⟩ = [] := by
  by_cases star : c = '*'
  · subst star
    rw [ends_seq_char_self]
    cases rest with
    | nil => rfl
    | cons d tail => exact ends_char_other (fun slash => pair tail rfl (by rw [slash])) _ _
  · exact ends_seq_char_other _ star _ _

theorem head?_ends_block (before : Option Char) {text : List Char} {most : Nat}
    (enough : text.length ≤ most) :
    ((repeated false anything.ends most ⟨before, text⟩).flatMap
        (seq (char '*') (char '/')).ends).head? =
      (splitBlockComment? text).map fun (_, after) => ⟨some '/', after⟩ := by
  have step (before : Option Char) (c : Char) (rest : List Char) (most : Nat) :
      repeated false anything.ends (most + 1) ⟨before, c :: rest⟩ =
        ⟨before, c :: rest⟩ :: repeated false anything.ends most ⟨some c, rest⟩ := by
    have one : anything.ends ⟨before, c :: rest⟩ = [⟨some c, rest⟩] := rfl
    rw [repeated_of_one one (by simp)]
    rfl
  fun_induction splitBlockComment? text generalizing before most with
  | case1 =>
    rw [repeated_of_none rfl]
    rfl
  | case2 rest =>
    obtain ⟨most, rfl⟩ : ∃ n, most = n + 1 := ⟨most - 1, by simp at enough; omega⟩
    rw [step, List.flatMap_cons, ends_mark]
    rfl
  | case3 c rest pair ih =>
    obtain ⟨most, rfl⟩ : ∃ n, most = n + 1 := ⟨most - 1, by simp at enough; omega⟩
    have further := ih (some c) (by simp at enough; omega : rest.length ≤ most)
    rw [step, List.flatMap_cons, ends_mark_other pair, List.nil_append, further, Option.map_map]
    rfl

/-! Runs. -/

theorem skip_of_holds {holds : Char → Bool} {c : Char} (h : holds c = true)
    (before : Option Char) (rest : List Char) :
    Cursor.skip holds ⟨before, c :: rest⟩ = Cursor.skip holds ⟨some c, rest⟩ := by
  have split := Cursor.past_past ⟨before, c :: rest⟩ [c] (rest.takeWhile holds) rest
    (rest.dropWhile holds)
  simp only [Cursor.skip, List.takeWhile_cons, List.dropWhile_cons, h, if_true]
  exact split.symm

theorem skip_of_not {holds : Char → Bool} {c : Char} (h : holds c = false) (before : Option Char)
    (rest : List Char) : Cursor.skip holds ⟨before, c :: rest⟩ = ⟨before, c :: rest⟩ := by
  simp [Cursor.skip, Cursor.past, h]

theorem repeated_run {holds : Char → Bool} {c : Char} (h : holds c = true) (before : Option Char)
    (rest : List Char) (most : Nat) :
    repeated true (one holds).ends (most + 1) ⟨before, c :: rest⟩ =
      repeated true (one holds).ends most ⟨some c, rest⟩ ++ [⟨before, c :: rest⟩] := by
  have step : (one holds).ends ⟨before, c :: rest⟩ = [⟨some c, rest⟩] := by rw [ends_one, if_pos h]
  rw [repeated_of_one step (by simp), if_pos rfl]

/-- A greedy run is tried first at its full length. -/
theorem head?_ends_run (holds : Char → Bool) (before : Option Char) {text : List Char} {most : Nat}
    (enough : text.length ≤ most) :
    (repeated true (one holds).ends most ⟨before, text⟩).head? =
      some (Cursor.skip holds ⟨before, text⟩) := by
  induction text generalizing before most with
  | nil =>
    rw [repeated_of_none rfl]
    rfl
  | cons c rest ih =>
    cases h : holds c with
    | true =>
      obtain ⟨most, rfl⟩ : ∃ n, most = n + 1 := ⟨most - 1, by simp at enough; omega⟩
      have further := ih (some c) (by simp at enough; omega : rest.length ≤ most)
      rw [repeated_run h, List.head?_append, further, skip_of_holds h]
      rfl
    | false =>
      rw [repeated_of_none (by rw [ends_one, h]; rfl), skip_of_not h]
      rfl

/-- If nothing can go on from within a run, it is taken as a whole. -/
theorem flatMap_ends_run {β : Type} {holds : Char → Bool} {next : Cursor → List β}
    (stuck : ∀ before c rest, holds c = true → next ⟨before, c :: rest⟩ = [])
    (before : Option Char) {text : List Char} {most : Nat} (enough : text.length ≤ most) :
    (repeated true (one holds).ends most ⟨before, text⟩).flatMap next =
      next (Cursor.skip holds ⟨before, text⟩) := by
  induction text generalizing before most with
  | nil =>
    rw [repeated_of_none rfl, List.flatMap_singleton]
    rfl
  | cons c rest ih =>
    cases h : holds c with
    | true =>
      obtain ⟨most, rfl⟩ : ∃ n, most = n + 1 := ⟨most - 1, by simp at enough; omega⟩
      have further := ih (some c) (by simp at enough; omega : rest.length ≤ most)
      rw [repeated_run h, List.flatMap_append, further, List.flatMap_singleton, stuck _ _ _ h,
        List.append_nil, skip_of_holds h]
    | false =>
      rw [repeated_of_none (by rw [ends_one, h]; rfl), skip_of_not h, List.flatMap_singleton]

/-! What is found first. -/

/-- A pattern that matches certain strings and comments, each in its whole length, and nothing else. -/
def Finds (p : Pattern) (keeps : Piece → Bool) : Prop :=
  ∀ here, (p.ends here).head? = ((opaque? here.rest).filter fun found => keeps found.1).map
    fun (piece, rest) => here.past piece.text rest

theorem ends_comment_other {text : List Char} (line : ∀ rest, text ≠ '/' :: '/' :: rest)
    (block : ∀ rest, text ≠ '/' :: '*' :: rest) (before : Option Char) :
    comment.ends ⟨before, text⟩ = [] := by
  obtain _ | ⟨c, rest⟩ := text
  · rfl
  · by_cases slash : c = '/'
    · subst slash
      rw [comment, ends, lineComment, blockComment, ends_seq_char_self, ends_seq_char_self]
      obtain _ | ⟨d, rest⟩ := rest
      · rfl
      · rw [ends_seq_char_other, ends_seq_char_other, List.append_nil]
        · rintro rfl
          exact block rest rfl
        · rintro rfl
          exact line rest rfl
    · rw [comment, ends, lineComment, blockComment, ends_seq_char_other _ slash,
        ends_seq_char_other _ slash, List.append_nil]

theorem finds_comment : comment.Finds Piece.isComment := by
  rintro ⟨before, text⟩
  dsimp only
  fun_cases opaque? text with
  | case1 rest =>
    have run := head?_ends_run (· != '\n') (some '/') (Nat.le_refl rest.length)
    have line : (lineComment.ends ⟨before, '/' :: '/' :: rest⟩).head? =
        some (Cursor.skip (· != '\n') ⟨some '/', rest⟩) := by
      rw [lineComment, ends_seq_char_self, ends_seq_char_self]
      exact run
    rw [comment, ends, List.head?_append, line]
    exact congrArg some (Cursor.past_past ⟨before, '/' :: '/' :: rest⟩ ['/', '/'] _ rest _)
  | case2 rest =>
    have block := head?_ends_block (some '*') (Nat.le_refl rest.length)
    have opened : (blockComment.ends ⟨before, '/' :: '*' :: rest⟩).head? =
        (splitBlockComment? rest).map fun (_, after) => ⟨some '/', after⟩ := by
      rw [blockComment, ends_seq_char_self, ends_seq_char_self]
      exact block
    rw [comment, ends, lineComment, ends_seq_char_self, ends_seq_char_other _ (by decide),
      List.nil_append, opened]
    cases splitBlockComment? rest with
    | none => rfl
    | some found =>
      obtain ⟨body, after⟩ := found
      have text : (Piece.blockComment body).text = '/' :: '*' :: body ++ ['*'] ++ ['/'] := by
        simp [Piece.text]
      have reached := Cursor.past_concat ⟨before, '/' :: '*' :: rest⟩ ('/' :: '*' :: body ++ ['*'])
        '/' after
      rw [← text] at reached
      exact congrArg some reached.symm
  | case3 c rest line block quoted =>
    rw [ends_comment_other (fun rest' same => line rest' (List.cons.inj same).1 (List.cons.inj same).2)
      (fun rest' same => block rest' (List.cons.inj same).1 (List.cons.inj same).2)]
    cases splitString? c rest <;> rfl
  | case4 c rest line block quoted =>
    rw [ends_comment_other (fun rest' same => line rest' (List.cons.inj same).1 (List.cons.inj same).2)
      (fun rest' same => block rest' (List.cons.inj same).1 (List.cons.inj same).2)]
    rfl
  | case5 => rfl

theorem ends_string_other {quote c : Char} (h : c ≠ quote) (before : Option Char)
    (rest : List Char) : (string quote).ends ⟨before, c :: rest⟩ = [] :=
  ends_seq_char_other _ h _ _

theorem finds_string {quote : Char} (quoted : isQuote quote = true) :
    (string quote).Finds (Piece.isQuoted quote) := by
  rintro ⟨before, _ | ⟨c, text⟩⟩
  · rfl
  · by_cases same : c = quote
    · subst same
      rw [ends_string quoted, opaque?_quote quoted]
      cases splitString? c text with
      | none => rfl
      | some found =>
        obtain ⟨body, after⟩ := found
        have reached := Cursor.past_concat ⟨before, c :: text⟩ (c :: body) c after
        rw [Option.map_some, Option.map_some, Option.filter_some, if_pos (by simp [Piece.isQuoted])]
        exact congrArg some reached.symm
    · have other : (opaque? (c :: text)).filter (fun found => found.1.isQuoted quote) = none := by
        rw [Option.filter_eq_none_iff]
        intro found first quotes
        obtain ⟨piece, rest⟩ := found
        cases piece with
        | quoted q body =>
          have split := opaque?_append first
          simp only [Piece.text, List.cons_append, List.cons.injEq] at split
          exact same (split.1.trans (by simpa [Piece.isQuoted] using quotes))
        | _ => cases quotes
      rw [ends_string_other same, other]
      rfl

/-- What stands in front is a comment or a string. -/
theorem comment_or_quoted {text rest : List Char} {piece : Piece}
    (h : opaque? text = some (piece, rest)) :
    piece.isComment = true ∨ ∃ quote body, isQuote quote = true ∧ piece = .quoted quote body := by
  unfold opaque? at h
  split at h
  · cases h
    exact .inl rfl
  · obtain ⟨⟨body, after⟩, found, eq⟩ := Option.map_eq_some_iff.mp h
    cases eq
    exact .inl rfl
  · split at h
    · rename_i quoted
      obtain ⟨⟨body, after⟩, found, eq⟩ := Option.map_eq_some_iff.mp h
      cases eq
      exact .inr ⟨_, _, quoted, rfl⟩
    · cases h
  · cases h

theorem ne_code_of_opaque? {text rest : List Char} {piece : Piece}
    (h : opaque? text = some (piece, rest)) (c : Char) : piece ≠ .code c := by
  rintro rfl
  rcases comment_or_quoted h with isComment | ⟨quote, body, -, same⟩
  · cases isComment
  · cases same

theorem finds_anyString : anyString.Finds fun piece => !piece.isComment := by
  intro here
  rw [anyString, ends, ends, List.head?_append, List.head?_append, finds_string (by decide),
    finds_string (by decide), finds_string (by decide)]
  cases first : opaque? here.rest with
  | none => rfl
  | some found =>
    obtain ⟨piece, rest⟩ := found
    rcases comment_or_quoted first with isComment | ⟨quote, body, quoted, rfl⟩
    · cases piece with
      | lineComment body => rfl
      | blockComment body => rfl
      | _ => cases isComment
    · simp only [isQuote, Bool.or_eq_true, beq_iff_eq] at quoted
      rcases quoted with (rfl | rfl) | rfl <;> rfl

theorem ends_opaqueText (here : Cursor) : opaqueText.ends here = comment.ends here ++ anyString.ends here := by
  rw [opaqueText, comment, ends, ends, ends, List.append_assoc]

theorem finds_opaqueText : opaqueText.Finds fun _ => true := by
  intro here
  rw [ends_opaqueText, List.head?_append, finds_comment, finds_anyString]
  cases opaque? here.rest with
  | none => rfl
  | some found =>
    by_cases kind : found.1.isComment = true <;> simp [Option.filter_some, kind]

end Pattern
end ThemeSheet.Literal
