import ThemeSheet.Proofs.Pieces
import ThemeSheet.Proofs.Quoting
import ThemeSheet.Proofs.Terminals

/-! Strings that are put between double quotes mean what they meant, and nothing else changes. -/

namespace ThemeSheet.Literal

open Text

/-- The inside of a string: its quote and a backslash stand only behind a backslash, and so does a
line feed but for one in backticks. -/
inductive QuotedBody (quote : Char) : List Char → Prop
  | nil : QuotedBody quote []
  | escaped {c rest} (tail : QuotedBody quote rest) : QuotedBody quote ('\\' :: c :: rest)
  | plain {c rest} (other : c ≠ quote) (slash : c ≠ '\\') (line : c = '\n' → quote = backtick)
    (tail : QuotedBody quote rest) : QuotedBody quote (c :: rest)

/-- The quotes of strings that are written anew. -/
def IsReplaced (quote : Char) : Prop :=
  quote = '\'' ∨ quote = backtick

theorem IsReplaced.isQuote {quote : Char} (h : IsReplaced quote) : isQuote quote = true := by
  rcases h with rfl | rfl <;> rfl

/-- The characters that an escape reads ahead for. -/
def guides (c : Char) : Bool :=
  isHex c || c == '{' || c == '}'

/-- A quote that is replaced is none of the characters that bodies turn on, and an escaped one
stands for itself. -/
theorem IsReplaced.apart {quote : Char} (h : IsReplaced quote) :
    quote ≠ '\\' ∧ quote ≠ '"' ∧ quote ≠ '\n' ∧ guides quote = false ∧ quote ≠ 'u' ∧ quote ≠ 'x' ∧
      plainEscape quote = [quote.toNat] := by
  rcases h with rfl | rfl <;> decide

theorem QuotedBody.split {quote : Char} (quoted : isQuote quote = true) {body : List Char}
    (h : QuotedBody quote body) (more : List Char) :
    splitString? quote (body ++ quote :: more) = some (body, more) := by
  have slash : quote ≠ '\\' := by
    rintro rfl
    cases quoted
  induction h with
  | nil => rw [List.nil_append, splitString?_cons slash, if_pos rfl]
  | escaped _ ih =>
    rw [List.cons_append, List.cons_append, splitString?, ih]
    rfl
  | plain other slash line _ ih =>
    have open_ : ¬ (_ = '\n' ∧ quote ≠ backtick) := fun h => h.2 (line h.1)
    rw [List.cons_append, splitString?_cons slash, if_neg other, if_neg open_, ih]
    rfl

theorem quotedBody_of_split {quote : Char} {text body after : List Char}
    (h : splitString? quote text = some (body, after)) : QuotedBody quote body := by
  fun_induction splitString? quote text generalizing body with
  | case1 => cases h
  | case2 => cases h
  | case3 c rest ih =>
    obtain ⟨⟨body', after'⟩, found, eq⟩ := Option.map_eq_some_iff.mp h
    cases eq
    exact .escaped (ih found)
  | case4 =>
    cases h
    exact .nil
  | case5 => cases h
  | case6 c rest alone pair other line ih =>
    obtain ⟨⟨body', after'⟩, found, eq⟩ := Option.map_eq_some_iff.mp h
    cases eq
    refine .plain other (ne_backslash alone pair) (fun feed => ?_) (ih found)
    exact Decidable.byContradiction fun single => line ⟨feed, single⟩

/-- Between double quotes a new body is a string. -/
theorem stringBody_requote {quote : Char} (replaced : IsReplaced quote) {body : List Char}
    (h : QuotedBody quote body) : StringBody (requote quote body) := by
  obtain ⟨slash, double, line, -⟩ := replaced.apart
  induction h with
  | nil => exact .nil
  | @escaped c rest _ ih =>
    rw [requote]
    split
    · rename_i same
      subst same
      exact .plain double slash line ih
    · exact .escaped ih
  | @plain c rest _ plain _ _ ih =>
    rw [requote_cons plain]
    split
    · exact .escaped ih
    · split
      · exact .escaped ih
      · exact .plain ‹_› plain ‹_› ih

/-! Escapes that read ahead meet the same digits. -/

theorem requote_hex {quote c : Char} (h : isHex c = true) (rest : List Char) :
    requote quote (c :: rest) = c :: requote quote rest := by
  have apart (d : Char) (dark : isHex d = false) : c ≠ d := by
    rintro rfl
    rw [dark] at h
    cases h
  rw [requote_cons (apart '\\' rfl), if_neg (apart '"' rfl), if_neg (apart '\n' rfl)]

/-- A new body begins as the old one did, or neither begins with what an escape reads ahead for. -/
theorem requote_head {quote : Char} (replaced : IsReplaced quote) (c : Char) (rest : List Char) :
    ∃ d more, requote quote (c :: rest) = d :: more ∧
      (d = c ∧ more = requote quote rest ∨ guides d = false ∧ guides c = false) := by
  obtain ⟨-, -, -, dark, -⟩ := replaced.apart
  by_cases slash : c = '\\'
  · subst slash
    cases rest with
    | nil => exact ⟨'\\', [], rfl, .inl ⟨rfl, rfl⟩⟩
    | cons e rest =>
      rw [requote]
      split
      · rename_i same
        subst same
        exact ⟨e, _, rfl, .inr ⟨dark, rfl⟩⟩
      · exact ⟨'\\', _, rfl, .inr ⟨rfl, rfl⟩⟩
  · rw [requote_cons slash]
    split
    · rename_i double
      subst double
      exact ⟨'\\', _, rfl, .inr ⟨rfl, rfl⟩⟩
    · split
      · rename_i line
        subst line
        exact ⟨'\\', _, rfl, .inr ⟨rfl, rfl⟩⟩
      · exact ⟨c, _, rfl, .inl ⟨rfl, rfl⟩⟩

theorem span_requote {quote : Char} (replaced : IsReplaced quote) (text : List Char) :
    (requote quote text).takeWhile isHex = text.takeWhile isHex ∧
      (requote quote text).dropWhile isHex = requote quote (text.dropWhile isHex) := by
  induction text with
  | nil => exact ⟨rfl, rfl⟩
  | cons c rest ih =>
    cases digit : isHex c with
    | true =>
      rw [requote_hex digit]
      simp [digit, ih.1, ih.2]
    | false =>
      obtain ⟨d, more, eq, first⟩ := requote_head replaced c rest
      have other : isHex d = false := by
        rcases first with ⟨rfl, -⟩ | ⟨dark, -⟩
        · exact digit
        · simp only [guides, Bool.or_eq_false_iff] at dark
          exact dark.1.1
      rw [List.takeWhile_cons, List.dropWhile_cons, digit, eq]
      simp [other, eq]

theorem bracedEscape?_requote {quote : Char} (replaced : IsReplaced quote) (text : List Char) :
    bracedEscape? (requote quote text) =
      (bracedEscape? text).map fun (n, rest) => (n, requote quote rest) := by
  obtain ⟨taken, dropped⟩ := span_requote replaced text
  unfold bracedEscape?
  rw [taken, dropped]
  cases text.dropWhile isHex with
  | nil => rfl
  | cons c rest =>
    obtain ⟨d, more, eq, ⟨rfl, rfl⟩ | ⟨dark, dark'⟩⟩ := requote_head replaced c rest
    · rw [eq]
      by_cases brace : d = '}'
      · subst brace
        cases none : (text.takeWhile isHex).isEmpty <;> simp [none]
      · simp [brace]
    · simp only [guides, Bool.or_eq_false_iff, beq_eq_false_iff_ne] at dark dark'
      rw [eq]
      simp [dark.2, dark'.2]

/-- Digits of an escape are there if the text begins with as many. -/
theorem fixedEscape?_eq (width : Nat) (text : List Char) :
    fixedEscape? width text =
      if width ≤ (text.takeWhile isHex).length then
        some (ofHex ((text.takeWhile isHex).take width),
          (text.takeWhile isHex).drop width ++ text.dropWhile isHex)
      else none := by
  have whole := List.takeWhile_append_dropWhile (p := isHex) (l := text)
  by_cases enough : width ≤ (text.takeWhile isHex).length
  · have taken : text.take width = (text.takeWhile isHex).take width := by
      have front : (text.takeWhile isHex ++ text.dropWhile isHex).take width =
          (text.takeWhile isHex).take width := List.take_append_of_le_length enough
      rw [← front, whole]
    have dropped : text.drop width =
        (text.takeWhile isHex).drop width ++ text.dropWhile isHex := by
      rw [← List.drop_append_of_le_length enough, whole]
    have digits : ((text.takeWhile isHex).take width).all isHex = true := by
      apply List.all_eq_true.mpr
      intro c mem
      exact List.all_eq_true.mp List.all_takeWhile c (List.mem_of_mem_take mem)
    rw [if_pos enough, fixedEscape?, taken, dropped]
    simp [digits, enough]
  · rw [if_neg enough, fixedEscape?, if_neg]
    rintro ⟨length, digits⟩
    apply enough
    have more : (text.take width ++ text.drop width).takeWhile isHex =
        text.take width ++ (text.drop width).takeWhile isHex :=
      List.takeWhile_append_of_pos (List.all_eq_true.mp digits)
    rw [List.take_append_drop] at more
    rw [more, List.length_append]
    omega

theorem fixedEscape?_requote {quote : Char} (replaced : IsReplaced quote) (width : Nat)
    (text : List Char) :
    fixedEscape? width (requote quote text) =
      (fixedEscape? width text).map fun (n, rest) => (n, requote quote rest) := by
  obtain ⟨taken, dropped⟩ := span_requote replaced text
  have digits {digits rest : List Char} (h : ∀ c ∈ digits, isHex c = true) :
      requote quote (digits ++ rest) = digits ++ requote quote rest := by
    induction digits with
    | nil => rfl
    | cons c digits ih =>
      rw [List.cons_append, requote_hex (h c List.mem_cons_self),
        ih fun d mem => h d (List.mem_cons_of_mem c mem)]
      rfl
  have left : ∀ c ∈ (text.takeWhile isHex).drop width, isHex c = true := fun c mem =>
    List.all_eq_true.mp List.all_takeWhile c (List.mem_of_mem_drop mem)
  rw [fixedEscape?_eq, fixedEscape?_eq, taken, dropped]
  split
  · simp [digits left]
  · rfl

/-- An escape that gives the number of its code point. -/
def numericEscape? (c : Char) (rest : List Char) : Option (Nat × List Char) :=
  if c = 'u' then
    match rest with
    | '{' :: inner => bracedEscape? inner
    | _ => fixedEscape? 4 rest
  else if c = 'x' then fixedEscape? 2 rest
  else none

theorem escape_eq (c : Char) (rest : List Char) :
    escape c rest =
      match numericEscape? c rest with
      | some (n, after) => ([n], after)
      | none => (plainEscape c, rest) :=
  rfl

theorem numericEscape?_requote {quote : Char} (replaced : IsReplaced quote) (c : Char)
    (rest : List Char) :
    numericEscape? c (requote quote rest) =
      (numericEscape? c rest).map fun (n, after) => (n, requote quote after) := by
  unfold numericEscape?
  split
  · cases rest with
    | nil => rfl
    | cons first rest =>
      have fixed := fixedEscape?_requote replaced 4 (first :: rest)
      obtain ⟨d, more, eq, ⟨rfl, rfl⟩ | ⟨dark, dark'⟩⟩ := requote_head replaced first rest
      · rw [eq] at fixed ⊢
        by_cases brace : d = '{'
        · subst brace
          exact bracedEscape?_requote replaced rest
        · simpa [brace] using fixed
      · simp only [guides, Bool.or_eq_false_iff, beq_eq_false_iff_ne] at dark dark'
        rw [eq] at fixed ⊢
        simpa [dark.1.2, dark'.1.2] using fixed
  · split
    · exact fixedEscape?_requote replaced 2 rest
    · rfl

theorem escape_requote {quote : Char} (replaced : IsReplaced quote) (c : Char) (rest : List Char) :
    escape c (requote quote rest) = ((escape c rest).1, requote quote (escape c rest).2) := by
  rw [escape_eq, escape_eq, numericEscape?_requote replaced]
  cases numericEscape? c rest <;> rfl

/-- A new body stands for the same code points. -/
theorem codePoints_requote {quote : Char} (replaced : IsReplaced quote) (body : List Char) :
    codePoints (requote quote body) = codePoints body := by
  obtain ⟨slash, -, -, -, u, x, itself⟩ := replaced.apart
  fun_induction codePoints body with
  | case1 => rw [requote, codePoints]
  | case2 c rest _ ih =>
    rw [requote]
    split
    · rename_i same
      subst same
      -- An escaped quote of the old kind needs no backslash in the new one.
      have plain := means_plain slash (requote c rest)
      have alone : escape c rest = ([c.toNat], rest) := by simp [escape, u, x, itself]
      rw [alone] at ih ⊢
      rw [List.singleton_append] at plain
      rw [plain, ih]
    · rw [codePoints, escape_requote replaced, ih]
  | case3 c rest pair ih =>
    by_cases last : c = '\\'
    · subst last
      cases rest with
      | nil => simp [requote, codePoints]
      | cons d rest => exact (pair d rest rfl rfl).elim
    · rw [requote_cons last]
      split
      · rename_i double
        subst double
        have escaped := means_escape (by decide) (by decide : '"' ≠ 'x') (requote quote rest)
        exact escaped.trans (by rw [ih]; rfl)
      · split
        · rename_i line
          subst line
          have escaped := means_escape (by decide) (by decide : 'n' ≠ 'x') (requote quote rest)
          exact escaped.trans (by rw [ih]; rfl)
        · have plain := means_plain last (requote quote rest)
          exact plain.trans (by rw [ih]; rfl)

/-- A new body is read as the old one: as the same text, or with the same fault. -/
theorem readString_requote {quote : Char} (replaced : IsReplaced quote) (site : Site)
    (body : List Char) : readString site (requote quote body) = readString site body := by
  rw [readString, readString, firstBadPoint?, firstBadPoint?, unescape, unescape,
    codePoints_requote replaced]

/-! Texts of strings, comments and code. -/

/-- Strings that are closed, comments, and characters that open none. A line comment ends with its
line. -/
inductive Sliced : List Piece → Prop
  | nil : Sliced []
  | code {c rest} (slash : c ≠ '/') (quote : isQuote c = false) (tail : Sliced rest) :
    Sliced (.code c :: rest)
  | quoted {quote body rest} (quoted : isQuote quote = true) (inner : QuotedBody quote body)
    (tail : Sliced rest) : Sliced (.quoted quote body :: rest)
  | block {body rest} (closed : ¬ ['*', '/'] <:+: body) (tail : Sliced rest) :
    Sliced (.blockComment body :: rest)
  | line {body rest} (one : '\n' ∉ body) (ends : rest = [] ∨ rest.head? = some (.code '\n'))
    (tail : Sliced rest) : Sliced (.lineComment body :: rest)

theorem Sliced.inner {ps : List Piece} (h : Sliced ps) {quote : Char} {body : List Char}
    (mem : .quoted quote body ∈ ps) : isQuote quote = true ∧ QuotedBody quote body := by
  induction h with
  | nil => cases mem
  | code _ _ _ ih | block _ _ ih | line _ _ _ ih =>
    rcases List.mem_cons.mp mem with same | mem
    · cases same
    · exact ih mem
  | quoted quoted inner _ ih =>
    rcases List.mem_cons.mp mem with same | mem
    · cases same
      exact ⟨quoted, inner⟩
    · exact ih mem

theorem pieces_sliced {ps : List Piece} (h : Sliced ps) : pieces (textOf ps) = ps := by
  induction h with
  | nil =>
    rw [textOf, List.flatMap_nil, pieces]
    rfl
  | @code c rest slash quote _ ih =>
    rw [textOf_cons]
    change pieces (c :: textOf rest) = _
    rw [pieces_code (opaque?_code slash quote _), ih]
  | quoted quoted inner _ ih =>
    have closed := closed_quoted quoted (inner.split quoted)
    rw [textOf_cons, pieces_of_opaque? (closed _), ih]
  | block closed _ ih => rw [textOf_cons, pieces_of_opaque? (closed_block closed _), ih]
  | @line body rest one ends _ ih =>
    have found : opaque? ('/' :: '/' :: (body ++ textOf rest)) =
        some (.lineComment body, textOf rest) := by
      rcases ends with rfl | first
      · have all : ∀ c ∈ body, (c != '\n') = true := by
          intro c mem
          simp only [bne_iff_ne, ne_eq]
          rintro rfl
          exact one mem
        change opaque? ('/' :: '/' :: (body ++ [])) = some (.lineComment body, [])
        rw [opaque?, List.takeWhile_append_of_pos all, List.dropWhile_append_of_pos all]
        simp
      · obtain ⟨more, rfl⟩ := List.head?_eq_some_iff.mp first
        exact opaque?_line one (textOf more)
    rw [textOf_cons]
    change pieces ('/' :: '/' :: (body ++ textOf rest)) = _
    rw [pieces_of_opaque? found, ih]

/-- A string in quotes that are replaced. -/
def Piece.isReplaced : Piece → Bool
  | quoted quote _ => quote == '\'' || quote == backtick
  | _ => false

theorem convertQuotes_quoted {quote : Char} (replaced : IsReplaced quote) {body : List Char}
    (h : QuotedBody quote body) :
    convertQuotes (Piece.quoted quote body).text = '"' :: requote quote body ++ ['"'] := by
  have alone : pieces (Piece.quoted quote body).text = [.quoted quote body] := by
    have := pieces_sliced (.quoted replaced.isQuote h .nil)
    simpa [textOf] using this
  rw [convertQuotes, alone, List.flatMap_singleton, Piece.doubleQuoted, if_neg replaced.apart.2.1]

/-- Each string in single quotes or backticks is put between double quotes, where it is one string
of the grammar and is read as the same text or with the same fault. All else in a text of strings,
comments and code is copied. -/
theorem convertQuotes_sliced :
    (∀ quote body, IsReplaced quote → QuotedBody quote body → ∃ new,
      convertQuotes (quote :: body ++ [quote]) = '"' :: new ++ ['"'] ∧
      Token.Spelled (.string new) ('"' :: new ++ ['"']) ∧
      ∀ site, readString site new = readString site body) ∧
    ∀ ps, Sliced ps → convertQuotes (textOf ps) =
      ps.flatMap fun piece => if piece.isReplaced then convertQuotes piece.text else piece.text := by
  constructor
  · intro quote body replaced inner
    exact ⟨requote quote body, convertQuotes_quoted replaced inner,
      .string (stringBody_requote replaced inner), fun site => readString_requote replaced site body⟩
  · intro ps sliced
    rw [convertQuotes, pieces_sliced sliced]
    apply List.flatMap_congr
    intro piece mem
    cases piece with
    | code | lineComment | blockComment => rfl
    | quoted quote body =>
      obtain ⟨quoted, inner⟩ := sliced.inner mem
      by_cases double : quote = '"'
      · subst double
        rfl
      · have replaced : IsReplaced quote := by
          simpa [isQuote, double, IsReplaced] using quoted
        have new := convertQuotes_quoted replaced inner
        rw [Piece.doubleQuoted, if_neg double, new, if_pos]
        simpa [Piece.isReplaced, IsReplaced] using replaced

/-- Quotes of each kind in strings of another and in comments, an escape in braces, and a line feed in
backticks. -/
def quotedPieces : List Piece :=
  [.lineComment " it's".toList, .code '\n', .quoted '\'' "a\\'\"".toList, .code ':',
    .quoted backtick "\\u\x7b41\x7d\n".toList, .blockComment " ' ".toList, .quoted '"' "'".toList]

theorem convertQuotes_quotedPieces :
    QuotedBody backtick "\\u\x7b41\x7d\n".toList ∧ Sliced quotedPieces ∧
      convertQuotes (textOf quotedPieces) =
        "// it's\n\"a'\\\"\":\"\\u\x7b41\x7d\\n\"/* ' */\"'\"".toList ∧
      ∃ new, Token.Spelled (.string new) ('"' :: new ++ ['"']) ∧
        readString .string new = .ok "A\n" := by
  have single : QuotedBody '\'' "a\\'\"".toList :=
    quotedBody_of_split (show splitString? _ ("a\\'\"".toList ++ ['\'']) = some (_, []) from rfl)
  have template : QuotedBody backtick "\\u\x7b41\x7d\n".toList :=
    quotedBody_of_split
      (show splitString? _ ("\\u\x7b41\x7d\n".toList ++ [backtick]) = some (_, []) from rfl)
  have double : QuotedBody '"' "'".toList :=
    quotedBody_of_split (show splitString? _ ("'".toList ++ ['"']) = some (_, []) from rfl)
  have sliced : Sliced quotedPieces :=
    .line (by decide) (.inr rfl) (.code (by decide) rfl (.quoted rfl single (.code (by decide) rfl
      (.quoted rfl template (.block (by decide) (.quoted rfl double .nil))))))
  obtain ⟨new, -, spelled, read⟩ := convertQuotes_sliced.1 backtick _ (.inr rfl) template
  refine ⟨template, sliced, ?_, new, spelled, (read .string).trans (by decide +kernel)⟩
  rw [convertQuotes_sliced.2 quotedPieces sliced]
  decide +kernel

end ThemeSheet.Literal
