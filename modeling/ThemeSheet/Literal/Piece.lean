import ThemeSheet.Literal.Opaque

namespace ThemeSheet.Literal

/-- A text cut into closed strings, closed comments and single characters of code. The bodies
leave out the delimiters. -/
inductive Piece
  | lineComment (body : List Char)
  | blockComment (body : List Char)
  | quoted (quote : Char) (body : List Char)
  | code (c : Char)
deriving DecidableEq, Repr

def Piece.text : Piece → List Char
  | lineComment body => '/' :: '/' :: body
  | blockComment body => '/' :: '*' :: body ++ ['*', '/']
  | quoted quote body => quote :: body ++ [quote]
  | code c => [c]

/-- The body of a closed string and what follows it, given the text after the opening quote. -/
def splitString? (quote : Char) : List Char → Option (List Char × List Char)
  | [] => none
  | ['\\'] => none
  | '\\' :: c :: rest =>
    (splitString? quote rest).map fun (body, after) => ('\\' :: c :: body, after)
  | c :: rest =>
    if c = quote then some ([], rest)
    else if c = '\n' ∧ quote ≠ backtick then none
    else (splitString? quote rest).map fun (body, after) => (c :: body, after)

/-- The body of a closed block comment and what follows it. -/
def splitBlockComment? : List Char → Option (List Char × List Char)
  | [] => none
  | '*' :: '/' :: rest => some ([], rest)
  | c :: rest => (splitBlockComment? rest).map fun (body, after) => (c :: body, after)

theorem splitString?_append {quote : Char} {text body after : List Char}
    (h : splitString? quote text = some (body, after)) : text = body ++ quote :: after := by
  fun_induction splitString? quote text generalizing body with
  | case1 => cases h
  | case2 => cases h
  | case3 c rest ih =>
    obtain ⟨⟨body', after'⟩, found, eq⟩ := Option.map_eq_some_iff.1 h
    cases eq
    rw [ih found]
    rfl
  | case4 => cases h; rfl
  | case5 => cases h
  | case6 c rest _ _ _ _ ih =>
    obtain ⟨⟨body', after'⟩, found, eq⟩ := Option.map_eq_some_iff.1 h
    cases eq
    rw [ih found]
    rfl

theorem splitBlockComment?_append {text body after : List Char}
    (h : splitBlockComment? text = some (body, after)) : text = body ++ '*' :: '/' :: after := by
  fun_induction splitBlockComment? text generalizing body with
  | case1 => cases h
  | case2 => cases h; rfl
  | case3 c rest _ ih =>
    obtain ⟨⟨body', after'⟩, found, eq⟩ := Option.map_eq_some_iff.1 h
    cases eq
    rw [ih found]
    rfl

/-- The closed string or comment at the front, and what follows it. -/
def opaque? : List Char → Option (Piece × List Char)
  | '/' :: '/' :: rest =>
    some (.lineComment (rest.takeWhile (· != '\n')), rest.dropWhile (· != '\n'))
  | '/' :: '*' :: rest =>
    (splitBlockComment? rest).map fun (body, after) => (.blockComment body, after)
  | c :: rest =>
    if isQuote c then
      (splitString? c rest).map fun (body, after) => (.quoted c body, after)
    else none
  | [] => none

theorem opaque?_append {text rest : List Char} {piece : Piece}
    (h : opaque? text = some (piece, rest)) : text = piece.text ++ rest := by
  unfold opaque? at h
  split at h
  · cases h
    simp [Piece.text]
  · obtain ⟨⟨body, after⟩, found, eq⟩ := Option.map_eq_some_iff.1 h
    cases eq
    simp [Piece.text, splitBlockComment?_append found]
  · split at h
    · obtain ⟨⟨body, after⟩, found, eq⟩ := Option.map_eq_some_iff.1 h
      cases eq
      simp [Piece.text, splitString?_append found]
    · cases h
  · cases h

theorem opaque?_length_lt {text rest : List Char} {piece : Piece}
    (h : opaque? text = some (piece, rest)) : rest.length < text.length := by
  rw [opaque?_append h, List.length_append]
  have : 0 < piece.text.length := by cases piece <;> simp [Piece.text]
  omega

def pieces (text : List Char) : List Piece :=
  match h : opaque? text with
  | some (piece, rest) =>
    have : rest.length < text.length := opaque?_length_lt h
    piece :: pieces rest
  | none =>
    match text with
    | [] => []
    | c :: rest => .code c :: pieces rest
termination_by text.length

/-- Cutting loses nothing. -/
theorem flatMap_pieces (text : List Char) : (pieces text).flatMap Piece.text = text := by
  fun_induction pieces text with
  | case1 text piece rest h _ ih => rw [List.flatMap_cons, ih, ← opaque?_append h]
  | case2 => rfl
  | case3 c rest _ ih => rw [List.flatMap_cons, ih]; rfl

/-- Whether the piece is one character of code of a class. -/
def Piece.isCode (holds : Char → Bool) : Piece → Bool
  | code c => holds c
  | _ => false

end ThemeSheet.Literal
