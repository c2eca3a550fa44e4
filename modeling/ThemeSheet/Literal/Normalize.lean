import ThemeSheet.Literal.Bracket
import ThemeSheet.Literal.Piece
import ThemeSheet.PropertyName
import ThemeSheet.Text.Digit
import ThemeSheet.Text.Word

namespace ThemeSheet.Literal

open Text

def isConstantPart (c : Char) : Bool :=
  c.isUpper || c.isDigit || c == '_'

def isConstantStart (c : Char) : Bool :=
  c.isUpper || c == '_'

/-- `PREFIX.name}` after `${`: the custom property it refers to, and what follows. -/
def reference? (text : List Char) : Option (List Char × List Char) :=
  let text := trimLeft text
  let space := text.takeWhile isConstantPart
  match trimLeft (text.dropWhile isConstantPart) with
  | '.' :: rest =>
    let rest := trimLeft rest
    let name := rest.takeWhile isNamePart
    match trimLeft (rest.dropWhile isNamePart) with
    | '}' :: after =>
      if space.head?.any isConstantStart && name.head?.any isNameStart then
        some ("var(--".toList ++ space.map Char.toLower ++ '-' :: PropertyName.kebab name ++ [')'],
          after)
      else none
    | _ => none
  | _ => none

theorem reference?_length_lt {text out rest : List Char} (h : reference? text = some (out, rest)) :
    rest.length < text.length := by
  unfold reference? at h
  dsimp only at h
  split at h
  · rename_i inner first
    split at h
    · rename_i after second
      split at h
      · cases h
        have a := trimLeft_length_le text
        have b := (List.dropWhile_suffix (l := trimLeft text) isConstantPart).length_le
        have c := trimLeft_length_le ((trimLeft text).dropWhile isConstantPart)
        rw [first, List.length_cons] at c
        have d := trimLeft_length_le inner
        have e := (List.dropWhile_suffix (l := trimLeft inner) isNamePart).length_le
        have f := trimLeft_length_le ((trimLeft inner).dropWhile isNamePart)
        rw [second, List.length_cons] at f
        omega
      · cases h
    · cases h
  · cases h

/-- Replaces each `${PREFIX.name}` by the custom property it names, wherever it stands. -/
def resolveInterpolations (text : List Char) : List Char :=
  match text with
  | [] => []
  | '$' :: '{' :: rest =>
    match h : reference? rest with
    | some (out, after) =>
      have : after.length < rest.length := reference?_length_lt h
      out ++ resolveInterpolations after
    | none => '$' :: resolveInterpolations ('{' :: rest)
  | c :: rest => c :: resolveInterpolations rest
termination_by text.length

/-- How many characters of a bare key begin here: a name or a run of digits, before a colon. Zero
where none begins. -/
def keyLength (before : Option Char) (pieces : List Piece) : Nat :=
  match pieces with
  | .code c :: _ =>
    if before.any joinsName then 0
    else
      let part := if isNameStart c then isNamePart else isDecimal
      let key := pieces.takeWhile (Piece.isCode part)
      match (pieces.dropWhile (Piece.isCode part)).dropWhile (Piece.isCode isSpace) with
      | .code ':' :: _ => key.length
      | _ => 0
  | _ => 0

/-- Copies the pieces with quotes around each bare key. `left` characters of a key are still to be
copied before its closing quote. -/
def quoteKeysFrom : (left : Nat) → (before : Option Char) → List Piece → List Char
  | _, _, [] => []
  | left, before, piece :: rest =>
    let begins := if left = 0 then keyLength before (piece :: rest) else 0
    let left := left + begins
    (if begins = 0 then [] else ['"']) ++ piece.text ++ (if left = 1 then ['"'] else []) ++
      quoteKeysFrom (left - 1) piece.text.getLast? rest

/-- `{a: 1}` becomes `{"a": 1}`. -/
def quoteKeys (text : List Char) : List Char :=
  quoteKeysFrom 0 none (pieces text)

/-- The body of a string in `delimiter`, for double quotes. -/
def requote (delimiter : Char) : List Char → List Char
  | [] => []
  | ['\\'] => ['\\']
  | '\\' :: c :: rest =>
    if c = delimiter then c :: requote delimiter rest else '\\' :: c :: requote delimiter rest
  | c :: rest =>
    if c = '"' then '\\' :: '"' :: requote delimiter rest
    else if c = '\n' then '\\' :: 'n' :: requote delimiter rest
    else c :: requote delimiter rest

def Piece.doubleQuoted : Piece → List Char
  | quoted quote body =>
    if quote = '"' then '"' :: body ++ ['"'] else '"' :: requote quote body ++ ['"']
  | piece => piece.text

/-- Puts every string between double quotes. -/
def convertQuotes (text : List Char) : List Char :=
  (pieces text).flatMap Piece.doubleQuoted

def dropCommas : List Piece → List Piece
  | [] => []
  | piece :: rest =>
    if piece = .code ',' ∧
        (rest.dropWhile (Piece.isCode isSpace)).head?.any (Piece.isCode closesContainer) then
      (dropCommas rest).dropWhile (Piece.isCode isSpace)
    else piece :: dropCommas rest

/-- Drops a comma before a closing brace or bracket, with the space between them. -/
def stripTrailingCommas (text : List Char) : List Char :=
  (dropCommas (pieces text)).flatMap Piece.text

def Piece.isComment : Piece → Bool
  | lineComment _ => true
  | blockComment _ => true
  | _ => false

def stripComments (text : List Char) : List Char :=
  ((pieces text).filter (!Piece.isComment ·)).flatMap Piece.text

/-- The steps towards a literal with quoted keys and double-quoted strings, in order. -/
def normalSteps : List (List Char → List Char) :=
  [resolveInterpolations, quoteKeys, convertQuotes, stripTrailingCommas, stripComments]

def normalize (text : List Char) : List Char :=
  normalSteps.foldl (fun text step => step text) text

end ThemeSheet.Literal
