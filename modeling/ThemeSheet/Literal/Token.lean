import ThemeSheet.Literal.Mask
import ThemeSheet.Literal.Piece
import ThemeSheet.Number.Literal

namespace ThemeSheet.Literal

open Text

/-- The tokens of a data literal. A string keeps its body as written, a number also its text. -/
inductive Token
  | leftBrace
  | rightBrace
  | leftBracket
  | rightBracket
  | comma
  | colon
  | yes
  | no
  | null
  | undefined
  | function
  | string (body : List Char)
  | number (literal : NumberLiteral) (text : List Char)
deriving DecidableEq, Repr

namespace Token

def text : Token → List Char
  | leftBrace => ['{']
  | rightBrace => ['}']
  | leftBracket => ['[']
  | rightBracket => [']']
  | comma => [',']
  | colon => [':']
  | yes => "true".toList
  | no => "false".toList
  | null => "null".toList
  | undefined => "undefined".toList
  | function => functionMark
  | string body => '"' :: body ++ ['"']
  | number _ text => text

/-- The name of its kind in messages. -/
def label : Token → String
  | leftBrace => "LBRACE"
  | rightBrace => "RBRACE"
  | leftBracket => "LSQB"
  | rightBracket => "RSQB"
  | comma => "COMMA"
  | colon => "COLON"
  | yes => "TRUE"
  | no => "FALSE"
  | null => "NULL"
  | undefined => "UNDEFINED"
  | function => "__ANON_0"
  | string _ => "STRING"
  | number _ _ => "NUMBER"

/-- The tokens that are always written alike. None begins another. -/
def fixed : List Token :=
  [leftBrace, rightBrace, leftBracket, rightBracket, comma, colon, yes, no, null, undefined,
    function]

def fixed? (text : List Char) : Option (Token × List Char) :=
  fixed.findSome? fun token => (token.text.isPrefixOf? text).map (token, ·)

def string? : List Char → Option (Token × List Char)
  | '"' :: rest => (splitString? '"' rest).map fun (body, after) => (.string body, after)
  | _ => none

def number? (text : List Char) : Option (Token × List Char) :=
  (NumberLiteral.scan? text).map fun (literal, rest) =>
    (.number literal (text.take (text.length - rest.length)), rest)

/-- The token at the front, and what follows it. -/
def scan? (text : List Char) : Option (Token × List Char) :=
  (fixed? text).or ((string? text).or (number? text))

theorem fixed_text_pos : ∀ token ∈ fixed, 0 < token.text.length := by
  decide

theorem fixed?_length_lt {text rest : List Char} {token : Token}
    (h : fixed? text = some (token, rest)) : rest.length < text.length := by
  obtain ⟨candidate, mem, h⟩ := List.exists_of_findSome?_eq_some h
  obtain ⟨after, h, eq⟩ := Option.map_eq_some_iff.1 h
  cases eq
  have := fixed_text_pos _ mem
  rw [isPrefixOf?_append h, List.length_append]
  omega

theorem string?_length_lt {text rest : List Char} {token : Token}
    (h : string? text = some (token, rest)) : rest.length < text.length := by
  unfold string? at h
  split at h
  · obtain ⟨⟨body, after⟩, found, eq⟩ := Option.map_eq_some_iff.1 h
    cases eq
    rw [splitString?_append found]
    simp only [List.length_cons, List.length_append]
    omega
  · cases h

theorem number?_length_lt {text rest : List Char} {token : Token}
    (h : number? text = some (token, rest)) : rest.length < text.length := by
  obtain ⟨⟨literal, after⟩, found, eq⟩ := Option.map_eq_some_iff.1 h
  cases eq
  exact NumberLiteral.scan?_length_lt found

theorem scan?_length_lt {text rest : List Char} {token : Token}
    (h : scan? text = some (token, rest)) : rest.length < text.length := by
  rcases Option.or_eq_some_iff.1 h with h | ⟨_, h⟩
  · exact fixed?_length_lt h
  · rcases Option.or_eq_some_iff.1 h with h | ⟨_, h⟩
    · exact string?_length_lt h
    · exact number?_length_lt h

end Token

/-- Lines and columns count from one; only a line feed begins a line. -/
structure Position where
  line : Nat
  column : Nat
deriving DecidableEq, Repr

namespace Position

def start : Position := ⟨1, 1⟩

def step (p : Position) (c : Char) : Position :=
  if c = '\n' then ⟨p.line + 1, 1⟩ else ⟨p.line, p.column + 1⟩

def after (p : Position) (text : List Char) : Position :=
  text.foldl step p

end Position

structure PlacedToken where
  token : Token
  position : Position
deriving DecidableEq, Repr

/-- How a text ends as tokens: with nothing left, or at a character that begins none. -/
inductive TextEnd
  | finished
  | badCharacter (c : Char) (position : Position)
deriving DecidableEq, Repr

/-- The blanks between tokens. -/
def isBlank (c : Char) : Bool :=
  c == ' ' || c == '\t' || c == '\x0c' || c == '\r' || c == '\n'

/-- Cuts a text that stands at `position` into tokens, as far as that goes. -/
def tokensAt (position : Position) (text : List Char) : List PlacedToken × TextEnd :=
  match text with
  | [] => ([], .finished)
  | c :: rest =>
    if isBlank c then tokensAt (position.step c) rest
    else
      match h : Token.scan? (c :: rest) with
      | none => ([], .badCharacter c position)
      | some (token, after) =>
        have : after.length ≤ rest.length := Nat.le_of_lt_succ (Token.scan?_length_lt h)
        let (tokens, textEnd) := tokensAt (position.after token.text) after
        (⟨token, position⟩ :: tokens, textEnd)
termination_by text.length

def tokens (text : List Char) : List PlacedToken × TextEnd :=
  tokensAt .start text

end ThemeSheet.Literal
