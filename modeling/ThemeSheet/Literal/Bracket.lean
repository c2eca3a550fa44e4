import ThemeSheet.Literal.Opaque

namespace ThemeSheet.Literal

def closing? : Char → Option Char
  | '{' => some '}'
  | '(' => some ')'
  | '[' => some ']'
  | _ => none

/-- The end of an object or an array. -/
def closesContainer (c : Char) : Bool :=
  c == '}' || c == ']'

def opensBracket (c : Char) : Bool :=
  c == '(' || c == '[' || c == '{'

def closesBracket (c : Char) : Bool :=
  c == ')' || closesContainer c

/-- What follows the bracket that closes the last of `depth` open ones. Only this kind of bracket
is counted, and none inside strings and comments. -/
def afterClose? (opening closing : Char) (depth : Nat) (text : List Char) : Option (List Char) :=
  match h : afterOpaque? text with
  | some rest =>
    have : rest.length < text.length := afterOpaque?_length_lt h
    afterClose? opening closing depth rest
  | none =>
    match text with
    | [] => none
    | c :: rest =>
      if c = opening then afterClose? opening closing (depth + 1) rest
      else if c = closing then
        if depth ≤ 1 then some rest else afterClose? opening closing (depth - 1) rest
      else afterClose? opening closing depth rest
termination_by text.length

theorem afterClose?_length_lt {opening closing : Char} {depth : Nat} {text rest : List Char}
    (h : afterClose? opening closing depth text = some rest) : rest.length < text.length := by
  fun_induction afterClose? opening closing depth text <;> simp_all <;> omega

/-- What follows the balanced stretch that begins with the bracket at the front. -/
def afterBalanced? : List Char → Option (List Char)
  | [] => none
  | c :: rest => (closing? c).bind fun closing => afterClose? c closing 1 rest

theorem afterBalanced?_length_lt {text rest : List Char} (h : afterBalanced? text = some rest) :
    rest.length < text.length := by
  cases text with
  | nil => cases h
  | cons c tail =>
    obtain ⟨closing, -, h⟩ := Option.bind_eq_some_iff.1 h
    exact Nat.lt_succ_of_lt (afterClose?_length_lt h)

/-- The balanced stretch itself. -/
def balanced? (text : List Char) : Option (List Char) :=
  (afterBalanced? text).map fun rest => text.take (text.length - rest.length)

inductive BracketFault
  | outOfRange
  | notOpening (c : Char)
deriving DecidableEq, Repr

/-- The index of the bracket that closes the one at `index`. -/
def closingIndex (text : List Char) (index : Nat) : Except BracketFault (Option Nat) :=
  match text.drop index with
  | [] => .error .outOfRange
  | c :: rest =>
    match closing? c with
    | none => .error (.notOpening c)
    | some closing =>
      .ok ((afterClose? c closing 1 rest).map fun rest' => text.length - rest'.length - 1)

/-- The index after the string that opens at `index`, whatever character opens it. -/
def stringEnd? (text : List Char) (index : Nat) : Option Nat :=
  match text.drop index with
  | [] => none
  | c :: rest => some (text.length - (afterString c rest).length)

end ThemeSheet.Literal
