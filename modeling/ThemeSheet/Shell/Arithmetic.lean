namespace ThemeSheet.Shell.Arithmetic

/-- The operators with two sides, those that bind tighter in later lists. A longer spelling comes
before one that it begins with. -/
def levels : List (List (String × (Int → Int → Int))) :=
  let truth (holds : Bool) : Int := if holds then 1 else 0
  [[("||", fun a b => truth (a != 0 || b != 0))],
    [("&&", fun a b => truth (a != 0 && b != 0))],
    [("==", fun a b => truth (a == b)), ("!=", fun a b => truth (a != b))],
    [("<=", fun a b => truth (a ≤ b)), (">=", fun a b => truth (b ≤ a)),
      ("<", fun a b => truth (a < b)), (">", fun a b => truth (b < a))],
    [("+", fun a b => a + b), ("-", fun a b => a - b)],
    [("*", fun a b => a * b), ("/", Int.tdiv), ("%", Int.tmod)]]

def skip (text : List Char) : List Char :=
  text.dropWhile fun c => c == ' ' || c == '\t' || c == '\n'

mutual

/-- An expression whose operators stand in the levels given. -/
def expression (value : List Char → Int) (fuel : Nat)
    (levels : List (List (String × (Int → Int → Int)))) (text : List Char) : Int × List Char :=
  match fuel with
  | 0 => (0, [])
  | fuel + 1 =>
    match levels with
    | [] => operand value fuel (skip text)
    | level :: tighter =>
      let (first, rest) := expression value fuel tighter text
      continued value fuel level tighter first rest

/-- Goes on after a left side, from left to right. -/
def continued (value : List Char → Int) (fuel : Nat) (level : List (String × (Int → Int → Int)))
    (tighter : List (List (String × (Int → Int → Int)))) (first : Int) (text : List Char) :
    Int × List Char :=
  match fuel with
  | 0 => (first, [])
  | fuel + 1 =>
    let text := skip text
    let found? := level.findSome? fun (spelling, apply) =>
      (spelling.toList.isPrefixOf? text).map fun rest => (apply, rest)
    match found? with
    | none => (first, text)
    | some (apply, rest) =>
      let (second, rest) := expression value fuel tighter rest
      continued value fuel level tighter (apply first second) rest

def operand (value : List Char → Int) (fuel : Nat) (text : List Char) : Int × List Char :=
  match fuel with
  | 0 => (0, [])
  | fuel + 1 =>
    match text with
    | '(' :: rest =>
      let (result, rest) := expression value fuel levels rest
      (result, (skip rest).drop 1)
    | '-' :: rest =>
      let (result, rest) := operand value fuel (skip rest)
      (-result, rest)
    | '+' :: rest => operand value fuel (skip rest)
    | '!' :: rest =>
      let (result, rest) := operand value fuel (skip rest)
      (if result = 0 then 1 else 0, rest)
    | text =>
      let word := text.takeWhile fun c => c.isAlphanum || c == '_'
      let rest := text.drop word.length
      match (String.ofList word).toNat? with
      | some n => (n, rest)
      | none => (value word, rest)

end

/-- The value of an expression, where `value` gives that of a name. -/
def evaluate (value : List Char → Int) (text : List Char) : Int :=
  (expression value (16 * text.length + 16) levels text).1

end ThemeSheet.Shell.Arithmetic
