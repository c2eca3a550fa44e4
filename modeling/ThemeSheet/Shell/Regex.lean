import ThemeSheet.Shell.Glob

namespace ThemeSheet.Shell

/-- A regular expression as line editors use it. -/
inductive Regex
  | empty
  | member (bracket : Bracket)
  | lineStart
  | lineEnd
  | wordEdge (inside : Bool)
  | sequence (first second : Regex)
  | choice (first second : Regex)
  | times (inner : Regex) (least : Nat) (most : Option Nat)
  | group (number : Nat) (inner : Regex)
  | again (number : Nat)
deriving Repr

namespace Regex

/-- A position in a line: the characters passed, last first, those to come, and what the groups
have taken. -/
structure Cursor where
  passed : List Char
  rest : List Char
  groups : List (Nat × List Char)

def isWord (c : Char) : Bool :=
  c.isAlphanum || c == '_'

def Cursor.step (cursor : Cursor) (count : Nat) : Cursor :=
  { cursor with
    passed := (cursor.rest.take count).reverse ++ cursor.passed
    rest := cursor.rest.drop count }

/-- Tries to go on from a cursor, the longest repetition first; `go` is what follows. -/
def run (fuel : Nat) (regex : Regex) (cursor : Cursor) (go : Cursor → Option Cursor) :
    Option Cursor :=
  match fuel with
  | 0 => none
  | fuel + 1 =>
    match regex with
    | .empty => go cursor
    | .member bracket =>
      match cursor.rest with
      | c :: _ => if bracket.holds c then go (cursor.step 1) else none
      | [] => none
    | .lineStart => if cursor.passed.isEmpty then go cursor else none
    | .lineEnd => if cursor.rest.isEmpty then go cursor else none
    | .wordEdge inside =>
      let edge := cursor.passed.head?.any isWord != cursor.rest.head?.any isWord
      if edge == inside then go cursor else none
    | .sequence first second => run fuel first cursor fun cursor => run fuel second cursor go
    | .choice first second => (run fuel first cursor go).or (run fuel second cursor go)
    | .group number inner =>
      run fuel inner cursor fun after =>
        let taken := cursor.rest.take (cursor.rest.length - after.rest.length)
        go { after with groups := (number, taken) :: after.groups }
    | .again number =>
      let taken := (cursor.groups.lookup number).getD []
      if taken.isPrefixOf cursor.rest then go (cursor.step taken.length) else none
    | .times inner least most =>
      let once := if most == some 0 then none else
        run fuel inner cursor fun after =>
          if after.rest.length < cursor.rest.length then
            run fuel (.times inner (least - 1) (most.map (· - 1))) after go
          else none
      once.or (if least = 0 then go cursor else none)

/-- The cursor after a match that begins at a cursor. -/
def matchAt? (regex : Regex) (cursor : Cursor) : Option Cursor :=
  run 100000 regex { cursor with groups := [] } some

def plain (c : Char) : Regex := member ⟨false, [(c, c)]⟩

/-- What a letter after a backslash stands for in either notation. -/
def escape? (c : Char) : Option Regex :=
  match c with
  | 'n' => some (plain '\n')
  | 't' => some (plain '\t')
  | 'w' => some (member ⟨false, ('_', '_') :: Bracket.named "alnum".toList⟩)
  | 'W' => some (member ⟨true, ('_', '_') :: Bracket.named "alnum".toList⟩)
  | 's' => some (member ⟨false, Bracket.named "space".toList⟩)
  | 'S' => some (member ⟨true, Bracket.named "space".toList⟩)
  | 'b' => some (wordEdge true)
  | 'B' => some (wordEdge false)
  | _ => if c.isDigit && c != '0' then some (again (c.toNat - '0'.toNat)) else none

/-- An operator of the notation. -/
inductive Mark
  | opening
  | closing
  | bar
  | most (least : Nat) (most : Option Nat)
  | interval
deriving DecidableEq

/-- The operator at the front. In the basic notation most are written after a backslash, in the
extended one without. -/
def mark? (extended : Bool) (text : List Char) : Option (Mark × List Char) :=
  let operator? (c : Char) : Option Mark :=
    match c with
    | '(' => some .opening
    | ')' => some .closing
    | '|' => some .bar
    | '+' => some (.most 1 none)
    | '?' => some (.most 0 (some 1))
    | '\x7b' => some .interval
    | _ => none
  match text with
  | '*' :: rest => some (.most 0 none, rest)
  | '\\' :: c :: rest => if extended then none else (operator? c).map (·, rest)
  | c :: rest => if extended then (operator? c).map (·, rest) else none
  | [] => none

/-- The bounds of an interval after its opening brace. -/
def bounds? (extended : Bool) (text : List Char) : Option (Nat × Option Nat × List Char) :=
  let number (text : List Char) : Option Nat × List Char :=
    let digits := text.takeWhile Char.isDigit
    ((String.ofList digits).toNat?, text.drop digits.length)
  let (least, rest) := number text
  let (most, rest) := match rest with
    | ',' :: rest => number rest
    | rest => (least, rest)
  let close := if extended then ['\x7d'] else ['\\', '\x7d']
  (close.isPrefixOf? rest).map fun rest => (least.getD 0, most, rest)

/-- The repetitions after an item. -/
def repeated (extended : Bool) : (fuel : Nat) → Regex → List Char → Regex × List Char
  | 0, item, text => (item, text)
  | fuel + 1, item, text =>
    match mark? extended text with
    | some (.most least most, rest) => repeated extended fuel (.times item least most) rest
    | some (.interval, rest) =>
      match bounds? extended rest with
      | some (least, most, rest) => repeated extended fuel (.times item least most) rest
      | none => (item, text)
    | _ => (item, text)

mutual

/-- Branches up to a closing mark or the end. `groups` counts the groups opened so far. -/
def branches (extended : Bool) (fuel groups : Nat) (text : List Char) : Regex × Nat × List Char :=
  match fuel with
  | 0 => (.empty, groups, [])
  | fuel + 1 =>
    let (first, groups, rest) := items extended fuel true groups text
    match mark? extended rest with
    | some (.bar, rest) =>
      let (second, groups, rest) := branches extended fuel groups rest
      (.choice first second, groups, rest)
    | _ => (first, groups, rest)

def items (extended : Bool) (fuel : Nat) (front : Bool) (groups : Nat) (text : List Char) :
    Regex × Nat × List Char :=
  match fuel with
  | 0 => (.empty, groups, [])
  | fuel + 1 =>
    let follow (item : Regex) (groups : Nat) (rest : List Char) : Regex × Nat × List Char :=
      let (item, rest) := repeated extended rest.length item rest
      let (more, groups, rest) := items extended fuel false groups rest
      (.sequence item more, groups, rest)
    match text with
    | [] => (.empty, groups, [])
    | c :: tail =>
      match mark? extended text with
      | some (.opening, rest) =>
        let number := groups + 1
        let (inner, groups, rest) := branches extended fuel number rest
        let rest := match mark? extended rest with
          | some (.closing, rest) => rest
          | _ => rest
        follow (.group number inner) groups rest
      | some (.closing, _) => (.empty, groups, text)
      | some (.bar, _) => (.empty, groups, text)
      | some (_, rest) =>
        if front && c == '*' then follow (plain '*') groups tail
        else items extended fuel front groups rest
      | none =>
        match c, tail with
        | '^', _ =>
          if front || extended then
            let (more, groups, rest) := items extended fuel true groups tail
            (.sequence .lineStart more, groups, rest)
          else follow (plain '^') groups tail
        | '$', _ =>
          let ends := tail.isEmpty || match mark? extended tail with
            | some (.closing, _) => true
            | some (.bar, _) => true
            | _ => false
          if ends || extended then follow .lineEnd groups tail else follow (plain '$') groups tail
        | '.', _ => follow (.member ⟨true, []⟩) groups tail
        | '[', _ =>
          match Bracket.read? tail with
          | some (bracket, rest) => follow (.member bracket) groups rest
          | none => follow (plain '[') groups tail
        | '\\', c :: rest => follow ((escape? c).getD (plain c)) groups rest
        | c, _ => follow (plain c) groups tail

end

def parse (extended : Bool) (text : List Char) : Regex :=
  (branches extended (2 * text.length + 2) 0 text).1

/-- Where a line first matches: what stands before, the match as a cursor after it, and what the
match has taken. -/
structure Found where
  before : List Char
  taken : List Char
  after : Cursor

def find? (regex : Regex) : (fuel : Nat) → Cursor → Option Found
  | 0, _ => none
  | fuel + 1, cursor =>
    match regex.matchAt? cursor with
    | some after =>
      some ⟨[], cursor.rest.take (cursor.rest.length - after.rest.length), after⟩
    | none =>
      match cursor.rest with
      | [] => none
      | c :: _ => (find? regex fuel (cursor.step 1)).map fun found =>
          { found with before := c :: found.before }

def search? (regex : Regex) (line : List Char) : Option Found :=
  regex.find? (line.length + 1) ⟨[], line, []⟩

end Regex
end ThemeSheet.Shell
