import ThemeSheet.Shell.Regex

namespace ThemeSheet.Shell.Sed

inductive Address
  | line (number : Nat)
  | last
  | pattern (regex : Regex)

/-- A piece of a replacement. -/
inductive Piece
  | text (c : Char)
  | group (number : Nat)

inductive Edit
  | substitute (regex : Regex) (replacement : List Piece) (all : Bool) (number : Nat) (prints : Bool)
  | delete
  | print
  | quit
  | before (text : List Char)
  | after (text : List Char)
  | change (text : List Char)
  | exchange (source target : List Char)

structure Step where
  first : Option Address
  final : Option Address
  negated : Bool
  edit : Edit

/-- The text up to a delimiter. The delimiter itself may be written after a backslash. -/
def spanDelimited (mark : Char) : List Char → List Char × List Char
  | [] => ([], [])
  | '\\' :: c :: rest =>
    let (text, rest) := spanDelimited mark rest
    (if c = mark then c :: text else '\\' :: c :: text, rest)
  | c :: rest =>
    if c = mark then ([], rest)
    else
      let (text, rest) := spanDelimited mark rest
      (c :: text, rest)

def replacement : List Char → List Piece
  | [] => []
  | '&' :: rest => .group 0 :: replacement rest
  | '\\' :: c :: rest =>
    if c.isDigit then .group (c.toNat - '0'.toNat) :: replacement rest
    else if c = 'n' then .text '\n' :: replacement rest
    else if c = 't' then .text '\t' :: replacement rest
    else .text c :: replacement rest
  | c :: rest => .text c :: replacement rest

def skip (text : List Char) : List Char :=
  text.dropWhile fun c => c == ' ' || c == '\t'

def address? (extended : Bool) (text : List Char) : Option (Address × List Char) :=
  match text with
  | '$' :: rest => some (.last, rest)
  | '/' :: rest =>
    let (pattern, rest) := spanDelimited '/' rest
    some (.pattern (.parse extended pattern), rest)
  | text =>
    let digits := text.takeWhile Char.isDigit
    (String.ofList digits).toNat?.map fun number => (.line number, text.drop digits.length)

/-- The text of a command that takes the rest of its line. -/
def lineText (text : List Char) : List Char × List Char :=
  let text := match skip text with
    | '\\' :: '\n' :: rest => rest
    | '\\' :: rest => rest
    | rest => rest
  (text.takeWhile (· != '\n'), text.dropWhile (· != '\n'))

def edit? (extended : Bool) (text : List Char) : Option (Edit × List Char) :=
  match text with
  | 's' :: mark :: rest =>
    let (pattern, rest) := spanDelimited mark rest
    let (new, rest) := spanDelimited mark rest
    let options := rest.takeWhile fun c => c == 'g' || c == 'p' || c == 'I' || c.isDigit
    let number := (String.ofList (options.filter Char.isDigit)).toNat?.getD 1
    some (.substitute (.parse extended pattern) (replacement new) (options.contains 'g') number
      (options.contains 'p'), rest.drop options.length)
  | 'y' :: mark :: rest =>
    let (source, rest) := spanDelimited mark rest
    let (target, rest) := spanDelimited mark rest
    some (.exchange source target, rest)
  | 'd' :: rest => some (.delete, rest)
  | 'p' :: rest => some (.print, rest)
  | 'q' :: rest => some (.quit, rest)
  | 'i' :: rest => let (text, rest) := lineText rest; some (.before text, rest)
  | 'a' :: rest => let (text, rest) := lineText rest; some (.after text, rest)
  | 'c' :: rest => let (text, rest) := lineText rest; some (.change text, rest)
  | _ => none

def parse (extended : Bool) : (fuel : Nat) → List Char → List Step
  | 0, _ => []
  | fuel + 1, text =>
    match text.dropWhile fun c => c == ' ' || c == '\t' || c == '\n' || c == ';' with
    | [] => []
    | text =>
      let (first, rest) := match address? extended text with
        | some (first, rest) => (some first, skip rest)
        | none => (none, text)
      let (final, rest) := match rest with
        | ',' :: rest =>
          match address? extended (skip rest) with
          | some (final, rest) => (some final, skip rest)
          | none => (none, rest)
        | rest => (none, rest)
      let (negated, rest) := match rest with
        | '!' :: rest => (true, skip rest)
        | rest => (false, rest)
      match edit? extended rest with
      | none => []
      | some (edit, rest) => ⟨first, final, negated, edit⟩ :: parse extended fuel rest

/-- A line being edited: its number, whether it is the last, and its text. -/
structure Line where
  number : Nat
  isLast : Bool
  text : List Char

def Address.holds (address : Address) (line : Line) : Bool :=
  match address with
  | .line number => line.number == number
  | .last => line.isLast
  | .pattern regex => (regex.search? line.text).isSome

/-- Whether a step applies to a line, and whether its range is open afterwards. -/
def Step.applies (step : Step) (isOpen : Bool) (line : Line) : Bool × Bool :=
  match step.first, step.final with
  | none, _ => (true, false)
  | some first, none => (first.holds line, false)
  | some first, some final =>
    let passed := match final with
      | .line number => number ≤ line.number
      | _ => false
    if isOpen then (true, !(final.holds line || passed))
    else if first.holds line then (true, !passed && !line.isLast)
    else (false, false)

def Piece.shown (found : Regex.Found) : Piece → List Char
  | .text c => [c]
  | .group 0 => found.taken
  | .group number => (found.after.groups.lookup number).getD []

/-- Replaces matches from a position on. `number` counts down to the first that is replaced. -/
def substitute (regex : Regex) (pieces : List Piece) (all : Bool) :
    (fuel number : Nat) → (justMatched : Bool) → Regex.Cursor → List Char × Bool
  | 0, _, _, cursor => (cursor.rest, false)
  | fuel + 1, number, justMatched, cursor =>
    match regex.find? (cursor.rest.length + 1) cursor with
    | none => (cursor.rest, false)
    | some found =>
      if found.taken.isEmpty then
        match found.after.rest with
        | [] =>
          if justMatched && found.before.isEmpty then (found.before, false)
          else if number ≤ 1 then
            (found.before ++ pieces.flatMap (·.shown found), true)
          else (found.before, false)
        | c :: _ =>
          if justMatched && found.before.isEmpty then
            let (rest, changed) := substitute regex pieces all fuel number false (cursor.step 1)
            (c :: rest, changed)
          else if number ≤ 1 then
            let new := pieces.flatMap (·.shown found)
            if all then
              let (rest, _) := substitute regex pieces all fuel 1 false (found.after.step 1)
              (found.before ++ new ++ c :: rest, true)
            else (found.before ++ new ++ found.after.rest, true)
          else
            let (rest, changed) :=
              substitute regex pieces all fuel (number - 1) false (found.after.step 1)
            (found.before ++ c :: rest, changed)
      else if number ≤ 1 then
        let new := pieces.flatMap (·.shown found)
        if all then
          let (rest, _) := substitute regex pieces all fuel 1 true found.after
          (found.before ++ new ++ rest, true)
        else (found.before ++ new ++ found.after.rest, true)
      else
        let (rest, changed) := substitute regex pieces all fuel (number - 1) true found.after
        (found.before ++ found.taken ++ rest, changed)

/-- What the steps make of a line: lines before it, the line unless it is deleted, lines after it,
which ranges are open, and whether no further line is read. -/
structure Edited where
  before : List (List Char)
  text : List Char
  kept : Bool
  after : List (List Char)
  isOpen : List Bool
  quits : Bool

def exchanged (source target : List Char) (c : Char) : Char :=
  ((source.zip target).lookup c).getD c

def Edited.edit (e : Edited) (edit : Edit) : Edited :=
  match edit with
  | .substitute regex pieces all number prints =>
    let (text, changed) :=
      substitute regex pieces all (2 * e.text.length + 2) number false ⟨[], e.text, []⟩
    { e with
      text
      before := if prints && changed then e.before ++ [text] else e.before }
  | .delete => { e with kept := false }
  | .print => { e with before := e.before ++ [e.text] }
  | .quit => { e with quits := true }
  | .before text => { e with before := e.before ++ [text] }
  | .after text => { e with after := e.after ++ [text] }
  | .change text => { e with before := e.before ++ [text], kept := false }
  | .exchange source target => { e with text := e.text.map (exchanged source target) }

def run (line : Line) : List (Step × Bool) → Edited → Edited
  | [], e => e
  | (step, isOpen) :: rest, e =>
    let (applies, isOpen) := step.applies isOpen { line with text := e.text }
    let e := { e with isOpen := e.isOpen ++ [isOpen] }
    let e := if applies != step.negated then e.edit step.edit else e
    if e.kept && !e.quits then run line rest e
    else { e with isOpen := e.isOpen ++ rest.map (·.2) }

/-- The lines of a text, without their ends. -/
def lines (text : List Char) : List (List Char) :=
  (text.splitBy fun c _ => c != '\n').map fun line => line.filter (· != '\n')

/-- Edits lines one after another. `quiet` leaves out those that are not asked for. -/
def editLines (steps : List Step) (quiet : Bool) :
    (number : Nat) → (isOpen : List Bool) → List (List Char) → List (List Char)
  | _, _, [] => []
  | number, isOpen, text :: rest =>
    let e := run ⟨number, rest.isEmpty, text⟩ (steps.zip isOpen) ⟨[], text, true, [], [], false⟩
    let shown := e.before ++ (if e.kept && !quiet then [e.text] else []) ++ e.after
    if e.quits then shown else shown ++ editLines steps quiet (number + 1) e.isOpen rest

/-- Edits a text by a script. A last line without an end stays without one. -/
def edit (script : List Char) (extended quiet : Bool) (text : List Char) : List Char :=
  let steps := parse extended (script.length + 1) script
  let edited := editLines steps quiet 1 (steps.map fun _ => false) (lines text)
  let joined := edited.flatMap (· ++ ['\n'])
  if text.isEmpty || text.getLast? == some '\n' then joined else joined.dropLast

end ThemeSheet.Shell.Sed
