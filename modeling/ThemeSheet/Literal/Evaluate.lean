import ThemeSheet.Literal.Escape
import ThemeSheet.Literal.Fault
import ThemeSheet.Literal.Members
import ThemeSheet.Log
import ThemeSheet.Number.Text

namespace ThemeSheet.Literal

/-- A member as far as it matters: the text of a primitive, or why it is skipped. -/
inductive Reading
  | text (value : String)
  | function
  | nested
deriving DecidableEq, Repr

def readString (site : Site) (body : List Char) : Except Fault String :=
  match firstBadPoint? body with
  | some point =>
    .error (.noValue site (if point < 0x80000000 then .noCodePoint else .hugeCodePoint))
  | none => .ok (unescape body)

def readNumber (site : Site) (literal : NumberLiteral) : Except Fault String :=
  match literal.toDouble? with
  | some x => .ok x.text
  | none => .error (.noValue site .hugeNumber)

def Key.read : Key → Except Fault String
  | string body => readString .stringKey body
  | number literal => readNumber .numberKey literal

/-- How deep containers may nest, an object counting twice. -/
def maxDepth : Nat := 495

mutual

/-- Reads a value at a depth. The parts of a container are read and forgotten. -/
def Node.read (depth : Nat) : Node → Except Fault Reading
  | .string body => (readString .string body).map .text
  | .number literal => (readNumber .number literal).map .text
  | .yes => .ok (.text "true")
  | .no => .ok (.text "false")
  | .null => .ok (.text "null")
  | .undefined => .ok (.text "undefined")
  | .function => .ok .function
  | .object members =>
    if maxDepth < depth + 2 then .error .tooDeep
    else (readMembers (depth + 2) members).map fun _ => .nested
  | .array items =>
    if maxDepth < depth + 1 then .error .tooDeep
    else (readItems (depth + 1) items).map fun _ => .nested

/-- Reads keys and values in the order they are written, up to the first fault. -/
def readMembers (depth : Nat) : List (Key × Node) → Except Fault (List (String × Reading))
  | [] => .ok []
  | (key, node) :: rest => do
    let key ← key.read
    let value ← node.read depth
    let members ← readMembers depth rest
    return (key, value) :: members

def readItems (depth : Nat) : List Node → Except Fault (List Reading)
  | [] => .ok []
  | node :: rest => do
    let value ← node.read depth
    let items ← readItems depth rest
    return value :: items

end

/-- Keys and values in order; no key occurs twice. -/
abbrev Mapping := List (String × String)

inductive EvaluationFault
  | literal (fault : Fault)
  /-- A key of digits that is no number. -/
  | keyOrder (fault : IndexFault)
deriving DecidableEq, Repr

def evaluatorLogger : String := "cssvars.evaluator.evaluator"

def skipped (what label key : String) : LogRecord :=
  ⟨.warning, evaluatorLogger, s!"{what} found in {label}.{key} - skipping"⟩

/-- The warning a member is skipped with. -/
def Reading.warning? (label key : String) : Reading → Option LogRecord
  | text _ => none
  | function => some (skipped "Function" label key)
  | nested => some (skipped "Nested value" label key)

def Reading.text? : Reading → Option String
  | text value => some value
  | _ => none

def primitives (members : List (String × Reading)) : Mapping :=
  members.filterMap fun (key, reading) => reading.text?.map (key, ·)

def warnings (label : String) (members : List (String × Reading)) : List LogRecord :=
  members.filterMap fun (key, reading) => reading.warning? label key

/-- The members of a normalized literal in the order of an object. -/
def members (text : List Char) : Except EvaluationFault (List (String × Reading)) := do
  let nodes ← (parse (maskFunctions text)).mapError fun fault => .literal (.malformed fault)
  let members ← (readMembers 2 nodes).mapError .literal
  (ownKeys members).mapError .keyOrder

/-- The primitive members of a normalized literal, and the warnings about the others. A literal
whose members are all skipped is a fault. -/
def evaluate (name : String) (text : List Char) :
    List LogRecord × Except EvaluationFault Mapping :=
  let label := if name.isEmpty then "literal" else name
  match members text with
  | .error fault => ([], .error fault)
  | .ok members =>
    (warnings label members,
      if (primitives members).isEmpty && !members.isEmpty then
        .error (.literal (.noPrimitives label))
      else .ok (primitives members))

end ThemeSheet.Literal
