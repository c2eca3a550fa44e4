import ThemeSheet.Literal.Token

namespace ThemeSheet.Literal

inductive Key
  | string (body : List Char)
  | number (literal : NumberLiteral)
deriving DecidableEq, Repr

/-- What a text denotes before its strings and numbers are read. -/
inductive Node
  | string (body : List Char)
  | number (literal : NumberLiteral)
  | yes
  | no
  | null
  | undefined
  | function
  | object (members : List (Key × Node))
  | array (items : List Node)
deriving Repr

abbrev Member := Key × Node

/-- A container that is still open around the value being read. Its parts so far are kept last
first. -/
inductive Frame
  | member (done : List Member) (key : Key)
  | element (done : List Node)
deriving Repr

/-- What may come next in the innermost open container. -/
inductive Expecting
  | document
  | memberOrClose (done : List Member)
  | colon (done : List Member) (key : Key)
  | value
  | valueOrClose (done : List Node)
  | memberEnd (done : List Member)
  | elementEnd (done : List Node)
  | nothing (members : List Member)
deriving Repr

structure State where
  frames : List Frame
  expecting : Expecting
deriving Repr

namespace State

def start : State := ⟨[], .document⟩

/-- The members of an object that is done stand alone or in the container around it. -/
def closeObject (members : List Member) : List Frame → State
  | [] => ⟨[], .nothing members⟩
  | .member done key :: frames => ⟨frames, .memberEnd ((key, .object members) :: done)⟩
  | .element done :: frames => ⟨frames, .elementEnd (.object members :: done)⟩

/-- Puts a value into the container around it. Only an object stands alone. -/
def place? (node : Node) : List Frame → Option State
  | [] => none
  | .member done key :: frames => some ⟨frames, .memberEnd ((key, node) :: done)⟩
  | .element done :: frames => some ⟨frames, .elementEnd (node :: done)⟩

/-- Begins or completes the value that `token` begins. -/
def beginValue? (frames : List Frame) : Token → Option State
  | .leftBrace => some ⟨frames, .memberOrClose []⟩
  | .leftBracket => some ⟨frames, .valueOrClose []⟩
  | .string body => place? (.string body) frames
  | .number literal _ => place? (.number literal) frames
  | .yes => place? .yes frames
  | .no => place? .no frames
  | .null => place? .null frames
  | .undefined => place? .undefined frames
  | .function => place? .function frames
  | _ => none

/-- One token further, if it can follow. -/
def next? (state : State) (token : Token) : Option State :=
  match state.expecting, token with
  | .document, .leftBrace => some ⟨state.frames, .memberOrClose []⟩
  | .memberOrClose done, .string body => some ⟨state.frames, .colon done (.string body)⟩
  | .memberOrClose done, .number literal _ => some ⟨state.frames, .colon done (.number literal)⟩
  | .memberOrClose done, .rightBrace => some (closeObject done.reverse state.frames)
  | .colon done key, .colon => some ⟨.member done key :: state.frames, .value⟩
  | .value, token => beginValue? state.frames token
  | .valueOrClose done, .rightBracket => place? (.array done.reverse) state.frames
  | .valueOrClose done, token => beginValue? (.element done :: state.frames) token
  | .memberEnd done, .comma => some ⟨state.frames, .memberOrClose done⟩
  | .memberEnd done, .rightBrace => some (closeObject done.reverse state.frames)
  | .elementEnd done, .comma => some ⟨state.frames, .valueOrClose done⟩
  | .elementEnd done, .rightBracket => place? (.array done.reverse) state.frames
  | _, _ => none

end State

inductive SyntaxFault
  /-- No token begins with this character. -/
  | badCharacter (c : Char) (position : Position)
  /-- The token cannot follow those before it. -/
  | badToken (token : Token) (position : Position)
  /-- The text ends too early. The position is that of the last token. -/
  | unfinished (position : Position)
deriving DecidableEq, Repr

/-- Reads on from `state`; `last` is the position of the last token. -/
def parseFrom (textEnd : TextEnd) :
    (state : State) → (last : Position) → List PlacedToken → Except SyntaxFault (List Member)
  | state, last, [] =>
    match textEnd, state.expecting with
    | .badCharacter c position, _ => .error (.badCharacter c position)
    | .finished, .nothing members => .ok members
    | .finished, _ => .error (.unfinished last)
  | state, _, placed :: rest =>
    match state.next? placed.token with
    | none => .error (.badToken placed.token placed.position)
    | some state => parseFrom textEnd state placed.position rest

/-- The members of the object literal that is the whole text. -/
def parse (text : List Char) : Except SyntaxFault (List Member) :=
  let (tokens, textEnd) := tokens text
  parseFrom textEnd .start .start tokens

end ThemeSheet.Literal
