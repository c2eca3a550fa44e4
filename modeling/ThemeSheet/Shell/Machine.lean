import ThemeSheet.Files.Tree
import ThemeSheet.Shell.Byte
import ThemeSheet.Shell.Script

namespace ThemeSheet.Shell

/-- What a command leaves a script to do next. A loop that is broken or continued may be several
loops out. -/
inductive Flow
  | normal
  | exited
  | returned
  | broken (levels : Nat)
  | continued (levels : Nat)
deriving DecidableEq, Repr

/-- Text that was written in one go. -/
structure Written where
  toErrors : Bool
  text : List Char
deriving DecidableEq, Repr

/-- A script at work. `careful` says whether a command that fails ends it, `loops` counts the loops
around the command at hand, and `hidden` keeps the values that local ones stand in front of. -/
structure Machine where
  files : Files
  cwd : List String
  script : List Char
  arguments : List (List Char)
  values : List (String × List Char)
  functions : List (String × Command)
  status : Int
  flow : Flow
  careful : Bool
  loops : Nat
  hidden : List (String × Option (List Char))
  input : List Char
  written : List Written

namespace Machine

def write (m : Machine) (toErrors : Bool) (text : List Char) : Machine :=
  { m with written := m.written ++ [⟨toErrors, text⟩] }

def say (m : Machine) (text : List Char) : Machine := m.write false text

def complain (m : Machine) (text : String) : Machine := m.write true (ofText text)

def done (m : Machine) (status : Int) : Machine :=
  { m with status }

def value? (m : Machine) (name : String) : Option (List Char) :=
  if name = "PWD" then some (ofText (Path.absolute m.cwd).text)
  else if name = "#" then some (toString m.arguments.length).toList
  else if name = "?" then some (toString m.status).toList
  else if name = "$" then some ['$']
  else if name = "0" then some m.script
  else
    match name.toNat? with
    | some n => m.arguments[n - 1]?
    | none => m.values.lookup name

def value (m : Machine) (name : String) : List Char := (m.value? name).getD []

def assign (m : Machine) (name : String) (value : List Char) : Machine :=
  { m with values := (name, value) :: m.values.filter (·.1 != name) }

/-- Puts a value back as it was. -/
def restore (m : Machine) (name : String) : Option (List Char) → Machine
  | some value => m.assign name value
  | none => { m with values := m.values.filter (·.1 != name) }

/-- What was written to one of the two outputs. -/
def writtenTo (m : Machine) (toErrors : Bool) : List Char :=
  (m.written.filter (·.toErrors == toErrors)).flatMap (·.text)

def node? (m : Machine) (name : List Char) : Option Node :=
  m.files.node? m.cwd (pathOf name)

def read (m : Machine) (name : List Char) : Except Errno (List Char) :=
  (m.files.content m.cwd (pathOf name)).map charsOf

/-- Opens a file for writing, at its end or emptied. -/
def create? (m : Machine) (name : List Char) (append : Bool) : Except Errno Machine :=
  match m.files.place true m.cwd (pathOf name) with
  | .error errno => .error errno
  | .ok place =>
    match place.node with
    | some (.file _ executable _) =>
      if append then .ok m
      else
        .ok { m with
          files := m.files.put place.parts (.file [] executable m.files.freshStamp) }
    | none =>
      .ok { m with files := m.files.put place.parts (.file [] false m.files.freshStamp) }
    | some _ => .error .isDirectory

/-- Writes at the end of a file that is open. -/
def append (m : Machine) (name text : List Char) : Machine :=
  match m.files.place true m.cwd (pathOf name) with
  | .ok ⟨parts, some (.file content executable _)⟩ =>
    let node := Node.file (content ++ bytesOf text) executable m.files.freshStamp
    { m with files := m.files.put parts node }
  | _ => m

/-- Replaces what a file holds. -/
def replace? (m : Machine) (name text : List Char) : Except Errno Machine :=
  (m.create? name false).map (·.append name text)

/-- The message of the script itself about one of its lines. -/
def report (m : Machine) (line : Nat) (text : List Char) : Machine :=
  m.write true (m.script ++ ofText s!": {line}: " ++ text ++ ['\n'])

end Machine
end ThemeSheet.Shell
