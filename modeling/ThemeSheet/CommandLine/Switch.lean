import ThemeSheet.Config
import ThemeSheet.Text.Similarity

namespace ThemeSheet.CommandLine

open Text

/-- What a switch expects after it. -/
inductive ValueKind
  | none
  | text
  | file
  | real
deriving DecidableEq, Repr

/-- One switch of a command, by its long name with the hyphens and its letter if it has one. -/
structure Switch where
  long : String
  letter : Option Char
  kind : ValueKind
  isRequired : Bool
  default : Option String
  help : String
deriving DecidableEq, Repr

namespace Switch

def short? (s : Switch) : Option String :=
  s.letter.map fun c => String.ofList ['-', c]

/-- Every name of a switch, as messages list them. -/
def hint (s : Switch) : String :=
  " / ".intercalate ((s.long :: s.short?.toList).map fun name => "'" ++ name ++ "'")

end Switch

/-- Why a command line is refused. -/
inductive UsageFault
  | noSuchSwitch (name : String) (close : List String)
  | valueMissing (name : String)
  | valueUnwanted (name : String)
  | switchMissing (switch : Switch)
  | sourceMissing
  | directory (hint path : String)
  | notReal (hint text : String)
  | extraWords (words : List String)
  | commandMissing
  | noSuchCommand (name : String) (close : List String)
  | config (fault : ConfigFault)
deriving DecidableEq, Repr

def sourceHint : String := "'SOURCE'"

/-- What is added to a message about an unknown name. -/
def suggestion : List String → String
  | [] => ""
  | [name] => s!" Did you mean {quoted name}?"
  | names => " (Did you mean one of: " ++ ", ".intercalate (names.map quoted) ++ "?)"

def UsageFault.message : UsageFault → String
  | noSuchSwitch name close => s!"No such option {quoted name}." ++ suggestion close
  | valueMissing name => s!"Option {quoted name} requires an argument."
  | valueUnwanted name => s!"Option {quoted name} does not take a value."
  | switchMissing switch => s!"Missing option {switch.hint}."
  | sourceMissing => s!"Missing argument {sourceHint}."
  | directory hint path => s!"Invalid value for {hint}: File {quoted path} is a directory."
  | notReal hint text => s!"Invalid value for {hint}: {quoted text} is not a valid float."
  | extraWords words =>
    let plural := if words.length = 1 then "" else "s"
    s!"Got unexpected extra argument{plural} (" ++ " ".intercalate words ++ ")"
  | commandMissing => "Missing command."
  | noSuchCommand name close => s!"No such command {quoted name}." ++ suggestion close
  | config fault => s!"Invalid value: {fault.message}"

/-- Whether a fault is told together with how the command is called. A switch with a value too few
or too many is told of alone. -/
def UsageFault.showsUsage : UsageFault → Bool
  | valueMissing _ => false
  | valueUnwanted _ => false
  | _ => true

/-- The switches of a command line with their values in the order given, and the other words. -/
structure Given where
  switches : List (Switch × String)
  words : List String
deriving DecidableEq, Repr

namespace Given

def addSwitches (switches : List (Switch × String)) (given : Given) : Given :=
  { given with switches := switches ++ given.switches }

def addWord (word : String) (given : Given) : Given :=
  { given with words := word :: given.words }

def has (given : Given) (switch : Switch) : Bool :=
  given.switches.any (·.1 == switch)

/-- The value given last, or else the default. -/
def value? (given : Given) (switch : Switch) : Option String :=
  ((given.switches.reverse.find? (·.1 == switch)).map (·.2)).or switch.default

end Given

/-- A switch whose value is the next word, with the name it was given by. -/
abbrev Awaiting := Option (Switch × String)

/-- What a word of letters after one hyphen gives. What follows a letter that takes a value is the
value. -/
def readLetters (table : List Switch) :
    List Char → Except UsageFault (List (Switch × String) × Awaiting)
  | [] => .ok ([], none)
  | c :: rest =>
    match table.find? (·.letter == some c) with
    | none => .error (.noSuchSwitch (String.ofList ['-', c]) [])
    | some switch =>
      if switch.kind = .none then
        (readLetters table rest).map fun (switches, awaiting) =>
          ((switch, "") :: switches, awaiting)
      else if rest.isEmpty then .ok ([], some (switch, String.ofList ['-', c]))
      else .ok ([(switch, String.ofList rest)], none)

/-- What a word that starts with a hyphen gives. -/
def readSwitch (table : List Switch) (word : List Char) :
    Except UsageFault (List (Switch × String) × Awaiting) :=
  let name := String.ofList (word.takeWhile (· != '='))
  let value? := (word.dropWhile (· != '=')).tail?.map String.ofList
  match table.find? (·.long == name) with
  | some switch =>
    match value? with
    | none =>
      if switch.kind = .none then .ok ([(switch, "")], none) else .ok ([], some (switch, name))
    | some value =>
      if switch.kind = .none then .error (.valueUnwanted name) else .ok ([(switch, value)], none)
  | none =>
    match word with
    | '-' :: '-' :: _ => .error (.noSuchSwitch name (closeTexts name (table.map (·.long))))
    | _ => readLetters table word.tail

/-- Tells switches from other words. After `--`, and after the first other word unless `mixed`, all
is words. -/
def readWords (table : List Switch) (mixed : Bool) :
    Awaiting → List String → Except UsageFault Given
  | none, [] => .ok ⟨[], []⟩
  | some (_, name), [] => .error (.valueMissing name)
  | some (switch, _), value :: rest =>
    (readWords table mixed none rest).map (·.addSwitches [(switch, value)])
  | none, word :: rest =>
    if word = "--" then .ok ⟨[], rest⟩
    else if word.startsWith "-" && word != "-" then
      match readSwitch table word.toList with
      | .error fault => .error fault
      | .ok (switches, awaiting) =>
        (readWords table mixed awaiting rest).map (·.addSwitches switches)
    else if mixed then (readWords table mixed none rest).map (·.addWord word)
    else .ok ⟨[], word :: rest⟩

/-- The text without the underscores that stand between two digits. -/
def withoutSeparators : List Char → List Char
  | a :: '_' :: b :: rest =>
    if isDecimal a && isDecimal b then a :: withoutSeparators (b :: rest)
    else a :: '_' :: withoutSeparators (b :: rest)
  | c :: rest => c :: withoutSeparators rest
  | [] => []

/-- Stands for a number of seconds that no clock reaches. -/
def unending : Rat := mkRat (Nat.pow 2 1024) 1

/-- A number in decimal notation, or a word for an infinite or undefined one. -/
def readReal? (text : String) : Option Rat :=
  let text := trim text.toList
  let (negative, size) := NumberLiteral.sign text
  if ["inf", "infinity", "nan"].contains (String.ofList (size.map Char.toLower)) then
    let isNumber := size.head?.map Char.toLower == some 'i'
    some (if negative && isNumber then -unending else unending)
  else
    match NumberLiteral.scanDecimal? (withoutSeparators text) with
    | some (number, []) =>
      match number.toDouble? with
      | some (.infinite negative) => some (if negative then -unending else unending)
      | some value => value.toRat?
      | none => none
    | _ => none

/-- Whether a value will do for a switch. -/
def checkValue (fs : Files) (cwd : List String) (hint : String) (kind : ValueKind)
    (value : String) : Except UsageFault Unit :=
  match kind with
  | .file =>
    if value != "" && fs.isDirectory cwd (.ofString value) then .error (.directory hint value)
    else .ok ()
  | .real => if (readReal? value).isSome then .ok () else .error (.notReal hint value)
  | _ => .ok ()

/-- Checks one switch of a command. -/
def Given.checkSwitch (fs : Files) (cwd : List String) (given : Given) (switch : Switch) :
    Except UsageFault Unit :=
  match given.value? switch with
  | some value => checkValue fs cwd switch.hint switch.kind value
  | none => if switch.isRequired then .error (.switchMissing switch) else .ok ()

def Given.checkSource (fs : Files) (cwd : List String) (given : Given) : Except UsageFault Unit :=
  match given.words with
  | [] => .error .sourceMissing
  | source :: _ => checkValue fs cwd sourceHint .file source

/-- Checks the switches that were given in their order, then the source, then the other switches in
the order of the table, and last that no word is left over. -/
def Given.check (fs : Files) (cwd : List String) (table : List Switch) (given : Given) :
    Except UsageFault Unit := do
  (given.switches.map (·.1)).forM (given.checkSwitch fs cwd)
  given.checkSource fs cwd
  (table.filter fun switch => !given.has switch).forM (given.checkSwitch fs cwd)
  if 1 < given.words.length then throw (.extraWords (given.words.drop 1))

end ThemeSheet.CommandLine
