import ThemeSheet.CommandLine.Switch

namespace ThemeSheet.CommandLine

/-- Columns of a help text. -/
def helpWidth : Nat := 78

/-- A text as its words, each with the count of spaces before it. -/
def spacedWords (gap : Nat) : List Char → List (Nat × List Char)
  | [] => []
  | c :: rest =>
    if c = ' ' then spacedWords (gap + 1) rest
    else
      match rest, spacedWords 0 rest with
      | d :: _, (_, word) :: words =>
        if d = ' ' then (gap, [c]) :: (spacedWords 0 rest) else (gap, c :: word) :: words
      | _, words => (gap, [c]) :: words

/-- Adds words to a line as long as they fit. A word that opens a line loses the spaces before
it. -/
def fillLines (width : Nat) (line : List Char) : List (Nat × List Char) → List (List Char)
  | [] => [line]
  | (gap, word) :: rest =>
    if line.isEmpty then fillLines width word rest
    else if line.length + gap + word.length ≤ width then
      fillLines width (line ++ List.replicate gap ' ' ++ word) rest
    else line :: fillLines width word rest

/-- The text in lines of at most `width` characters, words permitting. -/
def wrap (width : Nat) (text : String) : List String :=
  (fillLines width [] (spacedWords 0 text.toList)).map String.ofList

def indented (line : String) : String := "  " ++ line

/-- The text with spaces after it up to a length. -/
def padded (length : Nat) (text : String) : String :=
  text ++ String.ofList (List.replicate (length - text.length) ' ')

/-- Two columns: names, and what they stand for. -/
def definitions (rows : List (String × String)) : List String :=
  let column := (rows.map (·.1.length)).foldl max 0 + 2
  rows.flatMap fun (name, text) =>
    match wrap (helpWidth - 2 - column) text with
    | [] => [indented name]
    | line :: lines =>
      indented (padded column name ++ line) ::
        lines.map fun line => indented (padded column "" ++ line)

namespace Switch

def valueName : ValueKind → String
  | .none => ""
  | .text => " TEXT"
  | .file => " FILE"
  | .real => " FLOAT"

def names (s : Switch) : String :=
  ", ".intercalate (s.short?.toList ++ [s.long]) ++ valueName s.kind

def description (s : Switch) : String :=
  let remark := if s.isRequired then "  [required]"
    else match s.default with
      | some text => if text.isEmpty then "" else s!"  [default: {text}]"
      | none => ""
  s.help ++ remark

end Switch

def helpSwitch : Switch := ⟨"--help", none, .none, false, none, "Show this message and exit."⟩

def switchLines (switches : List Switch) : List String :=
  "Options:" :: definitions ((switches ++ [helpSwitch]).map fun s => (s.names, s.description))

/-- A command, with its switches in the order they are listed. -/
structure Command where
  name : String
  summary : String
  description : List String
  switches : List Switch
deriving DecidableEq, Repr

namespace Command

/-- How the command is called. -/
def usage (command : Command) : String :=
  s!"Usage: cssvars {command.name} [OPTIONS] SOURCE"

def help (command : Command) : String :=
  let paragraphs := command.description.flatMap fun text =>
    (wrap (helpWidth - 2) text).map indented ++ [""]
  "\n".intercalate (command.usage :: "" :: paragraphs ++ switchLines command.switches) ++ "\n"

end Command
end ThemeSheet.CommandLine
