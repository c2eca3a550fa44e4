import ThemeSheet.Format.Launch
import ThemeSheet.Log
import ThemeSheet.Text.Space

namespace ThemeSheet.Format

open Text

inductive Fault
  /-- A tool would not start or failed. -/
  | tool (message : String)
  /-- A path could not be used. -/
  | file (error : FileError)
  | encoding (error : Utf8Error)
  /-- Any other failure of a formatter. -/
  | other (message : String)
  /-- A refusal of the system known by its text alone. -/
  | system (message : String)
deriving DecidableEq, Repr

namespace Fault

def message : Fault → String
  | tool message => message
  | file error => error.message
  | encoding error => error.message
  | other message => message
  | system message => message

/-- Faults that a run takes in its stride. -/
def isExpected : Fault → Bool
  | tool _ => true
  | file error => error.isRefusal
  | system _ => true
  | encoding _ => false
  | other _ => false

def ofRead : Files.ReadFault → Fault
  | .file error => file error
  | .encoding error => encoding error

end Fault

def logger : String := "cssvars.formatting.tools"

def prettierConfigNames : List String :=
  ["prettier.config.cjs", "prettier.config.js", ".prettierrc.cjs", ".prettierrc.js",
    ".prettierrc"]

def eslintConfigNames : List String :=
  ["eslint.config.js", "eslint.config.mjs", ".eslintrc.js", ".eslintrc.cjs"]

/-- The first of the names that is a file in the directory. -/
def findConfig? (fs : Files) (cwd : List String) (directory : Path) (names : List String) :
    Except FileError (Option Path) :=
  (names.map directory.child).findM? (fs.checkFile cwd)

/-- The commands that format a file, without the file, and the directory they run in. -/
structure Tools where
  prettier : Option (List String)
  eslint : Option (List String)
  directory : Option Path
deriving DecidableEq, Repr

def Tools.enabled (tools : Tools) : Bool :=
  tools.prettier.isSome || tools.eslint.isSome

/-- The tool that the project has installed, and otherwise the one on the search path. -/
def findTool? (host : Host) (fs : Files) (directory : Path) (name : String) :
    Except FileError (Option Path) := do
  let here := ((directory.child "node_modules").child ".bin").child name
  let isHere ← fs.checkFile host.cwd here
  return if isHere && fs.isExecutable host.cwd here then some here else host.which? fs name

/-- A kind of tool: its name in messages and of its program, the names its configuration goes by
and the option that makes it write. -/
structure ToolKind where
  title : String
  program : String
  configNames : List String
  writeOption : String

def prettierKind : ToolKind := ⟨"Prettier", "prettier", prettierConfigNames, "--write"⟩

def eslintKind : ToolKind := ⟨"ESLint", "eslint", eslintConfigNames, "--fix"⟩

/-- The configuration of a tool: the one asked for, or else one with a usual name. -/
def resolveConfig (host : Host) (fs : Files) (directory : Path) (kind : ToolKind)
    (wanted : Option Path) : Except FileError (List LogRecord × Option Path) := do
  match wanted with
  | none => return ([], ← findConfig? fs host.cwd directory kind.configNames)
  | some wanted =>
    let path ← fs.resolve host.cwd wanted
    if ← fs.checkFile host.cwd path then return ([], some path)
    let note := s!"Failed to load {kind.title} config: {path.text} does not exist"
    return ([⟨.warning, logger, note⟩], none)

/-- The command of a tool that is installed and configured. -/
def loadTool (host : Host) (fs : Files) (directory : Path) (kind : ToolKind)
    (wanted : Option Path) : Except FileError (List LogRecord × Option (List String)) := do
  let program ← findTool? host fs directory kind.program
  let (notes, config) ← resolveConfig host fs directory kind wanted
  match program, config with
  | some program, some config =>
    return (notes, some [program.text, "--config", config.text, kind.writeOption])
  | none, some config =>
    return (notes ++ [⟨.warning, logger,
      s!"{kind.title} config {config.text} found but {kind.program} is not installed"⟩], none)
  | _, none => return (notes, none)

/-- The tools that are there, and what was logged up to the end or the first fault. -/
def load (host : Host) (fs : Files) (directory : Path) (prettierConfig eslintConfig : Option Path) :
    List LogRecord × Except FileError Tools :=
  match loadTool host fs directory prettierKind prettierConfig with
  | .error error => ([], .error error)
  | .ok (first, prettier) =>
    match loadTool host fs directory eslintKind eslintConfig with
    | .error error => (first, .error error)
    | .ok (second, eslint) => (first ++ second, .ok ⟨prettier, eslint, some directory⟩)

/-- The text a tool wrote, if it is text. -/
def outputText (bytes : List UInt8) : Except Fault (List Char) :=
  match decodeUtf8 bytes with
  | .ok text => .ok (unifyNewlines text)
  | .error error => .error (.encoding error)

/-- Runs a tool on a file. An exit code that is not in `accepted` is a fault. -/
def runTool (launch : Launcher) (command : List String) (path directory : Path)
    (accepted : List Int) (fs : Files) : Files × Except Fault Unit :=
  let program := command.headD ""
  match launch (command ++ [path.text]) directory fs with
  | .refused error =>
    (fs, .error (if error.isRefusal then .tool (program ++ ": " ++ error.message)
      else .file error))
  | .finished fs code output errors =>
    (fs, do
      let output ← outputText output
      let errors ← outputText errors
      if accepted.contains code then return ()
      let detail := trim (if errors.isEmpty then output else errors)
      throw (.tool
        s!"{(Path.ofString program).name} exited with {code}: {String.ofList detail}"))

/-- A command without words is none. -/
def command? (words : Option (List String)) : Option (List String) :=
  words.filter (!·.isEmpty)

/-- Runs prettier, then eslint, then prettier again if eslint changed the file. Problems that
eslint only reports are no failure. -/
def format (launch : Launcher) (host : Host) (tools : Tools) (path : Path) (fs : Files) :
    Files × Except Fault Unit :=
  let directory := tools.directory.getD (.absolute host.cwd)
  let first : Files × Except Fault Unit :=
    match command? tools.prettier with
    | some command => runTool launch command path directory [0] fs
    | none => (fs, .ok ())
  match first, command? tools.eslint with
  | (fs, .error fault), _ => (fs, .error fault)
  | (fs, .ok ()), none => (fs, .ok ())
  | (fs, .ok ()), some eslint =>
    match fs.readText host.cwd path with
    | .error fault => (fs, .error (.ofRead fault))
    | .ok before =>
      match runTool launch eslint path directory [0, 1] fs, command? tools.prettier with
      | (fs, .error fault), _ => (fs, .error fault)
      | (fs, .ok ()), none => (fs, .ok ())
      | (fs, .ok ()), some prettier =>
        match fs.readText host.cwd path with
        | .error fault => (fs, .error (.ofRead fault))
        | .ok after =>
          if after = before then (fs, .ok ())
          else runTool launch prettier path directory [0] fs

end ThemeSheet.Format
