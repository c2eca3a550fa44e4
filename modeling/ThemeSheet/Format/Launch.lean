import ThemeSheet.Shell.Run

namespace ThemeSheet.Format

open Text

/-- What comes of starting a tool: a refusal, or the files, the exit code and what it wrote. -/
inductive Launch
  | refused (error : FileError)
  | finished (files : Files) (code : Int) (output errors : List UInt8)

/-- Starts a command, its arguments after it, in a directory. -/
abbrev Launcher := (command : List String) → (directory : Path) → Files → Launch

/-- Where programs are looked for. -/
structure Host where
  cwd : List String
  searchPath : List Path

/-- The first executable file of that name in the directories. -/
def Host.which? (host : Host) (fs : Files) (name : String) : Option Path :=
  (host.searchPath.map (·.child name)).find? fun path => fs.isExecutable host.cwd path

/-- The interpreter that a file names in its first line, and the argument it gives to it. -/
def interpreter? (content : List Char) : Option (List Char × Option (List Char)) :=
  match content with
  | '#' :: '!' :: rest =>
    let isBlank (c : Char) : Bool := c == ' ' || c == '\t'
    let line := (rest.takeWhile (· != '\n')).dropWhile isBlank
    let line := (line.reverse.dropWhile isBlank).reverse
    let name := line.takeWhile (!isBlank ·)
    let argument := (line.drop name.length).dropWhile isBlank
    if name.isEmpty then none else some (name, if argument.isEmpty then none else some argument)
  | _ => none

/-- The file that a command names: looked for by name, or at the path it gives. With what it holds
comes the path by which its interpreter gets it. -/
def Host.program? (host : Host) (fs : Files) (directory : List String) (name : String) :
    Except Errno (String × List UInt8) :=
  let found? :=
    if name.toList.contains '/' then some (name, Path.ofString name)
    else (host.which? fs name).map fun path => (path.text, path)
  match found? with
  | none => .error .noEntry
  | some (script, path) =>
    match fs.place true directory path with
    | .error errno => .error errno
    | .ok place =>
      match place.node with
      | none => .error .noEntry
      | some (.file content true _) => .ok (script, content)
      | some _ => .error .denied

/-- Runs the interpreter of a script. `env` looks for the one that its argument names. -/
def interpret (m : Shell.Machine) (content : List Char) (words : List (List Char)) :
    Except Errno Shell.Machine :=
  match interpreter? content with
  | none => .error .notExecutable
  | some (['/', 'u', 's', 'r', '/', 'b', 'i', 'n', '/', 'e', 'n', 'v'], some name) =>
    match m.runTool? name words with
    | some ran => .ok ran
    | none =>
      .ok ((m.write true (Shell.ofText "/usr/bin/env: ‘" ++ name ++
        Shell.ofText "’: No such file or directory\n")).done 127)
  | some (name, argument) =>
    match m.runTool? name (argument.toList ++ words) with
    | some ran => if name.contains '/' then .ok ran else .error .noEntry
    | none => .error .noEntry

/-- Starts tools. The directory is entered before the program is found. -/
def Host.launch (host : Host) : Launcher := fun command directory fs =>
  if directory.holdsNul || command.any (·.toList.contains '\x00') then .refused .nulInPath
  else
    match fs.place true host.cwd directory with
    | .error errno => .refused (.refused errno directory.text none)
    | .ok place =>
      match place.node with
      | none => .refused (.refused .noEntry directory.text none)
      | some (.directory _) =>
        let name := command.headD ""
        let words := (command.drop 1).map Shell.ofText
        let m := Shell.Machine.start fs place.parts (Shell.ofText name) []
        let ran : Except Errno Shell.Machine :=
          match host.program? fs place.parts name with
          | .ok (script, content) =>
            interpret m (Shell.charsOf content) (Shell.ofText script :: words)
          | .error errno =>
            match m.runTool? (Shell.ofText name) words with
            | some ran => .ok ran
            | none => .error errno
        match ran with
        | .error errno => .refused (.refused errno name none)
        | .ok m =>
          .finished m.files m.status (Shell.bytesOf (m.writtenTo false))
            (Shell.bytesOf (m.writtenTo true))
      | some _ => .refused (.refused .notDirectory directory.text none)

end ThemeSheet.Format
