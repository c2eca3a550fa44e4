import ThemeSheet.Files.Tree

namespace ThemeSheet.Files

/-- What a write leaves: the states the files went through, last first, and why it failed if it
did. -/
structure Run where
  states : List Files
  error : Option FileError

/-- The files at the end. -/
def Run.files (run : Run) (before : Files) : Files :=
  run.states.head?.getD before

/-- Makes a directory with those above it that are missing. One that exists will do. -/
def makeDirectories (fs : Files) (cwd : List String) (path : Path) : Run :=
  if path.holdsNul then ⟨[], some .nulInPath⟩
  else
    match fs.makeDirectory cwd path with
    | .ok made => ⟨[made], none⟩
    | .error .noEntry =>
      if h : path.parts = [] then ⟨[], some (.refused .noEntry path.text none)⟩
      else
        have := Path.length_parent_lt h
        let above := makeDirectories fs cwd path.parent
        match above.error with
        | some error => ⟨above.states, some error⟩
        | none =>
          match (above.files fs).makeDirectory cwd path with
          | .ok made => ⟨made :: above.states, none⟩
          | .error errno =>
            if errno ≠ .noEntry ∧ (above.files fs).isDirectory cwd path then above
            else ⟨above.states, some (.refused errno path.text none)⟩
    | .error errno =>
      if fs.isDirectory cwd path then ⟨[], none⟩ else ⟨[], some (.refused errno path.text none)⟩
termination_by path.parts.length

/-- Stands for the part of a temporary name that differs each time. The first attempt is as good as
any other until its name is taken. -/
def randomPart (attempt : Nat) : String :=
  "<RANDOM>" ++ String.ofList (List.replicate attempt '_')

/-- Hidden, and told apart from the file's own name. -/
def temporaryName (path : Path) (attempt : Nat) : String :=
  "." ++ path.name ++ "." ++ randomPart attempt ++ ".tmp"

def isFreeName (fs : Files) (name : String) : Bool :=
  fs.entries.all fun entry => entry.1.getLast? != some name

/-- The first attempt whose name no file has. There are more attempts than files. -/
def freeAttempt (fs : Files) (path : Path) : Nat :=
  ((List.range (fs.entries.length + 1)).find? fun attempt =>
    fs.isFreeName (temporaryName path attempt)).getD 0

/-- Beside the file, where nothing is yet. -/
def temporaryPath (fs : Files) (cwd : List String) (path : Path) : Path :=
  (((Path.absolute cwd).join path.parent).collapse).child
    (temporaryName path (fs.freeAttempt path))

/-- Moves a file over whatever is not a directory. -/
def replace (fs : Files) (cwd : List String) (source path : Path) : Except Errno Files :=
  if path.parts = [] ∨ path.name = ".." then .error .busy
  else
    match fs.place false cwd source, fs.place false cwd path with
    | .error errno, _ => .error errno
    | _, .error errno => .error errno
    | .ok here, .ok there =>
      match here.node, there.node with
      | none, _ => .error .noEntry
      | _, some (.directory _) => .error .isDirectory
      | some node, _ => .ok ((fs.eraseTree here.parts).put there.parts node)

/-- Writes a file so that no reader sees it half written: the text goes to a temporary file beside
it, which then takes its place. On failure the temporary file is gone and the old one is as it
was. -/
def writeAtomic (fs : Files) (cwd : List String) (path : Path) (text : String) : Run :=
  let made := fs.makeDirectories cwd path.parent
  match made.error with
  | some error => ⟨made.states, some error⟩
  | none =>
    let fs := made.files fs
    let temporary := fs.temporaryPath cwd path
    if temporary.holdsNul then ⟨made.states, some .nulInPath⟩
    else
      match fs.place false cwd temporary with
      | .error errno => ⟨made.states, some (.refused errno temporary.text none)⟩
      | .ok place =>
        let created := fs.put place.parts (.file [] false fs.freshStamp)
        let filled := created.put place.parts
          (.file (Text.encodeUtf8 text.toList) false created.freshStamp)
        match filled.replace cwd temporary path with
        | .ok replaced => ⟨replaced :: filled :: created :: made.states, none⟩
        | .error errno =>
          ⟨filled.eraseTree place.parts :: filled :: created :: made.states,
            some (.refused errno temporary.text (some path.text))⟩

end ThemeSheet.Files
