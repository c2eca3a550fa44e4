import ThemeSheet.CommandLine.Run

namespace ThemeSheet.Disk

open CommandLine

/-- Every path that leads to this one, outermost first. -/
def ancestry (parts : List String) : List (List String) :=
  (List.range parts.length).map fun n => parts.take (n + 1)

/-- What a link is taken for. One that leads nowhere at all, because links lead back to it, leads to
itself. -/
def linkNode? (parts : List String) : IO (Option Node) := do
  let here := Path.absolute parts
  let place := (← IO.currentDir) / here.text
  try
    let _ ← place.metadata
    return some (.link (.ofString (← IO.FS.realPath place).toString))
  catch
    | .noFileOrDirectory .. => return none
    | _ => return some (.link here)

/-- Takes what stands at one path into the files, if anything does. -/
def takeEntry (isTool : Bool) (fs : Files) (parts : List String) : IO Files := do
  let place := (← IO.currentDir) / (Path.absolute parts).text
  try
    let data ← place.symlinkMetadata
    let stamp := data.modified.sec.toNat * 1000000000 + data.modified.nsec.toNat
    let node ← match data.type with
      | .dir => pure (some (Node.directory stamp))
      | .symlink => linkNode? parts
      | .file => pure (some (Node.file (← IO.FS.readBinFile place).toList isTool stamp))
      | .other => pure none
    return match node with
      | some node => { fs with entries := fs.entries ++ [(parts, node)] }
      | none => fs
  catch _ => return fs

/-- Takes a path into the files, with the directories above it and what links on it lead to. -/
def take (isTool : Bool) (links : Nat) (fs : Files) (parts : List String) : IO Files := do
  let mut fs := fs
  for above in ancestry parts do
    if (fs.find? above).isNone then
      fs ← takeEntry (isTool && above == parts) fs above
      match links, fs.find? above with
      | links + 1, some (.link target) => fs ← take isTool links fs target.parts
      | _, _ => pure ()
  return fs
termination_by links

/-- What a command line may need: each of its words, and each value joined to a switch, seen as a
path. -/
def wordPaths (arguments : List String) : List Path :=
  arguments.flatMap fun word =>
    let value := String.ofList ((word.toList.dropWhile (· != '=')).drop 1)
    [.ofString word, .ofString value]

/-- Where the configuration of a tool is looked for. -/
def configPaths : List Path :=
  (Format.prettierConfigNames ++ Format.eslintConfigNames).map .ofString

/-- Where a tool is looked for. -/
def toolPaths (host : Format.Host) : List Path :=
  [Format.prettierKind, Format.eslintKind].flatMap fun kind =>
    (Path.ofString "node_modules/.bin").child kind.program ::
      host.searchPath.map (·.child kind.program)

def load (host : Format.Host) (arguments : List String) : IO Files := do
  let absolute (path : Path) : List String := (((Path.absolute host.cwd).join path).collapse).parts
  let mut fs := Files.empty
  for path in toolPaths host do
    fs ← take true Files.maxLinks fs (absolute path)
  for path in wordPaths arguments ++ configPaths do
    fs ← take false Files.maxLinks fs (absolute path)
  return fs

/-- Makes the disk agree with a change of the files. A file is written beside its place first. -/
def save (before after : Files) : IO Unit := do
  let here ← IO.currentDir
  for (parts, node) in after.entries do
    let place := here / (Path.absolute parts).text
    match node, before.find? parts with
    | .directory _, none => IO.FS.createDirAll place
    | .file content _ stamp, old =>
      let isOld := match old with
        | some (.file _ _ oldStamp) => stamp == oldStamp
        | _ => false
      unless isOld do
        let temporary := here / ((Path.absolute parts).text ++ ".tmp")
        IO.FS.writeBinFile temporary ⟨content.toArray⟩
        IO.FS.rename temporary place
    | _, _ => pure ()
  for (parts, node) in before.entries do
    match node, after.find? parts with
    | .file .., none => IO.FS.removeFile (here / (Path.absolute parts).text)
    | _, _ => pure ()

def print (chunks : List Chunk) : IO Unit := do
  for chunk in chunks do
    match chunk.stream with
    | .out =>
      IO.print chunk.text
      (← IO.getStdout).flush
    | .err => IO.eprint chunk.text

/-- Looks at the disk every half second until the program is interrupted. -/
partial def watch (arguments : List String) (w : Watching) : IO Unit := do
  IO.sleep 500
  let fs ← load w.setting.host arguments
  let (w, chunks) := w.step fun _ => fs
  save fs w.engine.files
  print chunks
  watch arguments w

end ThemeSheet.Disk

open ThemeSheet in
def main (arguments : List String) : IO UInt32 := do
  let directory := Path.ofString (← IO.currentDir).toString
  let searchPath := ((← IO.getEnv "PATH").getD "").splitOn ":"
  let host : Format.Host := ⟨directory.parts, searchPath.map .ofString⟩
  let fs ← Disk.load host arguments
  match CommandLine.start host host.launch fs arguments with
  | .ended result =>
    Disk.save fs result.files
    Disk.print result.chunks
    for fault in result.breakdown do
      IO.eprintln fault.message
    return UInt32.ofNat result.exitCode
  | .watching w chunks =>
    Disk.save fs w.engine.files
    Disk.print chunks
    Disk.watch arguments w
    return 0
