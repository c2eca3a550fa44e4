import ThemeSheet.Files.AtomicWrite

namespace ThemeSheet

open Text

/-- What a system does to a write of its own accord: it refuses a directory, the temporary file, some
of its bytes or the last move. `sizes` are those at which the temporary file can be seen while it
grows. That a file in a directory that let it be made can be taken away again is never refused. -/
structure Refusals where
  directory : Files → Path → Option Errno
  creation : Option Errno
  sizes : List Nat
  writing : Option Errno
  move : Option Errno

/-- The system that lets everything happen, and shows no file that is only partly written. -/
def Refusals.none : Refusals :=
  { directory := fun _ _ => .none, creation := .none, sizes := [], writing := .none, move := .none }

/-- Why a text is not written. -/
inductive WriteFault
  | file (error : FileError)
  /-- The system takes no more bytes. -/
  | cut (errno : Errno)
  | encoding (error : EncodeError)
deriving DecidableEq, Repr

namespace WriteFault

def message : WriteFault → String
  | file error => error.message
  | cut errno => s!"[Errno {errno.code}] {errno.text}"
  | encoding error => error.message

/-- Refusals by the system, and values that no file or no byte can have. -/
def isExpected : WriteFault → Bool
  | file (.linkLoop _) => false
  | _ => true

end WriteFault

/-- What the caller of a write that fails is told. -/
inductive WriteError
  | output (path : Path) (fault : WriteFault)
  /-- A fault that nobody expects, as it is. -/
  | escaped (fault : WriteFault)
deriving DecidableEq, Repr

def WriteError.message : WriteError → String
  | output path fault => s!"Cannot write {path.text}: {fault.message}"
  | escaped fault => fault.message

namespace Files

/-- What a write leaves where more can go wrong: the states the files went through, last first, and
why it failed if it did. -/
structure Attempt where
  states : List Files
  fault : Option WriteFault

namespace Attempt

def files (attempt : Attempt) (before : Files) : Files :=
  attempt.states.head?.getD before

def error (attempt : Attempt) (path : Path) : Option WriteError :=
  attempt.fault.map fun fault => if fault.isExpected then .output path fault else .escaped fault

end Attempt

/-- Makes one directory, unless the system refuses. -/
def tryDirectory (refusals : Refusals) (fs : Files) (cwd : List String) (path : Path) :
    Except Errno Files :=
  match refusals.directory fs path with
  | some errno => .error errno
  | none => fs.makeDirectory cwd path

/-- Makes a directory with those above it that are missing, as far as the system lets it. -/
def prepare (refusals : Refusals) (fs : Files) (cwd : List String) (path : Path) : Run :=
  if path.holdsNul then ⟨[], some .nulInPath⟩
  else
    match fs.tryDirectory refusals cwd path with
    | .ok made => ⟨[made], none⟩
    | .error .noEntry =>
      if h : path.parts = [] then ⟨[], some (.refused .noEntry path.text none)⟩
      else
        have := Path.length_parent_lt h
        let above := prepare refusals fs cwd path.parent
        match above.error with
        | some error => ⟨above.states, some error⟩
        | none =>
          match (above.files fs).tryDirectory refusals cwd path with
          | .ok made => ⟨made :: above.states, none⟩
          | .error errno =>
            if errno ≠ .noEntry ∧ (above.files fs).isDirectory cwd path then above
            else ⟨above.states, some (.refused errno path.text none)⟩
    | .error errno =>
      if fs.isDirectory cwd path then ⟨[], none⟩ else ⟨[], some (.refused errno path.text none)⟩
termination_by path.parts.length

/-- Makes the temporary file, empty, and tells its place. -/
def createTemporary (refusals : Refusals) (fs : Files) (cwd : List String) (temporary : Path) :
    Except FileError (List String × Files) :=
  if temporary.holdsNul then .error .nulInPath
  else
    match refusals.creation, fs.place false cwd temporary with
    | some errno, _ => .error (.refused errno temporary.text none)
    | none, .error errno => .error (.refused errno temporary.text none)
    | none, .ok place => .ok (place.parts, fs.put place.parts (.file [] false fs.freshStamp))

/-- The file at a place with the first bytes of what it is to hold, at one size after the other. The
states are added to those there are, last first. -/
def grow (before : Files) (place : List String) (bytes : List UInt8) (states : List Files) :
    List Nat → List Files
  | [] => states
  | size :: sizes =>
    let fs := states.head?.getD before
    grow before place bytes
      (fs.put place (.file (bytes.take size) false fs.freshStamp) :: states) sizes

/-- Writes the text to the temporary file. All of it is encoded before the first byte is written. -/
def fill (refusals : Refusals) (created : Files) (place : List String) (text : List CodePoint) :
    Attempt :=
  match encodePoints text with
  | .error error => ⟨[], some (.encoding error)⟩
  | .ok bytes =>
    let states := created.grow place bytes [] refusals.sizes
    match refusals.writing with
    | some errno => ⟨states, some (.cut errno)⟩
    | none =>
      let fs := states.head?.getD created
      ⟨fs.put place (.file bytes false fs.freshStamp) :: states, none⟩

/-- Moves the temporary file to its path, unless the system refuses. -/
def tryReplace (refusals : Refusals) (fs : Files) (cwd : List String) (temporary path : Path) :
    Except Errno Files :=
  match refusals.move with
  | some errno => .error errno
  | none => fs.replace cwd temporary path

/-- Writes a text as `writeAtomic` does, where the text need not be one that has bytes and the system
may refuse each step. Whatever goes wrong once the temporary file is there, it is taken away. -/
def save (refusals : Refusals) (fs : Files) (cwd : List String) (path : Path)
    (text : List CodePoint) : Attempt :=
  let made := fs.prepare refusals cwd path.parent
  match made.error with
  | some error => ⟨made.states, some (.file error)⟩
  | none =>
    let fs := made.files fs
    let temporary := fs.temporaryPath cwd path
    match fs.createTemporary refusals cwd temporary with
    | .error error => ⟨made.states, some (.file error)⟩
    | .ok (place, created) =>
      let filling := created.fill refusals place text
      let filled := filling.files created
      let states := filling.states ++ created :: made.states
      match filling.fault with
      | some fault => ⟨filled.eraseTree place :: states, some fault⟩
      | none =>
        match filled.tryReplace refusals cwd temporary path with
        | .ok replaced => ⟨replaced :: states, none⟩
        | .error errno =>
          ⟨filled.eraseTree place :: states,
            some (.file (.refused errno temporary.text (some path.text)))⟩

end Files
end ThemeSheet
