import ThemeSheet.Files.Path
import ThemeSheet.Text.Quoted
import ThemeSheet.Text.Utf8

namespace ThemeSheet

open Text

inductive Errno
  | noEntry
  | notExecutable
  | denied
  | busy
  | occupied
  | notDirectory
  | isDirectory
  | nameTooLong
  | tooManyLinks
  /-- One that no file gives rise to by itself: a full disk, a file system that is only read. -/
  | other (code : Nat) (text : String)
deriving DecidableEq, Repr

namespace Errno

def code : Errno → Nat
  | noEntry => 2
  | notExecutable => 8
  | denied => 13
  | busy => 16
  | occupied => 17
  | notDirectory => 20
  | isDirectory => 21
  | nameTooLong => 36
  | tooManyLinks => 40
  | other code _ => code

def text : Errno → String
  | noEntry => "No such file or directory"
  | notExecutable => "Exec format error"
  | denied => "Permission denied"
  | busy => "Device or resource busy"
  | occupied => "File exists"
  | notDirectory => "Not a directory"
  | isDirectory => "Is a directory"
  | nameTooLong => "File name too long"
  | tooManyLinks => "Too many levels of symbolic links"
  | other _ text => text

end Errno

/-- Why a path could not be used. -/
inductive FileError
  /-- The system refuses, at the path as it was given and, for a move, with where it was to go. -/
  | refused (errno : Errno) (path : String) (target : Option String)
  /-- Links on the way lead back to themselves. -/
  | linkLoop (path : String)
  /-- The path is one that no file can have. -/
  | nulInPath
deriving DecidableEq, Repr

namespace FileError

def message : FileError → String
  | refused errno path target =>
    let move := match target with
      | some target => " -> " ++ quoted target
      | none => ""
    s!"[Errno {errno.code}] {errno.text}: " ++ quoted path ++ move
  | linkLoop path => "Symlink loop from " ++ quoted path
  | nulInPath => "embedded null byte"

def isRefusal : FileError → Bool
  | refused .. => true
  | linkLoop _ => false
  | nulInPath => false

end FileError

/-- The time a file was last changed; only equality matters. -/
abbrev Stamp := Nat

inductive Node
  | file (content : List UInt8) (executable : Bool) (stamp : Stamp)
  | directory (stamp : Stamp)
  | link (target : Path)
deriving DecidableEq, Repr

/-- Every file below the root, by the parts of its path. The root itself is always a directory.
`ticks` counts the changes, so that each can have a stamp of its own. -/
structure Files where
  entries : List (List String × Node)
  ticks : Nat
deriving DecidableEq, Repr, Inhabited

namespace Files

def empty : Files := ⟨[], 0⟩

def find? (fs : Files) (parts : List String) : Option Node :=
  if parts = [] then some (.directory 0)
  else (fs.entries.find? fun entry => entry.1 == parts).map (·.2)

/-- Stamps of changes lie apart from whole seconds. -/
def freshStamp (fs : Files) : Stamp :=
  1700000000000000001 + fs.ticks

def touch (fs : Files) (parts : List String) : Files :=
  { entries := fs.entries.map fun (path, node) =>
      if path == parts then
        (path, match node with | .directory _ => .directory fs.freshStamp | node => node)
      else (path, node)
    ticks := fs.ticks + 1 }

def erase (fs : Files) (parts : List String) : Files :=
  { fs with entries := fs.entries.filter fun entry => entry.1 != parts }

/-- Puts a node in place of what stands there, and marks the directory as changed. -/
def put (fs : Files) (parts : List String) (node : Node) : Files :=
  let fs := fs.erase parts
  { fs with entries := fs.entries ++ [(parts, node)] }.touch parts.dropLast

/-- Removes a file, a link or a whole tree. -/
def eraseTree (fs : Files) (parts : List String) : Files :=
  { fs with entries := fs.entries.filter fun entry => !parts.isPrefixOf entry.1 }.touch
    parts.dropLast

/-- A place a path leads to, and what is there. -/
structure Place where
  parts : List String
  node : Option Node

def maxName : Nat := 255

/-- The least size of a path that is too long as a whole. -/
def maxPath : Nat := 4096

/-- Links that may be followed on one way. -/
def maxLinks : Nat := 40

/-- Walks from a directory. Only the last part may be missing; a link there is followed if `follow`
says so. -/
def walk (fs : Files) (follow : Bool) (links : Nat) (here : List String) (parts : List String) :
    Except Errno Place :=
  match parts with
  | [] => .ok ⟨here, fs.find? here⟩
  | ".." :: rest => walk fs follow links here.dropLast rest
  | part :: rest =>
    if maxName < part.utf8ByteSize then .error .nameTooLong
    else
      let there := here ++ [part]
      match fs.find? there with
      | none => if rest = [] then .ok ⟨there, none⟩ else .error .noEntry
      | some (.link target) =>
        if rest = [] ∧ follow = false then .ok ⟨there, some (.link target)⟩
        else
          match links with
          | 0 => .error .tooManyLinks
          | links + 1 =>
            walk fs follow links (if target.isAbsolute then [] else here) (target.parts ++ rest)
      | some (.directory _) => walk fs follow links there rest
      | some (.file content executable stamp) =>
        if rest = [] then .ok ⟨there, some (.file content executable stamp)⟩
        else .error .notDirectory
termination_by (links, parts.length)

/-- Where a path leads from the working directory. -/
def place (fs : Files) (follow : Bool) (cwd : List String) (path : Path) : Except Errno Place :=
  if maxPath ≤ path.text.utf8ByteSize then .error .nameTooLong
  else walk fs follow maxLinks (if path.isAbsolute then [] else cwd) path.parts

/-- A place on a way, and whether the way there was told from the root. -/
structure Spot where
  fromRoot : Bool
  parts : List String
deriving DecidableEq, Repr

namespace Spot

def above (spot : Spot) : Spot :=
  { spot with parts := spot.parts.dropLast }

def child (spot : Spot) (name : String) : Spot :=
  { spot with parts := spot.parts ++ [name] }

/-- Where a path starts that is met at a spot. -/
def startOf (spot : Spot) (path : Path) : Spot :=
  if path.isAbsolute then ⟨true, []⟩ else spot

end Spot

/-- Follows every link on a way and takes as it is written what does not exist. A link that is met
again while it is followed, which is one that is not in `free`, ends the way: the error is the place
of that link with all that was still to come. -/
def settle (fs : Files) (free : List Spot) (here : Spot) (parts : List String) :
    Except (List String) Spot :=
  match parts with
  | [] => .ok here
  | ".." :: rest => settle fs free here.above rest
  | part :: rest =>
    let there := here.child part
    match fs.find? there.parts with
    | some (.link target) =>
      if _h : there ∈ free then
        match settle fs (free.erase there) (here.startOf target) target.parts with
        | .error stuck => .error (stuck ++ rest)
        | .ok reached => settle fs free reached rest
      else .error (there.parts ++ rest)
    | _ => settle fs free there rest
termination_by (free.length, parts.length)
decreasing_by
  · exact Prod.Lex.right _ (Nat.lt_succ_self _)
  · exact Prod.Lex.left _ _ (List.length_erase_of_mem _h ▸
      Nat.sub_lt (List.length_pos_of_mem _h) Nat.one_pos)
  · exact Prod.Lex.right _ (Nat.lt_succ_self _)
  · exact Prod.Lex.right _ (Nat.lt_succ_self _)

/-- Every link, as ways that are told from the root and ways that are not may meet it. -/
def linkSpots (fs : Files) : List Spot :=
  fs.entries.flatMap fun (parts, node) =>
    match node with
    | .link _ => [⟨true, parts⟩, ⟨false, parts⟩]
    | _ => []

/-- The absolute path without links and `..`. Nothing need exist there. Where links end the way, what
is left of it is taken as it is written, which is a fault if the system cannot follow that either. -/
def resolve (fs : Files) (cwd : List String) (path : Path) : Except FileError Path :=
  if path.holdsNul then .error .nulInPath
  else
    let start := (Spot.mk false cwd).startOf path
    let settled : Path := match settle fs fs.linkSpots start path.parts with
      | .ok spot => .absolute spot.parts
      | .error stuck => (Path.absolute stuck).collapse
    match fs.place true [] settled with
    | .error .tooManyLinks => .error (.linkLoop settled.text)
    | _ => .ok settled

def node? (fs : Files) (cwd : List String) (path : Path) : Option Node :=
  match fs.place true cwd path with
  | .ok place => place.node
  | .error _ => none

def isFile (fs : Files) (cwd : List String) (path : Path) : Bool :=
  match fs.node? cwd path with
  | some (.file ..) => true
  | _ => false

def isDirectory (fs : Files) (cwd : List String) (path : Path) : Bool :=
  match fs.node? cwd path with
  | some (.directory _) => true
  | _ => false

def isExecutable (fs : Files) (cwd : List String) (path : Path) : Bool :=
  match fs.node? cwd path with
  | some (.file _ executable _) => executable
  | _ => false

/-- Whether a path leads to a file. That nothing is there is an answer, and so is a way that leads
nowhere; a name that is too long is not. -/
def checkFile (fs : Files) (cwd : List String) (path : Path) : Except FileError Bool :=
  if path.holdsNul then .ok false
  else
    match fs.place true cwd path with
    | .error .nameTooLong => .error (.refused .nameTooLong path.text none)
    | _ => .ok (fs.isFile cwd path)

def content (fs : Files) (cwd : List String) (path : Path) : Except Errno (List UInt8) :=
  match fs.place true cwd path with
  | .error errno => .error errno
  | .ok place =>
    match place.node with
    | some (.file content ..) => .ok content
    | some _ => .error .isDirectory
    | none => .error .noEntry

def read (fs : Files) (cwd : List String) (path : Path) : Except FileError (List UInt8) :=
  if path.holdsNul then .error .nulInPath
  else (fs.content cwd path).mapError fun errno => .refused errno path.text none

/-- Makes one directory, in one that exists. -/
def makeDirectory (fs : Files) (cwd : List String) (path : Path) : Except Errno Files :=
  match fs.place false cwd path with
  | .error errno => .error errno
  | .ok place =>
    match place.node with
    | some _ => .error .occupied
    | none => .ok (fs.put place.parts (.directory fs.freshStamp))

/-- Why a file's text cannot be had. -/
inductive ReadFault
  | file (error : FileError)
  | encoding (error : Utf8Error)
deriving DecidableEq, Repr

def ReadFault.message : ReadFault → String
  | file error => error.message
  | encoding error => error.message

/-- The text of a UTF-8 file, every line end as a line feed. -/
def readText (fs : Files) (cwd : List String) (path : Path) : Except ReadFault String :=
  match fs.read cwd path with
  | .error error => .error (.file error)
  | .ok bytes =>
    match decodeUtf8 bytes with
    | .error error => .error (.encoding error)
    | .ok text => .ok (String.ofList (unifyNewlines text))

/-- The stamp and size by which a change is noticed. -/
def snapshot? (fs : Files) (cwd : List String) (path : Path) : Option (Stamp × Nat) :=
  match fs.node? cwd path with
  | some (.file content _ stamp) => some (stamp, content.length)
  | some (.directory stamp) => some (stamp, 4096)
  | _ => none

end Files
end ThemeSheet
