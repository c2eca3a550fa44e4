namespace ThemeSheet

/-- A path without empty and `.` parts. A relative path has no leading slash, an absolute one has
one, or exactly two where it was written so. -/
structure Path where
  slashes : Nat
  parts : List String
deriving DecidableEq, Repr, Inhabited

namespace Path

def splitSlash (text : List Char) : List (List Char) :=
  match text with
  | [] => [[]]
  | c :: rest =>
    if c = '/' then [] :: splitSlash rest
    else
      match splitSlash rest with
      | [] => [[c]]
      | part :: parts => (c :: part) :: parts

def ofString (text : String) : Path :=
  let leading := (text.toList.takeWhile (· == '/')).length
  { slashes := if leading = 0 then 0 else if leading = 2 then 2 else 1
    parts := ((splitSlash text.toList).map String.ofList).filter fun part =>
      part != "" && part != "." }

/-- The path as text; the empty relative path is `.`. -/
def text (p : Path) : String :=
  if p.slashes = 0 ∧ p.parts = [] then "."
  else String.ofList (List.replicate p.slashes '/') ++ "/".intercalate p.parts

def isAbsolute (p : Path) : Bool :=
  p.slashes != 0

/-- An absolute path stands for itself wherever it is used. -/
def join (base p : Path) : Path :=
  if p.isAbsolute then p else { base with parts := base.parts ++ p.parts }

def child (p : Path) (name : String) : Path :=
  { p with parts := p.parts ++ [name] }

/-- The path without its last part. -/
def parent (p : Path) : Path :=
  { p with parts := p.parts.dropLast }

def name (p : Path) : String :=
  p.parts.getLast?.getD ""

def absolute (parts : List String) : Path := ⟨1, parts⟩

/-- Whether a part holds the one character, besides the slash, that no name can. -/
def holdsNul (p : Path) : Bool :=
  p.parts.any fun part => part.toList.contains '\x00'

/-- One part after the others, `..` taking the last away. -/
def climb (settled : List String) (part : String) : List String :=
  if part = ".." then settled.dropLast else settled ++ [part]

/-- An absolute path with each `..` removed by the text alone. -/
def collapse (p : Path) : Path :=
  absolute (p.parts.foldl climb [])

theorem length_parent_lt {p : Path} (h : p.parts ≠ []) :
    p.parent.parts.length < p.parts.length := by
  have := List.length_pos_iff.2 h
  simp only [parent, List.length_dropLast]
  omega

end Path
end ThemeSheet
