namespace ThemeSheet.Shell

/-- The characters a bracket in a pattern stands for. -/
structure Bracket where
  negated : Bool
  ranges : List (Char × Char)
deriving DecidableEq, Repr

namespace Bracket

def holds (b : Bracket) (c : Char) : Bool :=
  (b.ranges.any fun (low, high) => low ≤ c && c ≤ high) != b.negated

/-- The ranges of a class that is known by its name. -/
def named : List Char → List (Char × Char)
  | ['d', 'i', 'g', 'i', 't'] => [('0', '9')]
  | ['a', 'l', 'p', 'h', 'a'] => [('A', 'Z'), ('a', 'z')]
  | ['a', 'l', 'n', 'u', 'm'] => [('0', '9'), ('A', 'Z'), ('a', 'z')]
  | ['u', 'p', 'p', 'e', 'r'] => [('A', 'Z')]
  | ['l', 'o', 'w', 'e', 'r'] => [('a', 'z')]
  | ['s', 'p', 'a', 'c', 'e'] => [('\t', '\r'), (' ', ' ')]
  | ['b', 'l', 'a', 'n', 'k'] => [('\t', '\t'), (' ', ' ')]
  | ['p', 'u', 'n', 'c', 't'] => [('!', '/'), (':', '@'), ('[', '\x60'), ('\x7b', '~')]
  | ['x', 'd', 'i', 'g', 'i', 't'] => [('0', '9'), ('A', 'F'), ('a', 'f')]
  | _ => []

/-- The ranges up to the closing bracket, which may itself be the first member. -/
def ranges? : (first : Bool) → (fuel : Nat) → List Char → Option (List (Char × Char) × List Char)
  | _, 0, _ => none
  | first, fuel + 1, text =>
    match text with
    | [] => none
    | '[' :: ':' :: rest =>
      let name := rest.takeWhile (· != ':')
      match rest.drop name.length with
      | ':' :: ']' :: rest =>
        (ranges? false fuel rest).map fun (more, rest) => (named name ++ more, rest)
      | _ => none
    | ']' :: rest =>
      if first then (ranges? false fuel rest).map fun (more, rest) => ((']', ']') :: more, rest)
      else some ([], rest)
    | low :: '-' :: high :: rest =>
      if high = ']' then
        (ranges? false fuel ('-' :: high :: rest)).map fun (more, rest) => ((low, low) :: more, rest)
      else (ranges? false fuel rest).map fun (more, rest) => ((low, high) :: more, rest)
    | c :: rest => (ranges? false fuel rest).map fun (more, rest) => ((c, c) :: more, rest)

/-- Reads a bracket after its opening. -/
def read? (text : List Char) : Option (Bracket × List Char) :=
  let (negated, text) := match text with
    | '^' :: rest => (true, rest)
    | '!' :: rest => (true, rest)
    | text => (false, text)
  (ranges? true (text.length + 1) text).map fun (ranges, rest) => (⟨negated, ranges⟩, rest)

end Bracket

/-- One piece of a pattern that whole words are held against. -/
inductive Glob
  | any
  | one
  | member (bracket : Bracket)
  | char (c : Char)
deriving DecidableEq, Repr

namespace Glob

/-- Reads a pattern. A backslash takes away what is special about the next character. -/
def parse : (fuel : Nat) → List Char → List Glob
  | 0, _ => []
  | _, [] => []
  | fuel + 1, '*' :: rest => any :: parse fuel rest
  | fuel + 1, '?' :: rest => one :: parse fuel rest
  | fuel + 1, '\\' :: c :: rest => char c :: parse fuel rest
  | fuel + 1, '[' :: rest =>
    match Bracket.read? rest with
    | some (bracket, rest) => member bracket :: parse fuel rest
    | none => char '[' :: parse fuel rest
  | fuel + 1, c :: rest => char c :: parse fuel rest

def ofPattern (text : List Char) : List Glob :=
  parse text.length text

def tails : List Char → List (List Char)
  | [] => [[]]
  | c :: rest => (c :: rest) :: tails rest

def accepts : List Glob → List Char → Bool
  | [], text => text.isEmpty
  | any :: globs, text => (tails text).any (accepts globs)
  | _ :: _, [] => false
  | one :: globs, _ :: rest => accepts globs rest
  | member bracket :: globs, c :: rest => bracket.holds c && accepts globs rest
  | char expected :: globs, c :: rest => c == expected && accepts globs rest

/-- The shortest or the longest front that a pattern accepts, taken away. -/
def dropFront (globs : List Glob) (longest : Bool) (text : List Char) : List Char :=
  let lengths := List.range (text.length + 1)
  let lengths := if longest then lengths.reverse else lengths
  match lengths.find? fun n => accepts globs (text.take n) with
  | some n => text.drop n
  | none => text

/-- The shortest or the longest end that a pattern accepts, taken away. -/
def dropBack (globs : List Glob) (longest : Bool) (text : List Char) : List Char :=
  let lengths := List.range (text.length + 1)
  let lengths := if longest then lengths else lengths.reverse
  match lengths.find? fun n => accepts globs (text.drop n) with
  | some n => text.take n
  | none => text

end Glob
end ThemeSheet.Shell
