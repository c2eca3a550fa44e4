import ThemeSheet.Shell.Byte

namespace ThemeSheet.Shell

open Text

def octal? (c : Char) : Option Nat :=
  if '0' ≤ c ∧ c ≤ '7' then some (c.toNat - '0'.toNat) else none

/-- The byte of up to `count` octal digits, and what follows them. -/
def spanOctal (value : Nat) : (count : Nat) → List Char → Char × List Char
  | 0, rest => (Char.ofNat (value % 256), rest)
  | count + 1, c :: rest =>
    match octal? c with
    | some digit => spanOctal (value * 8 + digit) count rest
    | none => (Char.ofNat (value % 256), c :: rest)
  | _, [] => (Char.ofNat (value % 256), [])

/-- The character that a letter after a backslash stands for. -/
def escaped? (c : Char) : Option Char :=
  match c with
  | 'n' => some '\n'
  | 't' => some '\t'
  | 'r' => some '\r'
  | 'a' => some '\x07'
  | 'b' => some '\x08'
  | 'v' => some '\x0b'
  | 'f' => some '\x0c'
  | '\\' => some '\\'
  | _ => none

/-- One escape after its backslash. In an argument, as opposed to a format, a zero before the
octal digits does not count as one of them. -/
def escape (argument : Bool) (text : List Char) : List Char × List Char :=
  match text with
  | [] => (['\\'], [])
  | c :: rest =>
    match escaped? c with
    | some escaped => ([escaped], rest)
    | none =>
      if argument ∧ c = '0' then
        let (byte, rest) := spanOctal 0 3 rest
        ([byte], rest)
      else if (octal? c).isSome then
        let (byte, rest) := spanOctal 0 3 (c :: rest)
        ([byte], rest)
      else (['\\'], c :: rest)

/-- An argument with its escapes replaced, and whether it says that nothing follows. -/
def unescape : (fuel : Nat) → List Char → List Char × Bool
  | 0, _ => ([], false)
  | _, [] => ([], false)
  | _ + 1, '\\' :: 'c' :: _ => ([], true)
  | fuel + 1, '\\' :: rest =>
    let (first, rest) := escape true rest
    let (more, stops) := unescape fuel rest
    (first ++ more, stops)
  | fuel + 1, c :: rest =>
    let (more, stops) := unescape fuel rest
    (c :: more, stops)

def unescapeText (text : List Char) : List Char × Bool :=
  unescape (text.length + 1) text

def integer? (text : List Char) : Option Int :=
  let (negative, digits) := match text with
    | '-' :: rest => (true, rest)
    | '+' :: rest => (false, rest)
    | rest => (false, rest)
  if digits.all Char.isDigit then
    (String.ofList digits).toNat?.map fun n => if negative then -n else n
  else none

/-- The flags, width and precision of a conversion. -/
structure Layout where
  left : Bool
  zeros : Bool
  plus : Bool
  width : Nat
  precision : Option Nat

def Layout.pad (layout : Layout) (text : List Char) : List Char :=
  let blanks := List.replicate (layout.width - text.length) ' '
  if layout.left then text ++ blanks else blanks ++ text

def Layout.number (layout : Layout) (base : Nat) (value : Int) : List Char :=
  let sign := if value < 0 then ['-'] else if layout.plus then ['+'] else []
  let digits := Nat.toDigits base value.natAbs
  let least := match layout.precision with
    | some precision => precision
    | none => if layout.zeros && !layout.left then layout.width - sign.length else 0
  layout.pad (sign ++ List.replicate (least - digits.length) '0' ++ digits)

/-- The flags of a conversion, after the percent sign. -/
def flags (layout : Layout) : List Char → Layout × List Char
  | '-' :: rest => flags { layout with left := true } rest
  | '0' :: rest => flags { layout with zeros := true } rest
  | '+' :: rest => flags { layout with plus := true } rest
  | ' ' :: rest => flags layout rest
  | '#' :: rest => flags layout rest
  | rest => (layout, rest)

def spanNumber (text : List Char) : Option Nat × List Char :=
  let digits := text.takeWhile Char.isDigit
  ((String.ofList digits).toNat?, text.drop digits.length)

def layout (text : List Char) : Layout × List Char :=
  let (layout, rest) := flags ⟨false, false, false, 0, none⟩ text
  let (width, rest) := spanNumber rest
  let layout := { layout with width := width.getD 0 }
  match rest with
  | '.' :: rest =>
    let (precision, rest) := spanNumber rest
    ({ layout with precision := some (precision.getD 0) }, rest)
  | rest => (layout, rest)

/-- The value that a conversion of numbers gives an argument. A quote stands before a character. -/
def numeric (argument : List Char) : Int :=
  match argument with
  | '\'' :: c :: _ => c.toNat
  | '"' :: c :: _ => c.toNat
  | text =>
    let (negative, digits) := match text with
      | '-' :: rest => (true, rest)
      | rest => (false, rest)
    let size : Nat := match digits with
      | '0' :: 'x' :: hex => ofHex hex
      | '0' :: octal => octal.foldl (fun n c => n * 8 + (octal? c).getD 0) 0
      | digits => (String.ofList digits).toNat?.getD 0
    if negative then -size else size

/-- One conversion of an argument, and whether nothing follows. -/
def convert (layout : Layout) (kind : Char) (argument : List Char) : List Char × Bool :=
  let cut (text : List Char) : List Char :=
    match layout.precision with
    | some precision => text.take precision
    | none => text
  match kind with
  | 's' => (layout.pad (cut argument), false)
  | 'c' => (layout.pad (argument.take 1), false)
  | 'b' =>
    let (text, stops) := unescapeText argument
    (layout.pad (cut text), stops)
  | 'x' => (layout.number 16 (numeric argument), false)
  | 'X' => ((layout.number 16 (numeric argument)).map Char.toUpper, false)
  | 'o' => (layout.number 8 (numeric argument), false)
  | _ => (layout.number 10 (numeric argument), false)

/-- One pass over a format: what it gives, the arguments left, and whether nothing follows. -/
def formatOnce : (fuel : Nat) → List Char → List (List Char) → List Char × List (List Char) × Bool
  | 0, _, arguments => ([], arguments, false)
  | _, [], arguments => ([], arguments, false)
  | fuel + 1, '%' :: '%' :: rest, arguments =>
    let (more, arguments, stops) := formatOnce fuel rest arguments
    ('%' :: more, arguments, stops)
  | fuel + 1, '%' :: rest, arguments =>
    let (layout, rest) := layout rest
    match rest with
    | [] => ([], arguments, true)
    | kind :: rest =>
      let (text, stops) := convert layout kind (arguments.headD [])
      if stops then (text, [], true)
      else
        let (more, arguments, stops) := formatOnce fuel rest (arguments.drop 1)
        (text ++ more, arguments, stops)
  | fuel + 1, '\\' :: rest, arguments =>
    let (text, rest) := escape false rest
    let (more, arguments, stops) := formatOnce fuel rest arguments
    (text ++ more, arguments, stops)
  | fuel + 1, c :: rest, arguments =>
    let (more, arguments, stops) := formatOnce fuel rest arguments
    (c :: more, arguments, stops)

/-- The format as often as it takes to use up the arguments. -/
def formatAll (format : List Char) : (fuel : Nat) → List (List Char) → List Char
  | 0, _ => []
  | fuel + 1, arguments =>
    let (text, rest, stops) := formatOnce (format.length + 1) format arguments
    if stops || rest.isEmpty || rest.length == arguments.length then text
    else text ++ formatAll format fuel rest

end ThemeSheet.Shell
