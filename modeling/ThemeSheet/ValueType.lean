import ThemeSheet.Number.Literal
import ThemeSheet.Text.Lowercase
import ThemeSheet.Text.Space

namespace ThemeSheet

open Text

/-- The kinds of value a custom property may be declared to hold. -/
inductive ValueType
  | color
  | length
  | percentage
  | time
  | angle
  | integer
  | number
  | any
deriving DecidableEq, Repr

namespace ValueType

/-- The descriptor a declaration writes. -/
def text : ValueType → String
  | color => "<color>"
  | length => "<length>"
  | percentage => "<percentage>"
  | time => "<time>"
  | angle => "<angle>"
  | integer => "<integer>"
  | number => "<number>"
  | any => "*"

/-- Letters that differ only in case fold to the same one. The long s, the Kelvin sign and the
Turkish letters i fold to ASCII. -/
def foldCase (c : Char) : Char :=
  if c = 'ſ' then 's'
  else if c = '\u212A' then 'k'
  else if c = 'İ' ∨ c = 'ı' then 'i'
  else c.toLower

def namedColors : List String :=
  ["transparent", "currentcolor", "black", "white", "red", "green", "blue", "yellow", "orange",
    "purple", "pink", "gray", "grey", "silver", "maroon", "olive", "lime", "aqua", "teal", "navy",
    "fuchsia", "cyan", "magenta"]

def colorFunctions : List String :=
  ["rgb", "rgba", "hsl", "hsla", "hwb", "lab", "lch", "oklab", "oklch", "color"]

def lengthUnits : List String :=
  ["px", "em", "rem", "ex", "ch", "vw", "vh", "vmin", "vmax", "svh", "lvh", "dvh", "svw", "lvw",
    "dvw", "cm", "mm", "q", "in", "pt", "pc", "lh", "rlh"]

def timeUnits : List String := ["ms", "s"]

def angleUnits : List String := ["deg", "grad", "rad", "turn"]

def isNamedColor (text : List Char) : Bool :=
  namedColors.any (·.toList == lower text)

/-- A hash sign and 3, 4, 6 or 8 hexadecimal digits. -/
def isHexColor : List Char → Bool
  | '#' :: digits => digits.all isHex && [3, 4, 6, 8].contains digits.length
  | _ => false

/-- A color function and its arguments, on one line. -/
def isColorFunction (text : List Char) : Bool :=
  let name := text.takeWhile (· != '(')
  let arguments := text.drop (name.length + 1)
  colorFunctions.any (·.toList == name.map foldCase) && arguments.getLast? == some ')' &&
    !arguments.contains '\n'

/-- What follows the decimal number at the front. -/
def afterNumber? (text : List Char) : Option (List Char) :=
  (NumberLiteral.scanDecimal? text).map (·.2)

def hasUnit (units : List String) (text : List Char) : Bool :=
  (afterNumber? text).any fun unit => units.any (·.toList == unit.map foldCase)

def isPercentage (text : List Char) : Bool :=
  afterNumber? text == some ['%']

def isInteger (text : List Char) : Bool :=
  let digits := (NumberLiteral.sign text).2
  !digits.isEmpty && digits.all isDecimal

def isNumber (text : List Char) : Bool :=
  afterNumber? text == some []

/-- The rules, in the order they are tried. -/
def rules : List ((List Char → Bool) × ValueType) :=
  [(isNamedColor, color), (isHexColor, color), (isColorFunction, color),
    (hasUnit lengthUnits, length), (isPercentage, percentage), (hasUnit timeUnits, time),
    (hasUnit angleUnits, angle), (isInteger, integer), (isNumber, number)]

/-- The type of a value, by its text without the space around it. -/
def guess (value : String) : ValueType :=
  let text := trim value.toList
  ((rules.find? fun (holds, _) => holds text).map (·.2)).getD any

end ValueType
end ThemeSheet
