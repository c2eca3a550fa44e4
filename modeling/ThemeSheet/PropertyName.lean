import ThemeSheet.Text.Lowercase

namespace ThemeSheet.PropertyName

open Text

/-- Puts a hyphen before each ASCII capital that follows anything but a hyphen. Nothing precedes
the first character. -/
def hyphenate : (before : Option Char) → List Char → List Char
  | _, [] => []
  | before, c :: rest =>
    if c.isUpper && before.any (· != '-') then '-' :: c :: hyphenate (some c) rest
    else c :: hyphenate (some c) rest

/-- `backgroundColor` becomes `background-color`. -/
def kebab (name : List Char) : List Char :=
  lower (hyphenate none name)

def kebabCase (name : String) : String :=
  String.ofList (kebab name.toList)

/-- The custom property of a key, in a namespace that may be empty. -/
def ofKey (key space : String) : String :=
  if space.isEmpty then "--" ++ kebabCase key else "--" ++ space ++ "-" ++ kebabCase key

end ThemeSheet.PropertyName
