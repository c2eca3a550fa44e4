import ThemeSheet.Text.Word

namespace ThemeSheet

open Text

def isIdentifierPart (c : Char) : Bool :=
  c.isAlphanum || c == '_' || c == '$'

/-- ASCII binding names. One line feed after the name is let pass. -/
def isIdentifier (name : String) : Bool :=
  match name.toList with
  | [] => false
  | c :: rest => isNameStart c && (rest.dropWhile isIdentifierPart == [] ||
      rest.dropWhile isIdentifierPart == ['\n'])

end ThemeSheet
