import ThemeSheet.Text.Hex
import ThemeSheet.Text.Printable

namespace ThemeSheet.Text

/-- The delimiter a quoted text is shown in: single quotes unless only those occur in it. -/
def quotedDelimiter (text : List Char) : Char :=
  if text.contains '\'' && !text.contains '"' then '"' else '\''

def quotedChar (delimiter c : Char) : List Char :=
  if c == delimiter || c == '\\' then ['\\', c]
  else if c == '\n' then ['\\', 'n']
  else if c == '\r' then ['\\', 'r']
  else if c == '\t' then ['\\', 't']
  else if isPrintable c then [c]
  else if c.toNat < 0x100 then '\\' :: 'x' :: hexDigits 2 c.toNat
  else if c.toNat < 0x10000 then '\\' :: 'u' :: hexDigits 4 c.toNat
  else '\\' :: 'U' :: hexDigits 8 c.toNat

/-- A text as messages show it: quoted, on one line, with unprintable characters escaped. -/
def quotedChars (text : List Char) : List Char :=
  let delimiter := quotedDelimiter text
  delimiter :: text.flatMap (quotedChar delimiter) ++ [delimiter]

def quoted (text : String) : String :=
  String.ofList (quotedChars text.toList)

end ThemeSheet.Text
