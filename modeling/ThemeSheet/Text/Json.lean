import ThemeSheet.Text.Hex
import ThemeSheet.Text.Utf16

namespace ThemeSheet.Text

def jsonUnit (n : Nat) : List Char :=
  '\\' :: 'u' :: hexDigits 4 n

def jsonChar (c : Char) : List Char :=
  if c == '"' || c == '\\' then ['\\', c]
  else if c == '\n' then ['\\', 'n']
  else if c == '\r' then ['\\', 'r']
  else if c == '\t' then ['\\', 't']
  else if c == '\x08' then ['\\', 'b']
  else if c == '\x0c' then ['\\', 'f']
  else if 32 ≤ c.toNat && c.toNat < 127 then [c]
  else (utf16Units c).flatMap jsonUnit

/-- A JSON string that holds only printable ASCII. Other characters are written as UTF-16
escapes. -/
def jsonChars (text : List Char) : List Char :=
  '"' :: text.flatMap jsonChar ++ ['"']

def json (text : String) : String :=
  String.ofList (jsonChars text.toList)

end ThemeSheet.Text
