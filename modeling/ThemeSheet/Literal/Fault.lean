import ThemeSheet.Literal.Node
import ThemeSheet.Text.Quoted

namespace ThemeSheet.Literal

open Text

/-- Why a string or number that is well formed has no value. -/
inductive ValueFault
  | noCodePoint
  | hugeCodePoint
  | hugeNumber
deriving DecidableEq, Repr

def ValueFault.message : ValueFault → String
  | noCodePoint => "chr() arg not in range(0x110000)"
  | hugeCodePoint => "Python int too large to convert to C int"
  | hugeNumber => "int too large to convert to float"

/-- What was read when the fault arose. -/
inductive Site
  | string
  | stringKey
  | number
  | numberKey
deriving DecidableEq, Repr

def Site.label : Site → String
  | string => "string"
  | stringKey => "string_key"
  | number => "number"
  | numberKey => "number_key"

inductive Fault
  | malformed (fault : SyntaxFault)
  | noValue (site : Site) (fault : ValueFault)
  | tooDeep
  /-- Every member of the literal had to be skipped. -/
  | noPrimitives (label : String)
deriving DecidableEq, Repr

def SyntaxFault.position : SyntaxFault → Position
  | badCharacter _ position => position
  | badToken _ position => position
  | unfinished position => position

def unexpected (label text : String) (p : Position) : String :=
  s!"Unexpected token Token('{label}', {text}) at line {p.line}, column {p.column}."

def SyntaxFault.message : SyntaxFault → String
  | badCharacter c p =>
    s!"No terminal matches '{c}' in the current parser context, at line {p.line} col {p.column}"
  | badToken token p => unexpected token.label (String.ofList (quotedChars token.text)) p
  | unfinished p => unexpected "$END" "''" p

def Fault.message : Fault → String
  | malformed fault => fault.message
  | noValue site fault => s!"Error trying to process rule \"{site.label}\":\n\n{fault.message}"
  | tooDeep => "Literal is nested too deeply"
  | noPrimitives label => s!"{label} contains no primitive members"

def Fault.position? : Fault → Option Position
  | malformed fault => some fault.position
  | _ => none

end ThemeSheet.Literal
