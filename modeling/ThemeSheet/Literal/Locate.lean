import ThemeSheet.Literal.Bracket
import ThemeSheet.Text.Word

namespace ThemeSheet.Literal

open Text

/-- The texts left after one or more spaces, the shortest first. -/
def spaceTails : List Char → List (List Char)
  | [] => []
  | c :: rest => if isSpace c then spaceTails rest ++ [rest] else []

/-- What follows a keyword and the spaces after it. -/
def afterWord (word : String) (text : List Char) : List (List Char) :=
  match word.toList.isPrefixOf? text with
  | none => []
  | some rest => spaceTails rest

/-- What follows `name`, where no longer name continues. -/
def afterName? (name text : List Char) : Option (List Char) :=
  (name.isPrefixOf? text).filter fun rest => !rest.head?.any isNamePart

/-- The text from an opening brace that may follow spaces. -/
def fromBrace? (text : List Char) : Option (List Char) :=
  (some (trimLeft text)).filter fun rest => rest.head? == some '{'

/-- The text from the brace after an equals sign. -/
def fromAssigned? : List Char → Option (List Char)
  | '=' :: rest => fromBrace? rest
  | _ => none

def annotationEnd (c : Char) : Bool :=
  c == '=' || c == ';' || c == '{'

/-- The text from the brace of an initializer, after an optional type annotation. An annotation is
not empty and stops at the first equals sign, semicolon or brace. -/
def fromInitializer? (text : List Char) : Option (List Char) :=
  match trimLeft text with
  | ':' :: rest =>
    let after := rest.dropWhile (!annotationEnd ·)
    if after.length = rest.length then none else fromAssigned? after
  | rest => fromAssigned? rest

/-- `NAME = {`, with an optional annotation. -/
def binding? (name text : List Char) : Option (List Char) :=
  (afterName? name text).bind fromInitializer?

/-- `NAME: {` -/
def member? (name : List Char) (before : Option Char) (text : List Char) : Option (List Char) :=
  if before.any joinsName then none
  else (afterName? name text).bind fun rest =>
    match trimLeft rest with
    | ':' :: rest => fromBrace? rest
    | _ => none

/-- `export const NAME = {` -/
def exportConst? (name : List Char) (_ : Option Char) (text : List Char) : Option (List Char) :=
  (afterWord "export" text).findSome? fun rest =>
    (afterWord "const" rest).findSome? (binding? name)

/-- `const NAME = {`, and with `let` or `var`. -/
def declaration? (name : List Char) (before : Option Char) (text : List Char) :
    Option (List Char) :=
  if before.any joinsName then none
  else (["const", "let", "var"].flatMap (afterWord · text)).findSome? (binding? name)

/-- `export {` and `export default {` -/
def exportObject? (text : List Char) : Option (List Char) :=
  match "export".toList.isPrefixOf? text with
  | none => none
  | some rest =>
    let spaced := trimLeft rest
    let afterDefault :=
      if spaced.length = rest.length then none
      else (afterWord "default" spaced).head?.bind fromBrace?
    afterDefault.or (fromBrace? rest)

/-- Tries `found` at each place, with the character before it, and takes the first answer. -/
def search {α : Type} (found : Option Char → List Char → Option α) :
    (before : Option Char) → List Char → Option α
  | _, [] => none
  | before, c :: rest => (found before (c :: rest)).or (search found (some c) rest)

def locateExportConst (name source : List Char) : Option (List Char) :=
  search (fun before text => (exportConst? name before text).bind balanced?) none source

/-- The first member of that name in the object, taken to its own closing brace. -/
def memberLiteral? (name object : List Char) : Option (List Char) :=
  (afterBalanced? object).bind fun after =>
    let inside := (object.drop 1).take (object.length - after.length - 2)
    (search (member? name) (some '{') inside).bind fun rest =>
      balanced? ((object.drop 1).drop (inside.length - rest.length))

def locateExportMember (name source : List Char) : Option (List Char) :=
  search (fun _ text => (exportObject? text).bind (memberLiteral? name)) none source

def locateDeclaration (name source : List Char) : Option (List Char) :=
  search (fun before text => (declaration? name before text).bind balanced?) none source

/-- The ways a literal is bound to a name, in the order they are tried. -/
def bindings : List (List Char → List Char → Option (List Char)) :=
  [locateExportConst, locateExportMember, locateDeclaration]

/-- The object literal bound to `name`, from its opening brace to the closing one. -/
def locate (name source : List Char) : Option (List Char) :=
  bindings.findSome? fun find => find name source

end ThemeSheet.Literal
