import ThemeSheet.Classifier
import ThemeSheet.Literal.Evaluate
import ThemeSheet.PropertyName

namespace ThemeSheet

open Literal (Mapping)

/-- One custom property: its name with the leading hyphens, its value, and the type it is declared
with. -/
structure Property where
  name : String
  value : String
  type : String
deriving DecidableEq, Repr

namespace Property

def declaration (p : Property) : String :=
  p.name ++ ": " ++ p.value ++ ";"

def indent : String := "  "

/-- The rule that registers the property. -/
def block (p : Property) : String :=
  "\n".intercalate
    ["@property " ++ p.name ++ " \x7b",
      indent ++ "syntax: '" ++ p.type ++ "';",
      indent ++ "inherits: false;",
      indent ++ "initial-value: " ++ p.value ++ ";",
      "\x7d"]

end Property

structure GenerationFault where
  key : String
  cause : ClassifierFault
deriving DecidableEq, Repr

def GenerationFault.message (fault : GenerationFault) : String :=
  "Cannot classify " ++ Text.quoted fault.key ++ ": " ++ fault.cause.message

namespace Stylesheet

/-- One property for each entry, in order, up to the first that cannot be classified. -/
def properties (space : String) (classifier : Classifier) :
    Mapping → Except GenerationFault (List Property)
  | [] => .ok []
  | (key, value) :: rest =>
    match classifier.classify key value with
    | .error cause => .error ⟨key, cause⟩
    | .ok type =>
      (properties space classifier rest).map (⟨PropertyName.ofKey key space, value, type⟩ :: ·)

def banner : String := "/* autogenerated by cssvars */"

def rootBlock (properties : List Property) : String :=
  "\n".intercalate
    (":root \x7b" :: properties.map (Property.indent ++ ·.declaration) ++ ["\x7d"])

/-- The banner, a block for each property and the root rule, with a blank line between them. -/
def ofProperties (properties : List Property) : String :=
  "\n\n".intercalate (banner :: properties.map Property.block ++ [rootBlock properties]) ++ "\n"

def render (mapping : Mapping) (space : String) (classifier : Classifier) :
    Except GenerationFault String :=
  (properties space classifier mapping).map ofProperties

end Stylesheet
end ThemeSheet
