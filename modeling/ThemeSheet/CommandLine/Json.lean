import ThemeSheet.Stylesheet
import ThemeSheet.Text.Json

namespace ThemeSheet.CommandLine

open Literal (Mapping)

def jsonMember (key value : String) : String :=
  Text.json key ++ ": " ++ Text.json value

/-- Lines between two brackets, each one level deeper and all but the last with a comma. -/
def jsonBlock (opening closing : String) (indent : String) (items : List String) : String :=
  if items.isEmpty then opening ++ closing
  else
    opening ++ "\n" ++ ",\n".intercalate (items.map fun item => indent ++ "  " ++ item) ++ "\n" ++
      indent ++ closing

/-- A mapping as a JSON object, one entry a line. -/
def mappingJson (mapping : Mapping) : String :=
  jsonBlock "\x7b" "\x7d" "" (mapping.map fun (key, value) => jsonMember key value)

def propertyJson (p : Property) : String :=
  jsonBlock "\x7b" "\x7d" "  "
    [jsonMember "css_name" p.name, jsonMember "value" p.value, jsonMember "syntax" p.type]

def propertiesJson (ps : List Property) : String :=
  jsonBlock "[" "]" "" (ps.map propertyJson)

end ThemeSheet.CommandLine
