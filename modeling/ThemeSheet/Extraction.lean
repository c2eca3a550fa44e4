import ThemeSheet.Literal.Evaluate
import ThemeSheet.Literal.Locate
import ThemeSheet.Literal.Normalize

namespace ThemeSheet

open Literal (Mapping EvaluationFault)

inductive ExtractionFault
  /-- No literal is bound to the name. -/
  | notFound (name : String) (path : Option String)
  | evaluation (fault : EvaluationFault)
deriving DecidableEq, Repr

def ExtractionFault.message : ExtractionFault → String
  | notFound name path =>
    let place := match path with
      | some path => if path.isEmpty then "" else " in " ++ path
      | none => ""
    s!"Configuration object \"{name}\" not found{place}"
  | evaluation (.literal fault) => fault.message
  | evaluation (.keyOrder fault) => fault.message

namespace Extraction

def logger : String := "cssvars.extraction.extract"

/-- The mapping bound to `name` in a source text, and what is logged on the way: the normalized
literal, then the members that are skipped. -/
def extract (source name : String) (path : Option String) :
    List LogRecord × Except ExtractionFault Mapping :=
  match Literal.locate name.toList source.toList with
  | none => ([], .error (.notFound name path))
  | some raw =>
    let normalized := Literal.normalize raw
    let note : LogRecord := ⟨.debug, logger, s!"Normalized {name}: {String.ofList normalized}"⟩
    let (warnings, result) := Literal.evaluate name normalized
    (note :: warnings, result.mapError .evaluation)

end Extraction
end ThemeSheet
