import ThemeSheet.Bus
import ThemeSheet.Files.Path

namespace ThemeSheet

/-- What is told of a cycle while it runs. -/
inductive CycleEvent
  | started (source : Path) (trigger : String)
  | succeeded (output : Path) (count : Nat)
  | failed (error kind : String)
  | formattingFailed (output : Path) (error : String)
deriving DecidableEq, Repr

namespace CycleEvent

def typeName : CycleEvent → String
  | started .. => "RegenerationStarted"
  | succeeded .. => "RegenerationSucceeded"
  | failed .. => "RegenerationFailed"
  | formattingFailed .. => "FormattingFailed"

instance : Typed CycleEvent := ⟨typeName⟩

end CycleEvent
end ThemeSheet
