import ThemeSheet.Config
import ThemeSheet.Extraction

namespace ThemeSheet

open Literal (Mapping)

/-- Why a source file yields no mapping. -/
inductive SourceFault
  | unreadable (path : Path) (fault : Files.ReadFault)
  /-- The path is not one that the system can be asked about. -/
  | unusable (error : FileError)
  | extraction (fault : ExtractionFault)
deriving DecidableEq, Repr

def ExtractionFault.kind : ExtractionFault → String
  | notFound .. => "not_found"
  | evaluation (.literal _) => "invalid_literal"
  | evaluation (.keyOrder _) => "error"

/-- Faults that no text of a source should lead to. -/
def ExtractionFault.isUnexpected : ExtractionFault → Bool
  | notFound .. => false
  | evaluation (.literal _) => false
  | evaluation (.keyOrder _) => true

namespace SourceFault

def message : SourceFault → String
  | unreadable path fault => s!"Cannot read {path.text}: {fault.message}"
  | unusable error => error.message
  | extraction fault => fault.message

def kind : SourceFault → String
  | unreadable .. => "io"
  | unusable _ => "error"
  | extraction fault => fault.kind

def isUnexpected : SourceFault → Bool
  | unreadable .. => false
  | unusable _ => true
  | extraction fault => fault.isUnexpected

def ofRead (path : Path) : Files.ReadFault → SourceFault
  | .file error => if error.isRefusal then unreadable path (.file error) else unusable error
  | .encoding error => unreadable path (.encoding error)

end SourceFault

namespace Source

/-- The text of a source file. -/
def read (fs : Files) (cwd : List String) (path : Path) : Except SourceFault String :=
  (fs.readText cwd path).mapError (.ofRead path)

/-- The mapping in a source file, and what is logged on the way. -/
def extract (fs : Files) (cwd : List String) (target : Target) :
    List LogRecord × Except SourceFault Mapping :=
  match read fs cwd target.file with
  | .error fault => ([], .error fault)
  | .ok source =>
    let (logs, result) := Extraction.extract source target.name (some target.file.text)
    (logs, result.mapError .extraction)

end Source
end ThemeSheet
