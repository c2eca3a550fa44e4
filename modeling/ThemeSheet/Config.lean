import ThemeSheet.Classifier
import ThemeSheet.Files.Tree
import ThemeSheet.Identifier

namespace ThemeSheet

open Text

/-- Why a module cannot be had. -/
inductive ModuleFault
  | absent (name : String)
  /-- It is looked for in a module that holds none. -/
  | inPlain (name outer : String)
  | refuses (message : String)
  /-- Its name begins with a dot. -/
  | relative (name : String)
deriving DecidableEq, Repr

def ModuleFault.message : ModuleFault → String
  | absent name => "No module named " ++ quoted name
  | inPlain name outer =>
    "No module named " ++ quoted name ++ "; " ++ quoted outer ++ " is not a package"
  | refuses message => message
  | relative name =>
    "the 'package' argument is required to perform a relative import for " ++ quoted name

inductive ConfigFault
  | badName (name : String)
  | notCallable
  | negativeDelay
  | malformedClassifier (spec : String)
  | noModule (module : String) (fault : ModuleFault)
  | noFunction (spec : String)
deriving DecidableEq, Repr

def ConfigFault.message : ConfigFault → String
  | badName name => "Invalid constant name: " ++ quoted name
  | notCallable => "classifier must be callable"
  | negativeDelay => "debounce_seconds must not be negative"
  | malformedClassifier spec =>
    "Classifier must look like 'module:function', got " ++ quoted spec
  | noModule _ (.relative name) => (ModuleFault.relative name).message
  | noModule module fault =>
    "Cannot import classifier module " ++ quoted module ++ ": " ++ fault.message
  | noFunction spec => quoted spec ++ " is not a callable classifier"

/-- A file and the name of the literal in it. -/
structure Target where
  file : Path
  name : String
  isIdentifier_name : isIdentifier name = true

def Target.make (file : Path) (name : String) : Except ConfigFault Target :=
  if h : isIdentifier name = true then .ok ⟨file, name, h⟩ else .error (.badName name)

/-- All that a run depends on. -/
structure Config where
  source : Path
  name : String
  output : Path
  space : String
  classifier : Classifier
  prettierConfig : Option Path
  eslintConfig : Option Path
  /-- Seconds without a further change before a change is acted on. -/
  delay : Rat
  format : Bool
  isIdentifier_name : isIdentifier name = true
  delay_nonneg : 0 ≤ delay

namespace Config

/-- Checks what was given; of two faults the name's comes first, then the classifier's. -/
def make (source : Path) (name : String) (output : Path) (space : String)
    (classifier : Option Classifier) (prettierConfig eslintConfig : Option Path) (delay : Rat)
    (format : Bool) : Except ConfigFault Config :=
  if hn : isIdentifier name = true then
    match classifier with
    | none => .error .notCallable
    | some classifier =>
      if hd : 0 ≤ delay then
        .ok ⟨source, name, output, space, classifier, prettierConfig, eslintConfig, delay, format,
          hn, hd⟩
      else .error .negativeDelay
  else .error (.badName name)

def defaultDelay : Rat := 1 / 10

def target (config : Config) : Target :=
  ⟨config.source, config.name, config.isIdentifier_name⟩

/-- The same with every path absolute, relative ones seen from `base`. -/
def resolve (config : Config) (fs : Files) (base : Path) : Except FileError Config := do
  let settle (path : Path) : Except FileError Path :=
    fs.resolve [] ((Path.absolute base.parts).join path)
  let source ← settle config.source
  let output ← settle config.output
  let prettierConfig ← config.prettierConfig.mapM settle
  let eslintConfig ← config.eslintConfig.mapM settle
  return { config with source, output, prettierConfig, eslintConfig }

end Config
end ThemeSheet
