import ThemeSheet.ClassifierSpec.Modules
import ThemeSheet.Config

namespace ThemeSheet.ClassifierSpec

open Text

/-- The classifier that is used unless another is asked for. -/
def default : String := "cssvars.classifiers:guess_syntax"

/-- The name the default classifier goes by. -/
def defaultName : String := "guess_syntax"

/-- The modules that hold the default classifier under that name. -/
def defaultHomes : List String := ["cssvars.classifiers", "cssvars.cli.options"]

inductive ModuleKind
  | package
  | plain
  | refusing (message : String)
deriving DecidableEq, Repr

def Package.holds (package : Package) (name : String) : Bool :=
  package.modules.any fun module => package.name ++ "." ++ module == name

def packages : List Package := ownPackages ++ libraryPackages

/-- A package can also be named by the file that makes it one. -/
def isPackageFile (name : String) : Bool :=
  packages.any fun package => package.name ++ ".__init__" == name

/-- What goes by a full name, if anything does. -/
def kind? (name : String) : Option ModuleKind :=
  if packages.any (·.name == name) then some .package
  else if packages.any (·.holds name) || looseModules.contains name ||
      innerModules.contains name || isPackageFile name then some .plain
  else (refusingModules.lookup name).map .refusing

/-- The text before the first colon and the text after it. -/
def split? (spec : String) : Option (String × String) :=
  let chars := spec.toList
  let module := chars.takeWhile (· != ':')
  match chars.drop module.length with
  | [] => none
  | _ :: function =>
    if module.isEmpty || function.isEmpty then none
    else some (String.ofList module, String.ofList function)

/-- The name of a module and of every package around it, outermost first. -/
def ancestry (module : List Char) : List String :=
  ((List.range module.length).filter fun i => module[i]? == some '.').map
    (fun i => String.ofList (module.take i)) ++ [String.ofList module]

/-- What is wrong first on the way inwards, where `outer?` is the module last passed and whether it
holds others. -/
def fault? : (outer? : Option (String × Bool)) → List String → Option ModuleFault
  | _, [] => none
  | outer?, name :: rest =>
    match kind? name with
    | some .package => fault? (some (name, true)) rest
    | some .plain => fault? (some (name, false)) rest
    | some (.refusing message) => some (.refuses message)
    | none => some (match outer? with
      | some (outer, false) => .inPlain name outer
      | _ => .absent name)

def moduleFault? (module : String) : Option ModuleFault :=
  if module.startsWith "." then some (.relative module) else fault? none (ancestry module.toList)

def load (spec : String) : Except ConfigFault Classifier :=
  match split? spec with
  | none => .error (.malformedClassifier spec)
  | some (module, function) =>
    match moduleFault? module with
    | some fault => .error (.noModule module fault)
    | none =>
      if defaultHomes.contains module && function == defaultName then .ok guessClassifier
      else .error (.noFunction spec)

end ThemeSheet.ClassifierSpec
