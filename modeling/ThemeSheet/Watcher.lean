import ThemeSheet.Files.Tree
import ThemeSheet.Log

namespace ThemeSheet

inductive FileEvent
  | add
  | change
  | unlink
deriving DecidableEq, Repr

def FileEvent.name : FileEvent → String
  | add => "add"
  | change => "change"
  | unlink => "unlink"

/-- Looks at one file now and then. It knows the stamp and size the file had when last looked at,
if it existed. -/
structure Watcher where
  path : Path
  last : Option (Stamp × Nat)
deriving DecidableEq, Repr

namespace Watcher

def logger : String := "cssvars.watch.poller"

def make (fs : Files) (cwd : List String) (path : Path) : Except FileError Watcher :=
  (fs.resolve cwd path).map fun path => ⟨path, fs.snapshot? cwd path⟩

/-- What became of a file between two looks. -/
def eventBetween (before after : Option (Stamp × Nat)) : Option FileEvent :=
  if before = after then none
  else
    match before, after with
    | none, _ => some .add
    | some _, none => some .unlink
    | some _, some _ => some .change

/-- Looks at the file once. -/
def poll (watcher : Watcher) (fs : Files) (cwd : List String) : Watcher × Option FileEvent :=
  let seen := fs.snapshot? cwd watcher.path
  ({ watcher with last := seen }, eventBetween watcher.last seen)

def failureNote (watcher : Watcher) : LogRecord :=
  ⟨.error, logger, s!"Watch callback failed for {watcher.path.text}"⟩

end Watcher
end ThemeSheet
