import ThemeSheet.Files.Path
import ThemeSheet.Text.Quoted

namespace ThemeSheet

inductive CycleStatus
  | success
  | fail
deriving DecidableEq, Repr

namespace CycleStatus

def name : CycleStatus → String
  | success => "success"
  | fail => "fail"

/-- A status that no cycle has. -/
structure UnknownStatus where
  name : String
deriving DecidableEq, Repr

def UnknownStatus.message (unknown : UnknownStatus) : String :=
  Text.quoted unknown.name ++ " is not a valid CycleStatus"

def ofName (name : String) : Except UnknownStatus CycleStatus :=
  if name = "success" then .ok .success
  else if name = "fail" then .ok .fail
  else .error ⟨name⟩

theorem ofName_name (status : CycleStatus) : ofName status.name = .ok status := by
  cases status <;> rfl

end CycleStatus

/-- The result of one cycle. -/
structure Outcome where
  status : CycleStatus
  output : Option Path
  error : String
  errorKind : String
  count : Int
deriving DecidableEq, Repr

namespace Outcome

def succeeded (outcome : Outcome) : Bool :=
  outcome.status = .success

def failed (outcome : Outcome) : Bool :=
  outcome.status = .fail

def success (output : Path) (count : Nat) : Outcome :=
  ⟨.success, some output, "", "", count⟩

def failure (error kind : String) : Outcome :=
  ⟨.fail, none, error, kind, 0⟩

theorem failed_eq_not_succeeded (outcome : Outcome) : outcome.failed = !outcome.succeeded := by
  obtain ⟨status, _⟩ := outcome
  cases status <;> rfl

end Outcome
end ThemeSheet
