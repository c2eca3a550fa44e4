import ThemeSheet.Number.Layout
import ThemeSheet.Text.Quoted
import ThemeSheet.ValueType

namespace ThemeSheet

open Text

/-- Plain data that a classifier may answer. -/
inductive Datum
  | none
  | bool (value : Bool)
  | integer (value : Int)
  | real (value : Double)
  | text (value : String)
  | list (items : List Datum)
  | map (entries : List (String × Datum))
deriving Inhabited

mutual

/-- The data as messages show it. -/
def Datum.shown : Datum → String
  | .none => "None"
  | .bool value => if value then "True" else "False"
  | .integer value => toString value
  | .real value => value.pointedText
  | .text value => quoted value
  | .list items => "[" ++ ", ".intercalate (shownItems items) ++ "]"
  | .map entries => "\x7b" ++ ", ".intercalate (shownEntries entries) ++ "\x7d"

def shownItems : List Datum → List String
  | [] => []
  | item :: rest => item.shown :: shownItems rest

def shownEntries : List (String × Datum) → List String
  | [] => []
  | (key, value) :: rest => (quoted key ++ ": " ++ value.shown) :: shownEntries rest

end

/-- What comes of asking a classifier: an answer of any kind, or a failure with its own text. -/
inductive Answer
  | returned (value : Datum)
  | failed (kind text : String)

/-- Chooses the value type that the property of a key is declared with. -/
abbrev Classifier := (key value : String) → Answer

/-- Looks at the value alone. -/
def guessClassifier : Classifier :=
  fun _ value => .returned (.text (ValueType.guess value).text)

inductive ClassifierFault
  | failed (kind text : String)
  | unusable (shown : String)
deriving DecidableEq, Repr

/-- A failure without a text is known by its kind. -/
def ClassifierFault.message : ClassifierFault → String
  | failed kind text => if text.isEmpty then kind else text
  | unusable shown => "classifier returned " ++ shown

/-- The value type as text. Only a text that is not empty will do. -/
def Classifier.classify (classifier : Classifier) (key value : String) :
    Except ClassifierFault String :=
  match classifier key value with
  | .failed kind text => .error (.failed kind text)
  | .returned (.text type) => if type.isEmpty then .error (.unusable (quoted type)) else .ok type
  | .returned other => .error (.unusable other.shown)

end ThemeSheet
