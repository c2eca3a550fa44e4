import ThemeSheet.Text.Digit
import ThemeSheet.Text.Quoted

namespace ThemeSheet.Literal

open Text

/-- Why a key of digits has no place in the order of keys. -/
inductive IndexFault
  | tooManyDigits (count : Nat)
  | notDecimal (key : String)
deriving DecidableEq, Repr

def maxDigits : Nat := 4300

def IndexFault.message : IndexFault → String
  | tooManyDigits count =>
    s!"Exceeds the limit ({maxDigits} digits) for integer string conversion: value has {count} " ++
      "digits; use sys.set_int_max_str_digits() to increase the limit"
  | notDecimal key =>
    "invalid literal for int() with base 10: " ++
      String.ofList ((quotedChars key.toList).take 200)

/-- The largest array index: the numbers of 32 bits end at the next. -/
def maxIndex : Nat := 4294967294

/-- Digits only, and no zero in front of another digit. -/
def looksLikeIndex (key : List Char) : Bool :=
  !key.isEmpty && key.all isDigit && !(1 < key.length && key.head? == some '0')

/-- The array index that a key writes. Digits that are not decimal, and very long keys, are
faults. -/
def index? (key : String) : Except IndexFault (Option Nat) :=
  let chars := key.toList
  if looksLikeIndex chars then
    let digits := (chars.takeWhile isDecimal).filterMap decimalValue?
    if maxDigits < digits.length then .error (.tooManyDigits digits.length)
    else if digits.length < chars.length then .error (.notDecimal key)
    else
      let n := ofDigits 10 digits
      .ok (if n ≤ maxIndex then some n else none)
  else .ok none

/-- Sets a key: a new one goes to the end, a known one keeps its place. -/
def put {α : Type} (key : String) (value : α) : List (String × α) → List (String × α)
  | [] => [(key, value)]
  | (k, v) :: rest => if k = key then (k, value) :: rest else (k, v) :: put key value rest

/-- Each key once, with its last value at its first place. -/
def merge {α : Type} (members : List (String × α)) : List (String × α) :=
  members.foldl (fun merged (key, value) => put key value merged) []

/-- The keys in the order of an object: indices by size, then the others as they came. -/
def ownKeys {α : Type} (members : List (String × α)) :
    Except IndexFault (List (String × α)) := do
  let indexed ← (merge members).mapM fun member => return (← index? member.1, member)
  let indices := indexed.filterMap fun (index, member) => index.map (·, member)
  let names := indexed.filterMap fun (index, member) => if index.isNone then some member else none
  return (indices.mergeSort (fun a b => a.1 ≤ b.1)).map (·.2) ++ names

theorem keys_put {α : Type} (key : String) (value : α) (members : List (String × α)) :
    (put key value members).map Prod.fst =
      if key ∈ members.map Prod.fst then members.map Prod.fst
      else members.map Prod.fst ++ [key] := by
  induction members with
  | nil => rfl
  | cons member rest ih =>
    obtain ⟨k, v⟩ := member
    by_cases h : k = key
    · simp [put, h]
    · have : ¬ key = k := fun e => h e.symm
      simp only [put, h, if_false, List.map_cons, ih, List.mem_cons, this, false_or]
      split <;> rfl

end ThemeSheet.Literal
