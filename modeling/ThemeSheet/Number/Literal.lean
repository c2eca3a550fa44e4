import ThemeSheet.Number.Double
import ThemeSheet.Text.Digit
import ThemeSheet.Text.Hex

namespace ThemeSheet

open Text

inductive Magnitude
  /-- Digits after `0x`, `0b` or `0o`. -/
  | radix (base : Nat) (digits : List Nat)
  /-- The number `digits * 10 ^ place`. -/
  | decimal (digits : List Nat) (place : Int)
deriving DecidableEq, Repr

structure NumberLiteral where
  negative : Bool
  magnitude : Magnitude
deriving DecidableEq, Repr

namespace NumberLiteral

/-- Values of the longest run of digits, and the rest. -/
def spanDigits (value? : Char → Option Nat) : List Char → List Nat × List Char
  | [] => ([], [])
  | c :: rest =>
    match value? c with
    | none => ([], c :: rest)
    | some d => let (digits, rest') := spanDigits value? rest; (d :: digits, rest')

theorem spanDigits_length (value? : Char → Option Nat) (text : List Char) :
    (spanDigits value? text).1.length + (spanDigits value? text).2.length = text.length := by
  induction text with
  | nil => rfl
  | cons c rest ih =>
    cases h : value? c with
    | none => simp [spanDigits, h]
    | some d => simp only [spanDigits, h, List.length_cons]; omega

def sign : List Char → Bool × List Char
  | '-' :: rest => (true, rest)
  | '+' :: rest => (false, rest)
  | rest => (false, rest)

theorem sign_length_le (text : List Char) : (sign text).2.length ≤ text.length := by
  unfold sign; split <;> simp

def radixDigit? (base : Nat) (c : Char) : Option Nat :=
  (hexValue? c).filter (· < base)

def radixBase? (c : Char) : Option Nat :=
  if c = 'x' ∨ c = 'X' then some 16
  else if c = 'b' ∨ c = 'B' then some 2
  else if c = 'o' ∨ c = 'O' then some 8
  else none

/-- `0x`, `0b` or `0o` and at least one digit. -/
def radix? : List Char → Option (Magnitude × List Char)
  | '0' :: mark :: rest =>
    match radixBase? mark with
    | none => none
    | some base =>
      let run := spanDigits (radixDigit? base) rest
      if run.1 = [] then none else some (.radix base run.1, run.2)
  | _ => none

/-- An exponent, or nothing where the letter is not followed by digits. -/
def exponent : List Char → Int × List Char
  | [] => (0, [])
  | mark :: rest =>
    let run := spanDigits decimalValue? (sign rest).2
    if (mark = 'e' ∨ mark = 'E') ∧ run.1 ≠ [] then
      let n : Int := ofDigits 10 run.1
      (if (sign rest).1 then -n else n, run.2)
    else (0, mark :: rest)

/-- The digits after a point, if there is a point. -/
def fraction : List Char → List Nat × List Char
  | '.' :: rest => spanDigits decimalValue? rest
  | rest => ([], rest)

/-- Digits with an optional point among or before them, and an optional exponent. -/
def decimal? (text : List Char) : Option (Magnitude × List Char) :=
  let (whole, rest) := spanDigits decimalValue? text
  let (tail, rest) := fraction rest
  if whole.isEmpty && tail.isEmpty then none
  else
    let (power, rest) := exponent rest
    some (.decimal (whole ++ tail) (power - tail.length), rest)

/-- The longest number literal at the front. -/
def scan? (text : List Char) : Option (NumberLiteral × List Char) :=
  let (negative, rest) := sign text
  ((radix? rest).or (decimal? rest)).map fun (magnitude, rest) => (⟨negative, magnitude⟩, rest)

/-- A decimal number literal at the front, without the radix forms. -/
def scanDecimal? (text : List Char) : Option (NumberLiteral × List Char) :=
  let (negative, rest) := sign text
  (decimal? rest).map fun (magnitude, rest) => (⟨negative, magnitude⟩, rest)

theorem radix?_length_lt {text rest : List Char} {m : Magnitude}
    (h : radix? text = some (m, rest)) : rest.length < text.length := by
  unfold radix? at h
  split at h
  · rename_i tail
    split at h
    · cases h
    · rename_i base _
      have := spanDigits_length (radixDigit? base) tail
      dsimp only at h
      split at h
      · cases h
      · cases h
        simp only [List.length_cons]
        omega
  · cases h

theorem exponent_length_le (text : List Char) : (exponent text).2.length ≤ text.length := by
  cases text with
  | nil => exact Nat.le_refl _
  | cons mark rest =>
    have := spanDigits_length decimalValue? (sign rest).2
    have := sign_length_le rest
    simp only [exponent]
    split
    · simp only [List.length_cons]; omega
    · exact Nat.le_refl _

theorem fraction_length (text : List Char) :
    (fraction text).1.length + (fraction text).2.length ≤ text.length := by
  unfold fraction
  split
  · rename_i rest
    have := spanDigits_length decimalValue? rest
    simp only [List.length_cons]
    omega
  · simp

theorem decimal?_length_lt {text rest : List Char} {m : Magnitude}
    (h : decimal? text = some (m, rest)) : rest.length < text.length := by
  unfold decimal? at h
  dsimp only at h
  split at h
  · cases h
  · rename_i nonempty
    have whole := spanDigits_length decimalValue? text
    have tail := fraction_length (spanDigits decimalValue? text).2
    have power := exponent_length_le (fraction (spanDigits decimalValue? text).2).2
    cases h
    have : 0 < (spanDigits decimalValue? text).1.length +
        (fraction (spanDigits decimalValue? text).2).1.length := by
      simp only [Bool.and_eq_true, List.isEmpty_iff, not_and] at nonempty
      cases first : (spanDigits decimalValue? text).1 with
      | nil => have := List.length_pos_iff.2 (nonempty first); omega
      | cons => exact Nat.add_pos_left (Nat.succ_pos _) _
    omega

theorem scan?_length_lt {text rest : List Char} {n : NumberLiteral}
    (h : scan? text = some (n, rest)) : rest.length < text.length := by
  obtain ⟨⟨m, rest'⟩, found, eq⟩ := Option.map_eq_some_iff.1 h
  cases eq
  refine Nat.lt_of_lt_of_le ?_ (sign_length_le text)
  rcases Option.or_eq_some_iff.1 found with h | ⟨_, h⟩
  · exact radix?_length_lt h
  · exact decimal?_length_lt h

/-- A literal too far from one for a double is decided by its size alone. -/
def farExponent : Int := 400

/-- The nearest double. A radix form beyond the doubles has none; a decimal one is infinite. -/
def toDouble? (n : NumberLiteral) : Option Double :=
  match n.magnitude with
  | .radix base digits =>
    match Double.nearest n.negative (ofDigits base digits) 1 with
    | .infinite _ => none
    | x => some x
  | .decimal digits place =>
    let significant := digits.dropWhile (· == 0)
    let size : Int := significant.length + place
    if significant.isEmpty then some (.finite n.negative 0 0)
    else if size > farExponent then some (.infinite n.negative)
    else if size < -farExponent then some (.finite n.negative 0 0)
    else
      some (.nearest n.negative (ofDigits 10 significant * Nat.pow 10 place.toNat)
        (Nat.pow 10 (-place).toNat))

end NumberLiteral
end ThemeSheet
