import ThemeSheet.Number.Double

namespace ThemeSheet

/-- The number `digits * 10 ^ place`. -/
structure Decimal where
  digits : Nat
  place : Int
deriving DecidableEq, Repr

namespace Decimal

/-- The numbers that round to one double, in quarters of the least unit: from `low` to `high`
around `value`, with the ends or without. -/
structure Span where
  low : Nat
  value : Nat
  high : Nat
  closed : Bool

/-- Below a power of two the neighbour is half as far as above it. -/
def Span.of (mantissa exponent : Nat) : Span :=
  let quarter := Nat.pow 2 exponent
  let below := if mantissa = Double.hiddenBit ∧ exponent ≠ 0 then quarter else 2 * quarter
  { low := 4 * mantissa * quarter - below
    value := 4 * mantissa * quarter
    high := 4 * mantissa * quarter + 2 * quarter
    closed := mantissa % 2 == 0 }

/-- Quarters of the least unit in one. -/
def quarters : Nat := Nat.pow 2 (Double.unitPlaces + 2)

/-- How many digits the value has before the point; zero or less for a fraction. -/
def Span.magnitude (span : Span) : Int :=
  ((Nat.toDigits 10 (span.value * Nat.pow 10 400 / quarters)).length : Int) - 400

def Span.holds (span : Span) (scaleUp scaleDown point : Nat) : Bool :=
  let at' := point * (quarters * scaleDown)
  if span.closed then span.low * scaleUp ≤ at' && at' ≤ span.high * scaleUp
  else span.low * scaleUp < at' && at' < span.high * scaleUp

/-- The multiple of `10 ^ place` in the span that is nearest to the value, an even one of two.
Only the two neighbours of the value need a look. -/
def Span.onGrid? (span : Span) (place : Int) : Option Decimal :=
  let scaleUp := Nat.pow 10 (-place).toNat
  let scaleDown := Nat.pow 10 place.toNat
  let below := span.value * scaleUp / (quarters * scaleDown)
  let toBelow := span.value * scaleUp - below * (quarters * scaleDown)
  let toAbove := (below + 1) * (quarters * scaleDown) - span.value * scaleUp
  match span.holds scaleUp scaleDown below, span.holds scaleUp scaleDown (below + 1) with
  | true, true =>
    if toBelow < toAbove || (toBelow == toAbove && below % 2 == 0) then some ⟨below, place⟩
    else some ⟨below + 1, place⟩
  | true, false => some ⟨below, place⟩
  | false, true => some ⟨below + 1, place⟩
  | false, false => none

/-- Moves trailing zeros of the digits into the place. -/
def trimZeros : (fuel : Nat) → Decimal → Decimal
  | 0, d => d
  | fuel + 1, d =>
    if d.digits % 10 = 0 ∧ d.digits ≠ 0 then trimZeros fuel ⟨d.digits / 10, d.place + 1⟩ else d

/-- The fewest digits that read back as the double `mantissa * 2 ^ exponent`. Seventeen always
do. -/
def shortest (mantissa exponent : Nat) : Decimal :=
  let span := Span.of mantissa exponent
  let magnitude := span.magnitude
  let found := (List.range 17).findSome? fun i => span.onGrid? (magnitude - (i + 1 : Nat))
  trimZeros 20 (found.getD ⟨0, 0⟩)

end Decimal
end ThemeSheet
