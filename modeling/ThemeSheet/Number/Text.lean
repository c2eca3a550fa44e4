import ThemeSheet.Number.Shortest

namespace ThemeSheet

namespace Decimal

/-- Plain digits while the point lies at most 21 digits after the first or 6 places before it,
and otherwise one digit before the point and an exponent. -/
def layout (d : Decimal) : List Char :=
  let digits := Nat.toDigits 10 d.digits
  let count : Int := digits.length
  let point := count + d.place
  if count ≤ point ∧ point ≤ 21 then digits ++ List.replicate d.place.toNat '0'
  else if 0 < point ∧ point ≤ 21 then
    digits.take point.toNat ++ '.' :: digits.drop point.toNat
  else if -6 < point ∧ point ≤ 0 then
    '0' :: '.' :: List.replicate (-point).toNat '0' ++ digits
  else
    let exponent := point - 1
    let mark := if exponent < 0 then '-' else '+'
    let fraction := if digits.length ≤ 1 then [] else '.' :: digits.drop 1
    digits.take 1 ++ fraction ++ 'e' :: mark :: Nat.toDigits 10 exponent.natAbs

end Decimal

namespace Double

/-- A number as text: the fewest digits that read back, and no sign on zero. -/
def text : Double → String
  | nan => "NaN"
  | infinite negative => if negative then "-Infinity" else "Infinity"
  | finite _ 0 _ => "0"
  | finite negative mantissa exponent =>
    let digits := (Decimal.shortest mantissa exponent).layout
    String.ofList (if negative then '-' :: digits else digits)

end Double
end ThemeSheet
