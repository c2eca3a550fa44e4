import ThemeSheet.Number.Text

namespace ThemeSheet

namespace Decimal

/-- Digits with a point always shown while the first digit stands from the fourth decimal place to
the sixteenth digit, and otherwise an exponent of two digits at least. -/
def pointedLayout (d : Decimal) : List Char :=
  let digits := Nat.toDigits 10 d.digits
  let point : Int := digits.length + d.place
  if -4 < point ∧ point ≤ 16 then
    if 0 < point then
      let whole := (digits ++ List.replicate d.place.toNat '0').take point.toNat
      let fraction := digits.drop point.toNat
      whole ++ '.' :: (if fraction.isEmpty then ['0'] else fraction)
    else '0' :: '.' :: List.replicate (-point).toNat '0' ++ digits
  else
    let exponent := point - 1
    let power := Nat.toDigits 10 exponent.natAbs
    let fraction := if digits.length ≤ 1 then [] else '.' :: digits.drop 1
    digits.take 1 ++ fraction ++ 'e' :: (if exponent < 0 then '-' else '+') ::
      (List.replicate (2 - power.length) '0' ++ power)

end Decimal

namespace Double

/-- A number as text that shows it to be no integer, and the sign of zero. -/
def pointedText : Double → String
  | nan => "nan"
  | infinite negative => if negative then "-inf" else "inf"
  | finite negative 0 _ => if negative then "-0.0" else "0.0"
  | finite negative mantissa exponent =>
    let digits := (Decimal.shortest mantissa exponent).pointedLayout
    String.ofList (if negative then '-' :: digits else digits)

end Double
end ThemeSheet
