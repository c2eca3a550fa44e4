namespace ThemeSheet

/-- A binary64 number. A finite one is `mantissa * 2 ^ exponent` units of `2 ^ -1074`, the least
positive magnitude, so that every magnitude is a natural number of units. -/
inductive Double
  | finite (negative : Bool) (mantissa exponent : Nat)
  | infinite (negative : Bool)
  | nan
deriving DecidableEq, Repr

namespace Double

/-- The least magnitude is `2 ^ -1074`. -/
def unitPlaces : Nat := 1074

def maxExponent : Nat := 2045

/-- The top bit of a mantissa of 53 bits, which the encoding leaves out. -/
def hiddenBit : Nat := 0x10000000000000

def signBit : Nat := 0x8000000000000000

def ofBits (bits : Nat) : Double :=
  let negative := bits / signBit % 2 == 1
  let exponent := bits / hiddenBit % 2048
  let fraction := bits % hiddenBit
  if exponent = 0 then .finite negative fraction 0
  else if exponent = 2047 then if fraction = 0 then .infinite negative else .nan
  else .finite negative (hiddenBit + fraction) (exponent - 1)

/-- The quotient rounded to the nearest integer, a half to the even one. -/
def roundDiv (num den : Nat) : Nat :=
  let low := num / den
  let rest := num % den
  if 2 * rest < den || (2 * rest == den && low % 2 == 0) then low else low + 1

/-- The double nearest to `num / den`, ties to even. -/
def nearest (negative : Bool) (num den : Nat) : Double :=
  let units := num * Nat.pow 2 unitPlaces
  let exponent := Nat.log2 (units / den) - 52
  let mantissa := roundDiv units (den * Nat.pow 2 exponent)
  let carried := mantissa = 2 * hiddenBit
  let exponent := if carried then exponent + 1 else exponent
  if exponent > maxExponent then .infinite negative
  else .finite negative (if carried then hiddenBit else mantissa) exponent

/-- The doubles as they are encoded: a mantissa of 53 bits unless the exponent is least. -/
def Canonical : Double → Prop
  | finite _ mantissa exponent =>
    mantissa < 2 * hiddenBit ∧ (hiddenBit ≤ mantissa ∨ exponent = 0) ∧ exponent ≤ maxExponent
  | infinite _ => True
  | nan => True

theorem ofBits_canonical (bits : Nat) : (ofBits bits).Canonical := by
  have split := Nat.mod_lt bits (show 0 < hiddenBit by decide)
  unfold ofBits
  dsimp only
  split
  · exact ⟨by omega, .inr rfl, by decide⟩
  · split
    · split <;> trivial
    · exact ⟨by omega, .inl (by omega), by unfold maxExponent; omega⟩

/-- A finite value as a rational number. -/
def toRat? : Double → Option Rat
  | finite negative mantissa exponent =>
    let magnitude : Rat := mkRat (mantissa * Nat.pow 2 exponent : Nat) (Nat.pow 2 unitPlaces)
    some (if negative then -magnitude else magnitude)
  | _ => none

def ofRat (q : Rat) : Double :=
  nearest (q.num < 0) q.num.natAbs q.den

end Double
end ThemeSheet
