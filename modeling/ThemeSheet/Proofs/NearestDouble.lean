import Mathlib
import ThemeSheet.Proofs.WholeNumbers

/-! Rounding to the nearest double. The numbers that round to a double are those of its span. -/

namespace ThemeSheet

namespace Double

/-- The value of a mantissa and an exponent. -/
def magnitude (mantissa exponent : ℕ) : ℚ :=
  mantissa * 2 ^ exponent / 2 ^ unitPlaces

def exact (negative : Bool) (mantissa exponent : ℕ) : ℚ :=
  if negative then -magnitude mantissa exponent else magnitude mantissa exponent

/-- Half way from the greatest double to the next power of two. -/
def overflow : ℚ := 2 ^ 1024 - 2 ^ 970

/-- The double nearest to a number, and the even one of two. What lies beyond all doubles is
infinite. -/
inductive Rounds (q : ℚ) : Double → Prop
  | finite {negative mantissa exponent} (canonical : (finite negative mantissa exponent).Canonical)
    (inside : |q| < overflow) (sign : q ≠ 0 → (negative = true ↔ q < 0))
    (nearest : ∀ negative' mantissa' exponent',
      (Double.finite negative' mantissa' exponent').Canonical →
        |q - exact negative mantissa exponent| ≤ |q - exact negative' mantissa' exponent'|)
    (even : ∀ negative' mantissa' exponent',
      (Double.finite negative' mantissa' exponent').Canonical →
        |q - exact negative' mantissa' exponent'| = |q - exact negative mantissa exponent| →
        exact negative' mantissa' exponent' ≠ exact negative mantissa exponent →
        mantissa % 2 = 0) :
    Rounds q (.finite negative mantissa exponent)
  | infinite {negative} (beyond : overflow ≤ |q|) (sign : negative = true ↔ q < 0) :
    Rounds q (.infinite negative)

theorem toRat?_finite (negative : Bool) (mantissa exponent : ℕ) :
    toRat? (.finite negative mantissa exponent) = some (exact negative mantissa exponent) := by
  have value : mkRat (mantissa * Nat.pow 2 exponent : ℕ) (Nat.pow 2 unitPlaces) =
      magnitude mantissa exponent := by
    rw [Rat.mkRat_eq_div, magnitude, Nat.pow_eq, Nat.pow_eq]
    push_cast
    rfl
  simp only [toRat?, exact, ← value]

end Double

/-- A power of ten as a ratio of two of them. -/
theorem ratio_pow (n : ℕ) (place : ℤ) :
    ((n * 10 ^ place.toNat : ℕ) : ℚ) / ((10 ^ (-place).toNat : ℕ) : ℚ) = n * 10 ^ place := by
  push_cast
  rcases le_total 0 place with up | down
  · obtain ⟨k, rfl⟩ := Int.eq_ofNat_of_zero_le up
    simp
  · obtain ⟨k, same⟩ := Int.eq_ofNat_of_zero_le (Int.neg_nonneg.mpr down)
    obtain rfl : place = -k := by omega
    simp [div_eq_mul_inv]

/-- Four decimal digits hold thirteen binary ones. -/
theorem two_pow_le_ten_pow {k n : ℕ} (small : k ≤ 13 * n) : 2 ^ k ≤ 10 ^ (4 * n) :=
  calc 2 ^ k ≤ 2 ^ (13 * n) := Nat.pow_le_pow_right (by decide) small
    _ = (2 ^ 13) ^ n := Nat.pow_mul _ _ _
    _ ≤ (10 ^ 4) ^ n := Nat.pow_le_pow_left (by decide) _
    _ = 10 ^ (4 * n) := (Nat.pow_mul _ _ _).symm

namespace Decimal

/-! Spans. -/

/-- That a ratio lies in a span. -/
def Span.Holds (span : Span) (num den : ℕ) : Prop :=
  if span.closed then span.low * den ≤ num * quarters ∧ num * quarters ≤ span.high * den
  else span.low * den < num * quarters ∧ num * quarters < span.high * den

theorem Span.holds_eq_true (span : Span) (up down point : ℕ) :
    span.holds up down point = true ↔ span.Holds (point * down) up := by
  have same : point * (quarters * down) = point * down * quarters := by
    rw [Nat.mul_comm quarters, Nat.mul_assoc]
  unfold Span.holds Span.Holds
  simp only [same]
  split <;> simp only [Bool.and_eq_true, decide_eq_true_eq]

/-- The part of a unit that belongs to a mantissa from below, in quarters. -/
def nearer (mantissa exponent : ℕ) : ℕ :=
  if mantissa = Double.hiddenBit ∧ exponent ≠ 0 then 1 else 2

theorem nearer_cases (mantissa exponent : ℕ) :
    nearer mantissa exponent = 1 ∧ mantissa = 2 ^ 52 ∧ exponent ≠ 0 ∨ nearer mantissa exponent = 2 := by
  unfold nearer
  split
  · rename_i edge
    exact .inl ⟨rfl, edge⟩
  · exact .inr rfl

theorem nearer_le (mantissa exponent : ℕ) : nearer mantissa exponent ≤ 2 := by
  unfold nearer
  split <;> decide

theorem Span.value_of (mantissa exponent : ℕ) :
    (Span.of mantissa exponent).value = 4 * (mantissa * 2 ^ exponent) := by
  simp only [Span.of, Nat.pow_eq, Nat.mul_assoc]

theorem Span.high_of (mantissa exponent : ℕ) :
    (Span.of mantissa exponent).high = 4 * (mantissa * 2 ^ exponent) + 2 * 2 ^ exponent := by
  simp only [Span.of, Nat.pow_eq, Nat.mul_assoc]

theorem Span.low_of (mantissa exponent : ℕ) : (Span.of mantissa exponent).low =
    4 * (mantissa * 2 ^ exponent) - nearer mantissa exponent * 2 ^ exponent := by
  simp only [Span.of, Nat.pow_eq, Nat.mul_assoc, nearer]
  split <;> simp

theorem Span.closed_of (mantissa exponent : ℕ) :
    (Span.of mantissa exponent).closed = true ↔ mantissa % 2 = 0 := by
  simp [Span.of]

/-- Ends that are not met need not be even. -/
theorem Span.holds_of {mantissa exponent num den : ℕ}
    (low : 4 * (mantissa * (den * 2 ^ exponent)) ≤
      num * quarters + nearer mantissa exponent * (den * 2 ^ exponent))
    (high : num * quarters ≤
      4 * (mantissa * (den * 2 ^ exponent)) + 2 * (den * 2 ^ exponent))
    (even : mantissa % 2 = 0 ∨
      4 * (mantissa * (den * 2 ^ exponent)) ≠
        num * quarters + nearer mantissa exponent * (den * 2 ^ exponent) ∧
      num * quarters ≠ 4 * (mantissa * (den * 2 ^ exponent)) + 2 * (den * 2 ^ exponent)) :
    (Span.of mantissa exponent).Holds num den := by
  have lows : (Span.of mantissa exponent).low * den =
      4 * (mantissa * (den * 2 ^ exponent)) - nearer mantissa exponent * (den * 2 ^ exponent) := by
    rw [Span.low_of, Nat.sub_mul]
    congr 1 <;> ring
  have highs : (Span.of mantissa exponent).high * den =
      4 * (mantissa * (den * 2 ^ exponent)) + 2 * (den * 2 ^ exponent) := by
    rw [Span.high_of]
    ring
  unfold Span.Holds
  rw [lows, highs]
  split
  · omega
  · rename_i closed
    rw [Span.closed_of] at closed
    have reach : den * 2 ^ exponent ≤ mantissa * (den * 2 ^ exponent) :=
      Nat.le_mul_of_pos_left _ (by omega)
    have below : nearer mantissa exponent * (den * 2 ^ exponent) ≤ 2 * (den * 2 ^ exponent) :=
      Nat.mul_le_mul_right _ (nearer_le mantissa exponent)
    omega

end Decimal

namespace Double

open Decimal

/-! The quotient of the nearest double. -/

/-- That a number of units is a quotient to the nearest, the even one of two. -/
structure RoundedTo (num den units : ℕ) : Prop where
  up : 2 * num ≤ 2 * (units * den) + den
  down : 2 * (units * den) ≤ 2 * num + den
  even : units % 2 = 0 ∨
    2 * num ≠ 2 * (units * den) + den ∧ 2 * (units * den) ≠ 2 * num + den

theorem roundDiv_rounded {den : ℕ} (some : 0 < den) (num : ℕ) :
    RoundedTo num den (roundDiv num den) := by
  have split := Nat.div_add_mod num den
  have rest := Nat.mod_lt num some
  have next : (num / den + 1) * den = den * (num / den) + den := by ring
  have here : num / den * den = den * (num / den) := Nat.mul_comm _ _
  unfold roundDiv
  simp only [Bool.or_eq_true, Bool.and_eq_true, decide_eq_true_eq, beq_iff_eq]
  constructor <;> split <;> omega

namespace RoundedTo

variable {num den mantissa place : ℕ}

theorem scaled (num : ℕ) : num * quarters = 4 * (num * 2 ^ unitPlaces) := by
  rw [quarters_eq, Nat.mul_left_comm]

/-- A mantissa that is one bit too long gives that bit to the exponent. -/
theorem carried (rounded : RoundedTo (num * 2 ^ unitPlaces) (den * 2 ^ place) (2 * hiddenBit))
    (below : num * 2 ^ unitPlaces < 2 ^ 53 * (den * 2 ^ place)) :
    (Span.of hiddenBit (place + 1)).Holds num den := by
  have half : nearer hiddenBit (place + 1) = 1 := if_pos ⟨rfl, by omega⟩
  have hidden : hiddenBit = 2 ^ 52 := rfl
  have twice : den * 2 ^ (place + 1) = 2 * (den * 2 ^ place) := by ring
  have down := rounded.down
  rw [hidden] at down
  refine Span.holds_of ?_ ?_ (.inl (by decide))
  · rw [half, twice, scaled, hidden]
    omega
  · rw [twice, scaled, hidden]
    omega

/-- Any other mantissa is one of a double, since the quotient has its last bit at this place. -/
theorem normal (rounded : RoundedTo (num * 2 ^ unitPlaces) (den * 2 ^ place) mantissa)
    (other : mantissa ≠ 2 * hiddenBit)
    (below : num * 2 ^ unitPlaces < 2 ^ 53 * (den * 2 ^ place))
    (above : place ≠ 0 → 2 ^ 52 * (den * 2 ^ place) ≤ num * 2 ^ unitPlaces) :
    mantissa < 2 * hiddenBit ∧ (hiddenBit ≤ mantissa ∨ place = 0) := by
  have hidden : hiddenBit = 2 ^ 52 := rfl
  have up := rounded.up
  have down := rounded.down
  constructor
  · have : mantissa ≤ 2 ^ 53 := by
      by_contra beyond
      have step : (2 ^ 53 + 1) * (den * 2 ^ place) ≤ mantissa * (den * 2 ^ place) :=
        Nat.mul_le_mul_right _ (Nat.not_le.mp beyond)
      omega
    omega
  · by_contra! low
    have above := above low.2
    have step : (mantissa + 1) * (den * 2 ^ place) ≤ 2 ^ 52 * (den * 2 ^ place) :=
      Nat.mul_le_mul_right _ (hidden ▸ low.1)
    rw [Nat.succ_mul] at step
    omega

theorem holds (rounded : RoundedTo (num * 2 ^ unitPlaces) (den * 2 ^ place) mantissa)
    (above : place ≠ 0 → 2 ^ 52 * (den * 2 ^ place) ≤ num * 2 ^ unitPlaces) :
    (Span.of mantissa place).Holds num den := by
  have up := rounded.up
  have down := rounded.down
  have even := rounded.even
  rcases nearer_cases mantissa place with ⟨one, edge, inner⟩ | two
  · have above := above inner
    rw [edge] at up
    refine Span.holds_of ?_ ?_ (.inl (by rw [edge]; decide))
    · rw [one, scaled, edge]
      omega
    · rw [scaled, edge]
      omega
  · refine Span.holds_of ?_ ?_ ?_
    · rw [two, scaled]
      omega
    · rw [scaled]
      omega
    · rw [two, scaled]
      omega

end RoundedTo

section Quotient

variable (num : ℕ) {den : ℕ} (some : 0 < den)

/-- The place of the last bit of the mantissa. -/
def lastPlace (num den : ℕ) : ℕ :=
  Nat.log2 (num * 2 ^ unitPlaces / den) - 52

include some

theorem quotient_lt : num * 2 ^ unitPlaces < 2 ^ 53 * (den * 2 ^ lastPlace num den) := by
  have bits : num * 2 ^ unitPlaces / den < 2 ^ (53 + lastPlace num den) := by
    refine Nat.lt_of_lt_of_le Nat.lt_log2_self (Nat.pow_le_pow_right (by decide) ?_)
    unfold lastPlace
    omega
  have below := (Nat.div_lt_iff_lt_mul some).mp bits
  rw [Nat.pow_add] at below
  calc num * 2 ^ unitPlaces < 2 ^ 53 * 2 ^ lastPlace num den * den := below
    _ = 2 ^ 53 * (den * 2 ^ lastPlace num den) := by ring

theorem le_quotient (large : lastPlace num den ≠ 0) :
    2 ^ 52 * (den * 2 ^ lastPlace num den) ≤ num * 2 ^ unitPlaces := by
  have exponent : 52 + lastPlace num den = Nat.log2 (num * 2 ^ unitPlaces / den) := by
    unfold lastPlace at large ⊢
    omega
  have nonzero : num * 2 ^ unitPlaces / den ≠ 0 := by
    intro zero
    simp [lastPlace, zero, Nat.log2_zero] at large
  have bits : 2 ^ (52 + lastPlace num den) ≤ num * 2 ^ unitPlaces / den := by
    rw [exponent]
    exact Nat.log2_self_le nonzero
  have above := (Nat.le_div_iff_mul_le some).mp bits
  rw [Nat.pow_add] at above
  calc 2 ^ 52 * (den * 2 ^ lastPlace num den) = 2 ^ 52 * 2 ^ lastPlace num den * den := by ring
    _ ≤ num * 2 ^ unitPlaces := above

/-- A ratio lies in the span of its nearest double, or beyond all of them. -/
theorem nearest_holds (negative : Bool) :
    (∃ mantissa exponent, nearest negative num den = .finite negative mantissa exponent ∧
      (finite negative mantissa exponent).Canonical ∧
      (Span.of mantissa exponent).Holds num den) ∨
    (nearest negative num den = .infinite negative ∧
      (2 ^ 54 - 1) * (den * 2 ^ (maxExponent + 1)) ≤ num * quarters) := by
  have below := quotient_lt num some
  have above := le_quotient num some
  have positive : 0 < den * 2 ^ lastPlace num den := Nat.mul_pos some (Nat.pow_pos (by decide))
  have rounded := roundDiv_rounded positive (num * 2 ^ unitPlaces)
  have near : nearest negative num den = if
      (if roundDiv (num * 2 ^ unitPlaces) (den * 2 ^ lastPlace num den) = 2 * hiddenBit then
        lastPlace num den + 1 else lastPlace num den) > maxExponent then .infinite negative
      else .finite negative
        (if roundDiv (num * 2 ^ unitPlaces) (den * 2 ^ lastPlace num den) = 2 * hiddenBit then
          hiddenBit else roundDiv (num * 2 ^ unitPlaces) (den * 2 ^ lastPlace num den))
        (if roundDiv (num * 2 ^ unitPlaces) (den * 2 ^ lastPlace num den) = 2 * hiddenBit then
          lastPlace num den + 1 else lastPlace num den) := by
    unfold nearest lastPlace
    simp only [Nat.pow_eq]
  rw [near]
  generalize roundDiv (num * 2 ^ unitPlaces) (den * 2 ^ lastPlace num den) = mantissa at *
  have far {top place : ℕ} (large : top ≤ place) : den * 2 ^ top ≤ den * 2 ^ place :=
    Nat.mul_le_mul_left _ (Nat.pow_le_pow_right (by decide) large)
  by_cases carried : mantissa = 2 * hiddenBit
  · subst carried
    rw [if_pos rfl, if_pos rfl]
    by_cases large : lastPlace num den + 1 > maxExponent
    · refine .inr ⟨if_pos large, ?_⟩
      have twice : den * 2 ^ (lastPlace num den + 1) = 2 * (den * 2 ^ lastPlace num den) := by ring
      have beyond := far (show maxExponent + 1 ≤ lastPlace num den + 1 from large)
      have down := rounded.down
      have hidden : hiddenBit = 2 ^ 52 := rfl
      rw [hidden] at down
      rw [twice] at beyond
      rw [RoundedTo.scaled]
      generalize den * 2 ^ (maxExponent + 1) = limit at *
      generalize den * 2 ^ lastPlace num den = step at *
      generalize num * 2 ^ unitPlaces = units at *
      omega
    · exact .inl ⟨hiddenBit, lastPlace num den + 1, if_neg large,
        ⟨by decide, .inl (Nat.le_refl _), Nat.not_lt.mp large⟩, rounded.carried below⟩
  · rw [if_neg carried, if_neg carried]
    by_cases large : lastPlace num den > maxExponent
    · refine .inr ⟨if_pos large, ?_⟩
      have beyond := far (show maxExponent + 1 ≤ lastPlace num den from large)
      have above := above (Nat.ne_of_gt (Nat.lt_of_le_of_lt (Nat.zero_le _) large))
      rw [RoundedTo.scaled]
      generalize den * 2 ^ (maxExponent + 1) = limit at *
      omega
    · obtain ⟨top, bottom⟩ := rounded.normal carried below above
      exact .inl ⟨mantissa, lastPlace num den, if_neg large,
        ⟨top, bottom, Nat.not_lt.mp large⟩, rounded.holds above⟩

end Quotient

/-! The doubles next to a double. -/

/-- With a smaller exponent a magnitude stays below the hidden bit, by half a unit at least. -/
theorem magnitude_of_lower {negative : Bool} {mantissa exponent above : ℕ}
    (canonical : (finite negative mantissa exponent).Canonical) (lower : exponent < above) :
    2 * (mantissa * 2 ^ exponent) + 2 ^ above ≤ 2 * hiddenBit * 2 ^ above := by
  have next : 2 ^ (exponent + 1) ≤ 2 ^ above := Nat.pow_le_pow_right (by decide) lower
  have top : mantissa + 1 ≤ 2 * hiddenBit := canonical.1
  calc 2 * (mantissa * 2 ^ exponent) + 2 ^ above = mantissa * 2 ^ (exponent + 1) + 2 ^ above := by
        ring
    _ ≤ mantissa * 2 ^ above + 2 ^ above := Nat.add_le_add_right (Nat.mul_le_mul_left _ next) _
    _ = (mantissa + 1) * 2 ^ above := by ring
    _ ≤ 2 * hiddenBit * 2 ^ above := Nat.mul_le_mul_right _ top

/-- With a greater exponent a magnitude is a multiple of the unit. -/
theorem magnitude_of_higher {mantissa exponent below : ℕ} (higher : below ≤ exponent) :
    ∃ units, mantissa * 2 ^ exponent = units * 2 ^ below := by
  refine ⟨mantissa * 2 ^ (exponent - below), ?_⟩
  rw [Nat.mul_assoc, ← Nat.pow_add, Nat.sub_add_cancel higher]

theorem unit_le_of_lt {units mantissa exponent : ℕ}
    (lt : units * 2 ^ exponent < mantissa * 2 ^ exponent) :
    units * 2 ^ exponent + 2 ^ exponent ≤ mantissa * 2 ^ exponent := by
  rw [← Nat.succ_mul]
  exact Nat.mul_le_mul_right _ (Nat.lt_of_mul_lt_mul_right lt)

section Neighbours

variable {negative negative' : Bool} {mantissa exponent mantissa' exponent' : ℕ}
  (canonical : (finite negative mantissa exponent).Canonical)
  (canonical' : (finite negative' mantissa' exponent').Canonical)

include canonical canonical'

theorem next_le (lt : mantissa * 2 ^ exponent < mantissa' * 2 ^ exponent') :
    mantissa * 2 ^ exponent + 2 ^ exponent ≤ mantissa' * 2 ^ exponent' := by
  rcases Nat.lt_or_ge exponent' exponent with lower | higher
  · have small := magnitude_of_lower canonical' lower
    have large : hiddenBit * 2 ^ exponent ≤ mantissa * 2 ^ exponent :=
      Nat.mul_le_mul_right _ (canonical.2.1.resolve_right (by omega))
    rw [Nat.mul_assoc] at small
    omega
  · obtain ⟨units, same⟩ := @magnitude_of_higher mantissa' _ _ higher
    rw [same] at lt ⊢
    exact unit_le_of_lt lt

/-- The end of a span above is at most half way to any other magnitude. -/
theorem span_high_le (lt : mantissa * 2 ^ exponent < mantissa' * 2 ^ exponent') :
    2 * (Span.of mantissa exponent).high ≤
      (Span.of mantissa exponent).value + (Span.of mantissa' exponent').value := by
  have next := next_le canonical canonical' lt
  rw [Span.high_of, Span.value_of, Span.value_of]
  omega

/-- The end below, likewise. -/
theorem le_span_low (lt : mantissa' * 2 ^ exponent' < mantissa * 2 ^ exponent) :
    (Span.of mantissa exponent).value + (Span.of mantissa' exponent').value ≤
      2 * (Span.of mantissa exponent).low := by
  rw [Span.low_of, Span.value_of, Span.value_of]
  rcases Nat.lt_or_ge exponent' exponent with lower | higher
  · have small := magnitude_of_lower canonical' lower
    rw [Nat.mul_assoc] at small
    have hidden : hiddenBit ≤ mantissa := canonical.2.1.resolve_right (by omega)
    rcases Nat.eq_or_lt_of_le hidden with edge | inside
    · rw [nearer, if_pos ⟨edge.symm, by omega⟩, ← edge]
      omega
    · rw [nearer, if_neg fun edge => Nat.ne_of_gt inside edge.1]
      have large : (hiddenBit + 1) * 2 ^ exponent ≤ mantissa * 2 ^ exponent :=
        Nat.mul_le_mul_right _ inside
      rw [Nat.succ_mul] at large
      omega
  · obtain ⟨units, same⟩ := @magnitude_of_higher mantissa' _ _ higher
    rw [same] at lt ⊢
    have step := unit_le_of_lt lt
    have reach : nearer mantissa exponent * 2 ^ exponent ≤ 2 * 2 ^ exponent :=
      Nat.mul_le_mul_right _ (nearer_le mantissa exponent)
    omega

end Neighbours

end Double

/-! Rounding. -/

namespace Decimal

/-- That a span holds a number of quarters. -/
def Span.Contains (span : Span) (q : ℚ) : Prop :=
  if span.closed then span.low ≤ q ∧ q ≤ span.high else span.low < q ∧ q < span.high

theorem Span.contains_iff (span : Span) {num den : ℕ} (some : 0 < den) :
    span.Contains (num / den * quarters) ↔ span.Holds num den := by
  have positive : (0 : ℚ) < den := Nat.cast_pos.mpr some
  have above (n : ℕ) : (n : ℚ) ≤ num / den * quarters ↔ n * den ≤ num * quarters := by
    rw [div_mul_eq_mul_div, le_div_iff₀ positive]
    exact_mod_cast Iff.rfl
  have below (n : ℕ) : num / den * quarters ≤ (n : ℚ) ↔ num * quarters ≤ n * den := by
    rw [div_mul_eq_mul_div, div_le_iff₀ positive]
    exact_mod_cast Iff.rfl
  unfold Span.Contains Span.Holds
  split
  · rw [above, below]
  · rw [← not_le, ← not_le, above, below, not_le, not_le]

theorem Span.low_le {span : Span} {q : ℚ} (h : span.Contains q) : span.low ≤ q := by
  unfold Span.Contains at h
  split at h
  · exact h.1
  · exact h.1.le

theorem Span.le_high {span : Span} {q : ℚ} (h : span.Contains q) : q ≤ span.high := by
  unfold Span.Contains at h
  split at h
  · exact h.2
  · exact h.2.le

/-- An end that is met is that of an even mantissa. -/
theorem Span.closed_of_end {span : Span} {q : ℚ} (h : span.Contains q)
    (met : q ≤ span.low ∨ span.high ≤ q) : span.closed = true := by
  unfold Span.Contains at h
  split at h
  · assumption
  · rcases met with low | high
    · exact absurd h.1 (not_lt.mpr low)
    · exact absurd h.2 (not_lt.mpr high)

end Decimal

namespace Double

open Decimal

theorem magnitude_eq (mantissa exponent : ℕ) :
    magnitude mantissa exponent * quarters = (Span.of mantissa exponent).value := by
  have unit : (2 : ℚ) ^ unitPlaces ≠ 0 := pow_ne_zero _ two_ne_zero
  rw [Span.value_of, quarters_eq, magnitude]
  push_cast
  field_simp

theorem magnitude_nonneg (mantissa exponent : ℕ) : 0 ≤ magnitude mantissa exponent := by
  unfold magnitude
  positivity

theorem magnitude_pos {mantissa : ℕ} (some : 0 < mantissa) (exponent : ℕ) :
    0 < magnitude mantissa exponent := by
  unfold magnitude
  positivity

theorem abs_sub_le_iff_half {q a b : ℚ} (lt : a < b) : |q - a| ≤ |q - b| ↔ 2 * q ≤ a + b := by
  rw [← sq_le_sq]
  constructor <;> intro h <;> nlinarith

theorem abs_sub_ge_iff_half {q a b : ℚ} (lt : a < b) : |q - b| ≤ |q - a| ↔ a + b ≤ 2 * q := by
  rw [← sq_le_sq]
  constructor <;> intro h <;> nlinarith

theorem abs_sub_eq_iff_half {q a b : ℚ} (lt : a < b) : |q - a| = |q - b| ↔ 2 * q = a + b := by
  rw [le_antisymm_iff, abs_sub_le_iff_half lt, abs_sub_ge_iff_half lt, ← le_antisymm_iff]

/-- Of two magnitudes, the one whose span holds a number is nearer to it. -/
theorem nearer_of_contains {negative negative' : Bool} {mantissa exponent mantissa' exponent' : ℕ}
    {q : ℚ} (canonical : (finite negative mantissa exponent).Canonical)
    (canonical' : (finite negative' mantissa' exponent').Canonical)
    (inside : (Span.of mantissa exponent).Contains q)
    (other : (Span.of mantissa' exponent').value ≠ (Span.of mantissa exponent).value) :
    |q - (Span.of mantissa exponent).value| ≤ |q - (Span.of mantissa' exponent').value| ∧
      (|q - (Span.of mantissa' exponent').value| = |q - (Span.of mantissa exponent).value| →
        mantissa % 2 = 0) := by
  rw [← Span.closed_of mantissa exponent]
  have low := Span.low_le inside
  have high := Span.le_high inside
  have values : mantissa * 2 ^ exponent ≠ mantissa' * 2 ^ exponent' := fun same =>
    other (by rw [Span.value_of, Span.value_of, same])
  rcases Nat.lt_or_gt_of_ne values with above | below
  · have half : 2 * ((Span.of mantissa exponent).high : ℚ) ≤
        (Span.of mantissa exponent).value + (Span.of mantissa' exponent').value := by
      exact_mod_cast span_high_le canonical canonical' above
    have lt : ((Span.of mantissa exponent).value : ℚ) < (Span.of mantissa' exponent').value := by
      rw [Span.value_of, Span.value_of]
      exact_mod_cast Nat.mul_lt_mul_of_pos_left above (show 0 < 4 by decide)
    refine ⟨(abs_sub_le_iff_half lt).mpr (by linarith), fun tie => ?_⟩
    have middle := (abs_sub_eq_iff_half lt).mp tie.symm
    exact Span.closed_of_end inside (.inr (by linarith))
  · have half : ((Span.of mantissa exponent).value : ℚ) + (Span.of mantissa' exponent').value ≤
        2 * (Span.of mantissa exponent).low := by
      exact_mod_cast le_span_low canonical canonical' below
    have lt : ((Span.of mantissa' exponent').value : ℚ) < (Span.of mantissa exponent).value := by
      rw [Span.value_of, Span.value_of]
      exact_mod_cast Nat.mul_lt_mul_of_pos_left below (show 0 < 4 by decide)
    refine ⟨(abs_sub_ge_iff_half lt).mpr (by linarith), fun tie => ?_⟩
    have middle := (abs_sub_eq_iff_half lt).mp tie
    exact Span.closed_of_end inside (.inl (by linarith))

theorem magnitude_zero (exponent : ℕ) : magnitude 0 exponent = 0 := by
  simp [magnitude]

section Contained

variable {mantissa exponent : ℕ} {q : ℚ} (canonical : (finite false mantissa exponent).Canonical)
  (inside : (Span.of mantissa exponent).Contains (q * quarters))

include canonical inside

theorem magnitude_nearest {mantissa' exponent' : ℕ}
    (canonical' : (finite false mantissa' exponent').Canonical) :
    |q - magnitude mantissa exponent| ≤ |q - magnitude mantissa' exponent'| ∧
      (|q - magnitude mantissa' exponent'| = |q - magnitude mantissa exponent| →
        magnitude mantissa' exponent' ≠ magnitude mantissa exponent → mantissa % 2 = 0) := by
  have unit : (0 : ℚ) < quarters := Nat.cast_pos.mpr quarters_pos
  have scaled (m e : ℕ) :
      |q * quarters - (Span.of m e).value| = |q - magnitude m e| * quarters := by
    rw [← magnitude_eq, ← sub_mul, abs_mul, abs_of_pos unit]
  by_cases same : (Span.of mantissa' exponent').value = (Span.of mantissa exponent).value
  · have equal : magnitude mantissa' exponent' = magnitude mantissa exponent := by
      apply mul_right_cancel₀ unit.ne'
      rw [magnitude_eq, magnitude_eq, same]
    exact ⟨by rw [equal], fun _ other => absurd equal other⟩
  · obtain ⟨near, even⟩ := nearer_of_contains canonical canonical' inside same
    rw [scaled, scaled] at near even
    exact ⟨le_of_mul_le_mul_right near unit, fun tie _ => even (by rw [tie])⟩

/-- The doubles of the other sign are no nearer. -/
theorem nearest_of_contains (positive : 0 ≤ q) {negative' : Bool} {mantissa' exponent' : ℕ}
    (canonical' : (finite negative' mantissa' exponent').Canonical) :
    |q - magnitude mantissa exponent| ≤ |q - exact negative' mantissa' exponent'| ∧
      (|q - exact negative' mantissa' exponent'| = |q - magnitude mantissa exponent| →
        exact negative' mantissa' exponent' ≠ magnitude mantissa exponent →
        mantissa % 2 = 0) := by
  obtain ⟨near, even⟩ := magnitude_nearest canonical inside canonical'
  cases negative' with
  | false => exact ⟨near, even⟩
  | true =>
    have opposite : exact true mantissa' exponent' = -magnitude mantissa' exponent' := rfl
    have nonneg := magnitude_nonneg mantissa' exponent'
    have far : |q - exact true mantissa' exponent'| = q + magnitude mantissa' exponent' := by
      rw [opposite, sub_neg_eq_add, abs_of_nonneg (add_nonneg positive nonneg)]
    have between : |q - magnitude mantissa' exponent'| ≤ q + magnitude mantissa' exponent' :=
      abs_le.mpr ⟨by linarith, by linarith⟩
    rw [far]
    refine ⟨near.trans between, fun tie other => ?_⟩
    rw [opposite] at other
    by_cases same : magnitude mantissa' exponent' = magnitude mantissa exponent
    · -- Zero would be nearer than a magnitude that is as near as its opposite.
      have zero := (magnitude_nearest canonical inside
        (show (finite false 0 0).Canonical from ⟨by decide, .inr rfl, by decide⟩)).1
      rw [magnitude_zero, sub_zero, abs_of_nonneg positive, ← tie, same] at zero
      rw [same] at other nonneg
      exact absurd (by linarith) other
    · exact even (le_antisymm (between.trans tie.le) near) same

end Contained

/-! Rounding to the double of a span. -/

/-- The least magnitude that is infinite, in quarters of the least unit. -/
def limit : ℕ := (2 ^ 54 - 1) * 2 ^ (maxExponent + 1)

theorem overflow_eq : overflow * quarters = limit := by
  have units (place : ℕ) : (2 : ℚ) ^ (54 + place) - 2 ^ place = (2 ^ 54 - 1) * 2 ^ place := by
    ring
  have whole : overflow = (2 ^ 54 - 1) * 2 ^ 970 := units 970
  have fits : (2 : ℚ) ^ 970 * (4 * 2 ^ unitPlaces) = 2 ^ (maxExponent + 1) := by
    rw [show (4 : ℚ) = 2 ^ 2 by norm_num, ← pow_add, ← pow_add]
    rfl
  rw [whole, quarters_eq, mul_assoc, limit]
  push_cast
  rw [fits]
  norm_num

theorem overflow_pos : 0 < overflow := by
  have unit : (0 : ℚ) < quarters := Nat.cast_pos.mpr quarters_pos
  have some : 0 < limit := Nat.mul_pos (by decide) (Nat.pow_pos (by decide))
  apply pos_of_mul_pos_left _ unit.le
  rw [overflow_eq]
  exact Nat.cast_pos.mpr some

theorem limit_eq : limit = (4 * 2 ^ 53 - 2) * 2 ^ maxExponent := by
  rw [limit, Nat.pow_succ]
  ring

/-- The span of the greatest double ends where rounding to infinity begins. -/
theorem lt_overflow {negative : Bool} {mantissa exponent : ℕ} {q : ℚ}
    (canonical : (finite negative mantissa exponent).Canonical)
    (inside : (Span.of mantissa exponent).Contains (q * quarters)) : q < overflow := by
  have unit : (0 : ℚ) < quarters := Nat.cast_pos.mpr quarters_pos
  have top : mantissa + 1 ≤ 2 ^ 53 := canonical.1
  have scale : 2 ^ exponent ≤ 2 ^ maxExponent := Nat.pow_le_pow_right (by decide) canonical.2.2
  have high : (Span.of mantissa exponent).high = (4 * mantissa + 2) * 2 ^ exponent := by
    rw [Span.high_of]
    ring
  have within : (Span.of mantissa exponent).high ≤ limit := by
    rw [high, limit_eq]
    exact Nat.mul_le_mul (by omega) scale
  have within' : ((Span.of mantissa exponent).high : ℚ) ≤ limit := Nat.cast_le.mpr within
  apply lt_of_mul_lt_mul_right _ unit.le
  rw [overflow_eq]
  refine lt_of_not_ge fun beyond => ?_
  -- The greatest double is odd, and so the end of its span does not belong to it.
  have even := (Span.closed_of mantissa exponent).mp
    (Span.closed_of_end inside (.inr (within'.trans beyond)))
  have apart : (Span.of mantissa exponent).high < limit := by
    rw [high, limit_eq]
    exact Nat.mul_lt_mul_of_lt_of_le (by omega) scale (Nat.pow_pos (by decide))
  have apart' : ((Span.of mantissa exponent).high : ℚ) < limit := Nat.cast_lt.mpr apart
  exact absurd (Span.le_high inside) (not_le.mpr (apart'.trans_le beyond))

theorem abs_exact (negative : Bool) (mantissa exponent : ℕ) :
    |exact negative mantissa exponent| = magnitude mantissa exponent := by
  cases negative <;> simp [exact, abs_of_nonneg (magnitude_nonneg mantissa exponent)]

theorem exact_bne (negative negative' : Bool) (mantissa exponent : ℕ) :
    exact (negative' != negative) mantissa exponent =
      if negative then -exact negative' mantissa exponent else exact negative' mantissa exponent := by
  cases negative <;> cases negative' <;> simp [exact]

theorem rounds_of_contains (negative : Bool) {mantissa exponent : ℕ} {q : ℚ} (positive : 0 ≤ q)
    (canonical : (finite negative mantissa exponent).Canonical)
    (inside : (Span.of mantissa exponent).Contains (q * quarters)) :
    Rounds (if negative then -q else q) (.finite negative mantissa exponent) := by
  have size : |if negative then -q else q| = q := by
    cases negative <;> simp [abs_of_nonneg positive]
  have mirrored (negative' : Bool) (m e : ℕ) :
      |(if negative then -q else q) - exact negative' m e| =
        |q - exact (negative' != negative) m e| := by
    cases negative with
    | false => simp
    | true => rw [exact_bne, if_pos rfl, if_pos rfl, ← abs_neg, neg_sub', neg_neg]
  have own : |(if negative then -q else q) - exact negative mantissa exponent| =
      |q - magnitude mantissa exponent| := by
    rw [mirrored, bne_self_eq_false]
    rfl
  refine .finite canonical ?_ ?_ ?_ ?_
  · rw [size]
    exact lt_overflow canonical inside
  · intro nonzero
    cases negative with
    | false => simpa using positive
    | true => simpa using lt_of_le_of_ne positive (Ne.symm (by simpa using nonzero))
  · intro negative' mantissa' exponent' canonical'
    rw [own, mirrored]
    have mirror : (finite (negative' != negative) mantissa' exponent').Canonical := canonical'
    exact (nearest_of_contains canonical inside positive mirror).1
  · intro negative' mantissa' exponent' canonical' tie other
    rw [own, mirrored] at tie
    have mirror : (finite (negative' != negative) mantissa' exponent').Canonical := canonical'
    refine (nearest_of_contains canonical inside positive mirror).2 tie fun same => other ?_
    rw [exact_bne] at same
    cases negative with
    | false => exact same
    | true => exact neg_eq_iff_eq_neg.mp same

/-- The nearest double is what a ratio rounds to. -/
theorem nearest_rounds (negative : Bool) (num : ℕ) {den : ℕ} (some : 0 < den) :
    Rounds (if negative then -(num / den : ℚ) else num / den) (nearest negative num den) := by
  have positive : (0 : ℚ) ≤ num / den := by positivity
  rcases nearest_holds num some negative with ⟨m, e, near, canonical, inside⟩ | ⟨near, far⟩
  · rw [near]
    exact rounds_of_contains negative positive canonical ((Span.contains_iff _ some).mpr inside)
  · have unit : (0 : ℚ) < quarters := Nat.cast_pos.mpr quarters_pos
    have beyond : overflow ≤ num / den := by
      apply le_of_mul_le_mul_right _ unit
      rw [overflow_eq, div_mul_eq_mul_div, le_div_iff₀ (Nat.cast_pos.mpr some)]
      have whole : limit * den ≤ num * quarters := by
        rw [limit]
        linarith
      exact_mod_cast whole
    have large : (0 : ℚ) < num / den := lt_of_lt_of_le overflow_pos beyond
    rw [near]
    cases negative with
    | false => exact .infinite (by simpa [abs_of_pos large] using beyond) (by simp [positive])
    | true => exact .infinite (by simpa [abs_of_pos large] using beyond) (by simpa using large)

/-! A number rounds to one double, and a greater number to no smaller one. -/

theorem canonical_unique {negative negative' : Bool} {mantissa exponent mantissa' exponent' : ℕ}
    (canonical : (finite negative mantissa exponent).Canonical)
    (canonical' : (finite negative' mantissa' exponent').Canonical)
    (same : mantissa * 2 ^ exponent = mantissa' * 2 ^ exponent') :
    mantissa = mantissa' ∧ exponent = exponent' := by
  have apart {m e m' e' : ℕ} (small : (finite negative m e).Canonical)
      (large : (finite negative m' e').Canonical) (lower : e < e') :
      m * 2 ^ e ≠ m' * 2 ^ e' := by
    have below := magnitude_of_lower small lower
    have above : hiddenBit * 2 ^ e' ≤ m' * 2 ^ e' :=
      Nat.mul_le_mul_right _ (large.2.1.resolve_right (by omega))
    have unit : 0 < 2 ^ e' := Nat.pow_pos (by decide)
    rw [Nat.mul_assoc] at below
    omega
  rcases Nat.lt_trichotomy exponent exponent' with lower | equal | higher
  · exact absurd same (apart canonical canonical' lower)
  · subst equal
    exact ⟨Nat.eq_of_mul_eq_mul_right (Nat.pow_pos (by decide)) same, rfl⟩
  · exact absurd same.symm (apart canonical' canonical higher)

theorem magnitude_lt_iff {mantissa exponent mantissa' exponent' : ℕ} :
    magnitude mantissa exponent < magnitude mantissa' exponent' ↔
      mantissa * 2 ^ exponent < mantissa' * 2 ^ exponent' := by
  have unit : (0 : ℚ) < 2 ^ unitPlaces := pow_pos two_pos _
  unfold magnitude
  rw [div_lt_div_iff_of_pos_right unit]
  exact_mod_cast Iff.rfl

theorem magnitude_injective {negative negative' : Bool}
    {mantissa exponent mantissa' exponent' : ℕ}
    (canonical : (finite negative mantissa exponent).Canonical)
    (canonical' : (finite negative' mantissa' exponent').Canonical)
    (same : magnitude mantissa exponent = magnitude mantissa' exponent') :
    mantissa = mantissa' ∧ exponent = exponent' := by
  refine canonical_unique canonical canonical' (le_antisymm ?_ ?_) <;> refine not_lt.mp fun lt => ?_
  · exact absurd (magnitude_lt_iff.mpr lt) (not_lt.mpr same.le)
  · exact absurd (magnitude_lt_iff.mpr lt) (not_lt.mpr same.ge)

/-- The distance of a double on the same side. -/
theorem abs_sub_exact {negative : Bool} {q : ℚ} (sign : q ≠ 0 → (negative = true ↔ q < 0))
    (mantissa exponent : ℕ) :
    |q - exact negative mantissa exponent| = |(|q|) - magnitude mantissa exponent| := by
  rcases lt_trichotomy q 0 with below | rfl | above
  · have minus : negative = true := (sign below.ne).mpr below
    subst minus
    rw [abs_of_neg below, ← abs_neg, neg_sub', exact, if_pos rfl,
      neg_neg]
  · cases negative <;> simp [exact]
  · have plus : negative = false := by
      rw [← Bool.not_eq_true, sign above.ne']
      exact not_lt.mpr above.le
    subst plus
    rw [abs_of_pos above]
    rfl

/-- What is nearest among all doubles is nearest among those of its sign. -/
theorem Rounds.magnitudes {q : ℚ} {negative : Bool} {mantissa exponent : ℕ}
    (h : Rounds q (.finite negative mantissa exponent)) {mantissa' exponent' : ℕ}
    (canonical' : (Double.finite negative mantissa' exponent').Canonical) :
    |(|q|) - magnitude mantissa exponent| ≤ |(|q|) - magnitude mantissa' exponent'| ∧
      (|(|q|) - magnitude mantissa' exponent'| = |(|q|) - magnitude mantissa exponent| →
        magnitude mantissa' exponent' ≠ magnitude mantissa exponent → mantissa % 2 = 0) := by
  cases h with
  | finite canonical inside sign nearest even =>
    have distance := abs_sub_exact sign
    have near := nearest negative mantissa' exponent' canonical'
    have tied := even negative mantissa' exponent' canonical'
    rw [distance, distance] at near tied
    refine ⟨near, fun tie other => tied tie fun same => other ?_⟩
    cases negative with
    | false => exact same
    | true => exact neg_injective same

theorem Rounds.canonical {q : ℚ} {negative : Bool} {mantissa exponent : ℕ}
    (h : Rounds q (.finite negative mantissa exponent)) :
    (Double.finite negative mantissa exponent).Canonical := by
  cases h
  assumption

/-- A number half way between two doubles does not round to both. -/
theorem Rounds.not_tied {q q' : ℚ} {negative negative' : Bool}
    {mantissa exponent mantissa' exponent' : ℕ}
    (h : Rounds q (.finite negative mantissa exponent))
    (h' : Rounds q' (.finite negative' mantissa' exponent')) (size : |q| = |q'|)
    (lt : magnitude mantissa exponent < magnitude mantissa' exponent') :
    2 * |q| ≠ magnitude mantissa exponent + magnitude mantissa' exponent' := by
  intro middle
  have canonical := h.canonical
  have canonical' : (Double.finite negative mantissa' exponent').Canonical := h'.canonical
  have tie := (abs_sub_eq_iff_half lt).mpr middle
  have even := (h.magnitudes canonical').2 tie.symm lt.ne'
  have even' := (h'.magnitudes
    (show (Double.finite negative' mantissa exponent).Canonical from canonical)).2 (size ▸ tie) lt.ne
  have next : (Double.finite negative (mantissa + 1) exponent).Canonical := by
    obtain ⟨top, bottom, range⟩ := canonical
    have hidden : hiddenBit % 2 = 0 := by decide
    exact ⟨by omega, by omega, range⟩
  have above : magnitude mantissa exponent < magnitude (mantissa + 1) exponent :=
    magnitude_lt_iff.mpr (Nat.mul_lt_mul_of_pos_right (Nat.lt_succ_self _)
      (Nat.pow_pos (by decide)))
  have reached : magnitude mantissa' exponent' ≤ magnitude (mantissa + 1) exponent := by
    have half := (abs_sub_le_iff_half above).mp (h.magnitudes next).1
    linarith
  have step := next_le canonical canonical' (magnitude_lt_iff.mp lt)
  rw [← Nat.succ_mul] at step
  have met := Nat.le_antisymm step (not_lt.mp fun gt => absurd reached
    (not_le.mpr (magnitude_lt_iff.mpr gt)))
  have odd := (canonical_unique next canonical' met).1
  omega

/-- A greater number rounds to no smaller double. -/
theorem Rounds.mono {q q' : ℚ} {negative negative' : Bool}
    {mantissa exponent mantissa' exponent' : ℕ}
    (h : Rounds q (.finite negative mantissa exponent))
    (h' : Rounds q' (.finite negative' mantissa' exponent')) (le : |q| ≤ |q'|) :
    magnitude mantissa exponent ≤ magnitude mantissa' exponent' := by
  refine not_lt.mp fun lt => ?_
  have above := (abs_sub_ge_iff_half lt).mp (h.magnitudes
    (show (Double.finite negative mantissa' exponent').Canonical from h'.canonical)).1
  have below := (abs_sub_le_iff_half lt).mp (h'.magnitudes
    (show (Double.finite negative' mantissa exponent).Canonical from h.canonical)).1
  have size : |q| = |q'| := by linarith
  exact h'.not_tied h size.symm lt (by linarith)

/-- A number that is not zero rounds to one double. -/
theorem Rounds.unique {q : ℚ} (nonzero : q ≠ 0) {x y : Double} (hx : Rounds q x)
    (hy : Rounds q y) : x = y := by
  cases hx with
  | finite canonical inside sign nearest even =>
    cases hy with
    | finite canonical' inside' sign' nearest' even' =>
      have hx := Rounds.finite canonical inside sign nearest even
      have hy := Rounds.finite canonical' inside' sign' nearest' even'
      obtain ⟨rfl, rfl⟩ := magnitude_injective canonical canonical'
        (le_antisymm (hx.mono hy le_rfl) (hy.mono hx le_rfl))
      rw [Bool.eq_iff_iff.mpr ((sign nonzero).trans (sign' nonzero).symm)]
    | infinite beyond => exact absurd inside (not_lt.mpr beyond)
  | infinite beyond sign =>
    cases hy with
    | finite _ inside => exact absurd inside (not_lt.mpr beyond)
    | infinite _ sign' => rw [Bool.eq_iff_iff.mpr (sign.trans sign'.symm)]

/-- Only zero is the double of zero. -/
theorem Rounds.magnitude_eq_zero {negative : Bool} {mantissa exponent : ℕ}
    (h : Rounds 0 (.finite negative mantissa exponent)) : magnitude mantissa exponent = 0 := by
  have zero : (Double.finite negative 0 0).Canonical := ⟨by decide, .inr rfl, by decide⟩
  have near := (h.magnitudes zero).1
  rwa [magnitude_zero, abs_zero, sub_zero, abs_zero, zero_sub, abs_neg, abs_nonpos_iff] at near

/-- Only the numbers of its span round to a double. -/
theorem contains_of_rounds {negative : Bool} {mantissa exponent : ℕ} {q : ℚ} (positive : 0 < q)
    (h : Rounds (if negative then -q else q) (.finite negative mantissa exponent)) :
    (Span.of mantissa exponent).Contains (q * quarters) := by
  have ratio : (q.num.natAbs : ℚ) / q.den = q := by
    rw [Nat.cast_natAbs, abs_of_pos (Rat.num_pos.mpr positive)]
    exact Rat.num_div_den q
  have nonzero : (if negative then -q else q) ≠ 0 := by
    cases negative <;> simp [positive.ne']
  have rounds := nearest_rounds negative q.num.natAbs q.den_pos
  rw [ratio] at rounds
  have same := rounds.unique nonzero h
  rcases nearest_holds q.num.natAbs q.den_pos negative with
    ⟨m, e, near, -, inside⟩ | ⟨near, -⟩
  · cases near.symm.trans same
    rw [← ratio, Span.contains_iff _ q.den_pos]
    exact inside
  · cases near.symm.trans same

end Double
end ThemeSheet
