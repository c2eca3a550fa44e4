import Mathlib
import ThemeSheet.Proofs.LiteralValue
import ThemeSheet.Proofs.ShortestDigits

/-! The texts of numbers: their shapes, and what they are read back as. -/

namespace ThemeSheet

open Text

/-! Two shapes of a numeral without a sign. -/

/-- Digits behind a point, without trailing zeros. -/
structure Fraction (text : List Char) : Prop where
  some : text ≠ []
  digits : ∀ c ∈ text, c.isDigit = true
  last : ∀ c ∈ text.getLast?, c ≠ '0'

/-- A whole number without leading zeros, and maybe a fraction. -/
inductive Plain : List Char → Prop
  | whole (n : ℕ) : Plain (Nat.toDigits 10 n)
  | point (n : ℕ) {text} (fraction : Fraction text) : Plain (Nat.toDigits 10 n ++ '.' :: text)

/-- A digit that is not zero, maybe a fraction, and an exponent with its sign and without leading
zeros. -/
inductive Scientific : List Char → Prop
  | whole {d exponent : ℕ} {mark} (digit : 0 < d ∧ d < 10) (signed : mark = '+' ∨ mark = '-')
    (some : 0 < exponent) : Scientific (Nat.toDigits 10 d ++ 'e' :: mark :: Nat.toDigits 10 exponent)
  | point {d exponent : ℕ} {mark text} (digit : 0 < d ∧ d < 10) (fraction : Fraction text)
    (signed : mark = '+' ∨ mark = '-') (some : 0 < exponent) :
    Scientific (Nat.toDigits 10 d ++ '.' :: (text ++ 'e' :: mark :: Nat.toDigits 10 exponent))

/-! Numerals cut in two. -/

theorem toDigits_split {n : ℕ} (places : ℕ) (large : 10 ^ places ≤ n) :
    ∃ back, back.length = places ∧ Nat.toDigits 10 n = Nat.toDigits 10 (n / 10 ^ places) ++ back := by
  induction places generalizing n with
  | zero => exact ⟨[], rfl, by simp⟩
  | succ places ih =>
    have more : 10 ^ places ≤ n / 10 := by
      rw [Nat.le_div_iff_mul_le (by decide), ← Nat.pow_succ]
      exact large
    have two : 10 ≤ n := by
      have := Nat.pow_pos (n := places) (show 0 < 10 by decide)
      omega
    obtain ⟨back, length, split⟩ := ih more
    refine ⟨back ++ [(n % 10).digitChar], by simp [length], ?_⟩
    rw [Nat.toDigits_of_base_le (by decide) two, split, Nat.div_div_eq_div_mul, ← Nat.pow_succ',
      List.append_assoc]

theorem getLast?_toDigits (n : ℕ) :
    (Nat.toDigits 10 n).getLast? = some (n % 10).digitChar := by
  by_cases one : n < 10
  · rw [Nat.toDigits_of_lt_base one, Nat.mod_eq_of_lt one, List.getLast?_singleton]
  · rw [Nat.toDigits_of_base_le (by decide) (Nat.not_lt.mp one), List.getLast?_concat]

theorem getLast?_toDigits_ne {n : ℕ} (trimmed : n % 10 ≠ 0) :
    ∀ c ∈ (Nat.toDigits 10 n).getLast?, c ≠ '0' := by
  have each : ∀ d < 10, d ≠ 0 → Nat.digitChar d ≠ '0' := by decide
  intro c last
  rw [getLast?_toDigits] at last
  cases last
  exact each _ (Nat.mod_lt n (by decide)) trimmed

/-- The end of a numeral without trailing zeros is a fraction. -/
theorem fraction_of_suffix {n : ℕ} (trimmed : n % 10 ≠ 0) {front back : List Char}
    (split : Nat.toDigits 10 n = front ++ back) (some : back ≠ []) (zeros : ℕ) :
    Fraction (List.replicate zeros '0' ++ back) := by
  refine ⟨by simp [some], fun c mem => ?_, ?_⟩
  · rcases List.mem_append.mp mem with zero | digit
    · rw [List.eq_of_mem_replicate zero]
      rfl
    · exact Nat.isDigit_of_mem_toDigits (by decide) (by decide)
        (split ▸ List.mem_append_right front digit)
  · have last := getLast?_toDigits_ne trimmed
    rw [split, List.getLast?_append_of_ne_nil _ some] at last
    rwa [List.getLast?_append_of_ne_nil _ some]

/-! Layouts. -/

theorem ofDigits_zeros (base zeros : ℕ) (digits : List ℕ) :
    ofDigits base (List.replicate zeros 0 ++ digits) = ofDigits base digits := by
  induction zeros with
  | zero => rfl
  | succ zeros ih =>
    rw [List.replicate_succ, List.cons_append, ofDigits_cons, Nat.zero_mul, Nat.zero_add, ih]

namespace NumberLiteral

/-- A numeral of a number, before which a sign may stand. -/
def Numeral (text : List Char) (q : ℚ) : Prop :=
  ∃ magnitude : Magnitude, magnitude.value = q ∧ ∀ negative sign, Signed negative sign →
    Spelled ⟨negative, magnitude⟩ (sign ++ text)

theorem numeral_of {whole tail : List ℕ} {mantissa exponent : List Char} {power : ℤ} {q : ℚ}
    (digits : Mantissa whole tail mantissa) (raised : Power power exponent)
    (value : (ofDigits 10 (whole ++ tail) : ℚ) * 10 ^ (power - tail.length) = q) :
    Numeral (mantissa ++ exponent) q :=
  ⟨.decimal (whole ++ tail) (power - tail.length), value,
    fun _ _ signed => .decimal signed digits raised⟩

theorem Digits.cut {value? : Char → Option ℕ} {digits : List ℕ} {front back : List Char}
    (run : Digits value? digits (front ++ back)) :
    ∃ whole tail, digits = whole ++ tail ∧ Digits value? whole front ∧ Digits value? tail back := by
  refine ⟨digits.take front.length, digits.drop front.length,
    (List.take_append_drop _ _).symm, ?_, ?_⟩
  · unfold Digits at *
    rw [List.map_take, ← run, List.map_append]
    simp
  · unfold Digits at *
    rw [List.map_drop, ← run, List.map_append]
    simp

theorem Digits.length_eq {value? : Char → Option ℕ} {digits : List ℕ} {text : List Char}
    (run : Digits value? digits text) : digits.length = text.length := by
  simpa using (congrArg List.length run).symm

/-- An exponent behind its letter. -/
theorem power_exponent (exponent : ℤ) :
    Power exponent ('e' :: (if exponent < 0 then '-' else '+') ::
      Nat.toDigits 10 exponent.natAbs) := by
  obtain ⟨digits, run, number, -⟩ := digits_of_toDigits exponent.natAbs
  have some : digits ≠ [] := fun none => Nat.toDigits_ne_nil ((digits_nil_iff run).mp none)
  split
  · have power := Power.some (.inl rfl) .minus run some
    rwa [if_pos rfl, number, show -(exponent.natAbs : ℤ) = exponent by omega] at power
  · have power := Power.some (.inl rfl) .plus run some
    rwa [if_neg Bool.false_ne_true, number, show (exponent.natAbs : ℤ) = exponent by omega] at power

end NumberLiteral

namespace Decimal

open NumberLiteral

/-- The place of the point behind the first digit. -/
def point (d : Decimal) : ℤ :=
  (Nat.toDigits 10 d.digits).length + d.place

/-- The digits of a number, cut before the last of them. -/
theorem toDigits_cut {n places : ℕ} (large : 10 ^ places ≤ n) :
    ∃ back whole tail, Nat.toDigits 10 n = Nat.toDigits 10 (n / 10 ^ places) ++ back ∧
      back.length = places ∧ Digits decimalValue? whole (Nat.toDigits 10 (n / 10 ^ places)) ∧
      Digits decimalValue? tail back ∧ whole ≠ [] ∧ ofDigits 10 (whole ++ tail) = n := by
  obtain ⟨back, length, split⟩ := toDigits_split places large
  obtain ⟨digits, run, number, -⟩ := digits_of_toDigits n
  rw [split] at run
  obtain ⟨whole, tail, rfl, before, behind⟩ := run.cut
  have some : whole ≠ [] := fun none => Nat.toDigits_ne_nil ((digits_nil_iff before).mp none)
  exact ⟨back, whole, tail, split, length, before, behind, some, number⟩

/-- What stands before all but one of the digits is one digit, and no zero. -/
theorem leading_digit {n : ℕ} (some : 0 < n) :
    0 < n / 10 ^ ((Nat.toDigits 10 n).length - 1) ∧
      n / 10 ^ ((Nat.toDigits 10 n).length - 1) < 10 := by
  have first := Nat.length_toDigits_pos (b := 10) (n := n)
  refine ⟨Nat.div_pos (pow_length_le some) (Nat.pow_pos (by decide)), ?_⟩
  have all : ((Nat.toDigits 10 n).length - 1).succ = (Nat.toDigits 10 n).length := by omega
  rw [Nat.div_lt_iff_lt_mul (Nat.pow_pos (by decide)), ← Nat.pow_succ', all]
  exact lt_pow_length n

section Layout

variable {d : Decimal} (trimmed : d.digits % 10 ≠ 0)

include trimmed

/-- A whole number. -/
theorem layout_whole (inside : 0 ≤ d.place ∧ d.point ≤ 21) :
    Plain d.layout ∧ Numeral d.layout d.value := by
  obtain ⟨places, place⟩ := Int.eq_ofNat_of_zero_le inside.1
  have shape : d.layout = Nat.toDigits 10 (d.digits * 10 ^ places) := by
    have first : ((Nat.toDigits 10 d.digits).length : ℤ) ≤
        (Nat.toDigits 10 d.digits).length + d.place ∧
        ((Nat.toDigits 10 d.digits).length : ℤ) + d.place ≤ 21 := ⟨by omega, inside.2⟩
    rw [toDigits_shifted (by omega), layout]
    dsimp only
    rw [if_pos first, place]
    rfl
  obtain ⟨digits, run, number, -⟩ := digits_of_toDigits (d.digits * 10 ^ places)
  have some : digits ≠ [] := fun none =>
    Nat.toDigits_ne_nil ((digits_nil_iff run).mp none)
  rw [shape]
  refine ⟨.whole _, ?_⟩
  have numeral := numeral_of (q := d.value) (.whole run some) .none ?_
  · simpa using numeral
  · rw [List.append_nil, number, value, place]
    simp

/-- Digits on both sides of the point. -/
theorem layout_point (negative : d.place < 0) (inside : 0 < d.point ∧ d.point ≤ 21) :
    Plain d.layout ∧ Numeral d.layout d.value := by
  obtain ⟨places, place⟩ := Int.eq_ofNat_of_zero_le (Int.neg_nonneg.mpr negative.le)
  have count : (Nat.toDigits 10 d.digits).length = d.point.toNat + places := by
    have := inside.1
    unfold point at *
    omega
  have large : 10 ^ places ≤ d.digits :=
    (Nat.pow_le_pow_right (by decide) (by omega)).trans (pow_length_le (by omega))
  obtain ⟨back, whole, tail, split, length, before, behind, lead, number⟩ := toDigits_cut large
  have front : (Nat.toDigits 10 (d.digits / 10 ^ places)).length = d.point.toNat := by
    rw [split, List.length_append] at count
    omega
  have some : back ≠ [] := by
    rintro rfl
    rw [List.length_nil] at length
    omega
  have shape : d.layout = Nat.toDigits 10 (d.digits / 10 ^ places) ++ '.' :: back := by
    have first : ¬ (((Nat.toDigits 10 d.digits).length : ℤ) ≤ d.point ∧ d.point ≤ 21) := by
      unfold point
      omega
    have same : (Nat.toDigits 10 d.digits).length + d.place = d.point := rfl
    rw [layout]
    dsimp only
    rw [same, if_neg first, if_pos inside, split, List.take_left' front, List.drop_left' front]
  rw [shape]
  refine ⟨.point _ (by simpa using fraction_of_suffix trimmed split some 0), ?_⟩
  have numeral := numeral_of (q := d.value) (.point before behind (.inl lead)) .none ?_
  · simpa using numeral
  · rw [number, behind.length_eq, length, value, ← place]
    simp

/-- Digits behind the point only. -/
theorem layout_small (inside : -6 < d.point ∧ d.point ≤ 0) :
    Plain d.layout ∧ Numeral d.layout d.value := by
  have first := Nat.length_toDigits_pos (b := 10) (n := d.digits)
  have same : (Nat.toDigits 10 d.digits).length + d.place = d.point := rfl
  have shape : d.layout = Nat.toDigits 10 0 ++
      '.' :: (List.replicate (-d.point).toNat '0' ++ Nat.toDigits 10 d.digits) := by
    rw [layout]
    dsimp only
    rw [same, if_neg (by omega), if_neg (by omega), if_pos inside]
    rfl
  obtain ⟨digits, run, number, -⟩ := digits_of_toDigits d.digits
  have zero : Digits decimalValue? [0] (Nat.toDigits 10 0) := by
    rw [Nat.toDigits_zero, Digits]
    rfl
  have behind : Digits decimalValue? (List.replicate (-d.point).toNat 0 ++ digits)
      (List.replicate (-d.point).toNat '0' ++ Nat.toDigits 10 d.digits) := by
    have value : decimalValue? '0' = some 0 := rfl
    unfold Digits at *
    rw [List.map_append, List.map_append, List.map_replicate, List.map_replicate, value, run]
  rw [shape]
  refine ⟨.point 0 (fraction_of_suffix trimmed (List.nil_append _).symm
    Nat.toDigits_ne_nil _), ?_⟩
  have numeral := numeral_of (q := d.value)
    (.point zero behind (.inl (List.cons_ne_nil _ _))) .none ?_
  · simpa using numeral
  · have length := run.length_eq
    have places : (0 : ℤ) - (List.replicate (-d.point).toNat 0 ++ digits).length = d.place := by
      rw [List.length_append, List.length_replicate]
      omega
    rw [List.singleton_append, ofDigits_cons, Nat.zero_mul, Nat.zero_add, ofDigits_zeros, number,
      places, value]

/-- One digit, a fraction and an exponent. -/
theorem layout_scientific (outside : ¬ (-6 < d.point ∧ d.point ≤ 21)) :
    Scientific d.layout ∧ Numeral d.layout d.value := by
  have first := Nat.length_toDigits_pos (b := 10) (n := d.digits)
  have same : (Nat.toDigits 10 d.digits).length + d.place = d.point := rfl
  have large := pow_length_le (show 0 < d.digits by omega)
  obtain ⟨back, whole, tail, split, length, before, behind, some, number⟩ := toDigits_cut large
  have digit := leading_digit (show 0 < d.digits by omega)
  generalize d.digits / 10 ^ ((Nat.toDigits 10 d.digits).length - 1) = lead at *
  have front : (Nat.toDigits 10 lead).length = 1 := by
    rw [Nat.toDigits_of_lt_base digit.2]
    rfl
  have shape : d.layout = Nat.toDigits 10 lead ++
      ((if back = [] then [] else '.' :: back) ++ 'e' ::
        (if d.point - 1 < 0 then '-' else '+') :: Nat.toDigits 10 (d.point - 1).natAbs) := by
    have empty : back = [] ↔ (Nat.toDigits 10 d.digits).length ≤ 1 := by
      rw [← List.length_eq_zero_iff, length]
      omega
    rw [layout]
    dsimp only
    rw [same, if_neg (by omega), if_neg (by omega), if_neg (by omega), List.append_assoc]
    simp only [empty]
    congr 1
    · rw [split, List.take_left' front]
    · congr 2
      rw [split, List.drop_left' front]
  have raised := power_exponent (d.point - 1)
  have mark : ((if d.point - 1 < 0 then '-' else '+') = '+' ∨
      (if d.point - 1 < 0 then '-' else '+') = '-') := by
    split
    · exact .inr rfl
    · exact .inl rfl
  have nonzero : 0 < (d.point - 1).natAbs := by omega
  have places : d.point - 1 - tail.length = d.place := by
    rw [behind.length_eq, length]
    omega
  rw [shape]
  by_cases none : back = []
  · subst none
    obtain rfl : tail = [] := (digits_nil_iff behind).mpr rfl
    rw [if_pos rfl, List.nil_append]
    refine ⟨.whole digit mark nonzero, numeral_of (.whole before some) raised ?_⟩
    rw [number, places, value]
  · rw [if_neg none]
    refine ⟨.point digit (by simpa using fraction_of_suffix trimmed split none 0) mark nonzero, ?_⟩
    have numeral := numeral_of (q := d.value) (.point before behind (.inl some)) raised ?_
    · simpa using numeral
    · rw [number, places, value]

end Layout

theorem value_bounds {d : Decimal} (some : 0 < d.digits) :
    (10 : ℚ) ^ (d.point - 1) ≤ d.value ∧ d.value < 10 ^ d.point := by
  have scale : (0 : ℚ) < 10 ^ d.place := zpow_pos (by norm_num) _
  have ten : (10 : ℚ) ≠ 0 := by norm_num
  obtain ⟨low, high⟩ := toDigits_bounds some
  unfold point value
  constructor
  · rw [add_sub_right_comm, zpow_add₀ ten]
    exact mul_le_mul_of_nonneg_right low scale.le
  · rw [zpow_add₀ ten]
    exact mul_lt_mul_of_pos_right high scale

/-- The place of the point compared with a power of ten. -/
theorem pow_le_value_iff {d : Decimal} (some : 0 < d.digits) (k : ℤ) :
    (10 : ℚ) ^ k ≤ d.value ↔ k < d.point := by
  obtain ⟨low, high⟩ := value_bounds some
  constructor
  · intro le
    exact (zpow_lt_zpow_iff_right₀ (by norm_num)).mp (le.trans_lt high)
  · intro lt
    exact (zpow_le_zpow_right₀ (by norm_num) (by omega)).trans low

theorem value_pos {d : Decimal} (some : 0 < d.digits) : 0 < d.value :=
  mul_pos (Nat.cast_pos.mpr some) (zpow_pos (by norm_num) _)

end Decimal

/-! The shapes exclude each other. -/

theorem letter_not_mem_digits {text : List Char} (digits : ∀ c ∈ text, c.isDigit = true) :
    'e' ∉ text := fun mem => absurd (digits 'e' mem) (by decide)

theorem Plain.not_scientific {text : List Char} (plain : Plain text) : ¬ Scientific text := by
  have digits (n : ℕ) : 'e' ∉ Nat.toDigits 10 n :=
    letter_not_mem_digits fun c mem => Nat.isDigit_of_mem_toDigits (by decide) (by decide) mem
  have none : 'e' ∉ text := by
    cases plain with
    | whole n => exact digits n
    | point n fraction =>
      have back := letter_not_mem_digits fraction.digits
      simp [digits n, back]
  intro scientific
  refine none ?_
  cases scientific <;> simp

/-- The layout of digits by the place of their point. -/
theorem Decimal.layout_shape {d : Decimal} (trimmed : d.digits % 10 ≠ 0) :
    (Plain d.layout ↔ -6 < d.point ∧ d.point ≤ 21) ∧
      (Scientific d.layout ↔ ¬ (-6 < d.point ∧ d.point ≤ 21)) ∧
      NumberLiteral.Numeral d.layout d.value := by
  by_cases inside : -6 < d.point ∧ d.point ≤ 21
  · have plain : Plain d.layout ∧ NumberLiteral.Numeral d.layout d.value := by
      rcases lt_or_ge d.place 0 with fraction | whole
      · rcases lt_or_ge 0 d.point with digits | zeros
        · exact layout_point trimmed fraction ⟨digits, inside.2⟩
        · exact layout_small trimmed ⟨inside.1, zeros⟩
      · exact layout_whole trimmed ⟨whole, inside.2⟩
    exact ⟨iff_of_true plain.1 inside, iff_of_false plain.1.not_scientific (not_not.mpr inside),
      plain.2⟩
  · obtain ⟨scientific, numeral⟩ := layout_scientific trimmed inside
    exact ⟨iff_of_false (fun plain => plain.not_scientific scientific) inside,
      iff_of_true scientific inside, numeral⟩

namespace Double

open Decimal NumberLiteral

/-- A double is as great as that of a short number where its own digits are. -/
theorem le_magnitude_iff {q : ℚ} {mantissa exponent least place : ℕ} (nonneg : 0 ≤ q)
    (bound : Rounds q (.finite false least place)) (own : (shortest least place).value = q)
    (rounds : Rounds (shortest mantissa exponent).value (.finite false mantissa exponent))
    (positive : 0 < (shortest mantissa exponent).value) :
    magnitude least place ≤ magnitude mantissa exponent ↔
      q ≤ (shortest mantissa exponent).value := by
  constructor
  · intro le
    by_contra below
    have small : |(shortest mantissa exponent).value| ≤ |q| := by
      rw [abs_of_pos positive, abs_of_nonneg nonneg]
      exact (not_le.mp below).le
    obtain ⟨rfl, rfl⟩ := magnitude_injective rounds.canonical bound.canonical
      (le_antisymm (rounds.mono bound small) le)
    exact below own.ge
  · intro le
    exact bound.mono rounds (by rwa [abs_of_nonneg nonneg, abs_of_pos positive])

/-- The double that is written as a millionth. -/
def millionth : ℚ := ((nearest false 1 1000000).toRat?).getD 0

theorem nearest_millionth : nearest false 1 1000000 = .finite false 4722366482869645 1002 := by
  decide +kernel

theorem millionth_eq : millionth = magnitude 4722366482869645 1002 := by
  rw [millionth, nearest_millionth, toRat?_finite, Option.getD_some]
  rfl

theorem millionth_rounds : Rounds (10 ^ (-6 : ℤ)) (.finite false 4722366482869645 1002) := by
  have rounds := nearest_rounds false 1 (show 0 < 1000000 by decide)
  rw [nearest_millionth] at rounds
  have ratio : (10 : ℚ) ^ (-6 : ℤ) = (1 : ℕ) / (1000000 : ℕ) := by norm_num
  rw [ratio]
  exact rounds

/-- The power of ten from which on numbers are written with exponents is a double. -/
theorem magnitude_sextillion : magnitude 7629394531250000 1091 = 10 ^ (21 : ℤ) := by
  have split : (2 : ℚ) ^ 1091 = 2 ^ 17 * 2 ^ unitPlaces := (pow_add 2 17 unitPlaces)
  have unit : (2 : ℚ) ^ unitPlaces ≠ 0 := pow_ne_zero _ two_ne_zero
  rw [magnitude, split, ← mul_assoc, mul_div_cancel_right₀ _ unit]
  norm_num

theorem sextillion_rounds : Rounds (10 ^ (21 : ℤ)) (.finite false 7629394531250000 1091) := by
  have near : nearest false (10 ^ 21) 1 = .finite false 7629394531250000 1091 := by
    decide +kernel
  have rounds := nearest_rounds false (10 ^ 21) Nat.one_pos
  rw [near] at rounds
  have ratio : (10 : ℚ) ^ (21 : ℤ) = (10 ^ 21 : ℕ) / (1 : ℕ) := by norm_num
  rw [ratio]
  exact rounds

section Text

variable {negative : Bool} {mantissa exponent : ℕ}
  (canonical : (finite negative mantissa exponent).Canonical) (some : 0 < mantissa)

include canonical some

/-- The digits that are found round to the double they are found for. -/
theorem shortest_rounds : Rounds
    (if negative then -(shortest mantissa exponent).value else (shortest mantissa exponent).value)
    (.finite negative mantissa exponent) :=
  rounds_of_contains negative (mul_nonneg (Nat.cast_nonneg _) (zpow_nonneg (by norm_num) _))
    canonical (shortest_fewest some canonical).inside

theorem digits_shortest_pos : 0 < (shortest mantissa exponent).digits := by
  have trimmed := (shortest_fewest some canonical).trimmed
  omega

/-- Where the point is among the digits, or few zeros before them. -/
theorem point_iff : -6 < (shortest mantissa exponent).point ∧
    (shortest mantissa exponent).point ≤ 21 ↔
      millionth ≤ magnitude mantissa exponent ∧ magnitude mantissa exponent < 10 ^ 21 := by
  have digits := digits_shortest_pos canonical some
  have positive := value_pos digits
  have rounds := @shortest_rounds false _ _ canonical some
  have own : (shortest 4722366482869645 1002).value = 10 ^ (-6 : ℤ) := by
    have digits : shortest 4722366482869645 1002 = ⟨1, -6⟩ := by decide +kernel
    rw [digits, Decimal.value, Nat.cast_one, one_mul]
  have own' : (shortest 7629394531250000 1091).value = 10 ^ (21 : ℤ) := by
    have digits : shortest 7629394531250000 1091 = ⟨1, 21⟩ := by decide +kernel
    rw [digits, Decimal.value, Nat.cast_one, one_mul]
  have low := le_magnitude_iff (by positivity) millionth_rounds own rounds positive
  have high := le_magnitude_iff (by positivity) sextillion_rounds own' rounds positive
  rw [pow_le_value_iff digits, ← millionth_eq] at low
  rw [pow_le_value_iff digits, magnitude_sextillion, zpow_ofNat] at high
  rw [low, ← not_lt (a := 21), ← high, not_le]

omit canonical in
theorem text_layout : (finite negative mantissa exponent).text.toList =
    (if negative then ['-'] else []) ++ (shortest mantissa exponent).layout := by
  rw [text]
  · cases negative <;> simp
  · exact fun none => absurd none (Nat.ne_of_gt some)

end Text

/-- The text of a number, its sign apart, is plain or has an exponent by the size of the number. It
is a literal of the fewest digits that round to the number, and it is read as the number. -/
structure Written (x : Double) (q : ℚ) (text : List Char) : Prop where
  shape : ∃ digits, text = (if q < 0 then ['-'] else []) ++ digits ∧
    (Plain digits ↔ q = 0 ∨ millionth ≤ |q| ∧ |q| < 10 ^ 21) ∧
    (Scientific digits ↔ ¬ (q = 0 ∨ millionth ≤ |q| ∧ |q| < 10 ^ 21))
  literal : ∃ literal : NumberLiteral, literal.Spelled text ∧ Rounds literal.value x ∧
    (∃ y, literal.toDouble? = some y ∧ y.toRat? = some q) ∧
    (q ≠ 0 → ∃ d : Decimal, |literal.value| = d.value ∧ d.digits % 10 ≠ 0 ∧
      ∀ (n : ℕ) (place : ℤ), Rounds (if q < 0 then -(n * 10 ^ place) else n * 10 ^ place) x →
        (Nat.toDigits 10 d.digits).length ≤ (Nat.toDigits 10 n).length)

theorem written_zero (negative : Bool) :
    Written (.finite negative 0 0) 0 (finite negative 0 0).text.toList := by
  have spelled : NumberLiteral.Spelled ⟨false, .decimal [0] 0⟩ "0".toList :=
    spelled_of_scan? rfl
  have value : NumberLiteral.value ⟨false, .decimal [0] 0⟩ = 0 := by
    simp [NumberLiteral.value, Magnitude.value, ofDigits]
  refine ⟨⟨['0'], by simp [text], ?_, ?_⟩, ⟨_, spelled, ?_, ?_, fun nonzero => absurd rfl nonzero⟩⟩
  · exact iff_of_true (.whole 0) (.inl rfl)
  · exact iff_of_false (Plain.not_scientific (.whole 0)) (not_not.mpr (.inl rfl))
  · rw [value]
    simpa using rounds_zero negative le_rfl (by simp)
  · refine ⟨.finite false 0 0, by decide, ?_⟩
    rw [toRat?_finite]
    simp [exact, magnitude_zero]

/-- The literal of a text that is no zero: it rounds to the double, is read as it, and no shorter
one rounds to it. -/
theorem literal_of_pos {negative : Bool} {mantissa exponent : ℕ} (some : 0 < mantissa)
    (canonical : (finite negative mantissa exponent).Canonical) {magnitude : Magnitude}
    (number : magnitude.value = (shortest mantissa exponent).value)
    (spelled : NumberLiteral.Spelled ⟨negative, magnitude⟩
      (finite negative mantissa exponent).text.toList) :
    Rounds (NumberLiteral.value ⟨negative, magnitude⟩) (.finite negative mantissa exponent) ∧
      (∃ y, NumberLiteral.toDouble? ⟨negative, magnitude⟩ = Option.some y ∧
        y.toRat? = Option.some (exact negative mantissa exponent)) ∧
      ∀ (n : ℕ) (place : ℤ),
        Rounds (if negative then -(n * 10 ^ place) else n * 10 ^ place)
          (.finite negative mantissa exponent) →
        (Nat.toDigits 10 (shortest mantissa exponent).digits).length ≤
          (Nat.toDigits 10 n).length := by
  have value : NumberLiteral.value ⟨negative, magnitude⟩ = if negative then
      -(shortest mantissa exponent).value else (shortest mantissa exponent).value := by
    rw [NumberLiteral.value, number]
  have own := value_pos (digits_shortest_pos canonical some)
  have other : NumberLiteral.value ⟨negative, magnitude⟩ ≠ 0 := by
    rw [value]
    cases negative <;> simp [own.ne']
  have rounds := shortest_rounds canonical some
  rw [← value] at rounds
  refine ⟨rounds, ?_, fun n place short => ?_⟩
  · rcases toDouble?_rounds spelled.valid with ⟨y, read, rounds'⟩ | ⟨-, -, -, beyond, -⟩
    · obtain rfl := rounds.unique other rounds'
      exact ⟨_, read, toRat?_finite _ _ _⟩
    · cases rounds with
      | finite _ inside => exact absurd inside (not_lt.mpr beyond)
  · refine (shortest_fewest some canonical).fewest n place
      (contains_of_rounds (lt_of_le_of_ne (by positivity) fun none => ?_) short)
    rw [← none] at short
    have zero : Rounds 0 (.finite negative mantissa exponent) := by
      cases negative <;> simpa using short
    exact (magnitude_pos some exponent).ne' zero.magnitude_eq_zero

theorem written_of_pos {negative : Bool} {mantissa exponent : ℕ} (some : 0 < mantissa)
    (canonical : (finite negative mantissa exponent).Canonical) :
    Written (.finite negative mantissa exponent) (exact negative mantissa exponent)
      (finite negative mantissa exponent).text.toList := by
  obtain ⟨-, trimmed, -⟩ := shortest_fewest some canonical
  have positive : 0 < magnitude mantissa exponent := magnitude_pos some exponent
  have size := abs_exact negative mantissa exponent
  have nonzero : exact negative mantissa exponent ≠ 0 := by
    rw [← abs_pos, size]
    exact positive
  have minus {α : Type} (a b : α) : (if exact negative mantissa exponent < 0 then a else b) =
      if negative then a else b := by
    cases negative <;> simp [exact, positive, positive.le]
  obtain ⟨plain, scientific, magnitude, number, spelled⟩ := layout_shape trimmed
  rw [point_iff canonical some] at plain scientific
  constructor
  · refine ⟨(shortest mantissa exponent).layout, ?_, ?_, ?_⟩
    · rw [minus]
      exact text_layout some
    · rw [size, or_iff_right nonzero]
      exact plain
    · rw [size, or_iff_right nonzero]
      exact scientific
  · have literal : NumberLiteral.Spelled ⟨negative, magnitude⟩
        (finite negative mantissa exponent).text.toList := by
      rw [text_layout some]
      cases negative with
      | false => exact spelled false [] .none
      | true => exact spelled true ['-'] .minus
    obtain ⟨rounds, read, fewest⟩ := literal_of_pos some canonical number literal
    refine ⟨_, literal, rounds, read, fun _ => ⟨shortest mantissa exponent, ?_, trimmed, ?_⟩⟩
    · rw [abs_value, number]
    · intro n place short
      rw [minus] at short
      exact fewest n place short

/-- Every finite double is written. -/
theorem text_written {bits : ℕ} {q : ℚ} (finite : (ofBits bits).toRat? = some q) :
    Written (ofBits bits) q (ofBits bits).text.toList := by
  have canonical := ofBits_canonical bits
  cases value : ofBits bits with
  | finite negative mantissa exponent =>
    rw [value] at finite canonical
    rw [toRat?_finite] at finite
    cases finite
    rcases Nat.eq_zero_or_pos mantissa with rfl | some
    · obtain rfl : exponent = 0 := canonical.2.1.resolve_left (by decide)
      have zero : exact negative 0 0 = 0 := by cases negative <;> simp [exact, magnitude_zero]
      rw [zero]
      exact written_zero negative
    · exact written_of_pos some canonical
  | infinite =>
    rw [value] at finite
    cases finite
  | nan =>
    rw [value] at finite
    cases finite

/-- The greatest double that has an exponent for its smallness. -/
theorem text_written_small : Written (ofBits 0x3EB0C6F7A0B5ED8C)
    (mkRat 4722366482869644 4722366482869645213696) "9.999999999999997e-7".toList := by
  have value : (ofBits 0x3EB0C6F7A0B5ED8C).toRat? =
      some (mkRat 4722366482869644 4722366482869645213696) := by decide +kernel
  have text : (ofBits 0x3EB0C6F7A0B5ED8C).text = "9.999999999999997e-7" := by decide +kernel
  have written := text_written value
  rwa [text] at written

end Double
end ThemeSheet
