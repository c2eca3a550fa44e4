import Mathlib
import ThemeSheet.Literal.Evaluate
import ThemeSheet.Proofs.NearestDouble
import ThemeSheet.Proofs.Terminals

/-! The number that a literal denotes, and the double it is read as. -/

namespace ThemeSheet

open Text

/-! The number of a run of digits. -/

theorem ofDigits_reverse (base : ℕ) (digits : List ℕ) :
    ofDigits base digits = Nat.ofDigits base digits.reverse := by
  induction digits using List.reverseRecOn with
  | nil => rfl
  | append_singleton digits d ih =>
    rw [ofDigits_append_singleton, ih, List.reverse_append, List.reverse_singleton,
      List.singleton_append, Nat.ofDigits_cons, Nat.add_comm, Nat.mul_comm]

theorem ofDigits_cons (base d : ℕ) (digits : List ℕ) :
    ofDigits base (d :: digits) = d * base ^ digits.length + ofDigits base digits := by
  rw [ofDigits_reverse, List.reverse_cons, Nat.ofDigits_append, List.length_reverse,
    Nat.ofDigits_singleton, ← ofDigits_reverse, Nat.add_comm, Nat.mul_comm]

theorem ofDigits_lt {base : ℕ} (two : 1 < base) {digits : List ℕ}
    (small : ∀ d ∈ digits, d < base) : ofDigits base digits < base ^ digits.length := by
  rw [ofDigits_reverse, ← List.length_reverse]
  exact Nat.ofDigits_lt_base_pow_length two fun d mem => small d (List.mem_reverse.mp mem)

/-- Leading zeros do not count. -/
theorem ofDigits_dropWhile (base : ℕ) (digits : List ℕ) :
    ofDigits base (digits.dropWhile (· == 0)) = ofDigits base digits := by
  induction digits with
  | nil => rfl
  | cons d digits ih =>
    rw [List.dropWhile_cons]
    split
    · rename_i zero
      rw [ih, ofDigits_cons, eq_of_beq zero, Nat.zero_mul, Nat.zero_add]
    · rfl

/-- Digits behind one that is not zero make a number of as many digits. -/
theorem pow_le_ofDigits {base : ℕ} {digits : List ℕ} (lead : ∀ d ∈ digits.head?, d ≠ 0)
    (some : digits ≠ []) : base ^ (digits.length - 1) ≤ ofDigits base digits := by
  cases digits with
  | nil => exact absurd rfl some
  | cons d digits =>
    have first : d ≠ 0 := lead d rfl
    rw [ofDigits_cons, List.length_cons, Nat.add_sub_cancel]
    exact (Nat.le_mul_of_pos_left _ (Nat.pos_of_ne_zero first)).trans (Nat.le_add_right _ _)

namespace Magnitude

/-- The number that a magnitude denotes. -/
def value : Magnitude → ℚ
  | radix base digits => ofDigits base digits
  | decimal digits place => ofDigits 10 digits * 10 ^ place

/-- That the digits of a decimal are those of base ten. -/
def Valid : Magnitude → Prop
  | radix _ _ => True
  | decimal digits _ => ∀ d ∈ digits, d < 10

theorem value_nonneg (magnitude : Magnitude) : 0 ≤ magnitude.value := by
  cases magnitude with
  | radix => exact Nat.cast_nonneg _
  | decimal => exact mul_nonneg (Nat.cast_nonneg _) (by positivity)

end Magnitude

namespace Double

/-- A double that is not infinite. -/
def finite? : Double → Option Double
  | infinite _ => none
  | x => some x

theorem Rounds.finite? {q : ℚ} {x : Double} (h : Rounds q x) :
    (∃ y, x.finite? = some y ∧ Rounds q y) ∨ overflow ≤ |q| ∧ x.finite? = none := by
  cases h with
  | finite canonical inside sign nearest even =>
    exact .inl ⟨_, rfl, .finite canonical inside sign nearest even⟩
  | infinite beyond => exact .inr ⟨beyond, rfl⟩

end Double

namespace NumberLiteral

open Double

/-- The number that a literal denotes. -/
def value (literal : NumberLiteral) : ℚ :=
  if literal.negative then -literal.magnitude.value else literal.magnitude.value

theorem abs_value (literal : NumberLiteral) : |literal.value| = literal.magnitude.value := by
  have nonneg := literal.magnitude.value_nonneg
  unfold value
  split
  · rw [abs_neg, abs_of_nonneg nonneg]
  · rw [abs_of_nonneg nonneg]

/-- What is at most half the least double rounds to zero. -/
theorem rounds_zero (negative : Bool) {q : ℚ} (positive : 0 ≤ q)
    (small : q * 2 ^ (unitPlaces + 1) ≤ 1) :
    Rounds (if negative then -q else q) (.finite negative 0 0) := by
  refine rounds_of_contains negative positive ⟨by decide, .inr rfl, by decide⟩ ?_
  have half : q * Decimal.quarters = 2 * (q * 2 ^ (unitPlaces + 1)) := by
    rw [Decimal.quarters_eq, pow_succ]
    push_cast
    ring
  have low : (Decimal.Span.of 0 0).low = 0 := by
    rw [Decimal.Span.low_of]
    omega
  have high : (Decimal.Span.of 0 0).high = 2 := by
    rw [Decimal.Span.high_of]
    omega
  have closed : (Decimal.Span.of 0 0).closed = true := (Decimal.Span.closed_of 0 0).mpr rfl
  have nonneg : 0 ≤ q * 2 ^ (unitPlaces + 1) := mul_nonneg positive (pow_nonneg two_pos.le _)
  rw [Decimal.Span.Contains, if_pos closed, low, high, half]
  generalize q * 2 ^ (unitPlaces + 1) = units at *
  push_cast
  exact ⟨by linarith, by linarith⟩

/-- A number with more digits than the far exponent before its point is beyond all doubles. -/
theorem overflow_le_far : overflow ≤ 10 ^ farExponent := by
  have below : overflow ≤ 2 ^ 1024 := sub_le_self _ (pow_nonneg two_pos.le _)
  have far : (10 : ℚ) ^ farExponent = 10 ^ (4 * 100) := zpow_natCast _ _
  rw [far]
  exact below.trans (by exact_mod_cast two_pow_le_ten_pow (show 1024 ≤ 13 * 100 by decide))

theorem far_le_half : (10 : ℚ) ^ (-farExponent) * 2 ^ (unitPlaces + 1) ≤ 1 := by
  have far : (10 : ℚ) ^ farExponent = 10 ^ (4 * 100) := zpow_natCast _ _
  rw [zpow_neg, far, inv_mul_le_iff₀ (by positivity), mul_one]
  exact_mod_cast two_pow_le_ten_pow (show unitPlaces + 1 ≤ 13 * 100 by decide)

/-- The size of a number with a leading digit. -/
theorem value_bounds {digits : List ℕ} (place : ℤ) (small : ∀ d ∈ digits, d < 10)
    (lead : ∀ d ∈ digits.head?, d ≠ 0) (some : digits ≠ []) :
    (10 : ℚ) ^ (digits.length + place - 1) ≤ ofDigits 10 digits * 10 ^ place ∧
      (ofDigits 10 digits : ℚ) * 10 ^ place < 10 ^ (digits.length + place) := by
  have ten : (10 : ℚ) ≠ 0 := by norm_num
  have scale : (0 : ℚ) < 10 ^ place := zpow_pos (by norm_num) _
  have low : (10 : ℚ) ^ (digits.length - 1) ≤ ofDigits 10 digits := by
    exact_mod_cast pow_le_ofDigits lead some
  have high : (ofDigits 10 digits : ℚ) < 10 ^ digits.length := by
    exact_mod_cast ofDigits_lt (by decide) small
  constructor
  · have length : ((digits.length - 1 : ℕ) : ℤ) + place = digits.length + place - 1 := by
      have := List.length_pos_iff.mpr some
      omega
    rw [← length, zpow_add₀ ten, zpow_natCast]
    exact mul_le_mul_of_nonneg_right low scale.le
  · rw [zpow_add₀ ten, zpow_natCast]
    exact mul_lt_mul_of_pos_right high scale

theorem rounds_infinite (negative : Bool) {q : ℚ} (beyond : overflow ≤ q) :
    Rounds (if negative then -q else q) (.infinite negative) := by
  have large : 0 < q := lt_of_lt_of_le overflow_pos beyond
  cases negative with
  | false => exact .infinite (by simpa [abs_of_pos large] using beyond) (by simpa using large.le)
  | true => exact .infinite (by simpa [abs_of_pos large] using beyond) (by simpa using large)

/-- The double that a decimal literal is read as. -/
theorem rounds_decimal (negative : Bool) {digits : List ℕ} {place : ℤ}
    (valid : ∀ d ∈ digits, d < 10) :
    ∃ x, toDouble? ⟨negative, .decimal digits place⟩ = some x ∧
      Rounds (value ⟨negative, .decimal digits place⟩) x := by
  have number := ofDigits_dropWhile 10 digits
  have small : ∀ d ∈ digits.dropWhile (· == 0), d < 10 := fun d mem =>
    valid d ((List.dropWhile_sublist _).mem mem)
  have lead : ∀ d ∈ (digits.dropWhile (· == 0)).head?, d ≠ 0 := by
    intro d mem zero
    have first := List.head?_dropWhile_not (· == 0) digits
    rw [Option.mem_def.mp mem] at first
    simp [zero] at first
  simp only [toDouble?, value, Magnitude.value, Nat.pow_eq]
  rw [← number]
  generalize digits.dropWhile (· == 0) = significant at *
  by_cases none : significant = []
  · subst none
    refine ⟨_, rfl, ?_⟩
    have zero : (ofDigits 10 [] : ℚ) * 10 ^ place = 0 := by simp [ofDigits]
    rw [zero]
    exact rounds_zero negative le_rfl (by simp)
  · obtain ⟨above, below⟩ := value_bounds place small lead none
    have nonneg : (0 : ℚ) ≤ ofDigits 10 significant * 10 ^ place :=
      mul_nonneg (Nat.cast_nonneg _) (zpow_nonneg (by norm_num) _)
    rw [if_neg (by simpa using none)]
    split
    · rename_i far
      refine ⟨_, rfl, rounds_infinite negative (overflow_le_far.trans (le_trans ?_ above))⟩
      exact zpow_le_zpow_right₀ (by norm_num) (by omega)
    · split
      · rename_i far
        refine ⟨_, rfl, rounds_zero negative nonneg (le_trans ?_ far_le_half)⟩
        refine mul_le_mul_of_nonneg_right (below.le.trans ?_) (pow_nonneg two_pos.le _)
        exact zpow_le_zpow_right₀ (by norm_num) (by omega)
      · refine ⟨_, rfl, ?_⟩
        rw [← ratio_pow]
        exact nearest_rounds negative _ (Nat.pow_pos (by decide))

theorem toDouble?_radix {literal : NumberLiteral} {base : ℕ} {digits : List ℕ}
    (form : literal.magnitude = .radix base digits) :
    literal.toDouble? = (Double.nearest literal.negative (ofDigits base digits) 1).finite? := by
  unfold toDouble?
  -- With the definition of the nearest double in sight, the reduction would compute with it.
  generalize Double.nearest = near
  revert near
  rw [form]
  intro near
  rfl

/-- A literal is read as the double nearest to its number. Only one with a base that lies beyond
all doubles is not read. -/
theorem toDouble?_rounds {literal : NumberLiteral} (valid : literal.magnitude.Valid) :
    (∃ x, literal.toDouble? = some x ∧ Rounds literal.value x) ∨
    ∃ base digits, literal.magnitude = .radix base digits ∧ overflow ≤ |literal.value| ∧
      literal.toDouble? = none := by
  cases form : literal.magnitude with
  | decimal digits place =>
    obtain ⟨negative, magnitude⟩ := literal
    subst form
    exact .inl (rounds_decimal negative valid)
  | radix base digits =>
    have rounds := nearest_rounds literal.negative (ofDigits base digits) Nat.one_pos
    have number : literal.value = if literal.negative then -(ofDigits base digits / (1 : ℕ) : ℚ)
        else ofDigits base digits / (1 : ℕ) := by
      simp only [value, form, Magnitude.value, Nat.cast_one, div_one]
    rw [← number] at rounds
    rw [toDouble?_radix form]
    rcases rounds.finite? with found | ⟨beyond, none⟩
    · exact .inl found
    · exact .inr ⟨base, digits, rfl, beyond, none⟩

/-- The digits of a literal are digits of its base. -/
theorem Spelled.valid {literal : NumberLiteral} {text : List Char} (h : literal.Spelled text) :
    literal.magnitude.Valid := by
  have small {digits : List ℕ} {text : List Char} (run : Digits decimalValue? digits text) :
      ∀ d ∈ digits, d < 10 := by
    intro d mem
    have read : some d ∈ text.map decimalValue? := run ▸ List.mem_map_of_mem mem
    obtain ⟨c, -, value⟩ := List.mem_map.mp read
    exact decimalValue?_lt value
  cases h with
  | radix => trivial
  | decimal signed digits raised =>
    cases digits with
    | whole run => simpa [Magnitude.Valid] using small run
    | point before behind =>
      intro d mem
      rcases List.mem_append.mp mem with front | back
      · exact small before d front
      · exact small behind d back

theorem spelled_of_scan? {literal : NumberLiteral} {text : List Char}
    (h : scan? text = some (literal, [])) : literal.Spelled text := by
  obtain ⟨front, rfl, spelled⟩ := scan?_split h
  rwa [List.append_nil]

end NumberLiteral

namespace Literal

open Double NumberLiteral

/-- Every number has the text of its nearest double, as a key and as a value. Only one with a base
that is infinite has none. -/
theorem readNumber_nearest {literal : NumberLiteral} {text : List Char}
    (spelled : literal.Spelled text) :
    (∃ x, Rounds literal.value x ∧ (Key.number literal).read = .ok x.text ∧
      ∀ depth, (Node.number literal).read depth = .ok (.text x.text)) ∨
    ∃ base digits, literal.magnitude = .radix base digits ∧ overflow ≤ |literal.value| ∧
      ∀ site, readNumber site literal = .error (.noValue site .hugeNumber) := by
  rcases toDouble?_rounds spelled.valid with ⟨x, read, rounds⟩ | ⟨base, digits, form, beyond, none⟩
  · refine .inl ⟨x, rounds, ?_, fun depth => ?_⟩
    · rw [Key.read, readNumber, read]
    · rw [Node.read, readNumber, read]
      rfl
  · refine .inr ⟨base, digits, form, beyond, fun site => ?_⟩
    rw [readNumber, none]

/-- A number half way between two doubles, and so the even one. -/
def halfWay : NumberLiteral :=
  ⟨true, .radix 16 [2, 0, 0, 0, 0, 0, 0, 0, 0, 0, 0, 0, 0, 1]⟩

theorem readNumber_nearest_halfWay : ∃ x, Rounds (-9007199254740993) x ∧
    (Key.number halfWay).read = .ok x.text ∧ x.text = "-9007199254740992" := by
  have spelled : halfWay.Spelled "-0x20000000000001".toList :=
    spelled_of_scan? (by decide +kernel)
  have number : halfWay.value = -9007199254740993 := by
    norm_num [value, halfWay, Magnitude.value, ofDigits]
  rcases readNumber_nearest spelled with ⟨x, rounds, key, -⟩ | ⟨-, -, -, -, fault⟩
  · have text : (Key.number halfWay).read = .ok "-9007199254740992" := by decide +kernel
    exact ⟨x, number ▸ rounds, key, Except.ok.inj (key.symm.trans text)⟩
  · exact absurd (fault .number) (by decide +kernel)

/-- The least power of two that is no double. -/
def beyondDoubles : List Char := "0x1".toList ++ List.replicate 256 '0'

/-- With a base a number beyond the doubles is a fault, where a decimal one is infinite. -/
theorem evaluate_beyondDoubles :
    NumberLiteral.Spelled ⟨false, .radix 16 (1 :: List.replicate 256 0)⟩ beyondDoubles ∧
      evaluate "" ("\x7b\"a\": ".toList ++ beyondDoubles ++ "\x7d".toList) =
        ([], .error (.literal (.noValue .number .hugeNumber))) ∧
      evaluate "" "\x7b\"a\": 2e308\x7d".toList = ([], .ok [("a", "Infinity")]) :=
  ⟨spelled_of_scan? (by decide +kernel), by decide +kernel, by decide +kernel⟩

end Literal
end ThemeSheet
