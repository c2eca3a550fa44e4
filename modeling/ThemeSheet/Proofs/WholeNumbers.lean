import Mathlib
import ThemeSheet.Literal.Evaluate
import ThemeSheet.Proofs.Terminals

/-! Whole numbers that a double holds exactly are printed with the digits they are written with. -/

namespace ThemeSheet

open Text

/-! Digits. -/

theorem toDigits_shifted {n : Nat} (some : 0 < n) (places : Nat) :
    Nat.toDigits 10 (n * 10 ^ places) = Nat.toDigits 10 n ++ List.replicate places '0' := by
  induction places with
  | zero => simp
  | succ places ih =>
    have positive : 0 < n * 10 ^ places := Nat.mul_pos some (Nat.pow_pos (by decide))
    have step := Nat.toDigits_append_toDigits (b := 10) (d := 0) (by decide) positive (by decide)
    have same : 10 * (n * 10 ^ places) + 0 = n * 10 ^ (places + 1) := by
      rw [Nat.add_zero, Nat.pow_succ, Nat.mul_comm 10, Nat.mul_assoc]
    rw [same, ih, Nat.toDigits_zero, List.append_assoc] at step
    rw [← step, List.replicate_succ']

/-! The nearest double. -/

theorem log2_shifted {n : Nat} (some : n ≠ 0) (places : Nat) :
    Nat.log2 (n * 2 ^ places) = Nat.log2 n + places := by
  have positive : 0 < 2 ^ places := Nat.pow_pos (by decide)
  refine (Nat.log2_eq_iff (Nat.mul_ne_zero some (Nat.ne_of_gt positive))).mpr ⟨?_, ?_⟩
  · rw [Nat.pow_add]
    exact Nat.mul_le_mul_right _ (Nat.log2_self_le some)
  · rw [Nat.add_right_comm, Nat.pow_add]
    exact Nat.mul_lt_mul_of_pos_right Nat.lt_log2_self positive

theorem roundDiv_exact {den : Nat} (some : 0 < den) (n : Nat) :
    Double.roundDiv (n * den) den = n := by
  simp [Double.roundDiv, Nat.mul_div_cancel n some, some]

/-- A whole number of at most 53 bits is a double. -/
theorem nearest_whole {n : Nat} (some : 0 < n) (small : n < 2 ^ 53) :
    ∃ mantissa exponent, Double.nearest false n 1 = .finite false mantissa exponent ∧
      0 < mantissa ∧ exponent ≤ Double.unitPlaces ∧
      mantissa * 2 ^ exponent = n * 2 ^ Double.unitPlaces := by
  have places : Double.unitPlaces = 1074 := rfl
  have bits : Nat.log2 n ≤ 52 := Nat.le_of_lt_succ ((Nat.log2_lt (by omega)).mpr small)
  have top : Nat.log2 (n * 2 ^ Double.unitPlaces) - 52 = Nat.log2 n + 1022 := by
    rw [log2_shifted (by omega)]
    omega
  have whole : n * 2 ^ Double.unitPlaces =
      n * 2 ^ (52 - Nat.log2 n) * 2 ^ (Nat.log2 n + 1022) := by
    have sum : 52 - Nat.log2 n + (Nat.log2 n + 1022) = Double.unitPlaces := by omega
    rw [Nat.mul_assoc, ← Nat.pow_add, sum]
  have mantissa : Double.roundDiv (n * 2 ^ Double.unitPlaces) (1 * 2 ^ (Nat.log2 n + 1022)) =
      n * 2 ^ (52 - Nat.log2 n) := by
    rw [Nat.one_mul, whole]
    exact roundDiv_exact (Nat.pow_pos (by decide)) _
  have below : n * 2 ^ (52 - Nat.log2 n) < 2 * Double.hiddenBit := by
    have lt : n * 2 ^ (52 - Nat.log2 n) < 2 ^ (Nat.log2 n + 1) * 2 ^ (52 - Nat.log2 n) :=
      Nat.mul_lt_mul_of_pos_right Nat.lt_log2_self (Nat.pow_pos (by decide))
    rw [← Nat.pow_add, show Nat.log2 n + 1 + (52 - Nat.log2 n) = 53 by omega] at lt
    exact lt
  refine ⟨n * 2 ^ (52 - Nat.log2 n), Nat.log2 n + 1022, ?_, ?_, ?_, whole.symm⟩
  · have apart : ¬ n * 2 ^ (52 - Nat.log2 n) = 2 * Double.hiddenBit := by omega
    have inside : ¬ Nat.log2 n + 1022 > Double.maxExponent := by
      unfold Double.maxExponent
      omega
    simp only [Double.nearest, Nat.pow_eq, Nat.div_one, top, mantissa, if_neg apart, if_neg inside]
  · exact Nat.mul_pos some (Nat.pow_pos (by decide))
  · omega

/-! The fewest digits. -/

namespace Decimal

/-- A span that holds no whole number but one. -/
structure Span.Around (span : Span) (n : Nat) : Prop where
  value : span.value = n * quarters
  low : span.low < span.value ∧ span.value < span.low + quarters
  high : span.value < span.high ∧ span.high < span.value + quarters

theorem quarters_eq : quarters = 4 * 2 ^ Double.unitPlaces := by
  have shifted (k : Nat) : Nat.pow 2 (k + 2) = 4 * 2 ^ k := by
    rw [Nat.pow_eq, Nat.pow_add, Nat.mul_comm]
  unfold quarters
  generalize Double.unitPlaces = k
  exact shifted k

theorem quarters_pos : 0 < quarters := by
  rw [quarters_eq]
  exact Nat.mul_pos (by decide) (Nat.pow_pos (by decide))

theorem span_around {n mantissa exponent : Nat} (some : 0 < mantissa)
    (small : exponent ≤ Double.unitPlaces)
    (whole : mantissa * 2 ^ exponent = n * 2 ^ Double.unitPlaces) :
    (Span.of mantissa exponent).Around n := by
  have quarter : 2 ^ exponent ≤ 2 ^ Double.unitPlaces := Nat.pow_le_pow_right (by decide) small
  have positive : 0 < 2 ^ exponent := Nat.pow_pos (by decide)
  have unit := quarters_eq
  have value : 4 * mantissa * 2 ^ exponent = n * quarters := by
    rw [Nat.mul_assoc, whole, unit, Nat.mul_left_comm]
  have reach : 4 * 2 ^ exponent ≤ 4 * mantissa * 2 ^ exponent :=
    Nat.mul_le_mul_right _ (Nat.le_mul_of_pos_right 4 some)
  refine ⟨value, ?_, ?_⟩
  · simp only [Span.of, Nat.pow_eq]
    split <;> omega
  · simp only [Span.of, Nat.pow_eq]
    omega

section Around

variable {span : Span} {n : Nat} (around : span.Around n)

include around

theorem Span.holds_iff (point down : Nat) : span.holds 1 down point = true ↔ point * down = n := by
  obtain ⟨value, low, high⟩ := around
  have grid : point * (quarters * down) = point * down * quarters := by
    rw [Nat.mul_comm quarters, Nat.mul_assoc]
  have apart {a b : Nat} (lt : a < b) : a * quarters + quarters ≤ b * quarters := by
    rw [← Nat.succ_mul]
    exact Nat.mul_le_mul_right _ lt
  simp only [Span.holds, grid, Nat.mul_one]
  constructor
  · intro holds
    rcases Nat.lt_trichotomy (point * down) n with lt | same | lt
    · have := apart lt
      split at holds <;>
        simp only [Bool.and_eq_true, decide_eq_true_eq] at holds <;> omega
    · exact same
    · have := apart lt
      split at holds <;>
        simp only [Bool.and_eq_true, decide_eq_true_eq] at holds <;> omega
  · intro same
    rw [same]
    split <;> simp only [Bool.and_eq_true, decide_eq_true_eq] <;> omega

/-- Of the multiples of a power of ten, only the number itself lies in the span. -/
theorem Span.onGrid?_whole (places : Nat) :
    span.onGrid? places = if 10 ^ places ∣ n then some ⟨n / 10 ^ places, places⟩ else none := by
  have positive : 0 < 10 ^ places := Nat.pow_pos (by decide)
  have unit := quarters_pos
  have up : (-(places : Int)).toNat = 0 := by omega
  have down : (places : Int).toNat = places := by omega
  have below : span.value * 1 / (quarters * 10 ^ places) = n / 10 ^ places := by
    rw [Nat.mul_one, around.value, Nat.mul_comm n, Nat.mul_div_mul_left _ _ unit]
  have above : span.holds 1 (10 ^ places) (n / 10 ^ places + 1) = false := by
    refine Bool.eq_false_iff.mpr fun holds => ?_
    have same := (Span.holds_iff around _ _).mp holds
    have split := Nat.div_add_mod n (10 ^ places)
    have rest := Nat.mod_lt n positive
    rw [Nat.succ_mul, Nat.mul_comm] at same
    omega
  have here : span.holds 1 (10 ^ places) (n / 10 ^ places) = decide (10 ^ places ∣ n) := by
    rw [Bool.eq_iff_iff, Span.holds_iff around, decide_eq_true_eq]
    exact ⟨fun same => ⟨n / 10 ^ places, by rw [Nat.mul_comm]; exact same.symm⟩,
      fun dvd => Nat.div_mul_cancel dvd⟩
  simp only [Span.onGrid?, up, down, Nat.pow_eq, Nat.pow_zero, below, above, here]
  split <;> simp_all

theorem Span.magnitude_whole (some : 0 < n) :
    span.magnitude = (Nat.toDigits 10 n).length := by
  have unit := quarters_pos
  have value (k : Nat) : span.value * Nat.pow 10 k / quarters = n * 10 ^ k := by
    rw [around.value, Nat.pow_eq, Nat.mul_right_comm, Nat.mul_div_cancel _ unit]
  simp only [Span.magnitude, value, toDigits_shifted some, List.length_append,
    List.length_replicate]
  omega

end Around

/-- That a decimal is a whole number. -/
def Denotes (d : Decimal) (n : Nat) : Prop :=
  ∃ places : Nat, d.place = places ∧ d.digits * 10 ^ places = n

theorem Denotes.trimZeros {d : Decimal} {n : Nat} (h : d.Denotes n) (fuel : Nat) :
    (Decimal.trimZeros fuel d).Denotes n := by
  induction fuel generalizing d with
  | zero => exact h
  | succ fuel ih =>
    rw [Decimal.trimZeros]
    split
    · rename_i zero
      obtain ⟨places, place, same⟩ := h
      refine ih ⟨places + 1, by rw [place]; rfl, ?_⟩
      have ten : d.digits / 10 * 10 = d.digits := Nat.div_mul_cancel (Nat.dvd_of_mod_eq_zero zero.1)
      rw [Nat.pow_succ, Nat.mul_comm (10 ^ places), ← Nat.mul_assoc, ten, same]
    · exact h

theorem Denotes.layout {d : Decimal} {n : Nat} (h : d.Denotes n) (some : 0 < n)
    (short : (Nat.toDigits 10 n).length ≤ 21) : d.layout = Nat.toDigits 10 n := by
  obtain ⟨places, place, rfl⟩ := h
  have digits : 0 < d.digits := Nat.pos_of_mul_pos_right some
  rw [toDigits_shifted digits] at short ⊢
  have count : (Nat.toDigits 10 d.digits).length + places ≤ 21 := by simpa using short
  rw [Decimal.layout]
  simp only [place]
  rw [if_pos (by omega)]
  simp

theorem shortest_denotes {n mantissa exponent : Nat} (some : 0 < n) (short : n < 10 ^ 16)
    (around : (Span.of mantissa exponent).Around n) :
    (shortest mantissa exponent).Denotes n := by
  have length : (Nat.toDigits 10 n).length ≤ 16 :=
    (Nat.length_toDigits_le_iff (by decide) (by decide)).mpr short
  have first := Nat.length_toDigits_pos (b := 10) (n := n)
  have magnitude := Span.magnitude_whole around some
  generalize (Nat.toDigits 10 n).length = count at length first magnitude
  let tried (i : Nat) : Option Decimal :=
    (Span.of mantissa exponent).onGrid? ((Span.of mantissa exponent).magnitude - (i + 1 : Nat))
  have grid {i : Nat} (before : i < count) :
      tried i = if 10 ^ (count - (i + 1)) ∣ n then
        Option.some ⟨n / 10 ^ (count - (i + 1)), (count - (i + 1) : Nat)⟩ else none := by
    have place : (Span.of mantissa exponent).magnitude - (i + 1 : Nat) =
        ((count - (i + 1) : Nat) : Int) := by omega
    simp only [tried, place, Span.onGrid?_whole around]
  -- The last place that is tried before the point is that of the ones.
  have reached : ((List.range count).findSome? tried).isSome = true := by
    refine List.findSome?_isSome_iff.mpr ⟨count - 1, List.mem_range.mpr (by omega), ?_⟩
    rw [grid (by omega), show count - (count - 1 + 1) = 0 by omega, if_pos (by simp)]
    rfl
  obtain ⟨d, found⟩ := Option.isSome_iff_exists.mp reached
  have whole : (List.range 17).findSome? tried = Option.some d := by
    have split : List.range 17 = List.range count ++ (List.range (17 - count)).map (count + ·) := by
      rw [← List.range_add, show count + (17 - count) = 17 by omega]
    rw [split, List.findSome?_append, found, Option.some_or]
  have denotes : d.Denotes n := by
    obtain ⟨i, mem, eq⟩ := List.exists_of_findSome?_eq_some found
    rw [grid (List.mem_range.mp mem)] at eq
    split at eq
    · rename_i dvd
      cases eq
      exact ⟨_, rfl, Nat.div_mul_cancel dvd⟩
    · cases eq
  change (Decimal.trimZeros 20 (((List.range 17).findSome? tried).getD ⟨0, 0⟩)).Denotes n
  rw [whole]
  exact denotes.trimZeros 20

end Decimal

/-- A whole number that is no longer than the mantissa is printed with its digits. -/
theorem Double.text_whole {n : Nat} (some : 0 < n) (small : n < 2 ^ 53) :
    (Double.nearest false n 1).text = String.ofList (Nat.toDigits 10 n) := by
  obtain ⟨mantissa, exponent, eq, positive, places, whole⟩ := nearest_whole some small
  have around := Decimal.span_around positive places whole
  have short : n < 10 ^ 16 := Nat.lt_trans small (by decide)
  have layout := (Decimal.shortest_denotes some short around).layout some
    ((Nat.length_toDigits_le_iff (by decide) (by decide)).mpr
      (Nat.lt_trans short (by decide)))
  rw [eq, Double.text, layout]
  · rfl
  · exact fun none => absurd none (Nat.ne_of_gt positive)

/-! Numerals. -/

/-- The digits of a number are read back, and none of them leads it that is zero. -/
theorem digits_of_toDigits (n : Nat) :
    ∃ digits, NumberLiteral.Digits decimalValue? digits (Nat.toDigits 10 n) ∧
      ofDigits 10 digits = n ∧ (0 < n → ∀ d ∈ digits.head?, d ≠ 0) := by
  have value : ∀ d < 10, decimalValue? (Nat.digitChar d) = some d := by decide
  induction n using Nat.strongRecOn with
  | ind n ih =>
    by_cases single : n < 10
    · rw [Nat.toDigits_of_lt_base single]
      refine ⟨[n], ?_, Nat.zero_add n, fun some d mem => ?_⟩
      · rw [NumberLiteral.Digits, List.map_singleton, value n single]
        rfl
      · cases mem
        omega
    · obtain ⟨digits, run, number, lead⟩ := ih (n / 10) (by omega)
      have begins : digits ≠ [] := by
        rintro rfl
        have empty := (NumberLiteral.digits_nil_iff run).mp rfl
        exact Nat.toDigits_ne_nil empty
      rw [Nat.toDigits_of_base_le (by decide) (by omega)]
      refine ⟨digits ++ [n % 10], ?_, ?_, fun _ d mem => ?_⟩
      · have last := value (n % 10) (Nat.mod_lt n (by decide))
        rw [NumberLiteral.Digits] at run ⊢
        rw [List.map_append, List.map_append, run, List.map_singleton, last]
        rfl
      · rw [ofDigits_append_singleton, number, Nat.div_add_mod']
      · rw [List.head?_append_of_ne_nil _ begins] at mem
        exact lead (by omega) d mem

namespace Literal

/-- A whole number of at most 53 bits, written without a leading zero, is read as it is written. -/
theorem readNumber_whole {site : Site} {literal : NumberLiteral} {n : Nat} (small : n < 2 ^ 53)
    (spelled : literal.Spelled (Nat.toDigits 10 n)) :
    readNumber site literal = .ok (String.ofList (Nat.toDigits 10 n)) := by
  obtain ⟨digits, run, number, lead⟩ := digits_of_toDigits n
  have some : digits ≠ [] := fun none =>
    Nat.toDigits_ne_nil ((NumberLiteral.digits_nil_iff run).mp none)
  have whole : NumberLiteral.Spelled ⟨false, .decimal digits 0⟩ (Nat.toDigits 10 n) := by
    simpa using NumberLiteral.Spelled.decimal .none (.whole run some) .none
  obtain rfl := spelled.unique whole
  have double : (⟨false, .decimal digits 0⟩ : NumberLiteral).toDouble? = Option.some
      (if n = 0 then .finite false 0 0 else .nearest false n 1) := by
    by_cases zero : n = 0
    · subst zero
      have read : (Nat.toDigits 10 0).map decimalValue? = [0].map Option.some := rfl
      obtain rfl := List.map_injective_iff.mpr (fun _ _ => Option.some.inj) (run.symm.trans read)
      rfl
    · have significant : digits.dropWhile (· == 0) = digits := by
        cases digits with
        | nil => rfl
        | cons d digits =>
          have other := lead (Nat.pos_of_ne_zero zero) d rfl
          rw [List.dropWhile_cons, if_neg (by simpa using other)]
      have length : digits.length ≤ 16 := by
        have same := congrArg List.length run
        rw [List.length_map, List.length_map] at same
        rw [← same]
        exact (Nat.length_toDigits_le_iff (by decide) (by decide)).mpr
          (Nat.lt_trans small (by decide))
      have near : ¬ ((digits.length : Int) + 0 > NumberLiteral.farExponent) ∧
          ¬ ((digits.length : Int) + 0 < -NumberLiteral.farExponent) := by
        unfold NumberLiteral.farExponent
        omega
      have nonempty : ¬ digits.isEmpty = true := by simpa using some
      simp only [NumberLiteral.toDouble?, significant, if_neg nonempty, if_neg near.1,
        if_neg near.2, number, if_neg zero]
      simp
  rw [readNumber, double]
  by_cases zero : n = 0
  · subst zero
    rfl
  · simp only [if_neg zero, Double.text_whole (Nat.pos_of_ne_zero zero) small]

end Literal
end ThemeSheet
