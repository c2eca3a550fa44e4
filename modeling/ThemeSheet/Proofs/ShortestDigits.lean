import Mathlib
import ThemeSheet.Proofs.NearestDouble

/-! The fewest digits that read back as a double. -/

namespace ThemeSheet

/-- The first place where a search succeeds. -/
theorem findSome?_range {α : Type} {f : ℕ → Option α} {n : ℕ} {a : α}
    (h : (List.range n).findSome? f = some a) : ∃ i < n, f i = some a ∧ ∀ j < i, f j = none := by
  induction n with
  | zero => cases h
  | succ n ih =>
    rw [List.range_succ, List.findSome?_append] at h
    cases before : (List.range n).findSome? f with
    | some b =>
      rw [before, Option.some_or] at h
      cases h
      obtain ⟨i, lt, found, none⟩ := ih before
      exact ⟨i, Nat.lt_succ_of_lt lt, found, none⟩
    | none =>
      rw [before, Option.none_or, List.findSome?_singleton] at h
      have none := List.findSome?_eq_none_iff.mp before
      exact ⟨n, Nat.lt_succ_self n, h, fun j lt => none j (List.mem_range.mpr lt)⟩

theorem pow_mul_zpow {a : ℕ} {b c : ℤ} (sum : a + b = c) : (10 : ℚ) ^ a * 10 ^ b = 10 ^ c := by
  rw [← sum, zpow_add₀ (by norm_num), zpow_natCast]

namespace Decimal

/-- The number that a decimal denotes. -/
def value (d : Decimal) : ℚ := d.digits * 10 ^ d.place

/-! Trailing zeros. -/

theorem value_trimZeros (fuel : ℕ) (d : Decimal) : (trimZeros fuel d).value = d.value := by
  induction fuel generalizing d with
  | zero => rfl
  | succ fuel ih =>
    rw [trimZeros]
    split
    · rename_i zero
      have ten : (10 : ℚ) ≠ 0 := by norm_num
      have digits : (d.digits : ℚ) = (d.digits / 10 : ℕ) * 10 := by
        exact_mod_cast (Nat.div_mul_cancel (Nat.dvd_of_mod_eq_zero zero.1)).symm
      rw [ih, value, value, digits, zpow_add_one₀ ten]
      ring
    · rfl

theorem digits_trimZeros (fuel : ℕ) (d : Decimal) : (trimZeros fuel d).digits ≤ d.digits := by
  induction fuel generalizing d with
  | zero => exact le_rfl
  | succ fuel ih =>
    rw [trimZeros]
    split
    · exact (ih _).trans (Nat.div_le_self _ _)
    · exact le_rfl

theorem trimZeros_trimmed {fuel : ℕ} {d : Decimal} (some : d.digits ≠ 0)
    (short : d.digits < 10 ^ fuel) : (trimZeros fuel d).digits % 10 ≠ 0 := by
  induction fuel generalizing d with
  | zero => omega
  | succ fuel ih =>
    rw [trimZeros]
    split
    · rename_i zero
      exact ih (show d.digits / 10 ≠ 0 by omega)
        (show d.digits / 10 < 10 ^ fuel by rw [Nat.pow_succ] at short; omega)
    · rename_i last
      exact fun zero => last ⟨zero, some⟩

/-! Multiples of a power of ten in a span. -/

theorem Span.Contains.between {span : Span} {a b q : ℚ} (ha : span.Contains a)
    (hb : span.Contains b) (low : a ≤ q) (high : q ≤ b) : span.Contains q := by
  unfold Span.Contains at *
  split
  · rename_i closed
    rw [if_pos closed] at ha hb
    exact ⟨ha.1.trans low, high.trans hb.2⟩
  · rename_i closed
    rw [if_neg closed] at ha hb
    exact ⟨ha.1.trans_le low, high.trans_lt hb.2⟩

theorem Span.contains_of_lt {span : Span} {q : ℚ} (low : span.low < q) (high : q < span.high) :
    span.Contains q := by
  unfold Span.Contains
  split
  · exact ⟨low.le, high.le⟩
  · exact ⟨low, high⟩

theorem ends_value {mantissa : ℕ} (exponent : ℕ) (some : 0 < mantissa) :
    ((Span.of mantissa exponent).low : ℚ) < (Span.of mantissa exponent).value ∧
      ((Span.of mantissa exponent).value : ℚ) < (Span.of mantissa exponent).high := by
  have unit : 0 < 2 ^ exponent := Nat.pow_pos (by decide)
  have reach : 2 ^ exponent ≤ mantissa * 2 ^ exponent := Nat.le_mul_of_pos_left _ some
  have near : 0 < nearer mantissa exponent := by
    unfold nearer
    split <;> decide
  have below : 0 < nearer mantissa exponent * 2 ^ exponent := Nat.mul_pos near unit
  rw [Nat.cast_lt, Nat.cast_lt, Span.low_of, Span.value_of, Span.high_of]
  omega

theorem contains_value {mantissa : ℕ} (exponent : ℕ) (some : 0 < mantissa) :
    (Span.of mantissa exponent).Contains (Span.of mantissa exponent).value :=
  Span.contains_of_lt (ends_value exponent some).1 (ends_value exponent some).2

section Grid

variable (span : Span) (place : ℤ)

/-- The multiple of a power of ten next below the value of a span. -/
def Span.below : ℕ :=
  span.value * 10 ^ (-place).toNat / (quarters * 10 ^ place.toNat)

theorem Span.holds_iff_contains (point : ℕ) :
    span.holds (10 ^ (-place).toNat) (10 ^ place.toNat) point = true ↔
      span.Contains (point * 10 ^ place * quarters) := by
  rw [Span.holds_eq_true, ← ratio_pow, Span.contains_iff _ (Nat.pow_pos (by decide))]

theorem Span.below_le : (span.below place : ℚ) * 10 ^ place * quarters ≤ span.value := by
  have up : (0 : ℚ) < (10 ^ (-place).toNat : ℕ) := Nat.cast_pos.mpr (Nat.pow_pos (by decide))
  have floor := Nat.div_mul_le_self (span.value * 10 ^ (-place).toNat) (quarters * 10 ^ place.toNat)
  rw [← ratio_pow, div_mul_eq_mul_div, div_le_iff₀ up]
  have whole : span.below place * 10 ^ place.toNat * quarters ≤
      span.value * 10 ^ (-place).toNat := by
    rw [Nat.mul_assoc, Nat.mul_comm (10 ^ place.toNat)]
    exact floor
  exact_mod_cast whole

theorem Span.lt_below : (span.value : ℚ) < (span.below place + 1) * 10 ^ place * quarters := by
  have up : (0 : ℚ) < (10 ^ (-place).toNat : ℕ) := Nat.cast_pos.mpr (Nat.pow_pos (by decide))
  have step : 0 < quarters * 10 ^ place.toNat := Nat.mul_pos quarters_pos (Nat.pow_pos (by decide))
  have floor := Nat.lt_div_mul_add step (a := span.value * 10 ^ (-place).toNat)
  have next : ((span.below place : ℚ) + 1) = ((span.below place + 1 : ℕ) : ℚ) := by push_cast; rfl
  rw [next, ← ratio_pow, div_mul_eq_mul_div, lt_div_iff₀ up]
  have whole : span.value * 10 ^ (-place).toNat <
      (span.below place + 1) * 10 ^ place.toNat * quarters := by
    rw [Nat.mul_assoc, Nat.mul_comm (10 ^ place.toNat), Nat.succ_mul]
    exact floor
  exact_mod_cast whole

theorem Span.onGrid?_some {d : Decimal} (h : span.onGrid? place = some d) :
    d.place = place ∧ span.Contains (d.value * quarters) ∧
      (d.digits = span.below place ∨ d.digits = span.below place + 1) := by
  have here (n : ℕ) (holds : span.holds (Nat.pow 10 (-place).toNat) (Nat.pow 10 place.toNat) n = true) :
      span.Contains ((⟨n, place⟩ : Decimal).value * quarters) :=
    (span.holds_iff_contains place n).mp holds
  unfold Span.onGrid? at h
  dsimp only at h
  split at h
  · rename_i low high
    split at h <;> cases h
    · exact ⟨rfl, here _ low, .inl rfl⟩
    · exact ⟨rfl, here _ high, .inr rfl⟩
  · rename_i low high
    cases h
    exact ⟨rfl, here _ low, .inl rfl⟩
  · rename_i low high
    cases h
    exact ⟨rfl, here _ high, .inr rfl⟩
  · cases h

variable {span} {place}

/-- Where the neighbours of the value are not in the span, no multiple is. -/
theorem Span.onGrid?_none (inside : span.Contains span.value)
    (none : span.onGrid? place = none) (n : ℕ) : ¬ span.Contains (n * 10 ^ place * quarters) := by
  intro mem
  have scale : (0 : ℚ) ≤ 10 ^ place := zpow_nonneg (by norm_num) _
  have unit : (0 : ℚ) ≤ quarters := Nat.cast_nonneg _
  have mono {a b : ℚ} (le : a ≤ b) : a * 10 ^ place * quarters ≤ b * 10 ^ place * quarters :=
    mul_le_mul_of_nonneg_right (mul_le_mul_of_nonneg_right le scale) unit
  have below : span.holds (10 ^ (-place).toNat) (10 ^ place.toNat) (span.below place) = true ∨
      span.holds (10 ^ (-place).toNat) (10 ^ place.toNat) (span.below place + 1) = true := by
    rw [Span.holds_iff_contains, Span.holds_iff_contains]
    rcases Nat.lt_or_ge (span.below place) n with above | before
    · refine .inr (inside.between mem ?_ ?_)
      · push_cast
        exact (span.lt_below place).le
      · exact mono (by exact_mod_cast above)
    · exact .inl (mem.between inside (mono (by exact_mod_cast before)) (span.below_le place))
  unfold Span.onGrid? at none
  dsimp only at none
  split at none
  · split at none <;> cases none
  · cases none
  · cases none
  · rename_i low high
    rcases below with found | found
    · exact Bool.false_ne_true (low.symm.trans found)
    · exact Bool.false_ne_true (high.symm.trans found)

end Grid

/-! The size of a double. -/

/-- The length of a numeral bounds its number. -/
theorem pow_length_le {n : ℕ} (some : 0 < n) : 10 ^ ((Nat.toDigits 10 n).length - 1) ≤ n := by
  have first := Nat.length_toDigits_pos (b := 10) (n := n)
  by_contra short
  rcases Nat.eq_zero_or_pos ((Nat.toDigits 10 n).length - 1) with one | more
  · rw [one] at short
    omega
  · have fits := (Nat.length_toDigits_le_iff (by decide) more).mpr (Nat.not_le.mp short)
    omega

theorem lt_pow_length (n : ℕ) : n < 10 ^ (Nat.toDigits 10 n).length :=
  (Nat.length_toDigits_le_iff (by decide) Nat.length_toDigits_pos).mp le_rfl

theorem toDigits_bounds {n : ℕ} (some : 0 < n) :
    (10 : ℚ) ^ ((Nat.toDigits 10 n).length - 1 : ℤ) ≤ n ∧
      (n : ℚ) < 10 ^ ((Nat.toDigits 10 n).length : ℤ) := by
  have first := Nat.length_toDigits_pos (b := 10) (n := n)
  have length : ((Nat.toDigits 10 n).length - 1 : ℤ) = ((Nat.toDigits 10 n).length - 1 : ℕ) := by
    omega
  rw [length, zpow_natCast, zpow_natCast]
  exact_mod_cast And.intro (pow_length_le some) (lt_pow_length n)

/-- A double has as many digits before its point as its magnitude says. -/
theorem magnitude_bounds {mantissa : ℕ} (exponent : ℕ) (some : 0 < mantissa) :
    (10 : ℚ) ^ ((Span.of mantissa exponent).magnitude - 1) ≤ Double.magnitude mantissa exponent ∧
      Double.magnitude mantissa exponent < 10 ^ (Span.of mantissa exponent).magnitude := by
  have unit : (0 : ℚ) < quarters := Nat.cast_pos.mpr quarters_pos
  have ten : (10 : ℚ) ≠ 0 := by norm_num
  have scale : (0 : ℚ) < 10 ^ (400 : ℤ) := by positivity
  have size : Double.magnitude mantissa exponent = (Span.of mantissa exponent).value / quarters :=
    eq_div_of_mul_eq unit.ne' (Double.magnitude_eq mantissa exponent)
  have length : (Span.of mantissa exponent).magnitude = (Nat.toDigits 10
      ((Span.of mantissa exponent).value * 10 ^ 400 / quarters)).length - 400 := by
    rw [Span.magnitude, Nat.pow_eq]
  have least : 4 ≤ (Span.of mantissa exponent).value := by
    rw [Span.value_of]
    exact Nat.le_mul_of_pos_right 4 (Nat.mul_pos some (Nat.pow_pos (by decide)))
  have large : 0 < (Span.of mantissa exponent).value * 10 ^ 400 / quarters := by
    refine Nat.div_pos ?_ quarters_pos
    rw [quarters_eq]
    exact Nat.mul_le_mul least (two_pow_le_ten_pow (show Double.unitPlaces ≤ 13 * 100 by decide))
  obtain ⟨below, above⟩ := toDigits_bounds large
  have low := Nat.div_mul_le_self ((Span.of mantissa exponent).value * 10 ^ 400) quarters
  have high := Nat.lt_div_mul_add quarters_pos
    (a := (Span.of mantissa exponent).value * 10 ^ 400)
  rw [size, length]
  have floor : ((Span.of mantissa exponent).value : ℚ) * 10 ^ (400 : ℤ) =
      ((Span.of mantissa exponent).value * 10 ^ 400 : ℕ) := by
    rw [zpow_ofNat]
    push_cast
    rfl
  generalize (Span.of mantissa exponent).value * 10 ^ 400 / quarters = n at *
  generalize (Span.of mantissa exponent).value * 10 ^ 400 = scaled at *
  have low : (n : ℚ) * quarters ≤ scaled := by exact_mod_cast low
  have high : (scaled : ℚ) < (n + 1) * quarters := by
    rw [add_mul, one_mul]
    exact_mod_cast high
  rw [← floor] at low high
  constructor
  · rw [sub_sub, add_comm, ← sub_sub, zpow_sub₀ ten, div_le_div_iff₀ scale unit]
    exact (mul_le_mul_of_nonneg_right below unit.le).trans low
  · rw [zpow_sub₀ ten, div_lt_div_iff₀ unit scale]
    have next : (n : ℚ) + 1 ≤ 10 ^ ((Nat.toDigits 10 n).length : ℤ) := by
      rw [zpow_natCast] at above ⊢
      exact_mod_cast above
    exact high.trans_le (mul_le_mul_of_nonneg_right next unit.le)

/-- Seventeen digits are enough. -/
theorem onGrid?_seventeen {negative : Bool} {mantissa exponent : ℕ} (some : 0 < mantissa)
    (canonical : (Double.finite negative mantissa exponent).Canonical) :
    (Span.of mantissa exponent).onGrid? ((Span.of mantissa exponent).magnitude - 17) ≠ none := by
  intro none
  have unit : (0 : ℚ) < quarters := Nat.cast_pos.mpr quarters_pos
  have inside := contains_value exponent some
  have apart := Span.onGrid?_none inside none
  have below := (Span.of mantissa exponent).below_le ((Span.of mantissa exponent).magnitude - 17)
  have above := (Span.of mantissa exponent).lt_below ((Span.of mantissa exponent).magnitude - 17)
  have size := (magnitude_bounds exponent some).1
  have value := Double.magnitude_eq mantissa exponent
  generalize (Span.of mantissa exponent).magnitude = k at *
  have step : (10 : ℚ) ^ (k - 17) * 10 ^ 16 ≤ Double.magnitude mantissa exponent := by
    rwa [mul_comm, pow_mul_zpow (show ((16 : ℕ) : ℤ) + (k - 17) = k - 1 by omega)]
  generalize (10 : ℚ) ^ (k - 17) = s at *
  generalize (Span.of mantissa exponent).below _ = n at *
  obtain ⟨strictLow, strictHigh⟩ := ends_value exponent some
  -- The neighbours of the value lie outside of the span, and so it is narrower than a step.
  have low : (n : ℚ) * s * quarters ≤ (Span.of mantissa exponent).low :=
    not_lt.mp fun lt => apart n (Span.contains_of_lt lt (below.trans_lt strictHigh))
  have high : ((Span.of mantissa exponent).high : ℚ) ≤ (n + 1) * s * quarters := by
    refine not_lt.mp fun lt => apart (n + 1) ?_
    push_cast
    exact Span.contains_of_lt (strictLow.trans above) lt
  have narrow : ((Span.of mantissa exponent).high - (Span.of mantissa exponent).low : ℚ) * 10 ^ 16 ≤
      (Span.of mantissa exponent).value := by
    have scaled := mul_le_mul_of_nonneg_right step unit.le
    rw [value] at scaled
    linarith
  have whole : (Span.of mantissa exponent).high * 10 ^ 16 ≤
      (Span.of mantissa exponent).value + (Span.of mantissa exponent).low * 10 ^ 16 := by
    have : ((Span.of mantissa exponent).high : ℚ) * 10 ^ 16 ≤
        (Span.of mantissa exponent).value + (Span.of mantissa exponent).low * 10 ^ 16 := by
      linarith
    exact_mod_cast this
  have unit' : 0 < 2 ^ exponent := Nat.pow_pos (by decide)
  have top : mantissa * 2 ^ exponent < 2 ^ 53 * 2 ^ exponent :=
    Nat.mul_lt_mul_of_pos_right canonical.1 unit'
  have bottom : 2 ^ exponent ≤ mantissa * 2 ^ exponent := Nat.le_mul_of_pos_left _ some
  rw [Span.high_of, Span.low_of, Span.value_of] at whole
  rcases nearer_cases mantissa exponent with ⟨half, edge, -⟩ | half
  · rw [half, edge] at whole
    generalize 2 ^ exponent = bit at *
    omega
  · rw [half] at whole
    generalize 2 ^ exponent = bit at *
    omega

/-- The multiple below a double by its place has as many digits as the place leaves. -/
theorem below_bounds {mantissa : ℕ} (exponent i : ℕ) (some : 0 < mantissa) :
    10 ^ i ≤ (Span.of mantissa exponent).below
        ((Span.of mantissa exponent).magnitude - (i + 1 : ℕ)) ∧
      (Span.of mantissa exponent).below
        ((Span.of mantissa exponent).magnitude - (i + 1 : ℕ)) < 10 ^ (i + 1) := by
  have unit : (0 : ℚ) < quarters := Nat.cast_pos.mpr quarters_pos
  have below := (Span.of mantissa exponent).below_le
    ((Span.of mantissa exponent).magnitude - (i + 1 : ℕ))
  have above := (Span.of mantissa exponent).lt_below
    ((Span.of mantissa exponent).magnitude - (i + 1 : ℕ))
  obtain ⟨low, high⟩ := magnitude_bounds exponent some
  have scale : (0 : ℚ) < 10 ^ ((Span.of mantissa exponent).magnitude - (i + 1 : ℕ)) :=
    zpow_pos (by norm_num) _
  rw [← Double.magnitude_eq] at below above
  have below := le_of_mul_le_mul_right below unit
  have above := lt_of_mul_lt_mul_right above unit.le
  generalize (Span.of mantissa exponent).below _ = n at *
  generalize (Span.of mantissa exponent).magnitude = k at *
  have first : (10 : ℚ) ^ (k - 1) = 10 ^ i * 10 ^ (k - (i + 1 : ℕ)) :=
    (pow_mul_zpow (by omega)).symm
  have next : (10 : ℚ) ^ k = 10 ^ (i + 1) * 10 ^ (k - (i + 1 : ℕ)) :=
    (pow_mul_zpow (by omega)).symm
  constructor
  · have lt : (10 : ℚ) ^ i < n + 1 :=
      lt_of_mul_lt_mul_right ((first ▸ low).trans_lt above) scale.le
    exact Nat.le_of_lt_succ (by exact_mod_cast lt)
  · have lt : (n : ℚ) < 10 ^ (i + 1) :=
      lt_of_mul_lt_mul_right (below.trans_lt (next ▸ high)) scale.le
    exact_mod_cast lt

/-- That a decimal lies in a span, and none of fewer digits does. -/
structure Fewest (span : Span) (d : Decimal) : Prop where
  inside : span.Contains (d.value * quarters)
  trimmed : d.digits % 10 ≠ 0
  fewest : ∀ (n : ℕ) (place : ℤ), span.Contains (n * 10 ^ place * quarters) →
    (Nat.toDigits 10 d.digits).length ≤ (Nat.toDigits 10 n).length

/-- A number of few digits in a span is a multiple where the search looks, or a power of ten is. -/
theorem exists_multiple {mantissa : ℕ} (exponent : ℕ) (some : 0 < mantissa) {n : ℕ} {place : ℤ}
    (inside : (Span.of mantissa exponent).Contains (n * 10 ^ place * quarters)) :
    ∃ i < (Nat.toDigits 10 n).length,
      (Span.of mantissa exponent).onGrid? ((Span.of mantissa exponent).magnitude - (i + 1 : ℕ)) ≠
        none := by
  have first := Nat.length_toDigits_pos (b := 10) (n := n)
  have value := contains_value exponent some
  have unit : (0 : ℚ) ≤ quarters := Nat.cast_nonneg _
  obtain ⟨low, -⟩ := magnitude_bounds exponent some
  have size := Double.magnitude_eq mantissa exponent
  by_cases small : (n : ℚ) * 10 ^ place < 10 ^ ((Span.of mantissa exponent).magnitude - 1)
  · refine ⟨0, first, fun none => Span.onGrid?_none value none 1 ?_⟩
    refine inside.between value (mul_le_mul_of_nonneg_right ?_ unit) ?_
    · simpa using small.le
    · rw [← size]
      exact mul_le_mul_of_nonneg_right (by simpa using low) unit
  · refine ⟨(Nat.toDigits 10 n).length - 1, by omega, fun none => ?_⟩
    have above := lt_pow_length n
    have places : (Span.of mantissa exponent).magnitude - (Nat.toDigits 10 n).length ≤ place := by
      by_contra deep
      have wide : (n : ℚ) < 10 ^ (Nat.toDigits 10 n).length := by exact_mod_cast above
      have scale : (0 : ℚ) < 10 ^ place := zpow_pos (by norm_num) _
      refine small ((mul_lt_mul_of_pos_right wide scale).trans_le ?_)
      rw [pow_mul_zpow rfl]
      exact zpow_le_zpow_right₀ (by norm_num) (by omega)
    obtain ⟨zeros, more⟩ := Int.eq_ofNat_of_zero_le (Int.sub_nonneg.mpr places)
    have multiple : (n : ℚ) * 10 ^ place = ((n * 10 ^ zeros : ℕ) : ℚ) *
        10 ^ ((Span.of mantissa exponent).magnitude -
          ((Nat.toDigits 10 n).length - 1 + 1 : ℕ)) := by
      have power : (10 : ℚ) ^ zeros * 10 ^ ((Span.of mantissa exponent).magnitude -
          ((Nat.toDigits 10 n).length - 1 + 1 : ℕ)) = 10 ^ place := pow_mul_zpow (by omega)
      rw [Nat.cast_mul, Nat.cast_pow, Nat.cast_ofNat, mul_assoc, power]
    exact Span.onGrid?_none value none _ (multiple ▸ inside)

/-- The search finds the fewest digits. -/
theorem shortest_fewest {negative : Bool} {mantissa exponent : ℕ} (some : 0 < mantissa)
    (canonical : (Double.finite negative mantissa exponent).Canonical) :
    Fewest (Span.of mantissa exponent) (shortest mantissa exponent) := by
  let tried (i : ℕ) : Option Decimal :=
    (Span.of mantissa exponent).onGrid? ((Span.of mantissa exponent).magnitude - (i + 1 : ℕ))
  have ends : (List.range 17).findSome? tried ≠ none := by
    intro none
    have last := List.findSome?_eq_none_iff.mp none 16 (List.mem_range.mpr (by decide))
    exact onGrid?_seventeen some canonical last
  obtain ⟨d, found⟩ := Option.ne_none_iff_exists'.mp ends
  obtain ⟨i, within, here, before⟩ := findSome?_range found
  obtain ⟨place, inside, digits⟩ := Span.onGrid?_some _ _ here
  obtain ⟨low, high⟩ := below_bounds exponent i some
  have positive : 0 < 10 ^ i := Nat.pow_pos (by decide)
  have nonzero : d.digits ≠ 0 := by omega
  have wide : d.digits ≤ 10 ^ (i + 1) := by omega
  have short : d.digits < 10 ^ 20 :=
    wide.trans_lt (Nat.pow_lt_pow_right (by decide) (by omega))
  have result : shortest mantissa exponent = trimZeros 20 d := by
    change trimZeros 20 (((List.range 17).findSome? tried).getD ⟨0, 0⟩) = _
    rw [found, Option.getD_some]
  have trimmed := trimZeros_trimmed nonzero short
  rw [result]
  refine ⟨by rwa [value_trimZeros], trimmed, fun n place' mem => ?_⟩
  obtain ⟨j, few, multiple⟩ := exists_multiple exponent some mem
  have reached : i ≤ j := not_lt.mp fun lt => multiple (before j lt)
  -- A power of ten would be trimmed.
  have fits : (trimZeros 20 d).digits < 10 ^ (i + 1) := by
    refine Nat.lt_of_le_of_ne ((digits_trimZeros 20 d).trans wide) fun power => trimmed ?_
    rw [power, Nat.pow_succ, Nat.mul_mod_left]
  exact ((Nat.length_toDigits_le_iff (by decide) (Nat.succ_pos i)).mpr fits).trans (by omega)

end Decimal
end ThemeSheet
