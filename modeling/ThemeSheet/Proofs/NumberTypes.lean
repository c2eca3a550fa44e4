import Mathlib
import ThemeSheet.Proofs.NumberText
import ThemeSheet.Proofs.NumericTokens
import ThemeSheet.Proofs.SheetReadBack

/-! The types of numbers. The text of a double is declared as an integer where the double is a whole
number below the power of ten from which exponents are written, and as a number otherwise. -/

namespace ThemeSheet

open Text

namespace Decimal

open Double

variable {negative : Bool} {mantissa exponent : ℕ}
  (canonical : (finite negative mantissa exponent).Canonical) (some : 0 < mantissa)

include canonical some

/-- A whole number that lies in the span of a double and has no more digits than stand before the
point of its shortest decimal leaves that with one digit. -/
theorem length_digits_le_one {places n : ℕ} (fraction : 0 < places)
    (inside : (Span.of mantissa exponent).Contains (n * quarters))
    (short : n ≤ 10 ^ ((Nat.toDigits 10 (shortest mantissa exponent).digits).length - places)) :
    (Nat.toDigits 10 (shortest mantissa exponent).digits).length ≤ 1 := by
  have fewest := (shortest_fewest some canonical).fewest
  have first := Nat.length_toDigits_pos (b := 10) (n := (shortest mantissa exponent).digits)
  generalize (Nat.toDigits 10 (shortest mantissa exponent).digits).length = count at *
  rcases Nat.eq_or_lt_of_le short with power | below
  · refine fewest 1 (count - places : ℕ) ?_
    rwa [zpow_natCast, Nat.cast_one, one_mul, ← Nat.cast_ofNat, ← Nat.cast_pow, ← power]
  · have own := fewest n 0 (by rwa [zpow_zero, mul_one])
    rcases Nat.eq_zero_or_pos (count - places) with none | more
    · obtain rfl : n = 0 := by
        rw [none] at below
        omega
      exact own
    · have length := (Nat.length_toDigits_le_iff (by decide) more).mpr below
      omega

omit canonical some in
/-- One as a double. -/
theorem nearest_one : nearest false 1 1 = .finite false 4503599627370496 1022 := by
  decide +kernel

omit canonical some in
theorem magnitude_one : magnitude 4503599627370496 1022 = 1 := by
  have split : (2 : ℚ) ^ unitPlaces = 2 ^ 52 * 2 ^ 1022 := pow_add 2 52 1022
  have bit : (2 : ℚ) ^ 1022 ≠ 0 := pow_ne_zero _ two_ne_zero
  rw [magnitude, split, mul_div_mul_right _ _ bit]
  norm_num

/-- A double with a shortest decimal of one at most is no greater than one. -/
theorem magnitude_le_one (small : (shortest mantissa exponent).value ≤ 1) :
    magnitude mantissa exponent ≤ 1 := by
  have rounds := @shortest_rounds false _ _ canonical some
  have one := nearest_rounds false 1 Nat.one_pos
  rw [if_neg Bool.false_ne_true] at rounds one
  rw [nearest_one] at one
  have positive := value_pos (digits_shortest_pos canonical some)
  rw [← magnitude_one]
  refine rounds.mono one ?_
  rwa [abs_of_pos positive, Nat.cast_one, div_one, abs_one]

omit canonical some in
theorem value_of_fraction {places : ℕ} (place : (shortest mantissa exponent).place = -places) :
    (shortest mantissa exponent).value =
      (shortest mantissa exponent).digits / (10 ^ places : ℕ) := by
  rw [Decimal.value, place, zpow_neg, zpow_natCast, div_eq_mul_inv, Nat.cast_pow, Nat.cast_ofNat]

/-- If the shortest decimal of a whole number were a fraction, one of the two whole numbers around it
would lie in the span too, with fewer digits. -/
theorem length_digits_of_fraction {n places : ℕ} (whole : magnitude mantissa exponent = n)
    (fraction : 0 < places) (place : (shortest mantissa exponent).place = -places) :
    (Nat.toDigits 10 (shortest mantissa exponent).digits).length ≤ 1 := by
  obtain ⟨inside, -, -⟩ := shortest_fewest some canonical
  have own := contains_value exponent some
  rw [← magnitude_eq, whole] at own
  have unit : (0 : ℚ) ≤ quarters := Nat.cast_nonneg _
  have bit : 0 < 10 ^ places := Nat.pow_pos (by decide)
  have below := Nat.div_mul_le_self (shortest mantissa exponent).digits (10 ^ places)
  have above := Nat.lt_div_mul_add bit (a := (shortest mantissa exponent).digits)
  have long := lt_pow_length (shortest mantissa exponent).digits
  have short : (shortest mantissa exponent).digits / 10 ^ places + 1 ≤
      10 ^ ((Nat.toDigits 10 (shortest mantissa exponent).digits).length - places) := by
    rw [Nat.succ_le_iff, Nat.div_lt_iff_lt_mul bit, ← Nat.pow_add]
    exact long.trans_le (Nat.pow_le_pow_right (by decide) (by omega))
  have scale {a b : ℚ} (le : a ≤ b) : a * quarters ≤ b * quarters :=
    mul_le_mul_of_nonneg_right le unit
  have low : ((shortest mantissa exponent).digits / 10 ^ places : ℕ) ≤
      (shortest mantissa exponent).value := by
    rw [value_of_fraction place, le_div_iff₀ (Nat.cast_pos.mpr bit)]
    exact_mod_cast below
  have high : (shortest mantissa exponent).value ≤
      ((shortest mantissa exponent).digits / 10 ^ places + 1 : ℕ) := by
    rw [value_of_fraction place, div_le_iff₀ (Nat.cast_pos.mpr bit)]
    rw [← Nat.succ_mul] at above
    exact_mod_cast above.le
  rcases Nat.lt_or_ge ((shortest mantissa exponent).digits / 10 ^ places) n with more | less
  · exact length_digits_le_one canonical some fraction
      (inside.between own (scale high) (scale (by exact_mod_cast more))) short
  · exact length_digits_le_one canonical some fraction
      (own.between inside (scale (by exact_mod_cast less)) (scale low)) (by omega)

/-- The shortest decimal of a whole number is whole. -/
theorem place_nonneg {n : ℕ} (whole : magnitude mantissa exponent = n) :
    0 ≤ (shortest mantissa exponent).place := by
  by_contra behind
  obtain ⟨places, same⟩ := Int.eq_ofNat_of_zero_le
    (show 0 ≤ -(shortest mantissa exponent).place by omega)
  have fraction : 0 < places := by omega
  have place : (shortest mantissa exponent).place = -places := by omega
  -- With one digit only the decimal lies below one, so that the whole number is one. But one is its
  -- own decimal.
  have digit : (shortest mantissa exponent).digits < 10 :=
    (Nat.length_toDigits_le_iff (by decide) Nat.one_pos).mp
      (length_digits_of_fraction canonical some whole fraction place)
  have small : (shortest mantissa exponent).value ≤ 1 := by
    rw [value_of_fraction place, div_le_one (Nat.cast_pos.mpr (Nat.pow_pos (by decide)))]
    have ten : 10 ^ 1 ≤ 10 ^ places := Nat.pow_le_pow_right (by decide) fraction
    exact_mod_cast digit.le.trans ten
  have most := magnitude_le_one canonical some small
  have least := magnitude_pos some exponent
  rw [whole] at most
  rw [whole] at least
  have least : 0 < n := by exact_mod_cast least
  have most : n ≤ 1 := by exact_mod_cast most
  obtain rfl : n = 1 := by omega
  have canonical' : (finite false 4503599627370496 1022).Canonical := by
    refine ⟨?_, ?_, ?_⟩ <;> decide
  obtain ⟨rfl, rfl⟩ := magnitude_injective canonical canonical'
    (by rw [whole, magnitude_one, Nat.cast_one])
  have own : shortest 4503599627370496 1022 = ⟨1, 0⟩ := by decide +kernel
  exact behind (by rw [own])

omit some in
/-- A whole number in the span of a double that is finer than one is a double itself. -/
theorem lt_of_contains {n : ℕ} (low : exponent < unitPlaces)
    (inside : (Span.of mantissa exponent).Contains (n * quarters)) : n < 2 ^ 53 := by
  have reach : n * quarters ≤ (Span.of mantissa exponent).high := by
    exact_mod_cast Span.le_high inside
  have highest : (Span.of mantissa exponent).high = (4 * mantissa + 2) * 2 ^ exponent := by
    rw [Span.high_of, Nat.add_mul, Nat.mul_assoc]
  have bits : 2 ^ exponent ≤ 2 ^ unitPlaces := Nat.pow_le_pow_right (by decide) low.le
  have top : 4 * mantissa + 2 < 4 * 2 ^ 53 := by
    have := canonical.1
    unfold hiddenBit at this
    omega
  have wide : n * (4 * 2 ^ unitPlaces) < 2 ^ 53 * (4 * 2 ^ unitPlaces) :=
    calc n * (4 * 2 ^ unitPlaces) = n * quarters := by rw [quarters_eq]
      _ ≤ (4 * mantissa + 2) * 2 ^ exponent := reach.trans_eq highest
      _ ≤ (4 * mantissa + 2) * 2 ^ unitPlaces := Nat.mul_le_mul_left _ bits
      _ < 4 * 2 ^ 53 * 2 ^ unitPlaces :=
        Nat.mul_lt_mul_of_pos_right top (Nat.pow_pos (by decide))
      _ = 2 ^ 53 * (4 * 2 ^ unitPlaces) := by rw [Nat.mul_comm 4, Nat.mul_assoc]
  exact Nat.lt_of_mul_lt_mul_right wide

/-- Only a whole number has a shortest decimal that is whole. -/
theorem magnitude_of_place_nonneg (whole : 0 ≤ (shortest mantissa exponent).place) :
    ∃ n : ℕ, magnitude mantissa exponent = n := by
  have unit : (2 : ℚ) ^ unitPlaces ≠ 0 := pow_ne_zero _ two_ne_zero
  rcases Nat.lt_or_ge exponent unitPlaces with low | high
  · obtain ⟨places, place⟩ := Int.eq_ofNat_of_zero_le whole
    obtain ⟨n, value⟩ : ∃ n : ℕ, (shortest mantissa exponent).value = n := by
      refine ⟨(shortest mantissa exponent).digits * 10 ^ places, ?_⟩
      rw [Decimal.value, place]
      simp
    have positive := value_pos (digits_shortest_pos canonical some)
    have inside := (shortest_fewest some canonical).inside
    have rounds := @shortest_rounds false _ _ canonical some
    rw [value] at positive inside
    obtain ⟨m, e, near, -, -, same⟩ :=
      nearest_whole (by exact_mod_cast positive) (lt_of_contains canonical low inside)
    have rounds' := nearest_rounds false n Nat.one_pos
    rw [if_neg Bool.false_ne_true] at rounds rounds'
    rw [near, Nat.cast_one, div_one, ← value] at rounds'
    rw [← value] at positive
    cases rounds.unique positive.ne' rounds'
    refine ⟨n, ?_⟩
    rw [magnitude, div_eq_iff unit]
    exact_mod_cast same
  · obtain ⟨more, rfl⟩ := Nat.exists_eq_add_of_le high
    refine ⟨mantissa * 2 ^ more, ?_⟩
    rw [magnitude, div_eq_iff unit, pow_add]
    push_cast
    ring

end Decimal

/-! The characters of the text of a number. -/

/-- A digit, or one of the marks that the text of a number may have. -/
def isNumberChar (c : Char) : Bool :=
  c.isDigit || ['-', '.', 'e', '+'].contains c

theorem toNat_of_isNumberChar {c : Char} (h : isNumberChar c = true) : c.toNat < 128 := by
  rcases Bool.or_eq_true_iff.mp h with digit | mark
  · have flat := Css.isFlat_of_isDigit digit
    simpa [Css.isFlat] using (Bool.and_eq_true_iff.mp flat).1
  · have mem : c = '-' ∨ c = '.' ∨ c = 'e' ∨ c = '+' := by simpa using mark
    rcases mem with rfl | rfl | rfl | rfl <;> decide

theorem isNumberChar_of_digits {n : ℕ} : ∀ c ∈ Nat.toDigits 10 n, isNumberChar c = true :=
  fun c mem => by simp [isNumberChar, Nat.isDigit_of_mem_toDigits (by decide) (by decide) mem]

namespace Decimal

theorem layout_chars (d : Decimal) : ∀ c ∈ d.layout, isNumberChar c = true := by
  have digits := isNumberChar_of_digits (n := d.digits)
  intro c mem
  rw [layout] at mem
  dsimp only at mem
  split at mem
  · rcases List.mem_append.mp mem with mem | zero
    · exact digits c mem
    · rw [List.eq_of_mem_replicate zero]
      rfl
  split at mem
  · simp only [List.mem_append, List.mem_cons] at mem
    rcases mem with mem | rfl | mem
    · exact digits c (List.mem_of_mem_take mem)
    · rfl
    · exact digits c (List.mem_of_mem_drop mem)
  split at mem
  · simp only [List.mem_append, List.mem_cons] at mem
    rcases mem with (rfl | rfl | zero) | mem
    · rfl
    · rfl
    · rw [List.eq_of_mem_replicate zero]
      rfl
    · exact digits c mem
  · simp only [List.mem_append, List.mem_cons] at mem
    rcases mem with (mem | mem) | rfl | rfl | mem
    · exact digits c (List.mem_of_mem_take mem)
    · split at mem
      · cases mem
      · rcases List.mem_cons.mp mem with rfl | mem
        · rfl
        · exact digits c (List.mem_of_mem_drop mem)
    · rfl
    · split <;> rfl
    · exact isNumberChar_of_digits c mem

/-- Nothing but digits is written of a whole number that needs no exponent. -/
theorem layout_isDigit_iff {d : Decimal} :
    (∀ c ∈ d.layout, c.isDigit = true) ↔ 0 ≤ d.place ∧ d.point ≤ 21 := by
  have same : (Nat.toDigits 10 d.digits).length + d.place = d.point := rfl
  rw [layout]
  dsimp only
  rw [same]
  constructor
  · intro digits
    by_contra fraction
    rw [if_neg (by omega)] at digits
    split at digits
    · exact absurd (digits '.' (by simp)) (by decide)
    split at digits
    · exact absurd (digits '.' (by simp)) (by decide)
    · exact absurd (digits 'e' (by simp)) (by decide)
  · intro whole c mem
    rw [if_pos (by omega)] at mem
    rcases List.mem_append.mp mem with mem | zero
    · exact Nat.isDigit_of_mem_toDigits (by decide) (by decide) mem
    · rw [List.eq_of_mem_replicate zero]
      rfl

end Decimal

/-! The rules at the text of a number. -/

namespace ValueType

/-- A text without white space is left as it is. -/
theorem trim_of_dark {text : List Char} (dark : ∀ c ∈ text, isSpace c = false) :
    trim text = text := by
  have left {text : List Char} (dark : ∀ c ∈ text, isSpace c = false) : trimLeft text = text := by
    cases text with
    | nil => rfl
    | cons c text => rw [trimLeft, List.dropWhile_cons, dark c List.mem_cons_self]; rfl
  rw [trim, left dark, left (by simpa using dark), List.reverse_reverse]

/-- The type of a text that a decimal number spells, without a character that numbers do not
have. -/
theorem guess_of_afterNumber? {text : List Char} (chars : ∀ c ∈ text, isNumberChar c = true)
    (alone : afterNumber? text = some []) (digit : ∃ c ∈ text, c.isDigit = true) :
    guess (String.ofList text) = if isInteger text then integer else number := by
  have without {c : Char} (other : isNumberChar c = false) : c ∉ text :=
    fun mem => absurd (chars c mem) (by simp [other])
  have trimmed : trim text = text := trim_of_dark fun c mem => by
    have each := of_ascii (fun c => !isNumberChar c || !isSpace c)
      (toNat_of_isNumberChar (chars c mem)) (by decide)
    simpa [chars c mem] using each
  have named : isNamedColor text = false := by
    refine Bool.eq_false_iff.mpr fun color => ?_
    obtain ⟨name, mem, same⟩ := List.any_eq_true.mp color
    obtain ⟨c, there, digit⟩ := digit
    have letter : isLetter c = false := by
      have each := of_ascii (fun c => !c.isDigit || !isLetter c)
        (toNat_of_isNumberChar (chars c there)) (by decide)
      simpa [digit] using each
    have inside : c ∈ name.toList := by
      rw [eq_of_beq same]
      exact (mem_lowerAfter_iff letter text).mpr there
    have letters : namedColors.all (·.toList.all (!·.isDigit)) = true := by decide
    have other := List.all_eq_true.mp (List.all_eq_true.mp letters name mem) c inside
    simp [digit] at other
  have hex : isHexColor text = false := by
    unfold isHexColor
    split
    · exact absurd List.mem_cons_self (without (by decide))
    · rfl
  have function : isColorFunction text = false := by
    refine Bool.eq_false_iff.mpr fun color => ?_
    have last := (Bool.and_eq_true_iff.mp (Bool.and_eq_true_iff.mp color).1).2
    have mem := List.mem_of_mem_drop (List.mem_of_getLast? (eq_of_beq last))
    exact without (by decide) mem
  have unit (units : List String) (some : units.all (!·.toList.isEmpty) = true) :
      hasUnit units text = false := by
    rw [hasUnit, alone]
    refine Bool.eq_false_iff.mpr fun empty => ?_
    obtain ⟨name, mem, same⟩ := List.any_eq_true.mp empty
    have nonempty := List.all_eq_true.mp some name mem
    rw [eq_of_beq same] at nonempty
    cases nonempty
  have percentage : isPercentage text = false := by
    rw [isPercentage, alone]
    rfl
  have number : isNumber text = true := by
    rw [isNumber, alone]
    rfl
  change ((rules.find? fun rule => rule.1 (trim (String.ofList text).toList)).map (·.2)).getD any =
    _
  rw [String.toList_ofList, trimmed]
  simp only [rules, List.find?_cons, named, hex, function, unit lengthUnits (by decide), percentage,
    unit timeUnits (by decide), unit angleUnits (by decide), number]
  cases isInteger text <;> rfl

open NumberLiteral (Mantissa Signed sign_signed decimal?_alone radixBase?) in
/-- A number literal of such characters is a decimal one, and is taken as a whole. -/
theorem afterNumber?_of_spelled {literal : NumberLiteral} {text : List Char}
    (spelled : literal.Spelled text) (chars : ∀ c ∈ text, isNumberChar c = true) :
    afterNumber? text = some [] := by
  cases spelled with
  | @radix _ signs mark _ _ run _ marked =>
    have number := chars mark (by simp)
    have other := of_ascii (fun c => !isNumberChar c || (radixBase? c).isNone)
      (toNat_of_isNumberChar number) (by decide)
    simp [number, marked] at other
  | @decimal _ signs _ _ mantissa _ exponent signed digits raised =>
    obtain ⟨some, mantissaChars⟩ := digits.chars
    obtain ⟨c, front, rfl⟩ := List.exists_cons_of_ne_nil some
    rw [Css.afterNumber?_eq, List.cons_append,
      sign_signed signed (mantissaChars c List.mem_cons_self), ← List.cons_append,
      decimal?_alone digits raised]
    rfl

end ValueType

/-! The text of a double. -/

theorem head_toDigits (n : ℕ) (more : List Char) :
    ∃ c rest, Nat.toDigits 10 n ++ more = c :: rest ∧ c.isDigit = true := by
  obtain ⟨c, rest, digits⟩ := List.exists_cons_of_ne_nil (Nat.toDigits_ne_nil (b := 10) (n := n))
  refine ⟨c, rest ++ more, by rw [digits]; rfl, ?_⟩
  exact Nat.isDigit_of_mem_toDigits (b := 10) (n := n) (by decide) (by decide) (by simp [digits])

/-- A digit comes first. -/
theorem Decimal.layout_head {d : Decimal} (trimmed : d.digits % 10 ≠ 0) :
    ∃ c rest, d.layout = c :: rest ∧ c.isDigit = true := by
  obtain ⟨plain, scientific, -⟩ := layout_shape trimmed
  by_cases inside : -6 < d.point ∧ d.point ≤ 21
  · have shape := plain.mpr inside
    generalize d.layout = text at shape
    cases shape with
    | whole n => simpa using head_toDigits n []
    | point n => exact head_toDigits n _
  · have shape := scientific.mpr inside
    generalize d.layout = text at shape
    cases shape <;> exact head_toDigits _ _

namespace Double

open Decimal NumberLiteral

section Typed

variable {negative : Bool} {mantissa exponent : ℕ}
  (canonical : (finite negative mantissa exponent).Canonical) (some : 0 < mantissa)

include canonical some

/-- The type of a number that is not zero, by its digits. -/
theorem guess_text_of_pos : ValueType.guess (finite negative mantissa exponent).text =
    if 0 ≤ (shortest mantissa exponent).place ∧ (shortest mantissa exponent).point ≤ 21 then
      .integer else .number := by
  have trimmed := (shortest_fewest some canonical).trimmed
  obtain ⟨-, -, magnitude, -, spelled⟩ := layout_shape trimmed
  obtain ⟨c, rest, layout, digit⟩ := layout_head trimmed
  obtain ⟨signs, signed, text⟩ : ∃ signs, Signed negative signs ∧
      (finite negative mantissa exponent).text.toList =
        signs ++ (shortest mantissa exponent).layout := by
    rw [text_layout some]
    cases negative
    · exact ⟨[], .none, rfl⟩
    · exact ⟨['-'], .minus, rfl⟩
  have chars : ∀ c ∈ signs ++ (shortest mantissa exponent).layout, isNumberChar c = true := by
    intro c mem
    rcases List.mem_append.mp mem with mem | mem
    · cases signed with
      | none => cases mem
      | plus => obtain rfl := List.mem_singleton.mp mem; rfl
      | minus => obtain rfl := List.mem_singleton.mp mem; rfl
    · exact layout_chars _ c mem
  have decimal {c : Char} (number : isNumberChar c = true) : isDecimal c = c.isDigit := by
    have each := of_ascii (fun c => isDecimal c == c.isDigit) (toNat_of_isNumberChar number)
      (by decide)
    exact eq_of_beq each
  have whole : ValueType.isInteger (signs ++ (shortest mantissa exponent).layout) = true ↔
      0 ≤ (shortest mantissa exponent).place ∧ (shortest mantissa exponent).point ≤ 21 := by
    have first : isMantissa c = true := by
      rw [isMantissa, decimal (chars c (by simp [layout])), digit, Bool.or_true]
    rw [← layout_isDigit_iff, ValueType.isInteger, layout, sign_signed signed first, ← layout]
    have nonempty : (shortest mantissa exponent).layout.isEmpty = false := by rw [layout]; rfl
    simp only [nonempty, Bool.not_false, Bool.true_and, List.all_eq_true]
    exact forall₂_congr fun c mem => by rw [decimal (layout_chars _ c mem)]
  have alone := ValueType.afterNumber?_of_spelled (spelled negative signs signed) chars
  have guessed := ValueType.guess_of_afterNumber? chars alone ⟨c, by simp [layout], digit⟩
  rw [← text, String.ofList_toList, text] at guessed
  rw [guessed]
  simp only [whole]

end Typed

/-- That a number is whole and is written without an exponent. -/
def IsPlainWhole (q : ℚ) : Prop :=
  (∃ n : ℤ, q = n) ∧ |q| < 10 ^ 21

theorem exists_int_abs_iff {q : ℚ} : (∃ n : ℤ, q = n) ↔ ∃ n : ℕ, |q| = n := by
  constructor
  · rintro ⟨n, rfl⟩
    exact ⟨n.natAbs, by rw [Nat.cast_natAbs, Int.cast_abs]⟩
  · rintro ⟨n, size⟩
    rcases abs_eq (Nat.cast_nonneg n) |>.mp size with same | same
    · exact ⟨n, by simpa using same⟩
    · exact ⟨-n, by simpa using same⟩

theorem millionth_le_one : millionth ≤ 1 := by
  have one := nearest_rounds false 1 Nat.one_pos
  rw [if_neg Bool.false_ne_true, nearest_one] at one
  rw [millionth_eq, ← magnitude_one]
  exact millionth_rounds.mono one (by norm_num)

theorem isPlainWhole_iff {negative : Bool} {mantissa exponent : ℕ} (some : 0 < mantissa)
    (canonical : (finite negative mantissa exponent).Canonical) :
    IsPlainWhole (exact negative mantissa exponent) ↔
      0 ≤ (shortest mantissa exponent).place ∧ (shortest mantissa exponent).point ≤ 21 := by
  have point := point_iff canonical some
  rw [IsPlainWhole, exists_int_abs_iff, abs_exact]
  constructor
  · rintro ⟨⟨n, whole⟩, small⟩
    have least := magnitude_pos some exponent
    rw [whole] at least
    have one : (1 : ℚ) ≤ magnitude mantissa exponent := by
      rw [whole]
      exact_mod_cast least
    exact ⟨place_nonneg canonical some whole, (point.mpr ⟨millionth_le_one.trans one, small⟩).2⟩
  · rintro ⟨whole, short⟩
    have first := Nat.length_toDigits_pos (b := 10) (n := (shortest mantissa exponent).digits)
    have count : (Nat.toDigits 10 (shortest mantissa exponent).digits).length +
        (shortest mantissa exponent).place = (shortest mantissa exponent).point := rfl
    exact ⟨magnitude_of_place_nonneg canonical some whole, (point.mp ⟨by omega, short⟩).2⟩

/-- A double that is a whole number below the least power of ten with an exponent has the text of an
integer, and any other has that of a number. -/
theorem guess_text {x : Double} {q : ℚ} (canonical : x.Canonical) (finite : x.toRat? = some q) :
    (IsPlainWhole q → ValueType.guess x.text = .integer) ∧
      (¬ IsPlainWhole q → ValueType.guess x.text = .number) := by
  cases x with
  | infinite => cases finite
  | nan => cases finite
  | finite negative mantissa exponent =>
    rw [toRat?_finite] at finite
    cases finite
    rcases Nat.eq_zero_or_pos mantissa with rfl | some
    · have zero : exact negative 0 exponent = 0 := by
        cases negative <;> simp [exact, magnitude_zero]
      rw [zero]
      refine ⟨fun _ => ?_, fun other => absurd ⟨⟨0, by simp⟩, by simp⟩ other⟩
      rw [text]
      decide +kernel
    · rw [isPlainWhole_iff some canonical, guess_text_of_pos canonical some]
      exact ⟨fun whole => if_pos whole, fun other => if_neg other⟩

/-- The text of a finite double is declared as an integer exactly if the double is a whole number
below the least power of ten with an exponent, and else as a number, whatever its key. So no
property with such a text has another type. -/
theorem type_text_iff {bits : ℕ} {q : ℚ} (finite : (ofBits bits).toRat? = some q) (key : String) :
    let text := (ofBits bits).text
    let plain := (∃ n : ℤ, q = n) ∧ |q| < 10 ^ 21
    (guessClassifier key text = .returned (.text "<integer>") ↔ plain) ∧
      (guessClassifier key text = .returned (.text "<number>") ↔ ¬ plain) ∧
      ∀ (space : String) (mapping : Literal.Mapping), ∃ properties,
        Stylesheet.properties space guessClassifier mapping = .ok properties ∧
          ∀ p ∈ properties, p.value = text → p.type = "<integer>" ∨ p.type = "<number>" := by
  intro text plain
  obtain ⟨integer, number⟩ := guess_text (ofBits_canonical bits) finite
  change (plain → _) at integer
  change (¬ plain → _) at number
  have answer : guessClassifier key text = .returned (.text (ValueType.guess text).text) := rfl
  rw [answer]
  refine ⟨?_, ?_, fun space mapping => ⟨_, Stylesheet.properties_guessClassifier space mapping, ?_⟩⟩
  · by_cases whole : plain
    · simp [text, integer whole, whole, ValueType.text]
    · simp [text, number whole, whole, ValueType.text]
  · by_cases whole : plain
    · simp [text, integer whole, whole, ValueType.text]
    · simp [text, number whole, whole, ValueType.text]
  · intro p mem same
    obtain ⟨entry, -, rfl⟩ := List.mem_map.mp mem
    change entry.2 = text at same
    change (ValueType.guess entry.2).text = _ ∨ (ValueType.guess entry.2).text = _
    rw [same]
    by_cases whole : plain
    · exact .inl (congrArg ValueType.text (integer whole))
    · exact .inr (congrArg ValueType.text (number whole))

/-- The greatest double that is written without an exponent. -/
theorem type_text_greatestPlain :
    (ofBits 0x444B1AE4D6E2EF4F).toRat? = some 999999999999999868928 ∧
      (ofBits 0x444B1AE4D6E2EF4F).text = "999999999999999900000" ∧
      guessClassifier "zIndex" "999999999999999900000" = .returned (.text "<integer>") := by
  have value : (ofBits 0x444B1AE4D6E2EF4F).toRat? = some 999999999999999868928 := by
    decide +kernel
  have text : (ofBits 0x444B1AE4D6E2EF4F).text = "999999999999999900000" := by decide +kernel
  obtain ⟨integer, -⟩ := type_text_iff value "zIndex"
  rw [text] at integer
  refine ⟨value, text, integer.mpr ⟨⟨999999999999999868928, by norm_num⟩, ?_⟩⟩
  rw [abs_of_pos (by norm_num)]
  norm_num

end Double
end ThemeSheet
