import Mathlib
import ThemeSheet.Proofs.LowerCase
import ThemeSheet.Proofs.Terminals
import ThemeSheet.ValueType

/-! The numbers and dimensions that values are declared as, against those that a browser reads. The
rules take digits of any script, units whose letters merely fold to ASCII, and a point with nothing
behind it. A value with none of these is read as what it is declared as, and no other value is. -/

namespace ThemeSheet

open Text

/-! Numbers, percentages and dimensions as a browser reads them. -/

namespace Css

inductive Sign : List Char → Prop
  | none : Sign []
  | plus : Sign ['+']
  | minus : Sign ['-']

/-- ASCII digits, one at least. -/
structure Digits (text : List Char) : Prop where
  some : text ≠ []
  digits : ∀ c ∈ text, c.isDigit = true

/-- Digits, or a point with digits behind it and maybe some before it. -/
inductive Significand : List Char → Prop
  | whole {text} (digits : Digits text) : Significand text
  | point {front back} (before : ∀ c ∈ front, c.isDigit = true) (behind : Digits back) :
    Significand (front ++ '.' :: back)

inductive Exponent : List Char → Prop
  | none : Exponent []
  | some {mark sign text} (letter : mark = 'e' ∨ mark = 'E') (signed : Sign sign)
    (digits : Digits text) : Exponent (mark :: (sign ++ text))

inductive Number : List Char → Prop
  | mk {sign significand exponent} (signed : Sign sign) (digits : Significand significand)
    (raised : Exponent exponent) : Number (sign ++ (significand ++ exponent))

def lengthUnits : List String :=
  ["em", "rem", "ex", "rex", "cap", "rcap", "ch", "rch", "ic", "ric", "lh", "rlh",
    "vw", "svw", "lvw", "dvw", "vh", "svh", "lvh", "dvh", "vi", "svi", "lvi", "dvi",
    "vb", "svb", "lvb", "dvb", "vmin", "svmin", "lvmin", "dvmin", "vmax", "svmax", "lvmax", "dvmax",
    "cqw", "cqh", "cqi", "cqb", "cqmin", "cqmax", "cm", "mm", "q", "in", "pt", "pc", "px"]

def timeUnits : List String := ["s", "ms"]

def angleUnits : List String := ["deg", "grad", "rad", "turn"]

/-- One of the names in ASCII letters of any case. -/
def IsUnit (names : List String) (text : List Char) : Prop :=
  ∃ name ∈ names, text.map Char.toLower = name.toList

/-- The tokens that a browser takes for a value of a type. -/
inductive Token : ValueType → List Char → Prop
  | integer {sign text} (signed : Sign sign) (digits : Digits text) : Token .integer (sign ++ text)
  | number {text} (number : Number text) : Token .number text
  | percentage {text} (number : Number text) : Token .percentage (text ++ ['%'])
  | length {text unit} (number : Number text) (named : IsUnit lengthUnits unit) :
    Token .length (text ++ unit)
  | time {text unit} (number : Number text) (named : IsUnit timeUnits unit) :
    Token .time (text ++ unit)
  | angle {text unit} (number : Number text) (named : IsUnit angleUnits unit) :
    Token .angle (text ++ unit)

/-- That each point has an ASCII digit behind it. -/
def PointsClosed (text : List Char) : Prop :=
  ∀ before behind, text = before ++ '.' :: behind → ∃ c ∈ behind.head?, c.isDigit = true

/-! What is in a token. -/

/-- A text with one point can be split at a point in one way. -/
theorem behind_only_point {front back before behind : List Char} (left : '.' ∉ front)
    (right : '.' ∉ back) (split : front ++ '.' :: back = before ++ '.' :: behind) :
    back = behind :=
  ((List.append_cons_inj_of_notMem left right).mp split).2.2

/-- An ASCII character that is no point. -/
def isFlat (c : Char) : Bool :=
  decide (c.toNat < 128) && c != '.'

theorem isFlat_of_isDigit {c : Char} (h : c.isDigit = true) : isFlat c = true := by
  have small : c.toNat < 128 := by
    simp only [Char.isDigit, Bool.and_eq_true, decide_eq_true_eq, ge_iff_le,
      UInt32.le_iff_toNat_le] at h
    exact Nat.lt_of_le_of_lt h.2 (by decide)
  simpa [h] using of_ascii (fun c => !c.isDigit || isFlat c) small (by decide)

theorem Sign.flat {text : List Char} (h : Sign text) : ∀ c ∈ text, isFlat c = true := by
  cases h <;> simp <;> decide

theorem Digits.flat {text : List Char} (h : Digits text) : ∀ c ∈ text, isFlat c = true :=
  fun c mem => isFlat_of_isDigit (h.digits c mem)

theorem Exponent.flat {text : List Char} (h : Exponent text) : ∀ c ∈ text, isFlat c = true := by
  cases h with
  | none => simp
  | some letter signed digits =>
    intro c mem
    rcases List.mem_cons.mp mem with rfl | mem
    · rcases letter with rfl | rfl <;> decide
    · rcases List.mem_append.mp mem with mem | mem
      · exact signed.flat c mem
      · exact digits.flat c mem

theorem IsUnit.flat {names : List String} {text : List Char} (h : IsUnit names text)
    (letters : (names.all (·.toList.all isFlat)) = true) :
    ∀ c ∈ text, isFlat c = true := by
  obtain ⟨name, mem, lowered⟩ := h
  intro c there
  have lower : isFlat c.toLower = true :=
    List.all_eq_true.mp (List.all_eq_true.mp letters name mem) _
      (lowered ▸ List.mem_map_of_mem there)
  by_cases small : c.toNat < 128
  · simpa [lower] using of_ascii (fun c => !isFlat c.toLower || isFlat c) small (by decide)
  · have same : c.toLower = c := by
      rw [Char.toLower, dif_neg]
      exact fun upper => small (Nat.lt_of_le_of_lt (UInt32.le_iff_toNat_le.mp upper.2) (by decide))
    rwa [same] at lower

/-- A number, and no point behind it. -/
theorem Token.split {type : ValueType} {text : List Char} (h : Token type text) :
    ∃ number rest, text = number ++ rest ∧ Number number ∧ ∀ c ∈ rest, isFlat c = true := by
  cases h with
  | @integer sign text signed digits =>
    exact ⟨sign ++ (text ++ []), [], by simp, .mk signed (.whole digits) .none, by simp⟩
  | number number => exact ⟨text, [], by simp, number, by simp⟩
  | percentage number => exact ⟨_, _, rfl, number, by simp [isFlat]⟩
  | length number named => exact ⟨_, _, rfl, number, named.flat (by decide)⟩
  | time number named => exact ⟨_, _, rfl, number, named.flat (by decide)⟩
  | angle number named => exact ⟨_, _, rfl, number, named.flat (by decide)⟩

/-- A token is in ASCII, and its point has a digit behind it. -/
theorem Token.closed {type : ValueType} {text : List Char} (h : Token type text) :
    (∀ c ∈ text, c.toNat < 128) ∧ PointsClosed text := by
  obtain ⟨_, rest, rfl, ⟨signed, digits, raised⟩, flat⟩ := h.split
  rename_i sign significand exponent
  have ascii {text : List Char} (h : ∀ c ∈ text, isFlat c = true) : ∀ c ∈ text, c.toNat < 128 :=
    fun c mem => by simpa [isFlat] using (Bool.and_eq_true_iff.mp (h c mem)).1
  have pointless {text : List Char} (h : ∀ c ∈ text, isFlat c = true) : '.' ∉ text :=
    fun mem => absurd (h '.' mem) (by decide)
  cases digits with
  | whole digits =>
    have all : ∀ c ∈ sign ++ (significand ++ exponent) ++ rest, isFlat c = true := by
      simp only [List.mem_append]
      rintro c ((mem | mem | mem) | mem)
      · exact signed.flat c mem
      · exact digits.flat c mem
      · exact raised.flat c mem
      · exact flat c mem
    refine ⟨ascii all, fun before behind split => ?_⟩
    exact absurd (split ▸ List.mem_append_right _ List.mem_cons_self) (pointless all)
  | @point front back digits behind =>
    have left : ∀ c ∈ sign ++ front, isFlat c = true := by
      simp only [List.mem_append]
      rintro c (mem | mem)
      · exact signed.flat c mem
      · exact isFlat_of_isDigit (digits c mem)
    have right : ∀ c ∈ back ++ (exponent ++ rest), isFlat c = true := by
      simp only [List.mem_append]
      rintro c (mem | mem | mem)
      · exact behind.flat c mem
      · exact raised.flat c mem
      · exact flat c mem
    have whole : sign ++ (front ++ '.' :: back ++ exponent) ++ rest =
        sign ++ front ++ '.' :: (back ++ (exponent ++ rest)) := by simp
    rw [whole]
    constructor
    · intro c mem
      rcases List.mem_append.mp mem with mem | mem
      · exact ascii left c mem
      · rcases List.mem_cons.mp mem with rfl | mem
        · decide
        · exact ascii right c mem
    · -- There is no other point, so that this is the one before the digits.
      intro before after split
      obtain rfl := behind_only_point (pointless left) (pointless right) split
      obtain ⟨c, digits, rfl⟩ := List.exists_cons_of_ne_nil behind.some
      exact ⟨c, rfl, behind.digits c List.mem_cons_self⟩

/-! What the rules take, as a token. -/

section Scanned

open NumberLiteral (Signed Mantissa Power)

theorem isDigit_of_isDecimal {c : Char} (h : isDecimal c = true) (small : c.toNat < 128) :
    c.isDigit = true := by
  simpa [h] using of_ascii (fun c => !isDecimal c || c.isDigit) small (by decide)

theorem digits_of_run {values : List Nat} {text : List Char}
    (run : NumberLiteral.Digits decimalValue? values text) (ascii : ∀ c ∈ text, c.toNat < 128) :
    ∀ c ∈ text, c.isDigit = true :=
  fun c mem => isDigit_of_isDecimal (run.isDecimal c mem) (ascii c mem)

theorem sign_of_signed {negative : Bool} {text : List Char} (h : Signed negative text) :
    Sign text := by
  cases h
  · exact .none
  · exact .plus
  · exact .minus

theorem exponent_of_power {power : Int} {text : List Char} (h : Power power text)
    (ascii : ∀ c ∈ text, c.toNat < 128) : Exponent text := by
  cases h with
  | none => exact .none
  | @some mark negative sign values text letter signed run some =>
    have small : ∀ c ∈ text, c.toNat < 128 := fun c mem => ascii c (by simp [mem])
    exact .some letter (sign_of_signed signed)
      ⟨mt (NumberLiteral.digits_nil_iff run).mpr some, digits_of_run run small⟩

/-- A mantissa whose point has a digit behind it. -/
theorem significand_of_mantissa {whole tail : List Nat} {text more : List Char}
    (h : Mantissa whole tail text) (ascii : ∀ c ∈ text, c.toNat < 128)
    (closed : ∀ front back, text = front ++ '.' :: back →
      ∃ c ∈ (back ++ more).head?, c.isDigit = true)
    (apart : ∀ c ∈ more.head?, c.isDigit = false) : Significand text := by
  cases h with
  | whole run some =>
    exact .whole ⟨mt (NumberLiteral.digits_nil_iff run).mpr some, digits_of_run run ascii⟩
  | point before behind some =>
    rename_i front back
    have left : ∀ c ∈ front, c.toNat < 128 := fun c mem => ascii c (by simp [mem])
    have right : ∀ c ∈ back, c.toNat < 128 := fun c mem => ascii c (by simp [mem])
    refine .point (digits_of_run before left) ⟨?_, digits_of_run behind right⟩
    rintro rfl
    obtain ⟨c, first, digit⟩ := closed front [] rfl
    exact absurd (digit.symm.trans (apart c first)) (by decide)

theorem afterNumber?_eq (text : List Char) : ValueType.afterNumber? text =
    (NumberLiteral.decimal? (NumberLiteral.sign text).2).map (·.2) :=
  Option.map_map _ _ _

/-- What the rules take for a decimal number is one, if the text is in ASCII, its point has a digit
behind it and the number ends where its digits do. -/
theorem afterNumber?_split {text rest : List Char}
    (found : ValueType.afterNumber? text = some rest) :
    ∃ number, text = number ++ rest ∧ ((∀ c ∈ text, c.toNat < 128) → PointsClosed text →
      (∀ c ∈ rest.head?, c.isDigit = false) → Number number) := by
  rw [afterNumber?_eq] at found
  obtain ⟨⟨magnitude, rest⟩, read, rfl⟩ := Option.map_eq_some_iff.mp found
  obtain ⟨signs, split, signed⟩ := NumberLiteral.sign_split text
  obtain ⟨whole, tail, mantissa, power, exponent, -, split', digits, raised⟩ :=
    NumberLiteral.decimal?_split read
  rw [split'] at split
  refine ⟨signs ++ (mantissa ++ exponent), by simp [split], fun ascii closed apart => ?_⟩
  have small : (∀ c ∈ mantissa, c.toNat < 128) ∧ ∀ c ∈ exponent, c.toNat < 128 :=
    ⟨fun c mem => ascii c (by simp [split, mem]), fun c mem => ascii c (by simp [split, mem])⟩
  have behind : ∀ c ∈ (exponent ++ rest).head?, c.isDigit = false := by
    cases raised with
    | none => exact apart
    | some letter =>
      rintro c first
      cases first
      rcases letter with rfl | rfl <;> decide
  refine .mk (sign_of_signed signed) ?_ ?_
  · refine significand_of_mantissa digits small.1 ?_ behind
    rintro front back rfl
    exact closed (signs ++ front) (back ++ (exponent ++ rest)) (by simp [split])
  · exact exponent_of_power raised small.2

end Scanned

end Css

namespace ValueType

open Css (Token PointsClosed IsUnit afterNumber?_split)

/-- The types of numbers, percentages and dimensions. -/
def numeric : List ValueType := [integer, number, percentage, length, time, angle]

/-- The rule that a type comes from holds. -/
theorem rule_of_guess {value : String} {type : ValueType} (guessed : guess value = type)
    (numeric : type ∈ numeric) :
    ∃ rule ∈ rules, rule.1 (trim value.toList) = true ∧ rule.2 = type := by
  change ((rules.find? fun rule => rule.1 (trim value.toList)).map (·.2)).getD any = type at guessed
  cases found : rules.find? fun rule => rule.1 (trim value.toList) with
  | none =>
    rw [found] at guessed
    subst guessed
    exact absurd numeric (by decide)
  | some rule =>
    rw [found] at guessed
    have holds := List.find?_some found
    exact ⟨rule, List.mem_of_find?_eq_some found, holds, guessed⟩

theorem foldCase_of_ascii {c : Char} (small : c.toNat < 128) : foldCase c = c.toLower := by
  simpa using of_ascii (fun c => foldCase c == c.toLower) small (by decide)

/-- A unit that the rules take is one of a browser, if it is in ASCII. -/
theorem isUnit_of_folded {units names : List String} {unit : List Char}
    (folded : units.any (·.toList == unit.map foldCase) = true)
    (ascii : ∀ c ∈ unit, c.toNat < 128) (known : units ⊆ names) : IsUnit names unit := by
  obtain ⟨name, mem, same⟩ := List.any_eq_true.mp folded
  refine ⟨name, known mem, ?_⟩
  rw [eq_of_beq same]
  exact List.map_congr_left fun c mem => (foldCase_of_ascii (ascii c mem)).symm

/-- No unit begins with a digit, so that the digits of a number end before it. -/
theorem no_digit_of_folded {units : List String} {unit : List Char}
    (folded : units.any (·.toList == unit.map foldCase) = true)
    (letters : units.all (fun name => name.toList.head?.all (!·.isDigit)) = true) :
    ∀ c ∈ unit.head?, c.isDigit = false := by
  intro c first
  obtain ⟨name, mem, same⟩ := List.any_eq_true.mp folded
  have begins := List.all_eq_true.mp letters name mem
  rw [eq_of_beq same, List.head?_map, first] at begins
  have other : (foldCase c).isDigit = false := by simpa using begins
  refine Bool.eq_false_iff.mpr fun digit => ?_
  have flat := Css.isFlat_of_isDigit digit
  have small : c.toNat < 128 := by simpa [Css.isFlat] using (Bool.and_eq_true_iff.mp flat).1
  have same := of_ascii (fun c => !c.isDigit || (foldCase c).isDigit) small (by decide)
  simp [digit, other] at same

variable {value : String} {type : ValueType}

/-- A value that is declared as a number, a percentage or a dimension is a token of that type, white
space around it apart, if and only if it is in ASCII and each of its points has a digit behind
it. -/
theorem token_guess_iff (guessed : guess value = type) (numeric : type ∈ numeric) :
    Token type (trim value.toList) ↔
      (∀ c ∈ trim value.toList, c.toNat < 128) ∧ PointsClosed (trim value.toList) := by
  refine ⟨Token.closed, fun ⟨ascii, closed⟩ => ?_⟩
  obtain ⟨rule, mem, holds, rfl⟩ := rule_of_guess guessed numeric
  generalize trim value.toList = text at *
  have plain {rest : List Char} (found : afterNumber? text = some rest)
      (apart : ∀ c ∈ rest.head?, c.isDigit = false) :
      ∃ front, text = front ++ rest ∧ Css.Number front := by
    obtain ⟨front, split, scanned⟩ := afterNumber?_split found
    exact ⟨front, split, scanned ascii closed apart⟩
  have dimension {units names : List String} (holds : hasUnit units text = true)
      (letters : units.all (fun name => name.toList.head?.all (!·.isDigit)) = true)
      (known : units ⊆ names) :
      ∃ front unit, text = front ++ unit ∧ Css.Number front ∧ IsUnit names unit := by
    cases found : afterNumber? text with
    | none =>
      rw [hasUnit, found] at holds
      cases holds
    | some unit =>
      rw [hasUnit, found] at holds
      obtain ⟨front, split, number⟩ := plain found (no_digit_of_folded holds letters)
      refine ⟨front, unit, split, number, isUnit_of_folded holds (fun c mem => ?_) known⟩
      exact ascii c (split ▸ List.mem_append_right front mem)
  simp only [rules, List.mem_cons, List.not_mem_nil, or_false] at mem
  rcases mem with rfl | rfl | rfl | rfl | rfl | rfl | rfl | rfl | rfl
  · exact absurd numeric (by decide)
  · exact absurd numeric (by decide)
  · exact absurd numeric (by decide)
  · obtain ⟨front, unit, rfl, number, named⟩ := dimension holds (by decide)
      (show lengthUnits ⊆ Css.lengthUnits by decide)
    exact .length number named
  · obtain ⟨front, rfl, number⟩ := plain (eq_of_beq holds) (by simp)
    exact .percentage number
  · obtain ⟨front, unit, rfl, number, named⟩ := dimension holds (by decide)
      (show timeUnits ⊆ Css.timeUnits by decide)
    exact .time number named
  · obtain ⟨front, unit, rfl, number, named⟩ := dimension holds (by decide)
      (show angleUnits ⊆ Css.angleUnits by decide)
    exact .angle number named
  · obtain ⟨signs, split, signed⟩ := NumberLiteral.sign_split text
    obtain ⟨some, decimal⟩ := Bool.and_eq_true_iff.mp holds
    rw [split]
    refine .integer (Css.sign_of_signed signed) ⟨by simpa using some, fun c mem => ?_⟩
    exact Css.isDigit_of_isDecimal (List.all_eq_true.mp decimal c mem)
      (ascii c (split ▸ List.mem_append_right signs mem))
  · obtain ⟨front, rfl, number⟩ := plain (eq_of_beq holds) (by simp)
    rw [List.append_nil]
    exact .number number

/-- A length with all that a number may have, and with its unit in letters of either case. -/
theorem token_guess_scientificRem :
    guess " -.5E+3Rem" = .length ∧ Token .length "-.5E+3Rem".toList := by
  have guessed : guess " -.5E+3Rem" = .length := by decide +kernel
  have text : trim " -.5E+3Rem".toList = ['-'] ++ '.' :: "5E+3Rem".toList := by decide +kernel
  have token := (token_guess_iff guessed (by decide)).mpr
  rw [text] at token
  refine ⟨guessed, token ⟨by simp, fun before behind split => ?_⟩⟩
  obtain rfl := Css.behind_only_point (by decide) (by decide) split
  exact ⟨'5', rfl, rfl⟩

/-- Not every value that is declared as a number or a length is one: the digit may be of another
script, or a point may have nothing behind it. -/
theorem guess_not_token :
    (guess "٣px" = .length ∧ ¬ Token .length (trim "٣px".toList)) ∧
    (guess "1." = .number ∧ ¬ Token .number (trim "1.".toList)) ∧
    ¬ ∀ value type, guess value = type → type ∈ numeric → Token type (trim value.toList) := by
  have script : guess "٣px" = .length := by decide +kernel
  have foreign : ¬ Token .length (trim "٣px".toList) := fun token =>
    absurd (token.closed.1 '٣' (by decide)) (by decide)
  have open' : ¬ Token .number (trim "1.".toList) := fun token => by
    obtain ⟨c, first, -⟩ := token.closed.2 ['1'] [] (by decide)
    cases first
  refine ⟨⟨script, foreign⟩, ⟨by decide +kernel, open'⟩, fun claim => ?_⟩
  exact foreign (claim _ _ script (by decide))

end ValueType

end ThemeSheet
