import Mathlib
import ThemeSheet.Proofs.NormalData
import ThemeSheet.Proofs.NumericTokens
import ThemeSheet.Proofs.PatternLanguages

/-! The patterns that tell the types of values. The letters of a unit may also stand in a number,
and most parts of a number may be missing, so that a text may be split in several ways. But only one
split puts all digits and points before the unit, and that is the one the rules look at. -/

namespace ThemeSheet

open Text

/-! Decimal numbers. -/

namespace NumberLiteral

/-- The texts of decimal numbers. -/
inductive SignedDecimal : List Char → Prop
  | mk {negative sign whole tail mantissa power exponent} (signed : Signed negative sign)
    (digits : Mantissa whole tail mantissa) (raised : Power power exponent) :
    SignedDecimal (sign ++ (mantissa ++ exponent))

variable {text front unit : List Char}

theorem ne_of_begins {c d : Char} (h : begins c = true) (other : begins d = false) : c ≠ d := by
  rintro rfl
  exact absurd (h.symm.trans other) (by decide)

theorem begins_of_isMantissa {c : Char} (h : isMantissa c = true) : begins c = true := by
  rw [begins, Bool.or_assoc, Bool.or_eq_true]
  exact .inr h

theorem SignedDecimal.begins (h : SignedDecimal text) :
    ∃ c rest, text = c :: rest ∧ NumberLiteral.begins c = true := by
  obtain @⟨_, _, _, _, mantissa, _, exponent, signed, digits, -⟩ := h
  cases signed with
  | none =>
    obtain ⟨nonempty, chars⟩ := digits.chars
    obtain ⟨c, rest, rfl⟩ := List.exists_cons_of_ne_nil nonempty
    exact ⟨c, rest ++ exponent, rfl, begins_of_isMantissa (chars c List.mem_cons_self)⟩
  | plus => exact ⟨'+', mantissa ++ exponent, rfl, rfl⟩
  | minus => exact ⟨'-', mantissa ++ exponent, rfl, rfl⟩

theorem isMantissa_last (nonempty : text ≠ []) (chars : ∀ c ∈ text, isMantissa c = true)
    (front : List Char) : ∃ c ∈ (front ++ text).getLast?, isMantissa c = true := by
  obtain ⟨text, c, rfl⟩ := (List.eq_nil_or_concat' text).resolve_left nonempty
  exact ⟨c, by simp, chars c (by simp)⟩

/-- A number ends in a digit or a point. -/
theorem SignedDecimal.last (h : SignedDecimal text) :
    ∃ c ∈ text.getLast?, isMantissa c = true := by
  obtain @⟨_, sign, _, _, mantissa, _, exponent, -, digits, raised⟩ := h
  cases raised with
  | none =>
    rw [List.append_nil]
    exact isMantissa_last digits.chars.1 digits.chars.2 sign
  | @some mark _ sign' _ run _ _ isRun nonempty =>
    have split : sign ++ (mantissa ++ mark :: (sign' ++ run)) =
        sign ++ mantissa ++ mark :: sign' ++ run := by simp
    rw [split]
    exact isMantissa_last (mt (digits_nil_iff isRun).mpr nonempty) isRun.isMantissa _

theorem exists_of_afterNumber? {rest : List Char}
    (found : ValueType.afterNumber? text = some rest) :
    ∃ front, SignedDecimal front ∧ front ++ rest = text := by
  rw [Css.afterNumber?_eq] at found
  obtain ⟨⟨magnitude, rest⟩, read, rfl⟩ := Option.map_eq_some_iff.mp found
  obtain ⟨sign, split, signed⟩ := sign_split text
  obtain ⟨whole, tail, mantissa, power, exponent, -, split', digits, raised⟩ := decimal?_split read
  refine ⟨sign ++ (mantissa ++ exponent), .mk signed digits raised, ?_⟩
  rw [split, split']
  simp

theorem SignedDecimal.taken (h : SignedDecimal front) (more : List Char) :
    ∃ rest, ValueType.afterNumber? (front ++ more) = some rest ∧ rest.length ≤ more.length := by
  obtain @⟨_, sign, _, _, mantissa, _, exponent, signed, digits, raised⟩ := h
  obtain ⟨magnitude, rest, read, short⟩ := decimal?_taken digits raised more
  obtain ⟨nonempty, chars⟩ := digits.chars
  obtain ⟨c, mantissa, rfl⟩ := List.exists_cons_of_ne_nil nonempty
  have split : sign ++ (c :: mantissa ++ exponent) ++ more =
      sign ++ c :: (mantissa ++ (exponent ++ more)) := by simp
  refine ⟨rest, ?_, short⟩
  rw [split, Css.afterNumber?_eq, sign_signed signed (chars c List.mem_cons_self),
    ← List.cons_append, read]
  rfl

/-- If a text without digits and points stands behind a number, no more is read than the number. -/
theorem afterNumber?_eq_some_iff (apart : ∀ c ∈ unit, isMantissa c = false) :
    ValueType.afterNumber? text = some unit ↔
      ∃ front, SignedDecimal front ∧ front ++ unit = text := by
  refine ⟨exists_of_afterNumber?, ?_⟩
  rintro ⟨front, numeral, rfl⟩
  obtain ⟨rest, read, short⟩ := numeral.taken unit
  obtain ⟨front', numeral', split⟩ := exists_of_afterNumber? read
  rw [read, Option.some_inj]
  rcases List.append_eq_append_iff.mp split with ⟨more, -, rfl⟩ | ⟨more, rfl, rfl⟩
  · rw [List.length_append] at short
    obtain rfl := List.length_eq_zero_iff.mp (by omega : more.length = 0)
    rfl
  · -- If more were read, it would end in a digit or a point of what is behind the number.
    obtain ⟨c, last, ends⟩ := numeral'.last
    rcases List.eq_nil_or_concat' more with rfl | ⟨more, d, rfl⟩
    · rfl
    · obtain rfl : d = c := by simpa using last
      exact absurd (ends.symm.trans (apart d (by simp))) (by decide)

end NumberLiteral

namespace ValueType

open NumberLiteral (begins ne_of_begins)

/-- No digit is a letter, in any case. -/
theorem foldCase_of_begins {c : Char} (h : begins c = true) : foldCase c = c := by
  by_cases small : c.toNat < 128
  · simpa [h] using of_ascii (fun c => !begins c || foldCase c == c) small (by decide)
  · rw [foldCase, if_neg (ne_of_begins h (by decide)), if_neg (ne_of_begins h (by decide)),
      if_neg (not_or.mpr ⟨ne_of_begins h (by decide), ne_of_begins h (by decide)⟩), Char.toLower,
      dif_neg]
    exact fun upper => small (Nat.lt_of_le_of_lt (UInt32.le_iff_toNat_le.mp upper.2) (by decide))

end ValueType

/-! The patterns. -/

namespace Literal.Pattern

/-- The letters of a name, in either case. -/
def word : List Char → Pattern
  | [] => nothing
  | c :: rest => seq (one (ValueType.foldCase · == c)) (word rest)

/-- Any of the names. -/
def anyOf : List String → Pattern
  | [] => one fun _ => false
  | name :: names => either (word name.toList) (anyOf names)

def sign : Pattern :=
  optional (one fun c => c == '+' || c == '-')

def digits : Pattern :=
  oneOrMore (one isDecimal)

/-- Digits with a point among or behind them, or with one before them. -/
def mantissa : Pattern :=
  either (seq digits (seq (optional (char '.')) (many true (one isDecimal))))
    (seq (char '.') digits)

def exponent : Pattern :=
  optional (seq (one fun c => c == 'e' || c == 'E') (seq sign digits))

def number : Pattern :=
  seq sign (seq mantissa exponent)

def integer : Pattern :=
  seq sign digits

def percentage : Pattern :=
  seq number (char '%')

def dimension (units : List String) : Pattern :=
  seq number (anyOf units)

def hexColor : Pattern :=
  seq (char '#') (either (seq (times (one isHex) 3) (optional (one isHex)))
    (either (times (one isHex) 6) (times (one isHex) 8)))

def colorFunction : Pattern :=
  seq (anyOf ValueType.colorFunctions)
    (seq (char '(') (seq (many true (one (· != '\n'))) (char ')')))

variable {text : List Char}

theorem mem_word {name : List Char} :
    text ∈ (word name).language ↔ text.map ValueType.foldCase = name := by
  induction name generalizing text with
  | nil => rw [word, mem_nothing, List.map_eq_nil_iff]
  | cons c name ih =>
    rw [word, mem_seq_one, List.map_eq_cons_iff]
    simp only [beq_iff_eq, ih]

theorem mem_anyOf {names : List String} : text ∈ (anyOf names).language ↔
    (names.any (·.toList == text.map ValueType.foldCase)) = true := by
  induction names with
  | nil => simp [anyOf, mem_one]
  | cons name names ih =>
    rw [anyOf, mem_either, mem_word, ih, List.any_cons, Bool.or_eq_true, beq_iff_eq, eq_comm]

section Numbers

open NumberLiteral (Signed Mantissa Power SignedDecimal Digits digits_nil_iff sign_signed sign_split
  isMantissa afterNumber?_eq_some_iff)

theorem mem_sign : text ∈ sign.language ↔ ∃ negative, Signed negative text := by
  rw [sign, mem_optional, mem_one]
  constructor
  · rintro (⟨c, rfl, mark⟩ | rfl)
    · rw [Bool.or_eq_true, beq_iff_eq, beq_iff_eq] at mark
      rcases mark with rfl | rfl
      · exact ⟨false, .plus⟩
      · exact ⟨true, .minus⟩
    · exact ⟨false, .none⟩
  · rintro ⟨negative, signed⟩
    cases signed with
    | none => exact .inr rfl
    | plus => exact .inl ⟨'+', rfl, rfl⟩
    | minus => exact .inl ⟨'-', rfl, rfl⟩

theorem mem_digits : text ∈ digits.language ↔
    ∃ values, Digits decimalValue? values text ∧ values ≠ [] := by
  rw [digits, mem_oneOrMore]
  constructor
  · rintro ⟨nonempty, each⟩
    obtain ⟨values, run⟩ := exists_digits each
    exact ⟨values, run, mt (digits_nil_iff run).mp nonempty⟩
  · rintro ⟨values, run, nonempty⟩
    exact ⟨mt (digits_nil_iff run).mpr nonempty, run.isDecimal⟩

theorem mem_mantissa : text ∈ mantissa.language ↔ ∃ whole tail, Mantissa whole tail text := by
  rw [mantissa, mem_either, mem_seq, mem_seq]
  simp only [mem_seq, mem_optional, mem_char, mem_run]
  constructor
  · rintro (⟨front, before, _, ⟨point, mark, back, behind, rfl⟩, rfl⟩ |
      ⟨point, rfl, back, behind, rfl⟩)
    · obtain ⟨whole, run, nonempty⟩ := mem_digits.mp before
      obtain ⟨tail, run'⟩ := exists_digits behind
      rcases mark with rfl | rfl
      · exact ⟨whole, tail, .point run run' (.inl nonempty)⟩
      · refine ⟨whole ++ tail, [], .whole ?_ (by simp [nonempty])⟩
        change (front ++ back).map decimalValue? = _
        rw [List.map_append, List.map_append, run, run']
    · obtain ⟨tail, run, nonempty⟩ := mem_digits.mp behind
      exact ⟨[], tail, @Mantissa.point [] tail [] back rfl run (.inr nonempty)⟩
  · rintro ⟨whole, tail, mantissa⟩
    cases mantissa with
    | whole run nonempty =>
      exact .inl ⟨text, mem_digits.mpr ⟨whole, run, nonempty⟩, [], ⟨[], .inr rfl, [], by simp, rfl⟩,
        List.append_nil text⟩
    | point before behind nonempty =>
      rename_i front back
      by_cases first : whole = []
      · obtain rfl := (digits_nil_iff before).mp first
        have some := nonempty.resolve_left (not_not.mpr first)
        exact .inr ⟨['.'], rfl, back, mem_digits.mpr ⟨tail, behind, some⟩, rfl⟩
      · exact .inl ⟨front, mem_digits.mpr ⟨whole, before, first⟩, '.' :: back,
          ⟨['.'], .inl rfl, back, behind.isDecimal, rfl⟩, rfl⟩

theorem mem_exponent : text ∈ exponent.language ↔ ∃ power, Power power text := by
  rw [exponent, mem_optional, mem_seq_one]
  simp only [mem_seq, mem_sign, mem_digits]
  constructor
  · rintro (⟨mark, _, rfl, letter, sign, ⟨negative, signed⟩, run, ⟨values, isRun, some⟩, rfl⟩ | rfl)
    · exact ⟨_, .some (by simpa using letter) signed isRun some⟩
    · exact ⟨0, .none⟩
  · rintro ⟨power, raised⟩
    cases raised with
    | none => exact .inr rfl
    | @some mark negative sign values run letter signed isRun some =>
      exact .inl ⟨mark, sign ++ run, rfl, by simpa using letter, sign, ⟨negative, signed⟩, run,
        ⟨values, isRun, some⟩, rfl⟩

theorem mem_number : text ∈ number.language ↔ SignedDecimal text := by
  rw [number, mem_seq]
  simp only [mem_seq, mem_sign, mem_mantissa, mem_exponent]
  constructor
  · rintro ⟨sign, ⟨_, signed⟩, _, ⟨mantissa, ⟨_, _, digits⟩, exponent, ⟨_, raised⟩, rfl⟩, rfl⟩
    exact .mk signed digits raised
  · rintro ⟨signed, digits, raised⟩
    exact ⟨_, ⟨_, signed⟩, _, ⟨_, ⟨_, _, digits⟩, _, ⟨_, raised⟩, rfl⟩, rfl⟩

/-! The rules decide the patterns. -/

theorem mem_number_iff_isNumber : text ∈ number.language ↔ ValueType.isNumber text = true := by
  have apart : ∀ c ∈ ([] : List Char), isMantissa c = false := by simp
  rw [mem_number, ValueType.isNumber, beq_iff_eq, afterNumber?_eq_some_iff apart]
  simp

theorem mem_seq_number {p : Pattern}
    (apart : ∀ unit ∈ p.language, ∀ c ∈ unit, isMantissa c = false) :
    text ∈ (seq number p).language ↔
      ∃ unit ∈ p.language, ValueType.afterNumber? text = some unit := by
  rw [mem_seq]
  constructor
  · rintro ⟨front, numeral, unit, mem, split⟩
    exact ⟨unit, mem, (afterNumber?_eq_some_iff (apart unit mem)).mpr
      ⟨front, mem_number.mp numeral, split⟩⟩
  · rintro ⟨unit, mem, read⟩
    obtain ⟨front, numeral, split⟩ := (afterNumber?_eq_some_iff (apart unit mem)).mp read
    exact ⟨front, mem_number.mpr numeral, unit, mem, split⟩

theorem mem_percentage_iff : text ∈ percentage.language ↔ ValueType.isPercentage text = true := by
  have apart : ∀ unit ∈ (char '%').language, ∀ c ∈ unit, isMantissa c = false := by
    intro unit mem
    rw [mem_char.mp mem]
    exact List.forall_mem_singleton.mpr (by decide)
  rw [percentage, mem_seq_number apart, ValueType.isPercentage, beq_iff_eq]
  simp only [mem_char, exists_eq_left]

theorem mem_dimension_iff {units : List String}
    (letters : (units.all (·.toList.all (!isMantissa ·))) = true) :
    text ∈ (dimension units).language ↔ ValueType.hasUnit units text = true := by
  have apart : ∀ unit ∈ (anyOf units).language, ∀ c ∈ unit, isMantissa c = false := by
    intro unit mem c there
    obtain ⟨name, named, same⟩ := List.any_eq_true.mp (mem_anyOf.mp mem)
    refine Bool.eq_false_iff.mpr fun digit => ?_
    have fixed := ValueType.foldCase_of_begins (NumberLiteral.begins_of_isMantissa digit)
    have inside : c ∈ name.toList := by
      rw [eq_of_beq same, ← fixed]
      exact List.mem_map_of_mem there
    have letter := List.all_eq_true.mp (List.all_eq_true.mp letters name named) c inside
    rw [digit] at letter
    cases letter
  rw [dimension, mem_seq_number apart, ValueType.hasUnit, Option.any_eq_true]
  simp only [mem_anyOf, and_comm]

theorem mem_integer_iff : text ∈ integer.language ↔ ValueType.isInteger text = true := by
  rw [integer, mem_seq]
  simp only [mem_sign, digits, mem_oneOrMore, ValueType.isInteger, Bool.and_eq_true,
    Bool.not_eq_true', List.isEmpty_eq_false_iff, List.all_eq_true]
  constructor
  · rintro ⟨signs, ⟨negative, signed⟩, run, ⟨nonempty, each⟩, rfl⟩
    obtain ⟨c, rest, rfl⟩ := List.exists_cons_of_ne_nil nonempty
    have first : isMantissa c = true := Bool.or_eq_true_iff.mpr (.inr (each c List.mem_cons_self))
    rw [sign_signed signed first]
    exact ⟨nonempty, each⟩
  · intro run
    obtain ⟨signs, split, signed⟩ := sign_split text
    exact ⟨signs, ⟨_, signed⟩, _, run, split.symm⟩

/-- A whole number is a number. -/
theorem number_of_integer (mem : text ∈ integer.language) : text ∈ number.language := by
  rw [integer, mem_seq] at mem
  obtain ⟨signs, signed, run, isRun, rfl⟩ := mem
  obtain ⟨negative, signed⟩ := mem_sign.mp signed
  obtain ⟨values, isRun, nonempty⟩ := mem_digits.mp isRun
  have numeral := SignedDecimal.mk signed (.whole isRun nonempty) .none
  rw [List.append_nil] at numeral
  exact mem_number.mpr numeral

end Numbers

theorem mem_hexColor_iff : text ∈ hexColor.language ↔ ValueType.isHexColor text = true := by
  rw [hexColor, char, mem_seq_one]
  simp only [mem_either, mem_times_optional, mem_times, beq_iff_eq]
  unfold ValueType.isHexColor
  split
  · next run =>
    rw [Bool.and_eq_true, List.all_eq_true, List.contains_iff_mem]
    simp only [List.mem_cons, List.not_mem_nil, or_false, List.cons.injEq]
    constructor
    · rintro ⟨_, _, ⟨-, rfl⟩, -, ⟨length, each⟩ | ⟨length, each⟩ | ⟨length, each⟩⟩
      · exact ⟨each, by omega⟩
      · exact ⟨each, .inr (.inr (.inl length))⟩
      · exact ⟨each, .inr (.inr (.inr length))⟩
    · rintro ⟨each, three | four | six | eight⟩
      · exact ⟨_, _, ⟨rfl, rfl⟩, rfl, .inl ⟨.inl three, each⟩⟩
      · exact ⟨_, _, ⟨rfl, rfl⟩, rfl, .inl ⟨.inr four, each⟩⟩
      · exact ⟨_, _, ⟨rfl, rfl⟩, rfl, .inr (.inl ⟨six, each⟩)⟩
      · exact ⟨_, _, ⟨rfl, rfl⟩, rfl, .inr (.inr ⟨eight, each⟩)⟩
  · next other =>
    refine iff_of_false ?_ Bool.false_ne_true
    rintro ⟨_, rest, rfl, rfl, -⟩
    exact other rest rfl

/-- The name ends at the first opening bracket. -/
theorem isColorFunction_iff : ValueType.isColorFunction text = true ↔
    ∃ name arguments, text = name ++ '(' :: (arguments ++ [')']) ∧ '(' ∉ name ∧
      name ∈ (anyOf ValueType.colorFunctions).language ∧ '\n' ∉ arguments := by
  simp only [ValueType.isColorFunction, mem_anyOf, Bool.and_eq_true, beq_iff_eq, Bool.not_eq_true',
    List.contains_eq_mem, decide_eq_false_iff_not]
  constructor
  · rintro ⟨⟨named, last⟩, within⟩
    have split := List.takeWhile_append_dropWhile (p := (· != '(')) (l := text)
    have outside : '(' ∉ text.takeWhile (· != '(') := fun mem => by
      simpa using List.mem_takeWhile_imp mem
    generalize text.takeWhile (· != '(') = name at *
    cases behind : text.dropWhile (· != '(') with
    | nil =>
      rw [behind, List.append_nil] at split
      rw [← split, List.drop_of_length_le (Nat.le_succ _)] at last
      cases last
    | cons c rest =>
      obtain rfl : c = '(' := by
        have stops := List.head?_dropWhile_not (· != '(') text
        simpa [behind] using stops
      rw [behind] at split
      have rest_eq : text.drop (name.length + 1) = rest := by simp [← split]
      rw [rest_eq] at last within
      have ends := List.dropLast_append_getLast? ')' last
      refine ⟨name, rest.dropLast, by rw [ends, split], outside, named, fun mem => ?_⟩
      exact within (List.mem_of_mem_dropLast mem)
  · rintro ⟨name, arguments, rfl, outside, named, within⟩
    have front : (name ++ '(' :: (arguments ++ [')'])).takeWhile (· != '(') = name := by
      rw [List.takeWhile_append_of_pos]
      · simp
      · rintro c mem
        simpa using ne_of_mem_of_not_mem mem outside
    rw [front]
    simpa [within] using named

theorem mem_colorFunction_iff :
    text ∈ colorFunction.language ↔ ValueType.isColorFunction text = true := by
  have outside {name : List Char} (named : name ∈ (anyOf ValueType.colorFunctions).language) :
      '(' ∉ name := by
    intro mem
    obtain ⟨function, known, same⟩ := List.any_eq_true.mp (mem_anyOf.mp named)
    have letters : ValueType.colorFunctions.all (!·.toList.contains '(') = true := by decide
    have inside : '(' ∈ function.toList := by
      rw [eq_of_beq same]
      exact List.mem_map_of_mem (f := ValueType.foldCase) mem
    have other := List.all_eq_true.mp letters function known
    rw [List.contains_iff_mem.mpr inside] at other
    cases other
  rw [colorFunction, mem_seq, isColorFunction_iff]
  simp only [mem_seq, mem_char, mem_run, bne_iff_ne]
  constructor
  · rintro ⟨name, named, _, ⟨_, rfl, _, ⟨arguments, within, _, rfl, rfl⟩, rfl⟩, rfl⟩
    exact ⟨name, arguments, rfl, outside named, named, fun mem => within _ mem rfl⟩
  · rintro ⟨name, arguments, rfl, -, named, within⟩
    exact ⟨name, named, _, ⟨_, rfl, _, ⟨arguments, fun c mem same => within (same ▸ mem), _, rfl,
      rfl⟩, rfl⟩, rfl⟩

end Literal.Pattern

namespace ValueType

open Literal (Pattern)

/-- The patterns, in the order they are tried. -/
def patterns : List (Pattern × ValueType) :=
  [(.hexColor, color), (.colorFunction, color), (.dimension lengthUnits, length),
    (.percentage, percentage), (.dimension timeUnits, time), (.dimension angleUnits, angle),
    (.integer, integer), (.number, number)]

theorem matchesLine_eq {pattern : Pattern} {holds : List Char → Bool}
    (within : (!pattern.looksBack && !pattern.takes '\n') = true)
    (same : ∀ {text}, text ∈ pattern.language ↔ holds text = true) (text : List Char) :
    pattern.matchesLine text = holds (Pattern.line text) := by
  rw [Bool.and_eq_true, Bool.not_eq_true', Bool.not_eq_true'] at within
  rw [Bool.eq_iff_iff, Pattern.matchesLine_iff within.1 within.2, same]

open Literal.Pattern in
/-- Each pattern matches where its rule holds, but for a line break at the end. -/
theorem patterns_rules : List.Forall₂ (fun pattern rule => pattern.2 = rule.2 ∧
    ∀ text, pattern.1.matchesLine text = rule.1 (line text)) patterns rules.tail := by
  refine .cons ⟨rfl, matchesLine_eq (by decide) mem_hexColor_iff⟩ ?_
  refine .cons ⟨rfl, matchesLine_eq (by decide) mem_colorFunction_iff⟩ ?_
  refine .cons ⟨rfl, matchesLine_eq (by decide) (mem_dimension_iff (by decide))⟩ ?_
  refine .cons ⟨rfl, matchesLine_eq (by decide) mem_percentage_iff⟩ ?_
  refine .cons ⟨rfl, matchesLine_eq (by decide) (mem_dimension_iff (by decide))⟩ ?_
  refine .cons ⟨rfl, matchesLine_eq (by decide) (mem_dimension_iff (by decide))⟩ ?_
  refine .cons ⟨rfl, matchesLine_eq (by decide) mem_integer_iff⟩ ?_
  exact .cons ⟨rfl, matchesLine_eq (by decide) mem_number_iff_isNumber⟩ .nil

end ValueType

end ThemeSheet
