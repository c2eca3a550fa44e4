import ThemeSheet.Proofs.Tokens

namespace ThemeSheet

open Text

/-! The texts that tokens are written as, said without the scanner. -/

namespace NumberLiteral

inductive Signed : Bool → List Char → Prop
  | none : Signed false []
  | plus : Signed false ['+']
  | minus : Signed true ['-']

/-- A run of digits and their values. -/
def Digits (value? : Char → Option Nat) (digits : List Nat) (text : List Char) : Prop :=
  text.map value? = digits.map some

/-- The digits before and behind a point. With digits before it the point may be missing. -/
inductive Mantissa : List Nat → List Nat → List Char → Prop
  | whole {digits text} (run : Digits decimalValue? digits text) (some : digits ≠ []) :
    Mantissa digits [] text
  | point {whole tail front back} (before : Digits decimalValue? whole front)
    (behind : Digits decimalValue? tail back) (some : whole ≠ [] ∨ tail ≠ []) :
    Mantissa whole tail (front ++ '.' :: back)

inductive Power : Int → List Char → Prop
  | none : Power 0 []
  | some {mark negative sign digits text} (letter : mark = 'e' ∨ mark = 'E')
    (signed : Signed negative sign) (run : Digits decimalValue? digits text) (some : digits ≠ []) :
    Power (if negative then -(ofDigits 10 digits : Int) else ofDigits 10 digits)
      (mark :: (sign ++ text))

/-- The texts of a number: a sign, and digits of another base behind their mark or decimal ones with
a point and an exponent. -/
inductive Spelled : NumberLiteral → List Char → Prop
  | radix {negative sign mark base digits text} (signed : Signed negative sign)
    (marked : radixBase? mark = some base) (run : Digits (radixDigit? base) digits text)
    (some : digits ≠ []) :
    Spelled ⟨negative, .radix base digits⟩ (sign ++ '0' :: mark :: text)
  | decimal {negative sign whole tail mantissa power exponent} (signed : Signed negative sign)
    (digits : Mantissa whole tail mantissa) (raised : Power power exponent) :
    Spelled ⟨negative, .decimal (whole ++ tail) (power - tail.length)⟩
      (sign ++ (mantissa ++ exponent))

/-! What the scanner takes is a number. -/

theorem digits_nil_iff {value? : Char → Option Nat} {digits : List Nat} {text : List Char}
    (h : Digits value? digits text) : digits = [] ↔ text = [] := by
  have := congrArg List.length h
  rw [List.length_map, List.length_map] at this
  rw [← List.length_eq_zero_iff, ← List.length_eq_zero_iff, this]

theorem spanDigits_split (value? : Char → Option Nat) (text : List Char) :
    ∃ front, text = front ++ (spanDigits value? text).2 ∧
      Digits value? (spanDigits value? text).1 front := by
  induction text with
  | nil => exact ⟨[], rfl, rfl⟩
  | cons c rest ih =>
    obtain ⟨front, split, run⟩ := ih
    rw [spanDigits]
    cases found : value? c with
    | none => exact ⟨[], rfl, rfl⟩
    | some d =>
      refine ⟨c :: front, congrArg (c :: ·) split, ?_⟩
      change value? c :: front.map value? = some d :: (spanDigits value? rest).1.map some
      rw [found, run]

theorem sign_split (text : List Char) :
    ∃ front, text = front ++ (sign text).2 ∧ Signed (sign text).1 front := by
  unfold sign
  split
  · exact ⟨['-'], rfl, .minus⟩
  · exact ⟨['+'], rfl, .plus⟩
  · exact ⟨[], rfl, .none⟩

theorem radix?_split {text rest : List Char} {m : Magnitude} (h : radix? text = some (m, rest)) :
    ∃ mark base digits run, m = .radix base digits ∧ text = '0' :: mark :: (run ++ rest) ∧
      radixBase? mark = some base ∧ Digits (radixDigit? base) digits run ∧ digits ≠ [] := by
  unfold radix? at h
  split at h
  · rename_i mark tail
    split at h
    · cases h
    · rename_i base found
      dsimp only at h
      split at h
      · cases h
      · rename_i some
        cases h
        obtain ⟨front, split, run⟩ := spanDigits_split (radixDigit? base) tail
        exact ⟨mark, base, _, front, rfl, by rw [← split], found, run, some⟩
  · cases h

theorem exponent_split (text : List Char) :
    ∃ front, text = front ++ (exponent text).2 ∧ Power (exponent text).1 front := by
  cases text with
  | nil => exact ⟨[], rfl, .none⟩
  | cons mark rest =>
    rw [exponent]
    dsimp only
    split
    · rename_i power
      obtain ⟨signs, split, signed⟩ := sign_split rest
      obtain ⟨front, split', run⟩ := spanDigits_split decimalValue? (sign rest).2
      refine ⟨mark :: (signs ++ front), ?_, .some power.1 signed run power.2⟩
      rw [List.cons_append, List.append_assoc, ← split', ← split]
    · exact ⟨[], rfl, .none⟩

theorem mantissa_split {text : List Char}
    (some : ¬ ((spanDigits decimalValue? text).1.isEmpty &&
      (fraction (spanDigits decimalValue? text).2).1.isEmpty) = true) :
    ∃ front, text = front ++ (fraction (spanDigits decimalValue? text).2).2 ∧
      Mantissa (spanDigits decimalValue? text).1
        (fraction (spanDigits decimalValue? text).2).1 front := by
  obtain ⟨whole, split, run⟩ := spanDigits_split decimalValue? text
  rw [Bool.and_eq_true, List.isEmpty_iff, List.isEmpty_iff,
    Classical.not_and_iff_not_or_not] at some
  by_cases point : ∃ rest, (spanDigits decimalValue? text).2 = '.' :: rest
  · obtain ⟨rest, eq⟩ := point
    obtain ⟨tail, split', run'⟩ := spanDigits_split decimalValue? rest
    rw [eq] at some split ⊢
    change text = whole ++ '.' :: rest at split
    refine ⟨whole ++ '.' :: tail, ?_, .point run run' some⟩
    change text = whole ++ '.' :: tail ++ (spanDigits decimalValue? rest).2
    rw [List.append_assoc, List.cons_append, ← split', split]
  · have none : fraction (spanDigits decimalValue? text).2 =
        ([], (spanDigits decimalValue? text).2) := by
      unfold fraction
      split
      · rename_i rest eq
        exact absurd ⟨rest, eq⟩ point
      · rfl
    rw [none] at some ⊢
    exact ⟨whole, split, .whole run (some.resolve_right fun h => h rfl)⟩

theorem decimal?_split {text rest : List Char} {m : Magnitude}
    (h : decimal? text = some (m, rest)) :
    ∃ whole tail mantissa power exponent, m = .decimal (whole ++ tail) (power - tail.length) ∧
      text = mantissa ++ (exponent ++ rest) ∧ Mantissa whole tail mantissa ∧
      Power power exponent := by
  unfold decimal? at h
  dsimp only at h
  split at h
  · cases h
  · rename_i some
    cases h
    obtain ⟨mantissa, split, digits⟩ := mantissa_split some
    obtain ⟨power, split', raised⟩ :=
      exponent_split (fraction (spanDigits decimalValue? text).2).2
    exact ⟨_, _, mantissa, _, power, rfl, by rw [← split', ← split], digits, raised⟩

theorem scan?_eq (text : List Char) : scan? text =
    ((radix? (sign text).2).or (decimal? (sign text).2)).map
      fun found => (⟨(sign text).1, found.1⟩, found.2) := rfl

theorem scan?_split {text rest : List Char} {literal : NumberLiteral}
    (h : scan? text = some (literal, rest)) :
    ∃ front, text = front ++ rest ∧ Spelled literal front := by
  rw [scan?_eq] at h
  obtain ⟨signs, split, signed⟩ := sign_split text
  obtain ⟨⟨m, rest'⟩, found, eq⟩ := Option.map_eq_some_iff.mp h
  cases eq
  rcases Option.or_eq_some_iff.mp found with found | ⟨-, found⟩
  · obtain ⟨mark, base, digits, run, rfl, split', marked, digitsRun, some⟩ := radix?_split found
    refine ⟨signs ++ '0' :: mark :: run, ?_, .radix signed marked digitsRun some⟩
    rw [List.append_assoc, List.cons_append, List.cons_append, ← split', ← split]
  · obtain ⟨whole, tail, mantissa, power, exponent, rfl, split', digits, raised⟩ :=
      decimal?_split found
    refine ⟨signs ++ (mantissa ++ exponent), ?_, .decimal signed digits raised⟩
    rw [List.append_assoc, List.append_assoc, ← split', ← split]

/-! A number is taken whole, and with more of what follows where that still is a number. -/

theorem spanDigits_run {value? : Char → Option Nat} {digits : List Nat} {run : List Char}
    (h : Digits value? digits run) (more : List Char) :
    spanDigits value? (run ++ more) =
      (digits ++ (spanDigits value? more).1, (spanDigits value? more).2) := by
  induction run generalizing digits with
  | nil =>
    obtain rfl := (digits_nil_iff h).mpr rfl
    rfl
  | cons c run ih =>
    cases digits with
    | nil => cases h
    | cons d digits =>
      obtain ⟨first, rest⟩ := List.cons.inj h
      rw [List.cons_append, spanDigits, first]
      simp [ih rest]

theorem spanDigits_none {value? : Char → Option Nat} {c : Char} (h : value? c = none)
    (rest : List Char) : spanDigits value? (c :: rest) = ([], c :: rest) := by
  rw [spanDigits, h]

theorem Digits.head {value? : Char → Option Nat} {digits : List Nat} {run : List Char}
    (h : Digits value? digits run) (some : digits ≠ []) :
    ∃ c rest, run = c :: rest ∧ (value? c).isSome = true := by
  cases run with
  | nil => exact absurd ((digits_nil_iff h).mpr rfl) some
  | cons c rest =>
    cases digits with
    | nil => exact absurd rfl some
    | cons d digits => exact ⟨c, rest, rfl, Option.isSome_of_eq_some (List.cons.inj h).1⟩

/-- The characters of a mantissa. -/
def isMantissa (c : Char) : Bool :=
  c == '.' || isDecimal c

theorem Digits.isDecimal {digits : List Nat} {run : List Char}
    (h : Digits decimalValue? digits run) : ∀ c ∈ run, isDecimal c = true := by
  intro c mem
  have value : decimalValue? c ∈ digits.map some := h ▸ List.mem_map_of_mem mem
  obtain ⟨d, -, eq⟩ := List.mem_map.mp value
  exact Option.isSome_of_eq_some eq.symm

theorem Digits.isMantissa {digits : List Nat} {run : List Char}
    (h : Digits decimalValue? digits run) : ∀ c ∈ run, isMantissa c = true := by
  intro c mem
  simp [NumberLiteral.isMantissa, h.isDecimal c mem]

theorem Mantissa.chars {whole tail : List Nat} {text : List Char} (h : Mantissa whole tail text) :
    text ≠ [] ∧ ∀ c ∈ text, isMantissa c = true := by
  cases h with
  | whole run some => exact ⟨mt (digits_nil_iff run).mpr some, run.isMantissa⟩
  | point before behind _ =>
    refine ⟨by simp, fun c mem => ?_⟩
    rcases List.mem_append.mp mem with mem | mem
    · exact before.isMantissa c mem
    · rcases List.mem_cons.mp mem with rfl | mem
      · rfl
      · exact behind.isMantissa c mem

theorem sign_signed {negative : Bool} {signs : List Char} (h : Signed negative signs) {c : Char}
    (first : isMantissa c = true) (rest : List Char) :
    sign (signs ++ c :: rest) = (negative, c :: rest) := by
  cases h with
  | none =>
    have minus : c ≠ '-' := by
      rintro rfl
      exact absurd first (by decide)
    have plus : c ≠ '+' := by
      rintro rfl
      exact absurd first (by decide)
    simp [sign, minus, plus]
  | plus => rfl
  | minus => rfl

theorem radix?_run {mark : Char} {base : Nat} {digits : List Nat} {run : List Char}
    (marked : radixBase? mark = some base) (h : Digits (radixDigit? base) digits run)
    (some : digits ≠ []) (more : List Char) :
    radix? ('0' :: mark :: (run ++ more)) =
      .some (.radix base (digits ++ (spanDigits (radixDigit? base) more).1),
        (spanDigits (radixDigit? base) more).2) := by
  simp only [radix?, marked, spanDigits_run h more]
  rw [if_neg (by simp [some])]

theorem power_letter {mark : Char} (letter : mark = 'e' ∨ mark = 'E') :
    decimalValue? mark = none ∧ mark ≠ '.' := by
  rcases letter with rfl | rfl <;> decide

theorem exponent_run {mark : Char} {negative : Bool} {signs run : List Char} {digits : List Nat}
    (letter : mark = 'e' ∨ mark = 'E') (signed : Signed negative signs)
    (h : Digits decimalValue? digits run) (some : digits ≠ []) (more : List Char) :
    exponent (mark :: (signs ++ run) ++ more) =
      ((if negative then -(ofDigits 10 (digits ++ (spanDigits decimalValue? more).1) : Int)
          else ofDigits 10 (digits ++ (spanDigits decimalValue? more).1)),
        (spanDigits decimalValue? more).2) := by
  obtain ⟨c, rest, rfl, digit⟩ := h.head some
  have first : isMantissa c = true := h.isMantissa c List.mem_cons_self
  rw [List.cons_append, List.append_assoc, exponent, List.cons_append, sign_signed signed first,
    ← List.cons_append, spanDigits_run h more]
  dsimp only
  rw [if_pos ⟨letter, by simp [some]⟩]

/-- What stands behind an exponent is not given back, nor is the exponent, whether a fraction is
looked for before it or not. -/
theorem power_taken {power : Int} {text : List Char} (h : Power power text) (more : List Char) :
    (exponent (spanDigits decimalValue? (text ++ more)).2).2.length ≤ more.length ∧
      (exponent (fraction (spanDigits decimalValue? (text ++ more)).2).2).2.length ≤
        more.length := by
  have digits := spanDigits_length decimalValue? more
  cases h with
  | none =>
    have point := fraction_length (spanDigits decimalValue? more).2
    have first := exponent_length_le (spanDigits decimalValue? more).2
    have second := exponent_length_le (fraction (spanDigits decimalValue? more).2).2
    rw [List.nil_append]
    omega
  | @some mark negative sign digits text letter signed run some =>
    obtain ⟨other, apart⟩ := power_letter letter
    have noFraction : fraction (mark :: (sign ++ text) ++ more) =
        ([], mark :: (sign ++ text) ++ more) := by
      simp [fraction, apart]
    rw [List.cons_append, spanDigits_none other, ← List.cons_append, noFraction,
      exponent_run letter signed run some more]
    dsimp only
    omega

theorem power_alone {power : Int} {text : List Char} (h : Power power text) :
    spanDigits decimalValue? text = ([], text) ∧ fraction text = ([], text) ∧
      exponent text = (power, []) := by
  cases h with
  | none => exact ⟨rfl, rfl, rfl⟩
  | @some mark negative sign digits text letter signed run some =>
    obtain ⟨other, apart⟩ := power_letter letter
    have alone := exponent_run letter signed run some []
    rw [List.append_nil] at alone
    refine ⟨spanDigits_none other _, by simp [fraction, apart], ?_⟩
    rw [alone]
    simp [spanDigits]

theorem decimal?_taken {whole tail : List Nat} {mantissa exponent : List Char} {power : Int}
    (digits : Mantissa whole tail mantissa) (raised : Power power exponent) (more : List Char) :
    ∃ m rest, decimal? (mantissa ++ (exponent ++ more)) = some (m, rest) ∧
      rest.length ≤ more.length := by
  obtain ⟨direct, behindPoint⟩ := power_taken raised more
  cases digits with
  | whole run some =>
    simp only [decimal?, spanDigits_run run]
    rw [if_neg (by simp [some])]
    exact ⟨_, _, rfl, behindPoint⟩
  | point before behind some =>
    rename_i front back
    have point : spanDigits decimalValue? ('.' :: (back ++ (exponent ++ more))) =
        ([], '.' :: (back ++ (exponent ++ more))) := spanDigits_none (by decide) _
    have text : front ++ '.' :: back ++ (exponent ++ more) =
        front ++ '.' :: (back ++ (exponent ++ more)) := by simp
    rw [text]
    simp only [decimal?, spanDigits_run before, point, fraction, spanDigits_run behind]
    rw [if_neg]
    · exact ⟨_, _, rfl, direct⟩
    · rcases some with some | some <;> simp [some]

theorem decimal?_alone {whole tail : List Nat} {mantissa exponent : List Char} {power : Int}
    (digits : Mantissa whole tail mantissa) (raised : Power power exponent) :
    decimal? (mantissa ++ exponent) =
      some (.decimal (whole ++ tail) (power - tail.length), []) := by
  obtain ⟨noDigits, noFraction, value⟩ := power_alone raised
  cases digits with
  | whole run some =>
    simp only [decimal?, spanDigits_run run, noDigits, noFraction, value]
    rw [if_neg (by simp [some])]
    simp
  | point before behind some =>
    rename_i front back
    have point : spanDigits decimalValue? ('.' :: (back ++ exponent)) =
        ([], '.' :: (back ++ exponent)) := spanDigits_none (by decide) _
    have text : front ++ '.' :: back ++ exponent = front ++ '.' :: (back ++ exponent) := by simp
    rw [text]
    simp only [decimal?, spanDigits_run before, point, fraction, spanDigits_run behind, noDigits,
      value]
    rw [if_neg]
    · simp
    · rcases some with some | some <;> simp [some]

/-- A decimal number is no number of another base, but what follows can make it one: then it is a
zero without a point or an exponent. -/
theorem radix?_mantissa {whole tail : List Nat} {mantissa exponent more rest : List Char}
    {power : Int} {m : Magnitude} (digits : Mantissa whole tail mantissa)
    (raised : Power power exponent)
    (h : radix? (mantissa ++ (exponent ++ more)) = some (m, rest)) :
    rest.length < more.length := by
  obtain ⟨mark, base, digits', run, rfl, text, marked, -, -⟩ := radix?_split h
  have other : isMantissa mark = false ∧ mark ≠ 'e' ∧ mark ≠ 'E' := by
    unfold radixBase? at marked
    split at marked
    · rename_i hex
      rcases hex with rfl | rfl <;> decide
    split at marked
    · rename_i binary
      rcases binary with rfl | rfl <;> decide
    split at marked
    · rename_i octal
      rcases octal with rfl | rfl <;> decide
    · cases marked
  obtain ⟨some, chars⟩ := digits.chars
  obtain ⟨c, rest', rfl⟩ := List.exists_cons_of_ne_nil some
  have behind : rest' ++ (exponent ++ more) = mark :: (run ++ rest) := (List.cons.inj text).2
  cases rest' with
  | cons d rest' =>
    obtain rfl : d = mark := (List.cons.inj behind).1
    rw [chars d (by simp)] at other
    cases other.1
  | nil =>
    cases raised with
    | none =>
      have eq : more = mark :: (run ++ rest) := behind
      rw [eq, List.length_cons, List.length_append]
      omega
    | some letter _ _ _ =>
      obtain rfl := (List.cons.inj behind).1
      rcases letter with letter | letter
      · exact absurd letter other.2.1
      · exact absurd letter other.2.2

theorem scan?_taken {literal : NumberLiteral} {text : List Char} (h : Spelled literal text)
    (more : List Char) :
    ∃ literal' rest, scan? (text ++ more) = some (literal', rest) ∧
      rest.length ≤ more.length := by
  cases h with
  | @radix negative signs mark base digits run signed marked h some =>
    have split : signs ++ '0' :: mark :: run ++ more = signs ++ '0' :: (mark :: (run ++ more)) := by
      simp
    have := spanDigits_length (radixDigit? base) more
    rw [split, scan?_eq, sign_signed signed (by decide), radix?_run marked h some]
    exact ⟨_, _, rfl, by dsimp only; omega⟩
  | @decimal negative signs whole tail mantissa power exponent signed digits raised =>
    obtain ⟨some, chars⟩ := digits.chars
    obtain ⟨c, front, rfl⟩ := List.exists_cons_of_ne_nil some
    have split : signs ++ (c :: front ++ exponent) ++ more =
        signs ++ c :: (front ++ (exponent ++ more)) := by simp
    rw [split, scan?_eq, sign_signed signed (chars c List.mem_cons_self), ← List.cons_append]
    obtain ⟨m, rest, found, le⟩ := decimal?_taken digits raised more
    cases other : radix? (c :: front ++ (exponent ++ more)) with
    | none => exact ⟨⟨negative, m⟩, rest, by rw [found]; rfl, le⟩
    | some answer =>
      obtain ⟨m', rest'⟩ := answer
      exact ⟨⟨negative, m'⟩, rest', rfl, Nat.le_of_lt (radix?_mantissa digits raised other)⟩

theorem scan?_alone {literal : NumberLiteral} {text : List Char} (h : Spelled literal text) :
    scan? text = some (literal, []) := by
  cases h with
  | @radix negative signs mark base digits run signed marked h some =>
    have found := radix?_run marked h some []
    rw [List.append_nil] at found
    rw [scan?_eq, sign_signed signed (by decide), found]
    simp [spanDigits]
  | @decimal negative signs whole tail mantissa power exponent signed digits raised =>
    obtain ⟨some, chars⟩ := digits.chars
    obtain ⟨c, front, rfl⟩ := List.exists_cons_of_ne_nil some
    have none : radix? (c :: front ++ exponent) = none := by
      cases other : radix? (c :: front ++ exponent) with
      | none => rfl
      | some answer =>
        obtain ⟨m, rest⟩ := answer
        rw [← List.append_nil exponent] at other
        cases radix?_mantissa digits raised other
    rw [List.cons_append, scan?_eq, sign_signed signed (chars c List.mem_cons_self),
      ← List.cons_append, none, decimal?_alone digits raised]
    rfl

/-- A text is that of one number at most. -/
theorem Spelled.unique {a b : NumberLiteral} {text : List Char} (ha : Spelled a text)
    (hb : Spelled b text) : a = b := by
  have same := (scan?_alone ha).symm.trans (scan?_alone hb)
  cases same
  rfl

end NumberLiteral
namespace Literal

/-- The inside of a string: a quote or a backslash stands only behind a backslash, and so does a
line feed. -/
inductive StringBody : List Char → Prop
  | nil : StringBody []
  | escaped {c rest} (tail : StringBody rest) : StringBody ('\\' :: c :: rest)
  | plain {c rest} (quote : c ≠ '"') (slash : c ≠ '\\') (line : c ≠ '\n')
    (tail : StringBody rest) : StringBody (c :: rest)

theorem StringBody.split {body : List Char} (h : StringBody body) (more : List Char) :
    splitString? '"' (body ++ '"' :: more) = some (body, more) := by
  induction h with
  | nil => rw [List.nil_append, splitString?_cons (by decide), if_pos rfl]
  | escaped _ ih =>
    rw [List.cons_append, List.cons_append, splitString?, ih]
    rfl
  | plain quote slash line _ ih =>
    rw [List.cons_append, splitString?_cons slash, if_neg quote, if_neg fun h => line h.1, ih]
    rfl

theorem stringBody_of_split {text body after : List Char}
    (h : splitString? '"' text = some (body, after)) : StringBody body := by
  fun_induction splitString? '"' text generalizing body with
  | case1 => cases h
  | case2 => cases h
  | case3 c rest ih =>
    obtain ⟨⟨body', after'⟩, found, eq⟩ := Option.map_eq_some_iff.mp h
    cases eq
    exact .escaped (ih found)
  | case4 =>
    cases h
    exact .nil
  | case5 => cases h
  | case6 c rest alone pair other line ih =>
    obtain ⟨⟨body', after'⟩, found, eq⟩ := Option.map_eq_some_iff.mp h
    cases eq
    exact .plain other (ne_backslash alone pair) (fun eq => line ⟨eq, by decide⟩) (ih found)

namespace Token

/-- The texts of a token. -/
inductive Spelled : Token → List Char → Prop
  | fixed {token} (h : token ∈ Token.fixed) : Spelled token token.text
  | string {body} (h : StringBody body) : Spelled (.string body) ('"' :: (body ++ ['"']))
  | number {literal text} (h : literal.Spelled text) : Spelled (.number literal text) text

/-- A number begins with a character that no other token begins with. -/
theorem begins_of_spelled {literal : NumberLiteral} {text : List Char} (h : literal.Spelled text) :
    ∃ c rest, text = c :: rest ∧ NumberLiteral.begins c = true := by
  have found := NumberLiteral.scan?_alone h
  cases text with
  | nil => simpa using NumberLiteral.scan?_length_lt found
  | cons c rest =>
    exact ⟨c, rest, rfl, NumberLiteral.begins_of_scan? (Option.isSome_of_eq_some found)⟩

theorem scan?_of_begins {c : Char} (h : NumberLiteral.begins c = true) (rest : List Char) :
    scan? (c :: rest) = number? (c :: rest) := by
  have quote : c ≠ '"' := by
    rintro rfl
    exact absurd h (by decide)
  have none : string? (c :: rest) = none := by simp [string?, quote]
  rw [scan?, fixed?_none (.inl h), none]
  rfl

theorem scan?_split {text rest : List Char} {token : Token} (h : scan? text = some (token, rest)) :
    ∃ lexeme, text = lexeme ++ rest ∧ Spelled token lexeme := by
  rcases Option.or_eq_some_iff.mp h with h | ⟨-, h⟩
  · obtain ⟨mem, split⟩ := fixed?_eq_some.mp h
    exact ⟨token.text, split, .fixed mem⟩
  rcases Option.or_eq_some_iff.mp h with h | ⟨-, h⟩
  · unfold string? at h
    split at h
    · obtain ⟨⟨body, after⟩, found, eq⟩ := Option.map_eq_some_iff.mp h
      cases eq
      refine ⟨'"' :: (body ++ ['"']), ?_, .string (stringBody_of_split found)⟩
      simp [splitString?_append found]
    · cases h
  · obtain ⟨⟨literal, after⟩, found, eq⟩ := Option.map_eq_some_iff.mp h
    cases eq
    obtain ⟨lexeme, rfl, spelled⟩ := NumberLiteral.scan?_split found
    refine ⟨lexeme, rfl, ?_⟩
    rw [List.length_append, Nat.add_sub_cancel, List.take_left]
    exact .number spelled

/-- A token is found at the front of its text, and taken no shorter than it is. -/
theorem scan?_taken {token : Token} {lexeme : List Char} (h : Spelled token lexeme)
    (more : List Char) :
    ∃ token' rest, scan? (lexeme ++ more) = some (token', rest) ∧ rest.length ≤ more.length := by
  cases h with
  | fixed mem =>
    have found := fixed?_eq_some.mpr ⟨mem, (rfl : token.text ++ more = token.text ++ more)⟩
    exact ⟨token, more, by rw [scan?, found]; rfl, Nat.le_refl _⟩
  | @string body inside =>
    have split : '"' :: (body ++ ['"']) ++ more = '"' :: (body ++ '"' :: more) := by simp
    rw [split, scan?, fixed?_none (.inr rfl), Option.none_or, string?, inside.split]
    exact ⟨_, _, rfl, Nat.le_refl _⟩
  | number spelled =>
    obtain ⟨c, rest, rfl, begins⟩ := begins_of_spelled spelled
    obtain ⟨literal, after, found, le⟩ := NumberLiteral.scan?_taken spelled more
    rw [List.cons_append] at found ⊢
    rw [scan?_of_begins begins, number?, found]
    exact ⟨_, _, rfl, le⟩

theorem scan?_alone {token : Token} {lexeme : List Char} (h : Spelled token lexeme) :
    scan? lexeme = some (token, []) := by
  cases h with
  | fixed mem =>
    have found := fixed?_eq_some.mpr ⟨mem, (List.append_nil token.text).symm⟩
    rw [scan?, found]
    rfl
  | @string body inside =>
    rw [scan?, fixed?_none (.inr rfl), Option.none_or, string?, inside.split]
    rfl
  | number spelled =>
    obtain ⟨c, rest, rfl, begins⟩ := begins_of_spelled spelled
    rw [scan?_of_begins begins, number?, NumberLiteral.scan?_alone spelled]
    simp

theorem Spelled.unique {a b : Token} {lexeme : List Char} (ha : Spelled a lexeme)
    (hb : Spelled b lexeme) : a = b := by
  have same := (scan?_alone ha).symm.trans (scan?_alone hb)
  cases same
  rfl

/-- Only the text that a token keeps spells it. -/
theorem Spelled.text {token : Token} {lexeme : List Char} (h : Spelled token lexeme) :
    lexeme = token.text := by
  simpa using scan?_text (scan?_alone h)

/-- A token at the front of a text that is read as far as any token goes there. -/
structure Longest (token : Token) (lexeme rest : List Char) : Prop where
  spelled : token.Spelled lexeme
  longest : ∀ other longer, Spelled other longer → longer <+: lexeme ++ rest →
    longer.length ≤ lexeme.length

/-- The scanner takes the longest token there is. -/
theorem scan?_eq_some_iff {text rest : List Char} {token : Token} :
    scan? text = some (token, rest) ↔
      ∃ lexeme, text = lexeme ++ rest ∧ token.Longest lexeme rest := by
  constructor
  · intro h
    obtain ⟨lexeme, rfl, spelled⟩ := scan?_split h
    refine ⟨lexeme, rfl, spelled, ?_⟩
    rintro other longer spelled' ⟨more, eq⟩
    obtain ⟨token', rest', found, le⟩ := scan?_taken spelled' more
    rw [eq, h] at found
    cases found
    have := congrArg List.length eq
    rw [List.length_append, List.length_append] at this
    omega
  · rintro ⟨lexeme, rfl, spelled, longest⟩
    obtain ⟨token', rest', found, le⟩ := scan?_taken spelled rest
    obtain ⟨lexeme', split, spelled'⟩ := scan?_split found
    have short := longest token' lexeme' spelled' ⟨rest', split.symm⟩
    have lengths := congrArg List.length split
    rw [List.length_append, List.length_append] at lengths
    obtain ⟨rfl, rfl⟩ := List.append_inj split (by omega)
    rw [found, spelled.unique spelled']

end Token

/-- A text cut into its tokens from left to right: blanks are skipped, and every token is the
longest that begins where it stands. -/
inductive Cuts : List Char → List Token → Prop
  | nil : Cuts [] []
  | blank {c rest tokens} (blank : isBlank c = true) (tail : Cuts rest tokens) :
    Cuts (c :: rest) tokens
  | token {lexeme rest token tokens} (first : token.Longest lexeme rest)
    (tail : Cuts rest tokens) : Cuts (lexeme ++ rest) (token :: tokens)

theorem Token.Spelled.head {token : Token} {lexeme : List Char} (h : token.Spelled lexeme) :
    ∃ c rest, lexeme = c :: rest ∧ isBlank c = false := by
  cases h with
  | fixed mem =>
    have dark : ∀ token ∈ Token.fixed, ∃ c rest, token.text = c :: rest ∧ isBlank c = false := by
      intro token mem
      obtain ⟨c, rest, text⟩ := List.exists_cons_of_length_pos (Token.fixed_text_pos token mem)
      have : ∀ token ∈ Token.fixed, token.text.head?.all (!isBlank ·) = true := by decide
      have := this token mem
      rw [text] at this
      exact ⟨c, rest, text, by simpa using this⟩
    exact dark token mem
  | string => exact ⟨'"', _, rfl, by decide⟩
  | number spelled =>
    obtain ⟨c, rest, text, begins⟩ := Token.begins_of_spelled spelled
    refine ⟨c, rest, text, Bool.eq_false_iff.mpr fun blank => ?_⟩
    have stop : isStop c = true := by simp [isStop, blank]
    have other := of_isStop (fun c => !NumberLiteral.begins c) stop (by decide)
    rw [begins] at other
    cases other

theorem cuts_iff_lexes {text : List Char} {tokens : List Token} :
    Cuts text tokens ↔ Lexes text tokens := by
  constructor
  · intro h
    induction h with
    | nil => exact .nil
    | blank blank _ ih => exact .blank blank ih
    | @token lexeme rest token tokens first _ ih =>
      have found := Token.scan?_eq_some_iff.mpr ⟨lexeme, rfl, first⟩
      obtain ⟨c, tail, rfl, dark⟩ := first.spelled.head
      exact .token dark found ih
  · intro h
    induction h with
    | nil => exact .nil
    | blank blank _ ih => exact .blank blank ih
    | token _ first _ ih =>
      obtain ⟨lexeme, text, longest⟩ := Token.scan?_eq_some_iff.mp first
      rw [text]
      exact .token longest ih

end Literal
end ThemeSheet
