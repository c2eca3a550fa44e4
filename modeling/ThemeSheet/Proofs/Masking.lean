import Mathlib.Data.List.Chain
import ThemeSheet.Proofs.Grammar

namespace ThemeSheet

open Text
open Literal (isBlank)

/-! Classes of characters. -/

/-- A decimal digit is an ASCII one or far beyond ASCII. -/
theorem toNat_of_isDecimal {c : Char} (h : isDecimal c = true) :
    48 ≤ c.toNat ∧ c.toNat ≤ 57 ∨ 1632 ≤ c.toNat := by
  obtain ⟨d, hd⟩ := Option.isSome_iff_exists.mp h
  obtain ⟨first, found, -⟩ := Option.map_eq_some_iff.mp hd
  have near := List.find?_some found
  have zeros : ∀ n ∈ decimalZeros, n = 48 ∨ 1632 ≤ n := by decide
  have := zeros first (List.mem_of_find?_eq_some found)
  simp only [Bool.and_eq_true, decide_eq_true_eq] at near
  omega

theorem not_isSpace_of_isDecimal {c : Char} (h : isDecimal c = true) : isSpace c = false := by
  obtain ⟨d, hd⟩ := Option.isSome_iff_exists.mp h
  obtain ⟨first, found, -⟩ := Option.map_eq_some_iff.mp hd
  have near := List.find?_some found
  simp only [Bool.and_eq_true, decide_eq_true_eq] at near
  apply Bool.eq_false_iff.mpr
  intro space
  obtain ⟨range, mem, low, high⟩ := Ranges.covers_iff.mp space
  have apart : ∀ n ∈ decimalZeros, ∀ range ∈ spaceRanges,
      range.2 < n ∨ n + 10 ≤ range.1 := by decide
  have := apart first (List.mem_of_find?_eq_some found) range mem
  omega

theorem toNat_of_isNameStart {c : Char} (h : isNameStart c = true) :
    c.toNat = 36 ∨ 65 ≤ c.toNat ∧ c.toNat ≤ 122 := by
  simp only [isNameStart, Bool.or_eq_true, beq_iff_eq] at h
  rcases h with (h | rfl) | rfl
  · delta Char.isAlpha Char.isUpper Char.isLower at h
    simp only [Bool.or_eq_true, Bool.and_eq_true, decide_eq_true_eq, ge_iff_le] at h
    have val : c.toNat = c.val.toNat := rfl
    rcases h with ⟨low, high⟩ | ⟨low, high⟩ <;>
      have low := UInt32.le_iff_toNat_le.mp low <;>
      have high := UInt32.le_iff_toNat_le.mp high <;> simp at low high <;> omega
  · exact .inr (by decide)
  · exact .inl (by decide)

theorem not_isNameStart_of_isDecimal {c : Char} (h : isDecimal c = true) :
    isNameStart c = false := by
  apply Bool.eq_false_iff.mpr
  intro name
  have := toNat_of_isDecimal h
  have := toNat_of_isNameStart name
  omega

/-- What is so for each ASCII character is so for one whose number is small. -/
theorem of_ascii (holds : Char → Bool) {c : Char} (small : c.toNat < 128)
    (each : (List.range 128).all (fun n => holds (Char.ofNat n)) = true) : holds c = true := by
  have := List.all_eq_true.mp each c.toNat (List.mem_range.mpr small)
  rwa [Char.ofNat_toNat] at this

theorem toNat_of_isHex {c : Char} (h : isHex c = true) : c.toNat < 128 := by
  have below {d : Char} (h : c ≤ d) (small : d.toNat < 128) : c.toNat < 128 :=
    Nat.lt_of_le_of_lt (UInt32.le_iff_toNat_le.mp h) small
  unfold isHex hexValue? at h
  split at h
  · rename_i digit
    exact below digit.2 (by decide)
  · split at h
    · rename_i lower
      exact below lower.2 (by decide)
    · split at h
      · rename_i upper
        exact below upper.2 (by decide)
      · cases h

theorem isSpace_of_isBlank {c : Char} (h : isBlank c = true) : isSpace c = true := by
  simp only [isBlank, Bool.or_eq_true, beq_iff_eq] at h
  rcases h with (((rfl | rfl) | rfl) | rfl) | rfl <;> decide

def Spaces (text : List Char) : Prop :=
  ∀ c ∈ text, isSpace c = true

instance (text : List Char) : Decidable (Spaces text) :=
  decidable_of_iff (text.all isSpace = true) List.all_eq_true

theorem spaces_nil : Spaces [] := by
  intro c h
  cases h

theorem Blanks.spaces {text : List Char} (h : Blanks text) : Spaces text :=
  fun c hc => isSpace_of_isBlank (h c hc)

theorem trimLeft_spaces {spaces : List Char} (h : Spaces spaces) (text : List Char) :
    trimLeft (spaces ++ text) = trimLeft text :=
  List.dropWhile_append_of_pos h

namespace Literal

/-- A character that the mask copies without looking further. -/
def isPlain (c : Char) : Bool :=
  !isSpace c && !isQuote c && !(['{', '}', '[', ']', ',', ':'].contains c)

theorem isPlain_of_isDecimal {c : Char} (h : isDecimal c = true) : isPlain c = true := by
  have space := not_isSpace_of_isDecimal h
  have number := toNat_of_isDecimal h
  have apart (d : Char) (far : d.toNat < 48 ∨ 57 < d.toNat ∧ d.toNat < 1632) : c ≠ d := by
    rintro rfl
    omega
  simp [isPlain, isQuote, space, apart '"' (by decide), apart '\'' (by decide),
    apart backtick (by decide), apart '{' (by decide), apart '}' (by decide),
    apart '[' (by decide), apart ']' (by decide), apart ',' (by decide), apart ':' (by decide)]

/-- Outside ASCII, only decimal digits stand in a number. -/
theorem ascii_or_decimal {c : Char} (h : NumberLiteral.isNumeric c = true) :
    c.toNat < 128 ∨ isDecimal c = true := by
  simp only [NumberLiteral.isNumeric, NumberLiteral.begins, Bool.or_eq_true, beq_iff_eq] at h
  rcases h with ((((rfl | rfl) | rfl) | digit) | hex) | radix
  · exact .inl (by decide)
  · exact .inl (by decide)
  · exact .inl (by decide)
  · exact .inr digit
  · exact .inl (toNat_of_isHex hex)
  · left
    unfold NumberLiteral.radixBase? at radix
    split at radix
    · rename_i mark
      rcases mark with rfl | rfl <;> decide
    · split at radix
      · rename_i mark
        rcases mark with rfl | rfl <;> decide
      · split at radix
        · rename_i mark
          rcases mark with rfl | rfl <;> decide
        · cases radix

theorem isPlain_of_isNumeric {c : Char} (h : NumberLiteral.isNumeric c = true) :
    isPlain c = true := by
  rcases ascii_or_decimal h with small | digit
  · have := of_ascii (fun c => !NumberLiteral.isNumeric c || isPlain c) small (by decide +kernel)
    simpa [h] using this
  · exact isPlain_of_isDecimal digit

/-- A character that ends a member or a key. -/
def isEnd (c : Char) : Bool :=
  c == ',' || c == ':' || c == '}' || c == ']'

/-- A text before which a keyword is no name of a function. -/
def Ends (text : List Char) : Prop :=
  ∃ blanks c rest, text = blanks ++ c :: rest ∧ Blanks blanks ∧ isEnd c = true

theorem ends_cons {c : Char} (h : isEnd c = true) (rest : List Char) : Ends (c :: rest) :=
  ⟨[], c, rest, rfl, blanks_nil, h⟩

theorem Ends.blank {c : Char} {rest : List Char} (blank : isBlank c = true) (h : Ends rest) :
    Ends (c :: rest) := by
  obtain ⟨blanks, d, rest, rfl, all, last⟩ := h
  refine ⟨c :: blanks, d, rest, rfl, fun b hb => ?_, last⟩
  rcases List.mem_cons.mp hb with rfl | hb
  · exact blank
  · exact all b hb

theorem isStop_of_isEnd {c : Char} (h : isEnd c = true) : isStop c = true := by
  simp only [isEnd, Bool.or_eq_true, beq_iff_eq] at h
  rcases h with ((rfl | rfl) | rfl) | rfl <;> decide

theorem Ends.stops {text : List Char} (h : Ends text) : Stops text := by
  obtain ⟨blanks, c, rest, rfl, all, last⟩ := h
  cases blanks with
  | nil => exact stops_cons.mpr (isStop_of_isEnd last)
  | cons b blanks =>
    have := all b List.mem_cons_self
    exact stops_cons.mpr (by simp [isStop, this])

/-- What a text that ends a keyword begins with, its spaces left out. -/
theorem Ends.trimLeft {text : List Char} (h : Ends text) :
    ∃ c rest, trimLeft text = c :: rest ∧ isEnd c = true := by
  obtain ⟨blanks, c, rest, rfl, all, last⟩ := h
  refine ⟨c, rest, ?_, last⟩
  have dark : isSpace c = false := by
    simp only [isEnd, Bool.or_eq_true, beq_iff_eq] at last
    rcases last with ((rfl | rfl) | rfl) | rfl <;> decide
  rw [trimLeft_spaces all.spaces, Text.trimLeft, List.dropWhile_cons, dark]
  rfl

/-! Where no function begins. -/

theorem afterAsync_of_head {c : Char} (h : c ≠ 'a') (rest : List Char) :
    afterAsync (c :: rest) = c :: rest := by
  have : "async".toList.isPrefixOf? (c :: rest) = none := by
    simp [Token.isPrefixOf?_cons, Ne.symm h]
  unfold afterAsync afterWord
  rw [this]
  rfl

theorem fromParams_of_head {c : Char} (h : c ≠ 'a') (rest : List Char) :
    fromParams (c :: rest) = c :: rest := by
  have : "async".toList.isPrefixOf? (c :: rest) = none := by
    simp [Token.isPrefixOf?_cons, Ne.symm h]
  unfold fromParams
  rw [this]
  rfl

theorem afterStar_of_head {c : Char} (space : isSpace c = false) (star : c ≠ '*')
    (rest : List Char) : afterStar (c :: rest) = c :: rest := by
  have : trimLeft (c :: rest) = c :: rest := by
    simp [Text.trimLeft, space]
  unfold afterStar
  rw [this]
  split
  · rename_i eq
    exact absurd (List.cons.inj eq).1 star
  · rfl

theorem afterFunction?_of_head {c : Char} {rest : List Char} (async : c ≠ 'a') (paren : c ≠ '(')
    (word : "function".toList.isPrefixOf? (c :: rest) = none)
    (bare : afterBareArrow? (c :: rest) = none) : afterFunction? (c :: rest) = none := by
  have no_function : functionParams? (c :: rest) = none := by
    unfold functionParams?
    rw [afterAsync_of_head async, word]
  have no_list : afterListArrow? (c :: rest) = none := by
    simp [afterListArrow?, fromParams_of_head async, paren]
  simp [afterFunction?, no_function, afterAsync_of_head async, bare, no_list]

theorem masked?_of_not_function {c : Char} {rest : List Char} (async : c ≠ 'a')
    (value : afterFunction? (c :: rest) = none) (member : methodName? (c :: rest) = none)
    (expected : Expected) : masked? expected (c :: rest) = none := by
  cases expected with
  | value => simp [masked?, value]
  | member => simp [masked?, maskedMethod?, afterAsync_of_head async, member]
  | other => rfl

/-- Neither a value nor a member that is a function begins with such a character. -/
theorem masked?_of_head {c : Char} (name : isNameStart c = false) (space : isSpace c = false)
    (star : c ≠ '*') (paren : c ≠ '(') (expected : Expected) (rest : List Char) :
    masked? expected (c :: rest) = none := by
  have other {d : Char} (starts : isNameStart d = true) : c ≠ d := by
    rintro rfl
    rw [name] at starts
    cases starts
  have no_name : startsName (c :: rest) = false := by simp [startsName, name]
  have no_word : "function".toList.isPrefixOf? (c :: rest) = none := by
    have first : c ≠ 'f' := other (by decide)
    simp [Token.isPrefixOf?_cons, Ne.symm first]
  have no_bare : afterBareArrow? (c :: rest) = none := by simp [afterBareArrow?, no_name]
  have no_method : methodName? (c :: rest) = none := by
    simp [methodName?, afterStar_of_head space star, no_name]
  have async : c ≠ 'a' := other (by decide)
  exact masked?_of_not_function async (afterFunction?_of_head async paren no_word no_bare) no_method
    expected

theorem Ends.dropWhile_name {after : List Char} (ends : Ends after) {word : List Char}
    (parts : ∀ c ∈ word, isNamePart c = true) : (word ++ after).dropWhile isNamePart = after := by
  rw [List.dropWhile_append_of_pos parts]
  cases after with
  | nil => rfl
  | cons d after =>
    have := of_isStop (!isNamePart ·) (stops_cons.mp ends.stops) (by decide)
    rw [List.dropWhile_cons, if_neg (by simpa using this)]

theorem Ends.afterArrow?_eq_none {after : List Char} (ends : Ends after) :
    afterArrow? after = none := by
  obtain ⟨c, rest, trimmed, last⟩ := ends.trimLeft
  have : c ≠ '=' := by
    rintro rfl
    cases last
  simp [afterArrow?, trimmed, Token.isPrefixOf?_cons, Ne.symm this]

theorem Ends.fromParen?_eq_none {after : List Char} (ends : Ends after) :
    fromParen? after = none := by
  obtain ⟨c, rest, trimmed, last⟩ := ends.trimLeft
  have : c ≠ '(' := by
    rintro rfl
    cases last
  simp [fromParen?, trimmed, Option.filter, this]

/-- A keyword that a value can be is no name of a function. -/
theorem masked?_of_word {word : List Char}
    (h : word ∈ ["true", "false", "null", "undefined"].map String.toList) {after : List Char}
    (ends : Ends after) (expected : Expected) : masked? expected (word ++ after) = none := by
  have named : ∀ word ∈ ["true", "false", "null", "undefined"].map String.toList,
      word.all isNamePart = true ∧
        word.head?.any (fun c => c != 'a' && c != '(' && c != '*' && !isSpace c) = true := by decide
  have no_word : ∀ word ∈ ["true", "false", "null", "undefined"].map String.toList,
      ∀ more, "function".toList.isPrefixOf? (word ++ more) = none := by
    simp [Token.isPrefixOf?_cons]
  obtain ⟨parts, begins⟩ := named word h
  obtain ⟨c, first, apart⟩ := (Option.any_eq_true _ _).mp begins
  simp only [Bool.and_eq_true, bne_iff_ne, ne_eq, Bool.not_eq_true'] at apart
  obtain ⟨⟨⟨async, paren⟩, star⟩, space⟩ := apart
  have left := ends.dropWhile_name (List.all_eq_true.mp parts)
  have no_word := no_word word h after
  have no_bare : afterBareArrow? (word ++ after) = none := by
    unfold afterBareArrow?
    rw [left, ends.afterArrow?_eq_none, ite_self]
  obtain ⟨word, rfl⟩ := List.head?_eq_some_iff.mp first
  have no_method : methodName? (c :: (word ++ after)) = none := by
    unfold methodName?
    rw [List.cons_append] at left
    simp only [afterStar_of_head space star, left, ends.fromParen?_eq_none]
    simp
  exact masked?_of_not_function async (afterFunction?_of_head async paren no_word no_bare) no_method
    expected

/-! What the mask copies. -/

theorem maskFrom_space {c : Char} (space : isSpace c = true) (containers : List Char)
    (expected : Expected) (rest : List Char) :
    maskFrom containers expected (c :: rest) = c :: maskFrom containers expected rest := by
  rw [maskFrom, if_pos space]

theorem maskFrom_spaces {spaces : List Char} (h : Spaces spaces) (containers : List Char)
    (expected : Expected) (rest : List Char) :
    maskFrom containers expected (spaces ++ rest) =
      spaces ++ maskFrom containers expected rest := by
  induction spaces with
  | nil => rfl
  | cons c spaces ih =>
    rw [List.cons_append, maskFrom_space (h c List.mem_cons_self),
      ih fun d hd => h d (List.mem_cons_of_mem c hd)]
    rfl

theorem maskFrom_code {c : Char} {rest : List Char} {expected : Expected}
    (space : isSpace c = false) (none : masked? expected (c :: rest) = none)
    (quote : isQuote c = false) (containers : List Char) :
    maskFrom containers expected (c :: rest) =
      c :: maskFrom (advance containers c).1 (advance containers c).2 rest := by
  rw [maskFrom, if_neg (by simp [space])]
  split
  · rename_i found
    rw [none] at found
    cases found
  · rw [if_neg (by simp [quote])]

theorem maskFrom_function {text after out : List Char} {expected : Expected}
    (first : text.head?.all (!isSpace ·) = true)
    (found : masked? expected text = some (out, after)) (containers : List Char) :
    maskFrom containers expected text = out ++ maskFrom containers .other after := by
  cases text with
  | nil =>
    have := masked?_length_lt found
    cases this
  | cons c rest =>
    rw [maskFrom, if_neg (by simpa using first)]
    split
    · rename_i found'
      rw [found] at found'
      cases found'
      rfl
    · rename_i none
      rw [found] at none
      cases none

theorem advance_plain {c : Char} (h : isPlain c = true) (containers : List Char) :
    advance containers c = (containers, .other) := by
  simp only [isPlain, Bool.and_eq_true, Bool.not_eq_true', List.contains_eq_mem,
    decide_eq_false_iff_not, List.mem_cons, List.not_mem_nil, or_false, not_or] at h
  obtain ⟨-, brace, brace', bracket, bracket', comma, colon⟩ := h
  simp [advance, closesContainer, brace, brace', bracket, bracket', comma, colon]

theorem maskFrom_plain {text : List Char} (h : ∀ c ∈ text, isPlain c = true)
    (containers more : List Char) :
    maskFrom containers .other (text ++ more) = text ++ maskFrom containers .other more := by
  induction text with
  | nil => rfl
  | cons c text ih =>
    have plain := h c List.mem_cons_self
    have advanced := advance_plain plain containers
    simp only [isPlain, Bool.and_eq_true, Bool.not_eq_true'] at plain
    rw [List.cons_append, maskFrom_code plain.1.1 rfl plain.1.2, advanced,
      ih fun d hd => h d (List.mem_cons_of_mem c hd)]
    rfl

/-- Plain characters are copied where no function begins with them. -/
theorem maskFrom_chars {text more : List Char} {expected : Expected} (some : text ≠ [])
    (plain : ∀ c ∈ text, isPlain c = true) (none : masked? expected (text ++ more) = none)
    (containers : List Char) :
    maskFrom containers expected (text ++ more) = text ++ maskFrom containers .other more := by
  cases text with
  | nil => exact absurd rfl some
  | cons c text =>
    have first := plain c List.mem_cons_self
    have advanced := advance_plain first containers
    simp only [isPlain, Bool.and_eq_true, Bool.not_eq_true'] at first
    rw [List.cons_append] at none ⊢
    rw [maskFrom_code first.1.1 none first.1.2, advanced,
      maskFrom_plain fun d hd => plain d (List.mem_cons_of_mem c hd)]
    rfl

/-- The end that a closed string has for the scanner. -/
theorem afterString_of_splitString? {quote : Char} {text body after : List Char}
    (h : splitString? quote text = some (body, after)) : afterString quote text = after := by
  fun_induction splitString? quote text generalizing body with
  | case1 => cases h
  | case2 => cases h
  | case3 c rest ih =>
    obtain ⟨⟨body', after'⟩, found, eq⟩ := Option.map_eq_some_iff.mp h
    cases eq
    rw [afterString]
    exact ih found
  | case4 rest alone pair =>
    cases h
    rw [afterString_cons (ne_backslash alone pair), if_pos rfl]
  | case5 => cases h
  | case6 c rest alone pair other line ih =>
    obtain ⟨⟨body', after'⟩, found, eq⟩ := Option.map_eq_some_iff.mp h
    cases eq
    rw [afterString_cons (ne_backslash alone pair), if_neg other, if_neg line]
    exact ih found

/-- A string is copied as far as the scanner takes it. -/
theorem maskFrom_quote {quote : Char} (quoted : isQuote quote = true) (containers : List Char)
    (expected : Expected) (text : List Char) :
    maskFrom containers expected (quote :: text) =
      quote :: text.take (text.length - (afterString quote text).length) ++
        maskFrom containers .other (afterString quote text) := by
  have apart : isSpace quote = false ∧ isNameStart quote = false ∧ quote ≠ '*' ∧ quote ≠ '(' := by
    simp only [isQuote, Bool.or_eq_true, beq_iff_eq] at quoted
    rcases quoted with (rfl | rfl) | rfl <;> decide
  obtain ⟨space, name, star, paren⟩ := apart
  rw [maskFrom, if_neg (by simp [space])]
  split
  · rename_i found
    rw [masked?_of_head name space star paren] at found
    cases found
  · rw [if_pos quoted]

/-- The scanner takes what is in front of the rest it leaves. -/
theorem maskFrom_until {quote : Char} (quoted : isQuote quote = true) {text inside after : List Char}
    (rest : afterString quote text = after) (split : text = inside ++ after)
    (containers : List Char) (expected : Expected) :
    maskFrom containers expected (quote :: text) =
      quote :: inside ++ maskFrom containers .other after := by
  have : (inside ++ after).length - after.length = inside.length := by simp
  rw [maskFrom_quote quoted, rest, split, this, List.take_left]

theorem maskFrom_string {quote : Char} {text body after : List Char}
    (h : splitString? quote text = some (body, after)) (quoted : isQuote quote = true)
    (containers : List Char) (expected : Expected) :
    maskFrom containers expected (quote :: text) =
      quote :: body ++ [quote] ++ maskFrom containers .other after := by
  have split : text = body ++ [quote] ++ after := by simp [splitString?_append h]
  exact maskFrom_until quoted (afterString_of_splitString? h) split containers expected

/-! What the mask expects after data. -/

namespace Token

/-- The character of a bracket, a comma or a colon. -/
def mark? : Token → Option Char
  | leftBrace => some '{'
  | rightBrace => some '}'
  | leftBracket => some '['
  | rightBracket => some ']'
  | comma => some ','
  | colon => some ':'
  | _ => none

def isWord : Token → Bool
  | yes | no | null | undefined => true
  | _ => false

/-- A token before which a keyword ends. -/
def isEnd : Token → Bool
  | comma | colon | rightBrace | rightBracket => true
  | _ => false

end Token

/-- The containers open after a token, and what is to come. -/
def follow (state : List Char × Expected) (token : Token) : List Char × Expected :=
  match token.mark? with
  | some c => advance state.1 c
  | none => (state.1, .other)

theorem maskFrom_mark {c : Char} (h : c ∈ ['{', '}', '[', ']', ',', ':']) (containers : List Char)
    (expected : Expected) (rest : List Char) :
    maskFrom containers expected (c :: rest) =
      c :: maskFrom (advance containers c).1 (advance containers c).2 rest := by
  have apart : isNameStart c = false ∧ isSpace c = false ∧ c ≠ '*' ∧ c ≠ '(' ∧
      isQuote c = false := by
    simp only [List.mem_cons, List.not_mem_nil, or_false] at h
    rcases h with rfl | rfl | rfl | rfl | rfl | rfl <;> decide
  obtain ⟨name, space, star, paren, quote⟩ := apart
  exact maskFrom_code space (masked?_of_head name space star paren expected rest) quote containers

theorem maskFrom_fixed {token : Token} (h : token ∈ Token.fixed) {after : List Char}
    (ends : token.isWord = true → Ends after) (containers : List Char) (expected : Expected) :
    maskFrom containers expected (token.text ++ after) = token.text ++
      maskFrom (follow (containers, expected) token).1 (follow (containers, expected) token).2
        after := by
  have word (token : Token) (named : token.isWord = true)
      (mem : token.text ∈ ["true", "false", "null", "undefined"].map String.toList)
      (ends : Ends after) : maskFrom containers expected (token.text ++ after) =
        token.text ++ maskFrom containers .other after := by
    have plain : ∀ word ∈ ["true", "false", "null", "undefined"].map String.toList,
        word ≠ [] ∧ word.all isPlain = true := by decide +kernel
    obtain ⟨some, plain⟩ := plain _ mem
    exact maskFrom_chars some (List.all_eq_true.mp plain) (masked?_of_word mem ends expected) containers
  cases token with
  | leftBrace => exact maskFrom_mark (by decide) containers expected after
  | rightBrace => exact maskFrom_mark (by decide) containers expected after
  | leftBracket => exact maskFrom_mark (by decide) containers expected after
  | rightBracket => exact maskFrom_mark (by decide) containers expected after
  | comma => exact maskFrom_mark (by decide) containers expected after
  | colon => exact maskFrom_mark (by decide) containers expected after
  | yes => exact word .yes rfl (by decide) (ends rfl)
  | no => exact word .no rfl (by decide) (ends rfl)
  | null => exact word .null rfl (by decide) (ends rfl)
  | undefined => exact word .undefined rfl (by decide) (ends rfl)
  | function =>
    have plain : ∀ c ∈ functionMark, isPlain c = true := List.all_eq_true.mp (by decide +kernel)
    exact maskFrom_chars (by decide) plain
      (masked?_of_head (c := '@') (by decide) (by decide) (by decide) (by decide) expected _)
      containers
  | string body => simp [Token.fixed] at h
  | number literal text => simp [Token.fixed] at h

theorem maskFrom_token {c : Char} {rest after : List Char} {token : Token}
    (first : Token.scan? (c :: rest) = some (token, after))
    (ends : token.isWord = true → Ends after) (containers : List Char) (expected : Expected) :
    maskFrom containers expected (c :: rest) = token.text ++
      maskFrom (follow (containers, expected) token).1 (follow (containers, expected) token).2
        after := by
  rcases Option.or_eq_some_iff.mp first with found | ⟨-, other⟩
  · obtain ⟨mem, same⟩ := Token.fixed?_eq_some.mp found
    rw [same]
    exact maskFrom_fixed mem ends containers expected
  rcases Option.or_eq_some_iff.mp other with found | ⟨-, found⟩
  · unfold Token.string? at found
    split at found
    · rename_i text eq
      obtain ⟨rfl, rfl⟩ := List.cons.inj eq
      obtain ⟨⟨body, after'⟩, split, same⟩ := Option.map_eq_some_iff.mp found
      obtain ⟨rfl, rfl⟩ := Prod.mk.inj same
      exact maskFrom_string split rfl containers expected
    · cases found
  · obtain ⟨same, numeric⟩ := Token.number?_text found
    obtain ⟨⟨literal, after'⟩, scanned, eq⟩ := Option.map_eq_some_iff.mp found
    have begins := NumberLiteral.begins_of_scan? (Option.isSome_of_eq_some scanned)
    have shorter := Token.scan?_length_lt first
    have some : token.text ≠ [] := by
      intro empty
      rw [same, empty] at shorter
      exact absurd shorter (Nat.lt_irrefl _)
    have none : masked? expected (token.text ++ after) = none := by
      rw [← same]
      have apart : isNameStart c = false ∧ c ≠ '*' ∧ c ≠ '(' := by
        simp only [NumberLiteral.begins, Bool.or_eq_true, beq_iff_eq] at begins
        rcases begins with ((rfl | rfl) | rfl) | digit
        · decide
        · decide
        · decide
        · have := toNat_of_isDecimal digit
          refine ⟨not_isNameStart_of_isDecimal digit, ?_, ?_⟩ <;> rintro rfl <;>
            exact absurd this (by decide)
      have plain := isPlain_of_isNumeric (c := c) (by simp [NumberLiteral.isNumeric, begins])
      simp only [isPlain, Bool.and_eq_true, Bool.not_eq_true'] at plain
      exact masked?_of_head apart.1 plain.1.1 apart.2.1 apart.2.2 expected rest
    have other : follow (containers, expected) token = (containers, .other) := by
      rw [← (Prod.mk.inj eq).1]
      rfl
    rw [same, other]
    exact maskFrom_chars some (fun d hd => isPlain_of_isNumeric (numeric d hd)) none containers

/-- Each keyword has a token behind it that ends it. -/
def WordsEnd (tokens : List Token) : Prop :=
  tokens.IsChain fun first second => first.isWord = true → second.isEnd = true

theorem ends_of_lexes {text more : List Char} {tokens : List Token} (h : Lexes text tokens)
    (first : ∀ token ∈ tokens.head?, token.isEnd = true) (ends : tokens = [] → Ends more) :
    Ends (text ++ more) := by
  induction h with
  | nil => exact ends rfl
  | blank blank _ ih => exact (ih first ends).blank blank
  | @token c rest token after tokens dark scanned _ _ =>
    have last := first token rfl
    have same := Token.scan?_text scanned
    rw [same]
    cases token <;> first | exact ends_cons rfl _ | cases last

/-- Data are copied as they are, if a keyword at their end is ended by what follows. -/
theorem maskFrom_tokens {text more : List Char} {tokens : List Token} (h : Lexes text tokens)
    (words : WordsEnd tokens) (stops : Stops more)
    (ends : ∀ token ∈ tokens.getLast?, token.isWord = true → Ends more) (containers : List Char)
    (expected : Expected) :
    maskFrom containers expected (text ++ more) = text ++
      maskFrom (tokens.foldl follow (containers, expected)).1
        (tokens.foldl follow (containers, expected)).2 more := by
  induction h generalizing containers expected with
  | nil => rfl
  | blank blank _ ih =>
    rw [List.cons_append, maskFrom_space (isSpace_of_isBlank blank), ih words ends]
    rfl
  | @token c rest token after tokens dark first tail ih =>
    obtain ⟨next, words⟩ := List.isChain_cons.mp words
    have ended (word : token.isWord = true) : Ends (after ++ more) := by
      refine ends_of_lexes tail (fun second h => next second h word) fun alone => ?_
      exact ends token (by rw [alone]; rfl) word
    have later : ∀ last ∈ tokens.getLast?, last.isWord = true → Ends more := by
      intro last mem
      refine ends last ?_
      cases tokens with
      | nil => cases mem
      | cons => exact mem
    have scanned := Token.scan?_more first stops
    rw [List.cons_append] at scanned ⊢
    rw [maskFrom_token scanned ended, ih words later, Token.scan?_text first, List.append_assoc]
    rfl

/-- Data are copied as they are. -/
theorem maskFrom_lexes {text more : List Char} {tokens : List Token} (h : Lexes text tokens)
    (words : WordsEnd tokens) (ends : Ends more) (containers : List Char) (expected : Expected) :
    maskFrom containers expected (text ++ more) = text ++
      maskFrom (tokens.foldl follow (containers, expected)).1
        (tokens.foldl follow (containers, expected)).2 more :=
  maskFrom_tokens h words ends.stops (fun _ _ _ => ends) containers expected

/-- Each token that is a key or a value by itself has a token behind it that ends it. -/
def LeavesEnd (tokens : List Token) : Prop :=
  tokens.IsChain fun first second => first.leaf?.isSome = true → second.isEnd = true

theorem LeavesEnd.words {tokens : List Token} (h : LeavesEnd tokens) : WordsEnd tokens := by
  refine List.IsChain.imp (fun first second ends word => ends ?_) h
  cases first <;> first | rfl | cases word

theorem leavesEnd_append {first second : List Token} (hf : LeavesEnd first) (hs : LeavesEnd second)
    (next : ∀ token ∈ second.head?, token.isEnd = true) : LeavesEnd (first ++ second) :=
  List.IsChain.append hf hs fun _ _ token h _ => next token h

theorem leavesEnd_cons {token : Token} {tokens : List Token} (leaf : token.leaf? = none)
    (h : LeavesEnd tokens) : LeavesEnd (token :: tokens) :=
  List.isChain_cons.mpr ⟨fun _ _ named => by simp [leaf] at named, h⟩

theorem leavesEnd_key {token : Token} {tokens : List Token} (h : LeavesEnd tokens) :
    LeavesEnd (token :: .colon :: tokens) :=
  List.isChain_cons.mpr ⟨fun second hs _ => by cases hs; rfl, leavesEnd_cons rfl h⟩

theorem leavesEnd_closing {α : Type} {parts : List α} {tail : List Token}
    (h : Closing parts tail) : LeavesEnd tail ∧ ∀ token ∈ tail.head?, token.isEnd = true := by
  rcases h with rfl | ⟨-, rfl⟩
  · exact ⟨List.isChain_nil, by simp⟩
  · exact ⟨List.isChain_singleton _, by simp [Token.isEnd]⟩

theorem leavesEnd_of_derives {phrase : Phrase} {tokens : List Token} (h : Derives phrase tokens) :
    LeavesEnd tokens := by
  -- A container is its parts, a comma it may end with, and the bracket that closes it.
  have container {α : Type} {parts : List α} {tokens tail : List Token} {left right : Token}
      (opens : left.leaf? = none) (closes : right.isEnd = true) (inside : LeavesEnd tokens)
      (closing : Closing parts tail) : LeavesEnd (left :: (tokens ++ tail ++ [right])) := by
    obtain ⟨last, next⟩ := leavesEnd_closing closing
    refine leavesEnd_cons opens (leavesEnd_append (leavesEnd_append inside last next) ?_ ?_)
    · exact List.isChain_singleton right
    · simpa using closes
  induction h with
  | leaf => exact List.isChain_singleton _
  | object _ closing ih => exact container rfl rfl ih closing
  | array _ closing ih => exact container rfl rfl ih closing
  | noMembers => exact List.isChain_nil
  | lastMember _ _ ih => exact leavesEnd_key ih
  | member _ _ _ _ ih ih' =>
    refine leavesEnd_key (leavesEnd_append ih (leavesEnd_cons rfl ih') ?_)
    simp [Token.isEnd]
  | noItems => exact List.isChain_nil
  | lastItem _ ih => exact ih
  | item _ _ _ ih ih' =>
    refine leavesEnd_append ih (leavesEnd_cons rfl ih') ?_
    simp [Token.isEnd]

theorem wordsEnd_of_derives {phrase : Phrase} {tokens : List Token} (h : Derives phrase tokens) :
    WordsEnd tokens :=
  (leavesEnd_of_derives h).words

theorem follow_key {token : Token} {key : Key} (h : token.key? = some key)
    (state : List Char × Expected) : follow state token = (state.1, .other) := by
  cases token <;> first | rfl | cases h

/-- A comma leaves a member or a value to come, and the containers as they are. -/
theorem follow_comma (state : List Char × Expected) : follow state .comma =
    (state.1, if state.1.head? = some '{' then .member else .value) := by
  simp [follow, Token.mark?, advance, closesContainer]

/-- The containers that were open stay open. After a value nothing is expected. -/
theorem follow_of_derives {phrase : Phrase} {tokens : List Token} (h : Derives phrase tokens)
    (containers : List Char) (expected : Expected) :
    (tokens.foldl follow (containers, expected)).1 = containers ∧
      ∀ node, phrase = .value node → (tokens.foldl follow (containers, expected)).2 = .other := by
  have closed {α : Type} {parts : List α} {tail : List Token} (closing : Closing parts tail)
      (state : List Char × Expected) : (tail.foldl follow state).1 = state.1 := by
    rcases closing with rfl | ⟨-, rfl⟩ <;> rfl
  induction h generalizing containers expected with
  | @leaf token node leaf =>
    have : follow (containers, expected) token = (containers, .other) := by
      cases token <;> first | rfl | cases leaf
    simp [this]
  | @object members tokens tail _ closing ih =>
    have inside := (ih ('{' :: containers) .member).1
    have := closed closing (tokens.foldl follow ('{' :: containers, .member))
    rw [inside] at this
    simp only [List.foldl_cons, List.foldl_append, List.foldl_nil]
    change (follow (tail.foldl follow (tokens.foldl follow ('{' :: containers, .member)))
      .rightBrace).1 = _ ∧ _
    simp [follow, Token.mark?, advance, closesContainer, this]
  | @array items tokens tail _ closing ih =>
    have inside := (ih ('[' :: containers) .value).1
    have := closed closing (tokens.foldl follow ('[' :: containers, .value))
    rw [inside] at this
    simp only [List.foldl_cons, List.foldl_append, List.foldl_nil]
    change (follow (tail.foldl follow (tokens.foldl follow ('[' :: containers, .value)))
      .rightBracket).1 = _ ∧ _
    simp [follow, Token.mark?, advance, closesContainer, this]
  | noMembers => exact ⟨rfl, by simp⟩
  | lastMember named _ ih =>
    refine ⟨?_, by simp⟩
    simp only [List.foldl_cons]
    rw [follow_key named]
    exact (ih containers .value).1
  | @member token key node tokens members rest named _ _ _ ih ih' =>
    refine ⟨?_, by simp⟩
    have value := (ih containers .value).1
    simp only [List.foldl_cons, List.foldl_append]
    rw [follow_key named]
    change (rest.foldl follow (follow (tokens.foldl follow (containers, .value)) .comma)).1 = _
    rw [follow_comma, value]
    exact (ih' containers _).1
  | noItems => exact ⟨rfl, by simp⟩
  | lastItem _ ih => exact ⟨(ih containers expected).1, by simp⟩
  | @item node tokens items rest _ _ _ ih ih' =>
    refine ⟨?_, by simp⟩
    have value := (ih containers expected).1
    simp only [List.foldl_cons, List.foldl_append]
    rw [follow_comma, value]
    exact (ih' containers _).1

end Literal
end ThemeSheet
