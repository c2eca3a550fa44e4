import Mathlib.Algebra.Group.Nat.Defs
import ThemeSheet.Literal.Evaluate
import ThemeSheet.Literal.Normalize
import ThemeSheet.Proofs.Tokens

namespace ThemeSheet

open Text

/-! Characters and their code units. -/

theorem not_surrogate (c : Char) :
    isHighSurrogate c.toNat = false ∧ isLowSurrogate c.toNat = false := by
  have valid : c.toNat < 0xD800 ∨ 0xDFFF < c.toNat ∧ c.toNat < 0x110000 := c.valid
  constructor <;> simp only [isHighSurrogate, isLowSurrogate, Bool.and_eq_false_iff,
    decide_eq_false_iff_not] <;> omega

theorem joinSurrogates_char (c : Char) (rest : List Nat) :
    joinSurrogates (c.toNat :: rest) = c :: joinSurrogates rest := by
  obtain ⟨high, low⟩ := not_surrogate c
  cases rest with
  | nil => simp [joinSurrogates, high, low]
  | cons n rest => simp [joinSurrogates, high, low]

theorem joinSurrogates_units (c : Char) (rest : List Nat) :
    joinSurrogates (utf16Units c ++ rest) = c :: joinSurrogates rest := by
  unfold utf16Units
  split
  · exact joinSurrogates_char c rest
  · rename_i large
    have bound : c.toNat < 0x110000 := by
      have valid : c.toNat < 0xD800 ∨ 0xDFFF < c.toNat ∧ c.toNat < 0x110000 := c.valid
      omega
    have high : isHighSurrogate (surrogatePair c.toNat).1 = true := by
      simp only [isHighSurrogate, surrogatePair, Bool.and_eq_true]
      exact ⟨decide_eq_true (by omega), decide_eq_true (by omega)⟩
    have low : isLowSurrogate (surrogatePair c.toNat).2 = true := by
      simp only [isLowSurrogate, surrogatePair, Bool.and_eq_true]
      exact ⟨decide_eq_true (by omega), decide_eq_true (by omega)⟩
    have joined := joinPair_surrogatePair (n := c.toNat) (by omega)
    simp [joinSurrogates, high, low, joined]

/-- A text is what its characters are as code points. -/
theorem joinSurrogates_chars (text : List Char) :
    joinSurrogates (text.map Char.toNat) = text := by
  induction text with
  | nil => rfl
  | cons c text ih => rw [List.map_cons, joinSurrogates_char, ih]

/-- A text is what its characters are as UTF-16. -/
theorem joinSurrogates_utf16 (text : List Char) :
    joinSurrogates (text.flatMap utf16Units) = text := by
  induction text with
  | nil => rfl
  | cons c text ih => rw [List.flatMap_cons, joinSurrogates_units, ih]

theorem utf16Units_lt {c : Char} {n : Nat} (h : n ∈ utf16Units c) : n < 0x10000 := by
  have valid : c.toNat < 0xD800 ∨ 0xDFFF < c.toNat ∧ c.toNat < 0x110000 := c.valid
  unfold utf16Units at h
  split at h
  · rw [List.mem_singleton.mp h]
    assumption
  · simp only [surrogatePair, List.mem_cons, List.not_mem_nil, or_false] at h
    omega

/-! Hexadecimal digits. -/

theorem hexValue?_digitChar : ∀ d < 16, hexValue? (Nat.digitChar d) = some d := by
  decide

theorem ofHex_hexDigits (width n : Nat) : ofHex (hexDigits width n) = n % 16 ^ width := by
  induction width generalizing n with
  | zero => simp [hexDigits, ofHex, Nat.mod_one]
  | succ width ih =>
    have last := hexValue?_digitChar (n % 16) (Nat.mod_lt n (by decide))
    have start := ih (n / 16)
    rw [ofHex] at start ⊢
    rw [hexDigits, List.foldl_append, start]
    simp only [List.foldl_cons, List.foldl_nil, last, Option.getD_some]
    rw [Nat.pow_succ, Nat.mul_comm (16 ^ width) 16, Nat.mod_mul]
    omega

theorem isHex_of_mem_hexDigits {width n : Nat} {c : Char} (h : c ∈ hexDigits width n) :
    isHex c = true := by
  induction width generalizing n with
  | zero => cases h
  | succ width ih =>
    rcases List.mem_append.mp h with h | h
    · exact ih h
    · rw [List.mem_singleton.mp h, isHex, hexValue?_digitChar _ (Nat.mod_lt n (by decide))]
      rfl

namespace Literal

/-! Bodies of strings. -/

/-- A stretch of a string that does not close it. -/
def Inside (quote : Char) (stretch : List Char) : Prop :=
  ∀ rest, splitString? quote (stretch ++ rest) =
    (splitString? quote rest).map fun (body, after) => (stretch ++ body, after)

theorem inside_nil (quote : Char) : Inside quote [] := by
  intro rest
  cases h : splitString? quote rest <;> simp [h]

theorem Inside.append {quote : Char} {a b : List Char} (ha : Inside quote a)
    (hb : Inside quote b) : Inside quote (a ++ b) := by
  intro rest
  rw [List.append_assoc, ha, hb]
  cases splitString? quote rest <;> simp

theorem inside_escape (quote c : Char) : Inside quote ['\\', c] := by
  intro rest
  rw [List.cons_append, List.cons_append, List.nil_append, splitString?]
  rfl

theorem inside_plain {quote c : Char} (plain : c ≠ '\\') (other : c ≠ quote) (line : c ≠ '\n') :
    Inside quote [c] := by
  intro rest
  rw [List.cons_append, List.nil_append, splitString?_cons plain, if_neg other,
    if_neg fun h => line h.1]
  rfl

theorem inside_flatMap {quote : Char} {f : Char → List Char} (h : ∀ c, Inside quote (f c))
    (text : List Char) : Inside quote (text.flatMap f) := by
  induction text with
  | nil => exact inside_nil quote
  | cons c text ih => exact (h c).append ih

theorem Inside.split {quote : Char} {body : List Char} (h : Inside quote body)
    (plain : quote ≠ '\\') (after : List Char) :
    splitString? quote (body ++ quote :: after) = some (body, after) := by
  rw [h, splitString?_cons plain, if_pos rfl]
  simp

/-- What a stretch of a string stands for, whatever follows. -/
def Means (stretch : List Char) (points : List Nat) : Prop :=
  ∀ rest, codePoints (stretch ++ rest) = points ++ codePoints rest

theorem means_plain {c : Char} (plain : c ≠ '\\') : Means [c] [c.toNat] := by
  intro rest
  rw [List.cons_append, List.nil_append, codePoints]
  · rfl
  · intro d tail h
    exact absurd h plain

theorem means_escape {c : Char} (u : c ≠ 'u') (x : c ≠ 'x') : Means ['\\', c] (plainEscape c) := by
  intro rest
  rw [List.cons_append, List.cons_append, List.nil_append, codePoints]
  simp [escape, u, x]

theorem means_flatMap {f : Char → List Char} {g : Char → List Nat} (h : ∀ c, Means (f c) (g c))
    (text : List Char) : codePoints (text.flatMap f) = text.flatMap g := by
  induction text with
  | nil => rw [List.flatMap_nil, codePoints, List.flatMap_nil]
  | cons c text ih => rw [List.flatMap_cons, h c, ih, List.flatMap_cons]

/-- A string has a value if all its code points are small enough. -/
theorem readString_eq {site : Site} {body : List Char} {points : List Nat}
    (same : codePoints body = points) (small : ∀ n ∈ points, n ≤ maxCodePoint) :
    readString site body = .ok (String.ofList (joinSurrogates points)) := by
  have none : firstBadPoint? body = none := by
    rw [firstBadPoint?, same]
    apply List.find?_eq_none.mpr
    intro n hn
    have := small n hn
    simpa using this
  rw [readString, none, unescape, same]

/-! Strings of printable characters. -/

theorem means_jsonUnit {n : Nat} (small : n < 0x10000) : Means (jsonUnit n) [n] := by
  intro rest
  have digits : fixedEscape? 4 (hexDigits 4 n ++ rest) = some (n, rest) := by
    have taken : (hexDigits 4 n ++ rest).take 4 = hexDigits 4 n := by
      have := @List.take_left Char (hexDigits 4 n) rest
      rwa [length_hexDigits] at this
    have dropped : (hexDigits 4 n ++ rest).drop 4 = rest := by
      have := @List.drop_left Char (hexDigits 4 n) rest
      rwa [length_hexDigits] at this
    have hex : (hexDigits 4 n).all isHex = true :=
      List.all_eq_true.mpr fun c hc => isHex_of_mem_hexDigits hc
    have whole : n % 16 ^ 4 = n := Nat.mod_eq_of_lt (by omega)
    unfold fixedEscape?
    rw [taken, dropped, if_pos ⟨length_hexDigits 4 n, hex⟩, ofHex_hexDigits, whole]
  have first : escape 'u' (hexDigits 4 n ++ rest) = ([n], rest) := by
    have brace : ∀ inner, hexDigits 4 n ++ rest ≠ '{' :: inner := by
      intro inner eq
      have head : '{' ∈ hexDigits 4 n := by
        cases digits : hexDigits 4 n with
        | nil =>
          have := length_hexDigits 4 n
          rw [digits] at this
          cases this
        | cons c tail =>
          rw [digits] at eq
          rw [(List.cons.inj eq).1]
          exact List.mem_cons_self
      exact absurd (isHex_of_mem_hexDigits head) (by decide)
    unfold escape
    rw [if_pos rfl]
    dsimp only
    split
    · rename_i found
      split at found
      · rename_i eq
        exact absurd eq (brace _)
      · rw [digits] at found
        cases found
        rfl
    · rename_i found
      split at found
      · rename_i eq
        exact absurd eq (brace _)
      · rw [digits] at found
        cases found
  rw [jsonUnit, List.cons_append, List.cons_append, codePoints, first]

theorem means_jsonChar (c : Char) : Means (jsonChar c) (utf16Units c) := by
  have units (small : c.toNat < 128) : utf16Units c = [c.toNat] := by
    unfold utf16Units
    rw [if_pos (by omega)]
  unfold jsonChar
  split
  · rename_i h
    simp only [Bool.or_eq_true, beq_iff_eq] at h
    rcases h with rfl | rfl <;> exact means_escape (by decide) (by decide)
  split
  · rename_i h
    rw [eq_of_beq h]
    exact means_escape (by decide) (by decide)
  split
  · rename_i h
    rw [eq_of_beq h]
    exact means_escape (by decide) (by decide)
  split
  · rename_i h
    rw [eq_of_beq h]
    exact means_escape (by decide) (by decide)
  split
  · rename_i h
    rw [eq_of_beq h]
    exact means_escape (by decide) (by decide)
  split
  · rename_i h
    rw [eq_of_beq h]
    exact means_escape (by decide) (by decide)
  split
  · rename_i special _ _ _ _ _ h
    simp only [Bool.or_eq_true, beq_iff_eq, not_or] at special
    simp only [Bool.and_eq_true, decide_eq_true_eq] at h
    rw [units (by omega)]
    exact means_plain special.2
  · intro rest
    have each {points : List Nat} (small : ∀ n ∈ points, n < 0x10000) :
        codePoints (points.flatMap jsonUnit ++ rest) = points ++ codePoints rest := by
      induction points with
      | nil => rfl
      | cons n points ih =>
        rw [List.flatMap_cons, List.append_assoc, means_jsonUnit (small n List.mem_cons_self),
          ih fun m hm => small m (List.mem_cons_of_mem n hm)]
        rfl
    exact each fun n hn => utf16Units_lt hn

theorem inside_jsonChar (c : Char) : Inside '"' (jsonChar c) := by
  have plain {d : Char} (h : isHex d = true) : Inside '"' [d] := by
    refine inside_plain ?_ ?_ ?_ <;> rintro rfl <;> exact absurd h (by decide)
  have digits {text : List Char} (h : ∀ d ∈ text, isHex d = true) : Inside '"' text := by
    induction text with
    | nil => exact inside_nil '"'
    | cons d text ih =>
      exact (plain (h d List.mem_cons_self)).append (ih fun e he => h e (List.mem_cons_of_mem d he))
  have unit (n : Nat) : Inside '"' (jsonUnit n) :=
    (inside_escape '"' 'u').append (digits fun d hd => @isHex_of_mem_hexDigits 4 n d hd)
  unfold jsonChar
  split
  · exact inside_escape '"' c
  split
  · exact inside_escape '"' 'n'
  split
  · exact inside_escape '"' 'r'
  split
  · exact inside_escape '"' 't'
  split
  · exact inside_escape '"' 'b'
  split
  · exact inside_escape '"' 'f'
  split
  · rename_i special line _ _ _ _ h
    simp only [Bool.or_eq_true, beq_iff_eq, not_or] at special
    exact inside_plain special.2 special.1 fun eq => line (beq_iff_eq.mpr eq)
  · induction utf16Units c with
    | nil => exact inside_nil '"'
    | cons n units ih => exact (unit n).append ih

/-- A name that is written as a JSON string is read as itself. -/
theorem readString_json (site : Site) (name : List Char) :
    readString site (name.flatMap jsonChar) = .ok (String.ofList name) := by
  rw [readString_eq (means_flatMap means_jsonChar name), joinSurrogates_utf16]
  intro n hn
  obtain ⟨c, -, hc⟩ := List.mem_flatMap.mp hn
  have := utf16Units_lt hc
  simp only [maxCodePoint]
  omega

/-! Strings as a source writes them. -/

/-- A character in a string that `quote` delimits. -/
def writtenChar (quote c : Char) : List Char :=
  if c = '\\' ∨ c = quote then ['\\', c] else if c = '\n' then ['\\', 'n'] else [c]

def writtenBody (quote : Char) (text : List Char) : List Char :=
  text.flatMap (writtenChar quote)

theorem inside_writtenChar (quote c : Char) : Inside quote (writtenChar quote c) := by
  unfold writtenChar
  split
  · exact inside_escape quote c
  · rename_i special
    obtain ⟨slash, other⟩ := not_or.mp special
    split
    · exact inside_escape quote 'n'
    · exact inside_plain slash other (by assumption)

theorem splitString?_written {quote : Char} (h : isQuote quote = true) (text after : List Char) :
    splitString? quote (writtenBody quote text ++ quote :: after) =
      some (writtenBody quote text, after) := by
  refine (inside_flatMap (inside_writtenChar quote) text).split ?_ after
  rintro rfl
  cases h

theorem means_writtenChar {quote : Char} (h : isQuote quote = true) (c : Char) :
    Means (writtenChar quote c) [c.toNat] := by
  unfold writtenChar
  split
  · rename_i special
    have quoted : c = '\\' ∨ c = '"' ∨ c = '\'' ∨ c = backtick := by
      simp only [isQuote, Bool.or_eq_true, beq_iff_eq] at h
      rcases special with rfl | rfl
      · exact .inl rfl
      · exact .inr (or_assoc.mp h)
    rcases quoted with rfl | rfl | rfl | rfl <;> exact means_escape (by decide) (by decide)
  · rename_i special
    split
    · rename_i line
      rw [line]
      exact means_escape (by decide) (by decide)
    · exact means_plain (not_or.mp special).1

/-- A text that is written as a string is read as itself. -/
theorem readString_written {quote : Char} (h : isQuote quote = true) (site : Site)
    (text : List Char) : readString site (writtenBody quote text) = .ok (String.ofList text) := by
  have points := means_flatMap (means_writtenChar h) text
  rw [← List.map_eq_flatMap] at points
  rw [writtenBody, readString_eq points, joinSurrogates_chars]
  intro n hn
  obtain ⟨c, -, rfl⟩ := List.mem_map.mp hn
  have valid : c.toNat < 0xD800 ∨ 0xDFFF < c.toNat ∧ c.toNat < 0x110000 := c.valid
  simp only [maxCodePoint]
  omega

theorem requote_cons {delimiter c : Char} (plain : c ≠ '\\') (rest : List Char) :
    requote delimiter (c :: rest) =
      if c = '"' then '\\' :: '"' :: requote delimiter rest
      else if c = '\n' then '\\' :: 'n' :: requote delimiter rest
      else c :: requote delimiter rest := by
  rw [requote]
  · intro h
    exact absurd h plain
  · intro d tail h
    exact absurd h plain

/-- Requoting a string writes its text anew. -/
theorem requote_written {quote : Char} (h : isQuote quote = true) (single : quote ≠ '"')
    (text : List Char) : requote quote (writtenBody quote text) = writtenBody '"' text := by
  have apart : quote ≠ '\\' ∧ quote ≠ 'n' ∧ quote ≠ '\n' := by
    refine ⟨?_, ?_, ?_⟩ <;> rintro rfl <;> exact absurd h (by decide)
  induction text with
  | nil => rfl
  | cons c text ih =>
    change requote quote (writtenChar quote c ++ writtenBody quote text) =
      writtenChar '"' c ++ writtenBody '"' text
    by_cases slash : c = '\\'
    · subst slash
      have here : writtenChar quote '\\' = ['\\', '\\'] := by simp [writtenChar]
      rw [here]
      change requote quote ('\\' :: '\\' :: writtenBody quote text) = _
      rw [requote, if_neg (Ne.symm apart.1), ih]
      rfl
    by_cases other : c = quote
    · subst other
      have here : writtenChar c c = ['\\', c] := by simp [writtenChar]
      have there : writtenChar '"' c = [c] := by simp [writtenChar, slash, single, apart.2.2]
      rw [here, there]
      change requote c ('\\' :: c :: writtenBody c text) = _
      rw [requote, if_pos rfl, ih]
      rfl
    by_cases line : c = '\n'
    · subst line
      have here : writtenChar quote '\n' = ['\\', 'n'] := by simp [writtenChar, other]
      rw [here]
      change requote quote ('\\' :: 'n' :: writtenBody quote text) = _
      rw [requote, if_neg (Ne.symm apart.2.1), ih]
      rfl
    · have here : writtenChar quote c = [c] := by simp [writtenChar, slash, other, line]
      rw [here, List.singleton_append, requote_cons slash, ih]
      by_cases double : c = '"'
      · subst double
        rfl
      · have there : writtenChar '"' c = [c] := by simp [writtenChar, slash, double, line]
        rw [if_neg double, if_neg line, there]
        rfl

end Literal
end ThemeSheet
