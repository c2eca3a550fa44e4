import ThemeSheet.Proofs.GuardedWrite
import ThemeSheet.Proofs.Quoting
import ThemeSheet.Proofs.Terminals

/-! Strings as sequences of UTF-16 code units: which units a body stands for, and the text that is
made of them. -/

namespace ThemeSheet.Literal

open Text

/-! What a body stands for. -/

/-- A stretch of a string body that is read at once. -/
inductive StringPart
  | plain (c : Char)
  /-- The digits of `\u` in braces. -/
  | point (digits : List Char)
  /-- The digits of `\u` or `\x` without braces. -/
  | unit (digits : List Char)
  | escaped (c : Char)

/-- The code units of a code point. A surrogate is one by itself. -/
def pointUnits (n : Nat) : List Nat :=
  if n < 0x10000 then [n] else [(surrogatePair n).1, (surrogatePair n).2]

namespace StringPart

/-- The code units that a part stands for. -/
def units : StringPart → List Nat
  | plain c => utf16Units c
  | point digits => pointUnits (ofHex digits)
  | unit digits => [ofHex digits]
  | escaped 'n' => [0xA]
  | escaped 't' => [0x9]
  | escaped 'r' => [0xD]
  | escaped 'b' => [0x8]
  | escaped 'f' => [0xC]
  | escaped 'v' => [0xB]
  | escaped '0' => [0x0]
  | escaped '\n' => []
  | escaped c => utf16Units c

def points : StringPart → List Nat
  | plain c => [c.toNat]
  | point digits => [ofHex digits]
  | unit digits => [ofHex digits]
  | escaped c => plainEscape c

/-- A part that stands for no code point. -/
def Exceeds (part : StringPart) : Prop :=
  ∃ digits, part = point digits ∧ maxCodePoint < ofHex digits

end StringPart

/-- An escape by number, behind its backslash. -/
inductive Numbered : List Char → StringPart → List Char → Prop
  | braced {digits rest} (some : digits ≠ []) (hex : ∀ c ∈ digits, isHex c = true) :
    Numbered ('u' :: '{' :: (digits ++ '}' :: rest)) (.point digits) rest
  | four {digits rest} (count : digits.length = 4) (hex : ∀ c ∈ digits, isHex c = true) :
    Numbered ('u' :: (digits ++ rest)) (.unit digits) rest
  | two {digits rest} (count : digits.length = 2) (hex : ∀ c ∈ digits, isHex c = true) :
    Numbered ('x' :: (digits ++ rest)) (.unit digits) rest

/-- A string body cut into parts from left to right. A backslash escapes the next character where
no number follows. -/
inductive InParts : List Char → List StringPart → Prop
  | nil : InParts [] []
  | plain {c rest parts} (slash : c ≠ '\\') (tail : InParts rest parts) :
    InParts (c :: rest) (.plain c :: parts)
  | numbered {text part rest parts} (first : Numbered text part rest)
    (tail : InParts rest parts) : InParts ('\\' :: text) (part :: parts)
  | escaped {c rest parts} (other : ∀ part more, ¬ Numbered (c :: rest) part more)
    (tail : InParts rest parts) : InParts ('\\' :: c :: rest) (.escaped c :: parts)

/-- The text of a sequence of code units: a high surrogate directly before a low one is a character
with it, and any other surrogate is replaced. -/
inductive Joined : List Nat → List Char → Prop
  | nil : Joined [] []
  | char {c rest text} (small : c.toNat < 0x10000) (tail : Joined rest text) :
    Joined (c.toNat :: rest) (c :: text)
  | pair {c high low rest text} (first : isHighSurrogate high = true)
    (second : isLowSurrogate low = true) (point : c.toNat = joinPair high low)
    (tail : Joined rest text) : Joined (high :: low :: rest) (c :: text)
  | lone {n rest text} (surrogate : isHighSurrogate n = true ∨ isLowSurrogate n = true)
    (alone : isHighSurrogate n = true → ∀ m ∈ rest.head?, isLowSurrogate m = false)
    (tail : Joined rest text) : Joined (n :: rest) ('\uFFFD' :: text)

/-! The escapes are read as they are cut. -/

theorem bracedEscape?_digits {digits : List Char} (some : digits ≠ [])
    (hex : ∀ c ∈ digits, isHex c = true) (rest : List Char) :
    bracedEscape? (digits ++ '}' :: rest) = .some (ofHex digits, rest) := by
  have brace : isHex '}' = false := by decide
  have taken : (digits ++ '}' :: rest).takeWhile isHex = digits := by
    rw [List.takeWhile_append_of_pos hex, List.takeWhile_cons, brace]
    simp
  have left : (digits ++ '}' :: rest).dropWhile isHex = '}' :: rest := by
    rw [List.dropWhile_append_of_pos hex, List.dropWhile_cons, brace]
    simp
  simp [bracedEscape?, taken, left, some]

theorem bracedEscape?_split {text rest : List Char} {n : Nat}
    (h : bracedEscape? text = some (n, rest)) :
    ∃ digits, digits ≠ [] ∧ (∀ c ∈ digits, isHex c = true) ∧ text = digits ++ '}' :: rest := by
  unfold bracedEscape? at h
  dsimp only at h
  split at h
  · rename_i after eq
    split at h
    · cases h
    · rename_i some
      cases h
      refine ⟨text.takeWhile isHex, by simpa using some, List.all_eq_true.mp List.all_takeWhile, ?_⟩
      rw [← eq, List.takeWhile_append_dropWhile]
  · cases h

theorem fixedEscape?_digits {width : Nat} {digits : List Char} (count : digits.length = width)
    (hex : ∀ c ∈ digits, isHex c = true) (rest : List Char) :
    fixedEscape? width (digits ++ rest) = some (ofHex digits, rest) := by
  subst count
  have all : digits.all isHex = true := List.all_eq_true.mpr hex
  simp [fixedEscape?, all]

theorem fixedEscape?_split {width : Nat} {text rest : List Char} {n : Nat}
    (h : fixedEscape? width text = some (n, rest)) :
    ∃ digits, digits.length = width ∧ (∀ c ∈ digits, isHex c = true) ∧ text = digits ++ rest := by
  unfold fixedEscape? at h
  dsimp only at h
  split at h
  · rename_i digits
    cases h
    exact ⟨text.take width, digits.1, List.all_eq_true.mp digits.2, by simp⟩
  · cases h

/-- Digits begin with no brace. -/
theorem digits_ne_brace {digits : List Char} (count : digits.length = 4)
    (hex : ∀ c ∈ digits, isHex c = true) (rest inner : List Char) :
    digits ++ rest ≠ '{' :: inner := by
  obtain ⟨c, digits, rfl⟩ := List.exists_cons_of_length_pos (l := digits) (by omega)
  intro same
  obtain ⟨rfl, -⟩ := List.cons.inj same
  exact absurd (hex '{' List.mem_cons_self) (by decide)

theorem escape_numbered {c : Char} {rest more : List Char} {part : StringPart}
    (h : Numbered (c :: rest) part more) : escape c rest = (part.points, more) := by
  cases h with
  | braced some hex =>
    simp only [escape, bracedEscape?_digits some hex]
    rfl
  | @four digits _ count hex =>
    have found := fixedEscape?_digits count hex more
    unfold escape
    dsimp only
    rw [if_pos rfl]
    split
    · rename_i answer
      split at answer
      · rename_i inner eq
        exact absurd eq (digits_ne_brace count hex more inner)
      · cases found.symm.trans answer
        rfl
    · rename_i none
      split at none
      · rename_i inner eq
        exact absurd eq (digits_ne_brace count hex more inner)
      · cases found.symm.trans none
  | two count hex =>
    simp only [escape, if_neg (show ¬ 'x' = 'u' by decide), fixedEscape?_digits count hex]
    rfl

theorem escape_other {c : Char} {rest : List Char}
    (other : ∀ part more, ¬ Numbered (c :: rest) part more) :
    escape c rest = (plainEscape c, rest) := by
  unfold escape
  dsimp only
  split
  · rename_i n more found
    exfalso
    split at found
    · rename_i letter
      subst letter
      split at found
      · obtain ⟨digits, some, hex, rfl⟩ := bracedEscape?_split found
        exact other _ _ (.braced some hex)
      · obtain ⟨digits, count, hex, rfl⟩ := fixedEscape?_split found
        exact other _ _ (.four count hex)
    · split at found
      · rename_i letter
        subst letter
        obtain ⟨digits, count, hex, rfl⟩ := fixedEscape?_split found
        exact other _ _ (.two count hex)
      · cases found
  · rfl

theorem Numbered.some {text rest : List Char} {part : StringPart} (h : Numbered text part rest) :
    ∃ c more, text = c :: more := by
  cases h <;> exact ⟨_, _, rfl⟩

/-- Parts stand for the code points that are read. -/
theorem codePoints_inParts {body : List Char} {parts : List StringPart} (h : InParts body parts) :
    codePoints body = parts.flatMap StringPart.points := by
  induction h with
  | nil =>
    rw [codePoints]
    rfl
  | @plain c rest parts slash _ ih =>
    have here := means_plain slash rest
    rw [List.cons_append, List.nil_append, ih] at here
    exact here
  | numbered first _ ih =>
    obtain ⟨c, more, rfl⟩ := first.some
    rw [codePoints, escape_numbered first, ih]
    rfl
  | escaped other _ ih =>
    rw [codePoints, escape_other other, ih]
    rfl

/-! Every body is cut, in one way. -/

theorem Numbered.part_eq {text text' rest : List Char} {part part' : StringPart}
    (h : Numbered text part rest) (h' : Numbered text' part' rest) (same : text = text') :
    part = part' := by
  cases h with
  | braced some hex =>
    cases h' with
    | braced => simpa using same
    | four count hex' =>
      exact absurd (List.cons.inj same).2.symm (digits_ne_brace count hex' _ _)
    | two => simp at same
  | four count hex =>
    cases h' with
    | braced => exact absurd (List.cons.inj same).2 (digits_ne_brace count hex _ _)
    | four => simpa using same
    | two => simp at same
  | two =>
    cases h' with
    | braced => simp at same
    | four => simp at same
    | two => simpa using same

theorem Numbered.unique {text rest rest' : List Char} {part part' : StringPart}
    (h : Numbered text part rest) (h' : Numbered text part' rest') : part = part' ∧ rest = rest' := by
  obtain ⟨c, more, rfl⟩ := h.some
  obtain rfl : rest = rest' :=
    (Prod.mk.inj ((escape_numbered h).symm.trans (escape_numbered h'))).2
  exact ⟨h.part_eq h' rfl, rfl⟩

theorem InParts.unique {body : List Char} {parts parts' : List StringPart} (h : InParts body parts)
    (h' : InParts body parts') : parts = parts' := by
  induction h generalizing parts' with
  | nil =>
    cases h'
    rfl
  | plain slash _ ih =>
    cases h' with
    | plain _ tail => rw [ih tail]
    | numbered => exact absurd rfl slash
    | escaped => exact absurd rfl slash
  | numbered first _ ih =>
    cases h' with
    | plain slash _ => exact absurd rfl slash
    | numbered first' tail =>
      obtain ⟨rfl, rfl⟩ := first.unique first'
      rw [ih tail]
    | escaped other _ => exact absurd first (other _ _)
  | escaped other _ ih =>
    cases h' with
    | plain slash _ => exact absurd rfl slash
    | numbered first' _ => exact absurd first' (other _ _)
    | escaped _ tail => rw [ih tail]

theorem StringBody.drop {front more : List Char} (h : StringBody (front ++ more))
    (plain : '\\' ∉ front) : StringBody more := by
  induction front with
  | nil => exact h
  | cons c front ih =>
    obtain ⟨slash, plain⟩ := not_or.mp (mt List.mem_cons.mpr plain)
    rw [List.cons_append] at h
    generalize behind : front ++ more = text at h
    cases h with
    | escaped => exact absurd rfl slash
    | plain _ _ _ tail => exact ih (behind ▸ tail) plain

theorem backslash_not_mem_digits {digits : List Char} (hex : ∀ c ∈ digits, isHex c = true) :
    '\\' ∉ digits := fun mem => absurd (hex _ mem) (by decide)

/-- A number leaves the rest of a body. -/
theorem Numbered.stringBody {text rest : List Char} {part : StringPart}
    (h : Numbered text part rest) (body : StringBody ('\\' :: text)) : StringBody rest := by
  have behind {c : Char} {more : List Char} (body : StringBody ('\\' :: c :: more)) :
      StringBody more := by
    cases body with
    | escaped tail => exact tail
    | plain _ slash => exact absurd rfl slash
  cases h with
  | @braced digits rest some hex =>
    have inner : StringBody (('{' :: (digits ++ ['}'])) ++ rest) := by simpa using behind body
    exact inner.drop (by simpa using backslash_not_mem_digits hex)
  | four count hex => exact (behind body).drop (backslash_not_mem_digits hex)
  | two count hex => exact (behind body).drop (backslash_not_mem_digits hex)

theorem Numbered.length_lt {text rest : List Char} {part : StringPart}
    (h : Numbered text part rest) : rest.length < text.length := by
  cases h with
  | braced _ _ | four _ _ | two _ _ =>
    simp only [List.length_cons, List.length_append]
    omega

theorem exists_inParts {body : List Char} (h : StringBody body) :
    ∃ parts, InParts body parts := by
  induction size : body.length using Nat.strong_induction_on generalizing body with
  | h n ih =>
    subst size
    cases h with
    | nil => exact ⟨[], .nil⟩
    | @plain c rest quote slash line tail =>
      obtain ⟨parts, cut⟩ := ih rest.length (by simp) tail rfl
      exact ⟨.plain c :: parts, .plain slash cut⟩
    | @escaped c rest tail =>
      by_cases numbered : ∃ part more, Numbered (c :: rest) part more
      · obtain ⟨part, more, first⟩ := numbered
        have shorter : more.length < ('\\' :: c :: rest).length :=
          Nat.lt_succ_of_lt first.length_lt
        obtain ⟨parts, cut⟩ := ih more.length shorter (first.stringBody (.escaped tail)) rfl
        exact ⟨part :: parts, .numbered first cut⟩
      · have shorter : rest.length < ('\\' :: c :: rest).length := Nat.lt_succ_of_lt (Nat.lt_succ_self _)
        obtain ⟨parts, cut⟩ := ih rest.length shorter tail rfl
        exact ⟨.escaped c :: parts, .escaped (fun part more first => numbered ⟨part, more, first⟩) cut⟩

/-! Code units are joined as code points are. -/

theorem isHighSurrogate_iff {n : Nat} : isHighSurrogate n = true ↔ 0xD800 ≤ n ∧ n < 0xDC00 := by
  simp [isHighSurrogate]

theorem isLowSurrogate_iff {n : Nat} : isLowSurrogate n = true ↔ 0xDC00 ≤ n ∧ n < 0xE000 := by
  simp [isLowSurrogate]

theorem toNat_ofNat {n : Nat} (valid : n ≤ maxCodePoint) (high : isHighSurrogate n = false)
    (low : isLowSurrogate n = false) : (Char.ofNat n).toNat = n := by
  rw [Bool.eq_false_iff, ne_eq, isHighSurrogate_iff] at high
  rw [Bool.eq_false_iff, ne_eq, isLowSurrogate_iff] at low
  have valid : n.isValidChar := by
    unfold maxCodePoint at valid
    unfold Nat.isValidChar
    omega
  rw [Char.ofNat, dif_pos valid]
  rfl

theorem pointUnits_small {n : Nat} (small : n < 0x10000) : pointUnits n = [n] :=
  if_pos small

theorem pointUnits_large {n : Nat} (large : ¬ n < 0x10000) :
    pointUnits n = [(surrogatePair n).1, (surrogatePair n).2] :=
  if_neg large

theorem surrogatePair_surrogates {n : Nat} (large : ¬ n < 0x10000) (valid : n ≤ maxCodePoint) :
    isHighSurrogate (surrogatePair n).1 = true ∧ isLowSurrogate (surrogatePair n).2 = true := by
  rw [isHighSurrogate_iff, isLowSurrogate_iff]
  unfold maxCodePoint at valid
  unfold surrogatePair
  dsimp only
  omega

theorem not_low_of_high {n : Nat} (high : isHighSurrogate n = true) : isLowSurrogate n = false := by
  rw [isHighSurrogate_iff] at high
  rw [Bool.eq_false_iff, ne_eq, isLowSurrogate_iff]
  omega

theorem not_surrogate_of_large {n : Nat} (large : ¬ n < 0x10000) :
    isHighSurrogate n = false ∧ isLowSurrogate n = false := by
  rw [Bool.eq_false_iff, Bool.eq_false_iff, ne_eq, ne_eq, isHighSurrogate_iff, isLowSurrogate_iff]
  omega

/-- A high and a low surrogate together are a character. -/
theorem toNat_joinPair {high low : Nat} (first : isHighSurrogate high = true)
    (second : isLowSurrogate low = true) :
    (Char.ofNat (joinPair high low)).toNat = joinPair high low := by
  rw [isHighSurrogate_iff] at first
  rw [isLowSurrogate_iff] at second
  have bounds : 0x10000 ≤ joinPair high low ∧ joinPair high low ≤ maxCodePoint := by
    unfold joinPair maxCodePoint
    omega
  obtain ⟨notHigh, notLow⟩ := not_surrogate_of_large (Nat.not_lt.mpr bounds.1)
  exact toNat_ofNat bounds.2 notHigh notLow

/-- The units of a code point begin with a low surrogate only if it is one. -/
theorem isLowSurrogate_head {n : Nat} (valid : n ≤ maxCodePoint) (other : isLowSurrogate n = false)
    (rest : List Nat) : ∀ m ∈ (pointUnits n ++ rest).head?, isLowSurrogate m = false := by
  intro m first
  by_cases small : n < 0x10000
  · rw [pointUnits_small small] at first
    cases first
    exact other
  · rw [pointUnits_large small] at first
    cases first
    exact not_low_of_high (surrogatePair_surrogates small valid).1

/-- A code point that is no half of a pair is joined by itself. -/
theorem joined_point {n : Nat} {rest : List Nat} {text : List Char} (valid : n ≤ maxCodePoint)
    (alone : isHighSurrogate n = true → ∀ m ∈ rest.head?, isLowSurrogate m = false)
    (tail : Joined rest text) : Joined (pointUnits n ++ rest)
      ((if isHighSurrogate n || isLowSurrogate n then '\uFFFD' else Char.ofNat n) :: text) := by
  by_cases small : n < 0x10000
  · rw [pointUnits_small small]
    cases surrogate : isHighSurrogate n || isLowSurrogate n with
    | true => exact .lone (Bool.or_eq_true_iff.mp surrogate) alone tail
    | false =>
      obtain ⟨high, low⟩ := Bool.or_eq_false_iff.mp surrogate
      have same := toNat_ofNat valid high low
      have joined := Joined.char (same.symm ▸ small) tail
      rw [same] at joined
      exact joined
  · obtain ⟨high, low⟩ := not_surrogate_of_large small
    obtain ⟨first, second⟩ := surrogatePair_surrogates small valid
    have point : (Char.ofNat n).toNat = joinPair (surrogatePair n).1 (surrogatePair n).2 := by
      rw [toNat_ofNat valid high low, joinPair_surrogatePair (by omega)]
    rw [pointUnits_large small, high, low]
    exact .pair first second point tail

theorem joined_points {points : List Nat} (valid : ∀ n ∈ points, n ≤ maxCodePoint) :
    Joined (points.flatMap pointUnits) (joinSurrogates points) := by
  fun_induction joinSurrogates points with
  | case1 => exact .nil
  | case2 n =>
    exact joined_point (valid n List.mem_cons_self) (fun _ _ none => by cases none) .nil
  | case3 n m rest pair ih =>
    obtain ⟨high, low⟩ := Bool.and_eq_true_iff.mp pair
    have units : pointUnits n = [n] ∧ pointUnits m = [m] := by
      have bounds := And.intro (isHighSurrogate_iff.mp high) (isLowSurrogate_iff.mp low)
      exact ⟨pointUnits_small (by omega), pointUnits_small (by omega)⟩
    rw [List.flatMap_cons, List.flatMap_cons, units.1, units.2]
    exact .pair high low (toNat_joinPair high low) (ih fun k mem => valid k (by simp [mem]))
  | case4 n m rest apart ih =>
    refine joined_point (valid n List.mem_cons_self) (fun high => ?_)
      (ih fun k mem => valid k (List.mem_cons_of_mem n mem))
    rw [high, Bool.true_and, Bool.not_eq_true] at apart
    exact isLowSurrogate_head (valid m (by simp)) apart (rest.flatMap pointUnits)

theorem Joined.unique {units : List Nat} {text text' : List Char} (h : Joined units text)
    (h' : Joined units text') : text = text' := by
  induction h generalizing text' with
  | nil =>
    cases h'
    rfl
  | @char c rest text small tail ih =>
    obtain ⟨high, low⟩ := not_surrogate c
    generalize value : c.toNat = n at h' high low
    cases h' with
    | char _ tail' => rw [ih tail', Char.toNat_inj.mp value]
    | pair first => rw [high] at first; cases first
    | lone surrogate => simp [high, low] at surrogate
  | @pair c high low rest text first second point tail ih =>
    generalize value : high = n at h'
    cases h' with
    | @char d =>
      rw [value, (not_surrogate d).1] at first
      cases first
    | pair _ _ point' tail' =>
      subst value
      rw [ih tail', Char.toNat_inj.mp (point.trans point'.symm)]
    | lone _ alone =>
      have other := alone (value ▸ first) low rfl
      rw [second] at other
      cases other
  | @lone n rest text surrogate alone tail ih =>
    generalize value : n = m at h'
    cases h' with
    | @char d =>
      obtain ⟨high, low⟩ := not_surrogate d
      rw [value] at surrogate
      simp [high, low] at surrogate
    | pair first second =>
      have other := alone (value ▸ first) _ rfl
      rw [second] at other
      cases other
    | lone _ _ tail' => rw [ih tail']

/-! The reading of bodies. -/

theorem hexValue?_lt {c : Char} : (hexValue? c).getD 0 < 16 := by
  have below {high : Char} (h : c ≤ high) : c.toNat ≤ high.toNat := UInt32.le_iff_toNat_le.mp h
  unfold hexValue?
  split
  · rename_i digit
    have : c.toNat ≤ 57 := below digit.2
    simp only [Option.getD_some]
    omega
  · split
    · rename_i lower
      have : c.toNat ≤ 102 := below lower.2
      simp only [Option.getD_some]
      omega
    · split
      · rename_i upper
        have : c.toNat ≤ 70 := below upper.2
        simp only [Option.getD_some]
        omega
      · decide

theorem ofHex_lt (digits : List Char) : ofHex digits < 16 ^ digits.length := by
  induction digits using List.reverseRecOn with
  | nil => decide
  | append_singleton digits c ih =>
    have last : (hexValue? c).getD 0 < 16 := hexValue?_lt
    rw [ofHex, List.foldl_append, List.foldl_cons, List.foldl_nil, ← ofHex, List.length_append,
      List.length_singleton, Nat.pow_succ]
    omega

namespace StringPart

/-- What a part of a body can be: a number without braces has at most four digits. -/
def Narrow (part : StringPart) : Prop :=
  ∀ digits, part = unit digits → digits.length ≤ 4

end StringPart

theorem Numbered.narrow {text rest : List Char} {part : StringPart}
    (h : Numbered text part rest) : part.Narrow := by
  intro digits same
  cases h with
  | braced => cases same
  | four count => cases same; exact count.le
  | two count => cases same; omega

theorem InParts.narrow {body : List Char} {parts : List StringPart} (h : InParts body parts) :
    ∀ part ∈ parts, part.Narrow := by
  induction h with
  | nil => intro part mem; cases mem
  | plain _ _ ih => exact List.forall_mem_cons.mpr ⟨nofun, ih⟩
  | numbered first _ ih => exact List.forall_mem_cons.mpr ⟨first.narrow, ih⟩
  | escaped _ _ ih => exact List.forall_mem_cons.mpr ⟨nofun, ih⟩

theorem toNat_le (c : Char) : c.toNat ≤ maxCodePoint := by
  have valid : c.toNat < 0xD800 ∨ 0xDFFF < c.toNat ∧ c.toNat < 0x110000 := c.valid
  unfold maxCodePoint
  omega

theorem char_units (c : Char) :
    [c.toNat].flatMap pointUnits = utf16Units c ∧ ∀ n ∈ [c.toNat], n ≤ maxCodePoint :=
  ⟨by simp [pointUnits, utf16Units], by simp [toNat_le]⟩

theorem plainEscape_units (c : Char) :
    (plainEscape c).flatMap pointUnits = (StringPart.escaped c).units ∧
      ∀ n ∈ plainEscape c, n ≤ maxCodePoint := by
  unfold StringPart.units
  split
  any_goals contradiction
  case h_12 d n t r b f v zero line same =>
    cases same
    have itself : plainEscape c = [c.toNat] := by
      unfold plainEscape
      rw [if_neg n, if_neg t, if_neg r, if_neg b, if_neg f, if_neg v, if_neg zero, if_neg line]
    rw [itself]
    exact char_units c
  all_goals
    rename_i same
    cases same
    decide

/-- A part that stands for a code point stands for the units of it. -/
theorem units_points {part : StringPart} (narrow : part.Narrow) (valid : ¬ part.Exceeds) :
    part.points.flatMap pointUnits = part.units ∧ ∀ n ∈ part.points, n ≤ maxCodePoint := by
  cases part with
  | plain c => exact char_units c
  | point digits =>
    refine ⟨by simp [StringPart.points, StringPart.units], fun n mem => ?_⟩
    rw [List.mem_singleton.mp mem]
    exact Nat.not_lt.mp fun large => valid ⟨digits, rfl, large⟩
  | unit digits =>
    have small : ofHex digits < 0x10000 := Nat.lt_of_lt_of_le (ofHex_lt digits)
      (Nat.pow_le_pow_right (by decide) (narrow digits rfl))
    refine ⟨by simp [StringPart.points, StringPart.units, pointUnits_small small], fun n mem => ?_⟩
    rw [List.mem_singleton.mp mem]
    exact (Nat.le_of_lt small).trans (by decide)
  | escaped c => exact plainEscape_units c

/-- A body has no value if one of its parts is no code point. -/
theorem readString_exceeds {body : List Char} {parts : List StringPart} (cut : InParts body parts)
    {part : StringPart} (mem : part ∈ parts) (exceeds : part.Exceeds) (site : Site) :
    ∃ fault, readString site body = .error fault := by
  obtain ⟨digits, rfl, large⟩ := exceeds
  have point : ofHex digits ∈ codePoints body := by
    rw [codePoints_inParts cut]
    exact List.mem_flatMap.mpr ⟨_, mem, List.mem_singleton_self _⟩
  unfold readString
  cases bad : firstBadPoint? body with
  | some n => exact ⟨_, rfl⟩
  | none =>
    have := List.find?_eq_none.mp bad _ point
    simp [large] at this

/-- The text of a body whose parts are all code points. -/
theorem readString_inParts {body : List Char} {parts : List StringPart} (cut : InParts body parts)
    (valid : ∀ part ∈ parts, ¬ part.Exceeds) (site : Site) :
    ∃ text, readString site body = .ok (String.ofList text) ∧
      Joined (parts.flatMap StringPart.units) text := by
  have narrow := cut.narrow
  have points : ∀ n ∈ parts.flatMap StringPart.points, n ≤ maxCodePoint := by
    intro n mem
    obtain ⟨part, here, inside⟩ := List.mem_flatMap.mp mem
    exact (units_points (narrow part here) (valid part here)).2 n inside
  have units : (parts.flatMap StringPart.points).flatMap pointUnits =
      parts.flatMap StringPart.units := by
    rw [List.flatMap_assoc]
    exact List.flatMap_congr fun part here => (units_points (narrow part here) (valid part here)).1
  exact ⟨_, readString_eq (codePoints_inParts cut) points, units ▸ joined_points points⟩

/-- A string that holds no surrogate is UTF-8. -/
def WellFormed (text : String) : Prop :=
  (∀ c ∈ text.toList, (codePoint c).isSurrogate = false) ∧
    encodePoints (text.toList.map codePoint) = .ok (encodeUtf8 text.toList)

theorem wellFormed (text : String) : WellFormed text :=
  ⟨fun c _ => isSurrogate_codePoint c, encodePoints_eq_ok.mpr ⟨_, rfl, rfl⟩⟩

/-- A string body is cut into parts in one way. Its text is that of the code units its parts stand
for, and it has none only if a part exceeds the code points. So no key or value of a literal holds
a surrogate, and all of them can be written. -/
theorem readString_joined (site : Site) {body : List Char} (inside : StringBody body) :
    (∃ parts, InParts body parts ∧ (∀ others, InParts body others → others = parts) ∧
      ((∃ fault, readString site body = .error fault) ↔ ∃ part ∈ parts, part.Exceeds) ∧
      ∀ text, readString site body = .ok text ↔
        (∀ part ∈ parts, ¬ part.Exceeds) ∧ Joined (parts.flatMap StringPart.units) text.toList) ∧
    ∀ name text logs entries, evaluate name text = (logs, .ok entries) →
      ∀ entry ∈ entries, WellFormed entry.1 ∧ WellFormed entry.2 := by
  refine ⟨?_, fun _ _ _ _ _ entry _ => ⟨wellFormed entry.1, wellFormed entry.2⟩⟩
  obtain ⟨parts, cut⟩ := exists_inParts inside
  refine ⟨parts, cut, fun others cut' => cut'.unique cut, ?_, fun text => ?_⟩
  · constructor
    · rintro ⟨fault, failed⟩
      by_contra none
      obtain ⟨text, found, -⟩ := readString_inParts cut
        (fun part mem exceeds => none ⟨part, mem, exceeds⟩) site
      rw [failed] at found
      cases found
    · rintro ⟨part, mem, exceeds⟩
      exact readString_exceeds cut mem exceeds site
  · constructor
    · intro found
      have valid : ∀ part ∈ parts, ¬ part.Exceeds := by
        intro part mem exceeds
        obtain ⟨fault, failed⟩ := readString_exceeds cut mem exceeds site
        rw [found] at failed
        cases failed
      obtain ⟨chars, found', joined⟩ := readString_inParts cut valid site
      cases found.symm.trans found'
      exact ⟨valid, by simpa using joined⟩
    · rintro ⟨valid, joined⟩
      obtain ⟨chars, found, joined'⟩ := readString_inParts cut valid site
      rw [found, joined'.unique joined, String.ofList_toList]

/-- Two halves of a character by different escapes, half a character, and a whole one. -/
def mixedBody : List Char := "\\ud83d\\u\x7bde00\x7d\\ud800😀\\q".toList

def mixedParts : List StringPart :=
  [.unit ['d', '8', '3', 'd'], .point ['d', 'e', '0', '0'], .unit ['d', '8', '0', '0'],
    .plain '😀', .escaped 'q']

theorem inParts_mixedBody : InParts mixedBody mixedParts := by
  refine .numbered (@Numbered.four ['d', '8', '3', 'd'] _ rfl (List.all_eq_true.mp rfl)) ?_
  refine .numbered
    (@Numbered.braced ['d', 'e', '0', '0'] _ (List.cons_ne_nil _ _) (List.all_eq_true.mp rfl)) ?_
  refine .numbered (@Numbered.four ['d', '8', '0', '0'] _ rfl (List.all_eq_true.mp rfl)) ?_
  refine .plain (by decide) (.escaped ?_ .nil)
  intro part more first
  cases first

theorem readString_joined_mixedBody :
    StringBody mixedBody ∧ readString .string mixedBody = .ok "😀\uFFFD😀q" := by
  have inside : StringBody mixedBody :=
    stringBody_of_split (show splitString? '"' (mixedBody ++ ['"']) = some (mixedBody, []) by decide)
  obtain ⟨⟨parts, -, one, -, value⟩, -⟩ := readString_joined .string inside
  obtain rfl := one _ inParts_mixedBody
  refine ⟨inside, (value _).mpr ⟨?_, ?_⟩⟩
  · rintro part mem ⟨digits, rfl, large⟩
    obtain rfl : digits = ['d', 'e', '0', '0'] := by simpa [mixedParts] using mem
    exact absurd large (by decide)
  · have units : mixedParts.flatMap StringPart.units =
        [0xD83D, 0xDE00, 0xD800, 0xD83D, 0xDE00, 0x71] := by decide
    rw [units]
    refine .pair rfl rfl (by decide) (.lone (.inl rfl) ?_ (.pair rfl rfl (by decide) ?_))
    · intro _ m next
      cases next
      rfl
    · exact @Joined.char 'q' _ _ (by decide) .nil

end ThemeSheet.Literal
