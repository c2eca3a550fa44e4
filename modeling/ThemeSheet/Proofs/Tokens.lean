import ThemeSheet.Literal.Node

namespace ThemeSheet

open Text Literal

/-- A character that ends every number and keyword before it. -/
def isStop (c : Char) : Bool :=
  isBlank c || c == ',' || c == ':' || c == '}' || c == ']'

/-- A text before which a token can end. -/
def Stops (text : List Char) : Prop :=
  ∀ c ∈ text.head?, isStop c = true

theorem stops_nil : Stops [] := by
  intro c h
  cases h

theorem stops_cons {c : Char} {rest : List Char} : Stops (c :: rest) ↔ isStop c = true := by
  simp [Stops]

theorem stops_append {a b : List Char} (ha : Stops a) (hb : Stops b) : Stops (a ++ b) := by
  cases a with
  | nil => exact hb
  | cons c a => exact stops_cons.mpr (stops_cons.mp ha)

def Blanks (text : List Char) : Prop :=
  ∀ c ∈ text, isBlank c = true

instance (text : List Char) : Decidable (Blanks text) :=
  decidable_of_iff (text.all isBlank = true) List.all_eq_true

theorem blanks_nil : Blanks [] := by
  intro c h
  cases h

theorem stops_blanks {text : List Char} (h : Blanks text) : Stops text := by
  intro c hc
  simp [isStop, h c (List.mem_of_head? hc)]

/-- The characters that stop are few. -/
theorem isStop_iff {c : Char} : isStop c = true ↔
    c ∈ [' ', '\t', '\x0c', '\r', '\n', ',', ':', '}', ']'] := by
  simp [isStop, isBlank, or_assoc]

/-- What holds of each of these characters holds of every one that stops. -/
theorem of_isStop (holds : Char → Bool) {c : Char} (h : isStop c = true)
    (each : [' ', '\t', '\x0c', '\r', '\n', ',', ':', '}', ']'].all holds = true) :
    holds c = true :=
  List.all_eq_true.mp each c (isStop_iff.mp h)

/-- What is left of a text behind some characters of a class. -/
def Passes (holds : Char → Bool) (text rest : List Char) : Prop :=
  ∃ start, text = start ++ rest ∧ ∀ c ∈ start, holds c = true

theorem Passes.refl {holds : Char → Bool} (text : List Char) : Passes holds text text :=
  ⟨[], rfl, by simp⟩

theorem Passes.cons {holds : Char → Bool} {c : Char} {text rest : List Char}
    (h : holds c = true) (passes : Passes holds text rest) : Passes holds (c :: text) rest := by
  obtain ⟨start, rfl, all⟩ := passes
  exact ⟨c :: start, rfl, by simpa [h] using all⟩

theorem Passes.trans {holds : Char → Bool} {text middle rest : List Char}
    (first : Passes holds text middle) (second : Passes holds middle rest) :
    Passes holds text rest := by
  obtain ⟨start, rfl, all⟩ := first
  obtain ⟨start', rfl, all'⟩ := second
  refine ⟨start ++ start', by simp, fun c h => ?_⟩
  rcases List.mem_append.mp h with h | h
  · exact all c h
  · exact all' c h

namespace NumberLiteral

variable {more : List Char}

/-- The characters that can begin a number. -/
def begins (c : Char) : Bool :=
  c == '-' || c == '+' || c == '.' || isDecimal c

/-- The characters that can stand in a number. -/
def isNumeric (c : Char) : Bool :=
  begins c || isHex c || (radixBase? c).isSome

theorem isNumeric_of_decimal {c : Char} {d : Nat} (h : decimalValue? c = some d) :
    isNumeric c = true := by
  simp [isNumeric, begins, isDecimal, h]

theorem isNumeric_of_radix {base d : Nat} {c : Char} (h : radixDigit? base c = some d) :
    isNumeric c = true := by
  have := (Option.filter_eq_some_iff.mp h).1
  simp [isNumeric, isHex, this]

/-- A text that no number goes on into. -/
def Halts (text : List Char) : Prop :=
  ∀ c ∈ text.head?, isNumeric c = false

theorem Halts.of_stops {text : List Char} (h : Stops text) : Halts text := fun c hc => by
  simpa using of_isStop (fun c => !isNumeric c) (h c hc) (by decide +kernel)

theorem Halts.ne {c : Char} {rest : List Char} (halts : Halts (c :: rest)) {d : Char}
    (numeric : isNumeric d = true) : c ≠ d := by
  rintro rfl
  rw [halts c rfl] at numeric
  cases numeric

theorem spanDigits_append {value? : Char → Option Nat} (text : List Char)
    (stop : ∀ c ∈ more.head?, value? c = none) :
    spanDigits value? (text ++ more) =
      ((spanDigits value? text).1, (spanDigits value? text).2 ++ more) := by
  induction text with
  | nil =>
    cases more with
    | nil => rfl
    | cons c rest => simp [spanDigits, stop c rfl]
  | cons c text ih =>
    rw [List.cons_append, spanDigits, spanDigits]
    cases value? c with
    | none => rfl
    | some d => simp [ih]

theorem decimal_stop (halts : Halts more) : ∀ c ∈ more.head?, decimalValue? c = none := by
  intro c h
  cases found : decimalValue? c with
  | none => rfl
  | some d =>
    have := halts c h
    rw [isNumeric_of_decimal found] at this
    cases this

theorem radix_stop (halts : Halts more) (base : Nat) :
    ∀ c ∈ more.head?, radixDigit? base c = none := by
  intro c h
  cases found : radixDigit? base c with
  | none => rfl
  | some d =>
    have := halts c h
    rw [isNumeric_of_radix found] at this
    cases this

theorem sign_append (text : List Char) (halts : Halts more) :
    sign (text ++ more) = ((sign text).1, (sign text).2 ++ more) := by
  cases text with
  | nil =>
    cases more with
    | nil => rfl
    | cons c rest =>
      have := And.intro (halts.ne (d := '-') (by decide)) (halts.ne (d := '+') (by decide))
      simp only [List.nil_append, sign]
      split
      · simp_all
      · simp_all
      · rfl
  | cons c text =>
    simp only [sign, List.cons_append]
    split <;> simp_all

theorem radix?_append (text : List Char) (halts : Halts more) :
    radix? (text ++ more) = (radix? text).map fun (m, rest) => (m, rest ++ more) := by
  match text with
  | [] =>
    cases more with
    | nil => rfl
    | cons c rest =>
      have := halts.ne (d := '0') (by decide)
      simp [radix?, this]
  | [c] =>
    cases more with
    | nil => simp [radix?]
    | cons d rest =>
      have : radixBase? d = none := by
        have := halts d rfl
        simp only [isNumeric, Bool.or_eq_false_iff] at this
        simpa using this.2
      by_cases h : c = '0' <;> simp [radix?, h, this]
  | c :: mark :: rest =>
    by_cases h : c = '0'
    · subst h
      simp only [List.cons_append, radix?]
      cases radixBase? mark with
      | none => rfl
      | some base =>
        simp only [spanDigits_append rest (radix_stop halts base)]
        split <;> rfl
    · simp [radix?, h]

theorem exponent_append (text : List Char) (halts : Halts more) :
    exponent (text ++ more) = ((exponent text).1, (exponent text).2 ++ more) := by
  cases text with
  | nil =>
    cases more with
    | nil => rfl
    | cons c rest =>
      have := And.intro (halts.ne (d := 'e') (by decide)) (halts.ne (d := 'E') (by decide))
      simp [exponent, this]
  | cons mark text =>
    simp only [exponent, List.cons_append, sign_append text halts,
      spanDigits_append _ (decimal_stop halts)]
    split <;> rfl

theorem fraction_append (text : List Char) (halts : Halts more) :
    fraction (text ++ more) = ((fraction text).1, (fraction text).2 ++ more) := by
  cases text with
  | nil =>
    cases more with
    | nil => rfl
    | cons c rest =>
      have := halts.ne (d := '.') (by decide)
      simp [fraction, this]
  | cons c text =>
    by_cases h : c = '.'
    · subst h
      exact spanDigits_append text (decimal_stop halts)
    · simp [fraction, h]

theorem decimal?_append (text : List Char) (halts : Halts more) :
    decimal? (text ++ more) = (decimal? text).map fun (m, rest) => (m, rest ++ more) := by
  simp only [decimal?, spanDigits_append text (decimal_stop halts), fraction_append _ halts,
    exponent_append _ halts]
  split <;> rfl

theorem scan?_append (text : List Char) (halts : Halts more) :
    scan? (text ++ more) = (scan? text).map fun (literal, rest) => (literal, rest ++ more) := by
  simp only [scan?, sign_append text halts, radix?_append _ halts, decimal?_append _ halts]
  cases radix? (sign text).2 with
  | none => cases decimal? (sign text).2 <;> rfl
  | some => rfl

theorem spanDigits_reads {value? : Char → Option Nat}
    (numeric : ∀ {c d}, value? c = some d → isNumeric c = true) (text : List Char) :
    Passes isNumeric text (spanDigits value? text).2 := by
  induction text with
  | nil => exact .refl _
  | cons c text ih =>
    rw [spanDigits]
    cases h : value? c with
    | none => exact .refl _
    | some d => exact .cons (numeric h) ih

theorem sign_reads (text : List Char) : Passes isNumeric text (sign text).2 := by
  unfold sign
  split
  · exact .cons (by decide) (.refl _)
  · exact .cons (by decide) (.refl _)
  · exact .refl _

theorem radix?_reads {text rest : List Char} {m : Magnitude} (h : radix? text = some (m, rest)) :
    Passes isNumeric text rest := by
  unfold radix? at h
  split at h
  · split at h
    · cases h
    · rename_i mark _ _ base found
      dsimp only at h
      split at h
      · cases h
      · cases h
        have marked : isNumeric mark = true := by simp [isNumeric, found]
        exact .cons (by decide) (.cons marked (spanDigits_reads isNumeric_of_radix _))
  · cases h

theorem exponent_reads (text : List Char) : Passes isNumeric text (exponent text).2 := by
  cases text with
  | nil => exact .refl _
  | cons mark rest =>
    rw [exponent]
    dsimp only
    split
    · rename_i power
      have marked : isNumeric mark = true := by
        rcases power.1 with rfl | rfl <;> decide
      exact .cons marked ((sign_reads _).trans (spanDigits_reads isNumeric_of_decimal _))
    · exact .refl _

theorem fraction_reads (text : List Char) : Passes isNumeric text (fraction text).2 := by
  unfold fraction
  split
  · exact .cons (by decide) (spanDigits_reads isNumeric_of_decimal _)
  · exact .refl _

theorem decimal?_reads {text rest : List Char} {m : Magnitude}
    (h : decimal? text = some (m, rest)) : Passes isNumeric text rest := by
  rw [decimal?] at h
  dsimp only at h
  split at h
  · cases h
  · cases h
    exact (spanDigits_reads isNumeric_of_decimal _).trans
      ((fraction_reads _).trans (exponent_reads _))

theorem scan?_reads {text rest : List Char} {literal : NumberLiteral}
    (h : scan? text = some (literal, rest)) : Passes isNumeric text rest := by
  obtain ⟨⟨m, rest'⟩, found, eq⟩ := Option.map_eq_some_iff.mp h
  cases eq
  refine (sign_reads text).trans ?_
  rcases Option.or_eq_some_iff.mp found with h | ⟨-, h⟩
  · exact radix?_reads h
  · exact decimal?_reads h

theorem begins_of_decimal? {c : Char} {rest : List Char} (h : (decimal? (c :: rest)).isSome) :
    c = '.' ∨ isDecimal c = true := by
  by_cases point : c = '.'
  · exact .inl point
  · by_cases digit : decimalValue? c = none
    · simp [decimal?, spanDigits, digit, fraction, point] at h
    · exact .inr (Option.isSome_iff_ne_none.mpr digit)

theorem begins_of_scan? {c : Char} {rest : List Char} (h : (scan? (c :: rest)).isSome) :
    begins c = true := by
  by_cases minus : c = '-'
  · simp [begins, minus]
  by_cases plus : c = '+'
  · simp [begins, plus]
  have unsigned : sign (c :: rest) = (false, c :: rest) := by simp [sign, minus, plus]
  rw [scan?, unsigned] at h
  simp only [Option.isSome_map] at h
  by_cases zero : c = '0'
  · subst zero
    decide
  have : radix? (c :: rest) = none := by simp [radix?, zero]
  rw [this, Option.none_or] at h
  rcases begins_of_decimal? h with rfl | digit
  · decide
  · simp [begins, digit]

end NumberLiteral

namespace Literal

/-! Tokens. -/

theorem splitString?_cons {quote c : Char} (plain : c ≠ '\\') (rest : List Char) :
    splitString? quote (c :: rest) =
      if c = quote then some ([], rest)
      else if c = '\n' ∧ quote ≠ backtick then none
      else (splitString? quote rest).map fun (body, after) => (c :: body, after) := by
  rw [splitString?]
  · intro h
    exact absurd h plain
  · intro d tail h
    exact absurd h plain

/-- A character of a string that begins no escape. -/
theorem ne_backslash {c : Char} {rest : List Char} (alone : c = '\\' → rest = [] → False)
    (pair : ∀ (d : Char) (tail : List Char), c = '\\' → rest = d :: tail → False) :
    c ≠ '\\' := by
  rintro rfl
  cases rest with
  | nil => exact alone rfl rfl
  | cons d tail => exact pair d tail rfl rfl

theorem afterString_cons {quote c : Char} (plain : c ≠ '\\') (rest : List Char) :
    afterString quote (c :: rest) =
      if c = quote then rest
      else if c = '\n' ∧ quote ≠ backtick then c :: rest
      else afterString quote rest := by
  rw [afterString]
  · intro h
    exact absurd h plain
  · intro d tail h
    exact absurd h plain

/-- A string that is closed stays so whatever follows. -/
theorem splitString?_more {quote : Char} {text body after : List Char}
    (h : splitString? quote text = some (body, after)) (more : List Char) :
    splitString? quote (text ++ more) = some (body, after ++ more) := by
  fun_induction splitString? quote text generalizing body with
  | case1 => cases h
  | case2 => cases h
  | case3 c rest ih =>
    obtain ⟨⟨body', after'⟩, found, eq⟩ := Option.map_eq_some_iff.mp h
    cases eq
    simp [splitString?, ih found]
  | case4 rest alone pair =>
    cases h
    rw [List.cons_append, splitString?_cons (ne_backslash alone pair), if_pos rfl]
  | case5 => cases h
  | case6 c rest alone pair other line ih =>
    obtain ⟨⟨body', after'⟩, found, eq⟩ := Option.map_eq_some_iff.mp h
    cases eq
    rw [List.cons_append, splitString?_cons (ne_backslash alone pair), if_neg other, if_neg line,
      ih found]
    rfl

namespace Token

theorem text_string (body : List Char) : (string body).text = '"' :: body ++ ['"'] := rfl

theorem text_number (literal : NumberLiteral) (text : List Char) :
    (number literal text).text = text := rfl

theorem string?_more {text after : List Char} {token : Token}
    (h : string? text = some (token, after)) (more : List Char) :
    string? (text ++ more) = some (token, after ++ more) := by
  unfold string? at h
  split at h
  · obtain ⟨⟨body, after'⟩, found, eq⟩ := Option.map_eq_some_iff.mp h
    cases eq
    simp [string?, splitString?_more found more]
  · cases h

theorem number?_more {text after : List Char} {token : Token}
    (h : number? text = some (token, after)) {more : List Char}
    (halts : NumberLiteral.Halts more) :
    number? (text ++ more) = some (token, after ++ more) := by
  obtain ⟨⟨literal, rest⟩, found, eq⟩ := Option.map_eq_some_iff.mp h
  obtain ⟨rfl, rfl⟩ := Prod.mk.inj eq
  have longer := NumberLiteral.scan?_append text halts
  rw [found] at longer
  obtain ⟨start, rfl, -⟩ := NumberLiteral.scan?_reads found
  rw [number?, longer]
  simp

theorem number?_text {text after : List Char} {token : Token}
    (h : number? text = some (token, after)) :
    text = token.text ++ after ∧ ∀ c ∈ token.text, NumberLiteral.isNumeric c = true := by
  obtain ⟨⟨literal, rest⟩, found, eq⟩ := Option.map_eq_some_iff.mp h
  obtain ⟨rfl, rfl⟩ := Prod.mk.inj eq
  obtain ⟨start, rfl, numeric⟩ := NumberLiteral.scan?_reads found
  rw [text_number, List.length_append, Nat.add_sub_cancel, List.take_left]
  exact ⟨rfl, numeric⟩

theorem string?_text {text after : List Char} {token : Token}
    (h : string? text = some (token, after)) : text = token.text ++ after := by
  unfold string? at h
  split at h
  · obtain ⟨⟨body, after'⟩, found, eq⟩ := Option.map_eq_some_iff.mp h
    cases eq
    simp [text_string, splitString?_append found]
  · cases h

/-- Fixed tokens that begin alike are the same. -/
theorem fixed_head : ∀ a ∈ fixed, ∀ b ∈ fixed, a.text.head? = b.text.head? → a = b := by
  decide

theorem isPrefixOf?_cons (c d : Char) (start rest : List Char) :
    (c :: start).isPrefixOf? (d :: rest) = if c = d then start.isPrefixOf? rest else none := by
  change (if (c == d) = true then _ else _) = _
  simp only [beq_iff_eq]

theorem isPrefixOf?_self (start rest : List Char) :
    start.isPrefixOf? (start ++ rest) = some rest := by
  induction start with
  | nil => rfl
  | cons c start ih => rw [List.cons_append, isPrefixOf?_cons, if_pos rfl, ih]

theorem fixed?_eq_some {text after : List Char} {token : Token} :
    fixed? text = some (token, after) ↔ token ∈ fixed ∧ text = token.text ++ after := by
  have sound {token : Token} {after : List Char} (h : fixed? text = some (token, after)) :
      token ∈ fixed ∧ text = token.text ++ after := by
    obtain ⟨candidate, mem, h⟩ := List.exists_of_findSome?_eq_some h
    obtain ⟨rest, found, eq⟩ := Option.map_eq_some_iff.mp h
    cases eq
    exact ⟨mem, isPrefixOf?_append found⟩
  constructor
  · exact sound
  · rintro ⟨mem, same⟩
    cases found : fixed? text with
    | none =>
      have := List.findSome?_eq_none_iff.mp found token mem
      rw [same, isPrefixOf?_self] at this
      cases this
    | some answer =>
      obtain ⟨token', after'⟩ := answer
      obtain ⟨mem', same'⟩ := sound found
      have heads : token'.text.head? = token.text.head? := by
        have first : ∀ token ∈ fixed, ∃ c rest, token.text = c :: rest := by
          intro token mem
          exact List.exists_cons_of_length_pos (fixed_text_pos token mem)
        obtain ⟨c, rest, hc⟩ := first token mem
        obtain ⟨d, tail, hd⟩ := first token' mem'
        rw [same, hc, hd] at same'
        rw [hc, hd, List.head?_cons, List.head?_cons, (List.cons.inj same').1]
      obtain rfl := fixed_head token' mem' token mem heads
      rw [same] at same'
      rw [List.append_cancel_left same']

/-- No fixed token begins like a number or a string. -/
theorem fixed_begins : ∀ token ∈ fixed,
    token.text.head?.all (fun c => !NumberLiteral.begins c && c != '"') = true := by
  decide

theorem fixed?_none {c : Char} (h : NumberLiteral.begins c = true ∨ c = '"') (rest : List Char) :
    fixed? (c :: rest) = none := by
  apply Option.eq_none_iff_forall_not_mem.mpr
  rintro ⟨token, after⟩ found
  obtain ⟨mem, same⟩ := fixed?_eq_some.mp found
  have := fixed_begins token mem
  cases htext : token.text with
  | nil =>
    have := fixed_text_pos token mem
    simp [htext] at this
  | cons d tail =>
    rw [htext] at same this
    obtain ⟨rfl, -⟩ := List.cons.inj same
    rcases h with h | rfl <;> simp_all

/-- A token stays the one at the front whatever follows, if that lets a token end. -/
theorem scan?_more {text after : List Char} {token : Token}
    (h : scan? text = some (token, after)) {more : List Char} (stops : Stops more) :
    scan? (text ++ more) = some (token, after ++ more) := by
  rcases Option.or_eq_some_iff.mp h with found | ⟨-, rest⟩
  · obtain ⟨mem, rfl⟩ := fixed?_eq_some.mp found
    have := fixed?_eq_some.mpr ⟨mem, (List.append_assoc token.text after more)⟩
    rw [scan?, this]
    rfl
  · have first : ∃ c tail, text = c :: tail ∧ (NumberLiteral.begins c = true ∨ c = '"') := by
      cases text with
      | nil =>
        have := scan?_length_lt h
        simp at this
      | cons c tail =>
        refine ⟨c, tail, rfl, ?_⟩
        rcases Option.or_eq_some_iff.mp rest with found | ⟨-, found⟩
        · by_cases quote : c = '"'
          · exact .inr quote
          · simp [string?, quote] at found
        · obtain ⟨answer, scanned, -⟩ := Option.map_eq_some_iff.mp found
          exact .inl (NumberLiteral.begins_of_scan? (Option.isSome_of_eq_some scanned))
    obtain ⟨c, tail, rfl, begins⟩ := first
    rw [scan?, List.cons_append, fixed?_none begins, Option.none_or, ← List.cons_append]
    rcases Option.or_eq_some_iff.mp rest with found | ⟨-, found⟩
    · rw [string?_more found more]
      rfl
    · have not_quote : c ≠ '"' := by
        rintro rfl
        obtain ⟨answer, scanned, -⟩ := Option.map_eq_some_iff.mp found
        exact absurd (NumberLiteral.begins_of_scan? (Option.isSome_of_eq_some scanned)) (by decide)
      have no_string : string? ((c :: tail) ++ more) = Option.none := by
        simp [string?, not_quote]
      rw [no_string, Option.none_or, number?_more found (.of_stops stops)]

theorem scan?_text {text after : List Char} {token : Token}
    (h : scan? text = some (token, after)) : text = token.text ++ after := by
  rcases Option.or_eq_some_iff.mp h with h | ⟨-, h⟩
  · exact (fixed?_eq_some.mp h).2
  · rcases Option.or_eq_some_iff.mp h with h | ⟨-, h⟩
    · exact string?_text h
    · exact (number?_text h).1

end Token

/-- The tokens that a whole text is, without their positions. -/
inductive Lexes : List Char → List Token → Prop
  | nil : Lexes [] []
  | blank {c rest tokens} (blank : isBlank c = true) (tail : Lexes rest tokens) :
    Lexes (c :: rest) tokens
  | token {c rest token after tokens} (dark : isBlank c = false)
    (first : Token.scan? (c :: rest) = some (token, after)) (tail : Lexes after tokens) :
    Lexes (c :: rest) (token :: tokens)

theorem Lexes.append {a b : List Char} {ts us : List Token} (ha : Lexes a ts) (hb : Lexes b us)
    (stops : Stops b) : Lexes (a ++ b) (ts ++ us) := by
  induction ha with
  | nil => exact hb
  | blank blank _ ih => exact .blank blank ih
  | token dark first _ ih => exact .token dark (Token.scan?_more first stops) ih

theorem Lexes.blanks {blanks text : List Char} {tokens : List Token} (h : Blanks blanks)
    (tail : Lexes text tokens) : Lexes (blanks ++ text) tokens := by
  induction blanks with
  | nil => exact tail
  | cons c blanks ih =>
    exact .blank (h c List.mem_cons_self) (ih fun d hd => h d (List.mem_cons_of_mem c hd))

theorem Lexes.of_blanks {text : List Char} (h : Blanks text) : Lexes text [] := by
  simpa using Lexes.blanks h .nil

theorem Lexes.of_string {text body after : List Char} {tokens : List Token}
    (h : splitString? '"' text = some (body, after)) (tail : Lexes after tokens) :
    Lexes ('"' :: text) (.string body :: tokens) := by
  refine .token (by decide) ?_ tail
  rw [Token.scan?, Token.fixed?_none (.inr rfl), Option.none_or, Token.string?, h]
  rfl

theorem Lexes.of_fixed (token : Token) (h : token ∈ Token.fixed) {after : List Char}
    {tokens : List Token} (tail : Lexes after tokens) :
    Lexes (token.text ++ after) (token :: tokens) := by
  have dark : ∀ token ∈ Token.fixed, token.text.head?.all (!isBlank ·) = true := by decide
  have := dark token h
  have pos := Token.fixed_text_pos token h
  have found := Token.fixed?_eq_some.mpr ⟨h, (rfl : token.text ++ after = token.text ++ after)⟩
  cases htext : token.text with
  | nil => simp [htext] at pos
  | cons c rest =>
    rw [htext] at this found
    refine .token (by simpa using this) ?_ tail
    change Token.scan? (c :: rest ++ after) = some (token, after)
    rw [Token.scan?, found]
    rfl

theorem tokensAt_of_lexes {text : List Char} {tokens : List Token} (h : Lexes text tokens)
    (position : Position) :
    ∃ placed, tokensAt position text = (placed, .finished) ∧
      placed.map PlacedToken.token = tokens := by
  induction h generalizing position with
  | nil => exact ⟨[], by rw [tokensAt], rfl⟩
  | blank blank _ ih =>
    obtain ⟨placed, found, same⟩ := ih (position.step _)
    refine ⟨placed, ?_, same⟩
    rw [tokensAt, if_pos blank, found]
  | @token c rest token after tokens dark first _ ih =>
    obtain ⟨placed, found, same⟩ := ih (position.after token.text)
    refine ⟨⟨token, position⟩ :: placed, ?_, by simp [same]⟩
    rw [tokensAt, if_neg (by simp [dark])]
    split
    · simp_all
    · rename_i h
      rw [first] at h
      cases h
      rw [found]

theorem lexes_of_tokensAt {position : Position} {text : List Char} {placed : List PlacedToken}
    (h : tokensAt position text = (placed, .finished)) :
    Lexes text (placed.map PlacedToken.token) := by
  fun_induction tokensAt position text generalizing placed with
  | case1 =>
    cases h
    exact .nil
  | case2 position c rest blank ih => exact .blank blank (ih h)
  | case3 => cases h
  | case4 position c rest dark token after first _ tokens textEnd found ih =>
    cases h
    exact .token (by simpa using dark) first (ih found)

/-- The tokens of a text, found by running. -/
theorem lexes_of_tokens {text : List Char} (found : List Token)
    (h : (tokens text).2 = .finished) (same : (tokens text).1.map PlacedToken.token = found) :
    Lexes text found := by
  rw [← same]
  exact lexes_of_tokensAt (Prod.ext rfl h)

/-- A text is read to its end if the automaton accepts its tokens. -/
theorem parse_of_lexes {text : List Char} {tokens : List Token} {members : List Member}
    (h : Lexes text tokens)
    (run : tokens.foldlM State.next? .start = some ⟨[], .nothing members⟩) :
    parse text = .ok members := by
  have accepts (placed : List PlacedToken) (state : State) (last : Position)
      (run : (placed.map PlacedToken.token).foldlM State.next? state =
        some ⟨[], .nothing members⟩) : parseFrom .finished state last placed = .ok members := by
    induction placed generalizing state last with
    | nil =>
      cases run
      rfl
    | cons first rest ih =>
      rw [List.map_cons, List.foldlM_cons] at run
      obtain ⟨next, hn, run⟩ := Option.bind_eq_some_iff.mp run
      rw [parseFrom, hn]
      exact ih next first.position run
  obtain ⟨placed, found, same⟩ := tokensAt_of_lexes h .start
  rw [parse, Literal.tokens, found]
  exact accepts placed .start .start (same ▸ run)

end Literal
end ThemeSheet
