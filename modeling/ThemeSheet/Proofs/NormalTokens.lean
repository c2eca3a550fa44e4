import ThemeSheet.Proofs.NormalPieces

/-! The steps towards a normal literal, taken on the tokens of data. -/

namespace ThemeSheet

open Text

namespace NumberLiteral

/-- Digits behind a sign, to the end. -/
def EndsSigned (text : List Char) : Prop :=
  ∃ front sign digits, text = front ++ sign :: digits ∧ (sign = '+' ∨ sign = '-') ∧ digits ≠ [] ∧
    ∀ c ∈ digits, isDecimal c = true

/-- No letter stands behind a sign. -/
def SignsApart (text : List Char) : Prop :=
  text.IsChain fun sign c => sign = '+' ∨ sign = '-' → isNameStart c = false

theorem signsApart_of_none {text : List Char} (h : ∀ c ∈ text, c ≠ '+' ∧ c ≠ '-') :
    SignsApart text := by
  induction text with
  | nil => exact List.isChain_nil
  | cons c text ih =>
    obtain ⟨plus, minus⟩ := h c List.mem_cons_self
    exact List.isChain_cons.mpr ⟨fun _ _ sign => absurd sign (not_or.mpr ⟨plus, minus⟩),
      ih fun d mem => h d (List.mem_cons_of_mem c mem)⟩

theorem Signed.apart {negative : Bool} {signs text : List Char} (h : Signed negative signs)
    (first : ∀ c ∈ text.head?, isNameStart c = false) (rest : SignsApart text) :
    SignsApart (signs ++ text) := by
  cases h with
  | none => exact rest
  | plus => exact List.isChain_cons.mpr ⟨fun c mem _ => first c mem, rest⟩
  | minus => exact List.isChain_cons.mpr ⟨fun c mem _ => first c mem, rest⟩

theorem isNameStart_of_isMantissa {c : Char} (h : isMantissa c = true) : isNameStart c = false := by
  simp only [isMantissa, Bool.or_eq_true, beq_iff_eq] at h
  rcases h with rfl | digit
  · decide
  · exact not_isNameStart_of_isDecimal digit

theorem noSign_of_isMantissa {c : Char} (h : isMantissa c = true) : c ≠ '+' ∧ c ≠ '-' := by
  constructor <;> rintro rfl <;> exact absurd h (by decide)

theorem Digits.isSome {value? : Char → Option Nat} {digits : List Nat} {run : List Char}
    (h : Digits value? digits run) : ∀ c ∈ run, (value? c).isSome = true := by
  intro c mem
  have value : value? c ∈ digits.map some := h ▸ List.mem_map_of_mem mem
  obtain ⟨d, -, eq⟩ := List.mem_map.mp value
  rw [← eq]
  rfl

theorem Power.signsApart {power : Int} {text : List Char} (h : Power power text) :
    SignsApart text := by
  cases h with
  | none => exact List.isChain_nil
  | @some mark _ sign _ run letter signed digits _ =>
    have other : ¬ (mark = '+' ∨ mark = '-') := by
      rcases letter with rfl | rfl <;> decide
    have apart : SignsApart (sign ++ run) :=
      signed.apart (fun c mem => isNameStart_of_isMantissa
          (digits.isMantissa c (List.mem_of_head? mem)))
        (signsApart_of_none fun c mem => noSign_of_isMantissa (digits.isMantissa c mem))
    exact List.isChain_cons.mpr ⟨fun _ _ sign => absurd sign other, apart⟩

theorem Spelled.signsApart {literal : NumberLiteral} {text : List Char} (h : literal.Spelled text) :
    SignsApart text := by
  cases h with
  | @radix _ _ mark base _ run signed marked digits _ =>
    refine signed.apart (by rintro c ⟨⟩; decide) (signsApart_of_none fun c mem => ?_)
    rcases List.mem_cons.mp mem with rfl | mem
    · decide
    · rcases List.mem_cons.mp mem with rfl | mem
      · constructor <;> rintro rfl <;> cases marked
      · have value := digits.isSome c mem
        have none (sign : Char) (h : hexValue? sign = none) : c ≠ sign := by
          rintro rfl
          simp [radixDigit?, h] at value
        exact ⟨none '+' (by decide), none '-' (by decide)⟩
  | @decimal _ _ _ _ mantissa _ exponent signed digits raised =>
    obtain ⟨some, chars⟩ := digits.chars
    refine signed.apart (fun c mem => ?_) ?_
    · rw [List.head?_append_of_ne_nil _ some] at mem
      exact isNameStart_of_isMantissa (chars c (List.mem_of_head? mem))
    · refine List.IsChain.append (signsApart_of_none fun c mem => noSign_of_isMantissa (chars c mem))
        raised.signsApart fun c mem d _ sign => ?_
      have other := noSign_of_isMantissa (chars c (List.mem_of_getLast? mem))
      exact absurd sign (not_or.mpr other)

end NumberLiteral

namespace Literal

/-! Bare keys in a run of characters. -/

/-- A text that may stand as a bare key. -/
def isBare : List Char → Bool
  | [] => false
  | c :: rest => (c :: rest).all (keyPart c)

theorem isNamePart_of_isBare {text : List Char} (h : isBare text = true) :
    ∀ c ∈ text, isNamePart c = true := by
  cases text with
  | nil => cases h
  | cons d text => exact fun c mem => isNamePart_of_keyPart (List.all_eq_true.mp h c mem)

/-- Characters between which nothing may stand before a colon. -/
def IsRun (run : List Char) : Prop :=
  ∀ c ∈ run, isSpace c = false ∧ c ≠ ':'

theorem IsRun.tail {c : Char} {run : List Char} (h : IsRun (c :: run)) : IsRun run :=
  fun d mem => h d (List.mem_cons_of_mem c mem)

section Run

variable {rest : List Piece} (ends : ∀ piece ∈ rest.head?, piece.isCode isNamePart = false)

include ends

/-- A key begins where a run does if the whole run is one and a colon follows. -/
theorem keyLength_run {c : Char} {run : List Char} (plain : IsRun (c :: run))
    (before : Option Char) : keyLength before ((c :: run).map .code ++ rest) =
      if before.any joinsName then 0
      else if isBare (c :: run) && colonNext rest then (c :: run).length else 0 := by
  have stops : ∀ piece ∈ rest.head?, piece.isCode (keyPart c) = false := by
    intro piece first
    refine Bool.eq_false_iff.mpr fun part => ?_
    have other := ends piece first
    rw [Piece.isCode_of (fun _ => isNamePart_of_keyPart) part] at other
    cases other
  obtain ⟨dropped, taken⟩ := run_before stops ((c :: run).map .code)
  rw [List.map_cons, List.cons_append] at dropped taken ⊢
  rw [keyLength_code, dropped, taken, ← List.map_cons]
  cases bare : isBare (c :: run) with
  | true =>
    have all : ∀ piece ∈ (c :: run).map Piece.code, piece.isCode (keyPart c) = true :=
      isCode_codes (List.all_eq_true.mp bare)
    rw [List.dropWhile_eq_nil_iff.mpr all, List.takeWhile_eq_self_iff.mpr all, List.nil_append,
      List.length_map]
    simp
  | false =>
    have left : (c :: run).dropWhile (keyPart c) ≠ [] := fun none => by
      rw [isBare, List.all_eq_true.mpr (List.dropWhile_eq_nil_iff.mp none)] at bare
      cases bare
    obtain ⟨d, more, eq⟩ := List.exists_cons_of_ne_nil left
    have same : Piece.isCode (keyPart c) ∘ Piece.code = keyPart c := rfl
    have mem : d ∈ c :: run := (List.dropWhile_suffix _).subset (eq ▸ List.mem_cons_self)
    obtain ⟨dark, other⟩ := plain d mem
    have none : colonNext (Piece.code d :: (more.map Piece.code ++ rest)) = false := by
      have dark : (Piece.code d).isCode isSpace = false := dark
      rw [colonNext, firstPart_dark dark]
      simpa using other
    rw [List.dropWhile_map, same, eq, List.map_cons, List.cons_append, none]
    simp

/-- A run is copied where no key ends it. -/
theorem keyed_kept {run : List Char} (plain : IsRun run) {before : Option Char}
    (none : ∀ front back, run = front ++ back → back ≠ [] →
      (lastChar before (front.map .code)).any joinsName = true ∨
        (isBare back && colonNext rest) = false) :
    keyed before (run.map .code ++ rest) =
      run.map .code ++ keyed (lastChar before (run.map .code)) rest := by
  induction run generalizing before with
  | nil => rfl
  | cons c run ih =>
    have here : keyLength before ((c :: run).map .code ++ rest) = 0 := by
      rw [keyLength_run ends plain]
      rcases none [] (c :: run) rfl (by simp) with joins | other
      · exact if_pos joins
      · rw [other]
        simp
    have behind := @ih plain.tail (some c) fun front back split some =>
      none (c :: front) back (by rw [split]; rfl) some
    rw [List.map_cons, List.cons_append] at here ⊢
    rw [keyed_copy here]
    exact congrArg (Piece.code c :: ·) behind

/-- A run becomes a string if the whole of it is a key, and else stays as it is, where no key begins
inside. -/
theorem keyed_run {run : List Char} (plain : IsRun run) (some : run ≠ []) {before : Option Char}
    (apart : before.any joinsName = false)
    (inner : colonNext rest = true → ∀ front d back, run = front ++ d :: back → back ≠ [] →
      joinsName d = true ∨ isBare back = false) :
    keyed before (run.map .code ++ rest) =
      (if isBare run && colonNext rest then [.quoted '"' run] else run.map .code) ++
        keyed (lastChar before (run.map .code)) rest := by
  obtain ⟨c, tail, rfl⟩ := List.exists_cons_of_ne_nil some
  cases key : isBare (c :: tail) && colonNext rest with
  | true =>
    have length := keyLength_run ends plain before
    rw [apart, key, if_neg (by decide), if_pos rfl] at length
    rw [keyed_key some length]
    rfl
  | false =>
    rw [if_neg (by decide)]
    refine keyed_kept ends plain fun front back split more => ?_
    rcases List.eq_nil_or_concat front with rfl | ⟨front, d, rfl⟩
    · obtain rfl : c :: tail = back := split
      exact .inr key
    · cases colon : colonNext rest with
      | false => exact .inr (Bool.and_false _)
      | true =>
        have last : lastChar before ((front ++ [d]).map .code) = Option.some d := by
          rw [List.map_append, lastChar_append]
          rfl
        rw [List.concat_eq_append] at split ⊢
        rw [last]
        exact (inner colon front d back (by simp [split]) more).imp id fun bare => by rw [bare]; rfl

end Run

/-! Data in pieces. -/

namespace Token

/-- A token in quotes, if it may stand as a bare key. -/
def asKey (token : Token) : Token :=
  if isBare token.text then .string token.text else token

/-- The end of an object or an array. -/
def closes : Token → Bool
  | rightBrace | rightBracket => true
  | _ => false

end Token

/-- Tokens with quotes around those before a colon. -/
def quoteTokens : List Token → List Token
  | [] => []
  | token :: rest => (if rest.head? = some .colon then token.asKey else token) :: quoteTokens rest

/-- Tokens without the commas at the end of an object or an array. -/
def dropTokens : List Token → List Token
  | [] => []
  | token :: rest =>
    if token = .comma ∧ rest.head?.any Token.closes then dropTokens rest
    else token :: dropTokens rest

/-- Data: strings are pieces of their own, and everything else is code. -/
inductive Pieced : List Piece → List Token → Prop
  | nil : Pieced [] []
  | blank {c rest tokens} (blank : isBlank c = true) (tail : Pieced rest tokens) :
    Pieced (.code c :: rest) tokens
  | string {body rest tokens} (inside : StringBody body) (tail : Pieced rest tokens) :
    Pieced (.quoted '"' body :: rest) (.string body :: tokens)
  | code {token rest tokens} (spelled : token.Spelled token.text)
    (other : ∀ body, token ≠ .string body) (tail : Pieced rest tokens) :
    Pieced (token.text.map .code ++ rest) (token :: tokens)

theorem pieced_of_spells {text : List Char} {tokens : List Token} (h : Spells text tokens) :
    ∃ ps, textOf ps = text ∧ Pieced ps tokens := by
  induction h with
  | nil => exact ⟨[], rfl, .nil⟩
  | @blank c _ _ blank _ ih =>
    obtain ⟨ps, rfl, tail⟩ := ih
    exact ⟨.code c :: ps, rfl, .blank blank tail⟩
  | @token lexeme _ token _ first _ ih =>
    obtain ⟨ps, rfl, tail⟩ := ih
    have code (same : token.text = lexeme) (other : ∀ body, token ≠ .string body) :
        ∃ qs, textOf qs = lexeme ++ textOf ps ∧ Pieced qs (token :: _) :=
      ⟨_, by rw [textOf_append, textOf_code, same], .code (same ▸ first) other tail⟩
    cases first with
    | fixed mem =>
      refine code rfl ?_
      rintro body rfl
      simp [Token.fixed] at mem
    | @string body inside =>
      refine ⟨.quoted '"' body :: ps, ?_, .string inside tail⟩
      rw [textOf_cons]
      rfl
    | number => exact code rfl (by simp)

theorem Pieced.spells {ps : List Piece} {tokens : List Token} (h : Pieced ps tokens) :
    Spells (textOf ps) tokens := by
  induction h with
  | nil => exact .nil
  | blank blank _ ih =>
    rw [textOf_cons]
    exact .blank blank ih
  | string inside _ ih =>
    rw [textOf_cons]
    exact .token (.string inside) ih
  | code spelled _ _ ih =>
    rw [textOf_append, textOf_code]
    exact .token spelled ih

/-- The first character of a token that is no string. -/
theorem first_of_spelled {token : Token} (spelled : token.Spelled token.text)
    (other : ∀ body, token ≠ .string body) : ∃ c rest, token.text = c :: rest ∧
      isSpace c = false ∧ (c = ':' ↔ token = .colon) ∧ (closesContainer c = token.closes) := by
  cases token with
  | string body => exact absurd rfl (other body)
  | number literal text =>
    cases spelled with
    | fixed mem => simp [Token.fixed] at mem
    | number spelled =>
      obtain ⟨c, rest, eq, begins⟩ := Token.begins_of_spelled spelled
      have plain := isPlain_of_isNumeric (c := c) (by simp [NumberLiteral.isNumeric, begins])
      simp only [isPlain, Bool.and_eq_true, Bool.not_eq_true'] at plain
      obtain ⟨⟨space, -⟩, marks⟩ := plain
      refine ⟨c, rest, eq, space, ?_, ?_⟩
      · simp only [reduceCtorEq, iff_false]
        rintro rfl
        cases marks
      · refine Bool.eq_false_iff.mpr fun closes => ?_
        simp only [closesContainer, Bool.or_eq_true, beq_iff_eq] at closes
        rcases closes with rfl | rfl <;> cases marks
  | _ => exact ⟨_, _, rfl, by decide, by decide, by decide⟩

section Pieced

variable {ps : List Piece} {tokens : List Token}

theorem colonNext_pieced (h : Pieced ps tokens) :
    colonNext ps = true ↔ tokens.head? = some .colon := by
  induction h with
  | nil => simp [colonNext, firstPart]
  | @blank c _ _ blank _ ih =>
    have space : (Piece.code c).isCode isSpace = true := isSpace_of_isBlank blank
    rw [← ih, colonNext, firstPart_space space]
    rfl
  | string => simp [colonNext, firstPart, Piece.isCode]
  | @code token rest _ spelled other _ _ =>
    obtain ⟨c, run, eq, dark, colon, -⟩ := first_of_spelled spelled other
    have dark : (Piece.code c).isCode isSpace = false := dark
    rw [eq, List.map_cons, List.cons_append, colonNext, firstPart_dark dark]
    simpa using colon

theorem closesNext_pieced (h : Pieced ps tokens) :
    closesNext ps = tokens.head?.any Token.closes := by
  induction h with
  | nil => rfl
  | @blank c rest _ blank _ ih =>
    have space : (Piece.code c).isCode isSpace = true := isSpace_of_isBlank blank
    rw [← ih, closesNext_space space]
  | string => rfl
  | @code token rest _ spelled other _ _ =>
    obtain ⟨c, run, eq, dark, -, closes⟩ := first_of_spelled spelled other
    have dark : (Piece.code c).isCode isSpace = false := dark
    rw [eq, List.map_cons, List.cons_append, closesNext_dark dark]
    exact closes

end Pieced

/-! Keys of data. -/

theorem joinsName_of_isNumeric {c : Char} (h : NumberLiteral.isNumeric c = true) :
    joinsName c = true ∨ c = '+' ∨ c = '-' := by
  rcases ascii_or_decimal h with small | digit
  · have := of_ascii (fun c => !NumberLiteral.isNumeric c || (joinsName c || c == '+' || c == '-'))
      small (by decide +kernel)
    simpa [h, or_assoc] using this
  · exact .inl (by simp [joinsName, isNamePart_of_isDecimal digit])

/-- No key begins inside a number, if it does not end in a sign and digits. -/
theorem apart_of_number {literal : NumberLiteral} {text : List Char}
    (spelled : literal.Spelled text) (unsigned : ¬ NumberLiteral.EndsSigned text)
    {front back : List Char} {d : Char} (split : text = front ++ d :: back) (some : back ≠ []) :
    joinsName d = true ∨ isBare back = false := by
  have numeric := isNumeric_of_spelled spelled d (by simp [split])
  refine (joinsName_of_isNumeric numeric).imp id fun sign => Bool.eq_false_iff.mpr fun bare => ?_
  obtain ⟨c, more, rfl⟩ := List.exists_cons_of_ne_nil some
  have apart := spelled.signsApart
  rw [split] at apart
  have start : isNameStart c = false :=
    (List.isChain_cons.mp (List.isChain_append.mp apart).2.1).1 c rfl sign
  have digits : ∀ e ∈ c :: more, isDecimal e = true := by
    have part : keyPart c = isDecimal := by
      rw [keyPart, start]
      rfl
    rw [isBare, part] at bare
    exact List.all_eq_true.mp bare
  exact unsigned ⟨front, d, _, split, sign, some, digits⟩

/-- A token that is a value by itself is a run of characters. -/
theorem run_of_leaf {token : Token} (spelled : token.Spelled token.text)
    (other : ∀ body, token ≠ .string body) (data : token ≠ .function)
    (leaf : token.leaf?.isSome = true) :
    IsRun token.text ∧ ∃ c run, token.text = c :: run ∧ isStop c = false := by
  have run (plain : ∀ c ∈ token.text, isPlain c = true) : IsRun token.text := by
    intro c mem
    have here := plain c mem
    simp only [isPlain, Bool.and_eq_true, Bool.not_eq_true'] at here
    refine ⟨here.1.1, ?_⟩
    rintro rfl
    cases here.2
  cases token with
  | number literal text =>
    cases spelled with
    | fixed mem => simp [Token.fixed] at mem
    | number spelled =>
      obtain ⟨c, rest, eq, begins⟩ := Token.begins_of_spelled spelled
      refine ⟨run fun c mem => isPlain_of_isNumeric (isNumeric_of_spelled spelled c mem), c, rest, eq,
        Bool.eq_false_iff.mpr fun stop => ?_⟩
      have none := of_isStop (fun c => !NumberLiteral.begins c) stop (by decide)
      rw [begins] at none
      cases none
  | string body => exact absurd rfl (other body)
  | function => exact absurd rfl data
  | yes | no | null | undefined =>
    exact ⟨run (List.all_eq_true.mp (by decide +kernel)), _, _, rfl, by decide⟩
  | _ => cases leaf

/-- A mark is one character, at which no key begins and behind which one may. -/
theorem mark_of_other {token : Token} (other : ∀ body, token ≠ .string body)
    (mark : token.leaf?.isSome = false) : ∃ c, token.text = [c] ∧ (Piece.code c).isIdle = true ∧
      joinsName c = false ∧ isBare token.text = false := by
  cases token with
  | string body => exact absurd rfl (other body)
  | leftBrace | rightBrace | leftBracket | rightBracket | comma | colon =>
    exact ⟨_, rfl, by decide, by decide, by decide⟩
  | _ => cases mark

/-- Nothing that could go on with a name stands where a token can end. -/
theorem not_isNamePart_of_stops {ps : List Piece} (h : Stops (textOf ps)) :
    ∀ piece ∈ ps.head?, piece.isCode isNamePart = false := by
  intro piece first
  obtain ⟨rest, rfl⟩ := List.head?_eq_some_iff.mp first
  cases piece with
  | code c =>
    have stop : isStop c = true := h c (by rw [textOf_cons]; rfl)
    have other := of_isStop (fun c => !isNamePart c) stop (by decide +kernel)
    simpa [Piece.isCode] using other
  | lineComment => rfl
  | blockComment => rfl
  | quoted => rfl

/-- No key begins inside a token. -/
theorem apart_of_leaf {token : Token} (spelled : token.Spelled token.text)
    (other : ∀ body, token ≠ .string body) (data : token ≠ .function)
    (unsigned : ∀ literal digits, token = .number literal digits →
      ¬ NumberLiteral.EndsSigned digits)
    (leaf : token.leaf?.isSome = true) {front back : List Char} {d : Char}
    (split : token.text = front ++ d :: back) (some : back ≠ []) :
    joinsName d = true ∨ isBare back = false := by
  have word (all : token.text.all joinsName = true) : joinsName d = true :=
    List.all_eq_true.mp all d (by simp [split])
  cases token with
  | string body => exact absurd rfl (other body)
  | function => exact absurd rfl data
  | number literal digits =>
    cases spelled with
    | fixed mem => simp [Token.fixed] at mem
    | number spelled => exact apart_of_number spelled (unsigned literal digits rfl) split some
  | yes | no | null | undefined => exact .inl (word (by decide +kernel))
  | _ => cases leaf

/-- Data in which no key begins inside a token. -/
structure Quotable (tokens : List Token) : Prop where
  ends : LeavesEnd tokens
  data : .function ∉ tokens
  unsigned : ∀ literal digits, [.number literal digits, .colon] <:+: tokens →
    ¬ NumberLiteral.EndsSigned digits

theorem Quotable.tail {token : Token} {tokens : List Token} (h : Quotable (token :: tokens)) :
    Quotable tokens where
  ends := (List.isChain_cons.mp h.ends).2
  data mem := h.data (List.mem_cons_of_mem token mem)
  unsigned literal digits found := h.unsigned literal digits (List.infix_cons found)

theorem quoteTokens_kept {token : Token} {rest : List Token}
    (h : isBare token.text = true → rest.head? ≠ some .colon) :
    quoteTokens (token :: rest) = token :: quoteTokens rest := by
  rw [quoteTokens, Token.asKey]
  split
  · rename_i colon
    rw [if_neg fun bare => h bare colon]
  · rfl

theorem quoteTokens_key {token : Token} {rest : List Token} (bare : isBare token.text = true)
    (colon : rest.head? = some .colon) :
    quoteTokens (token :: rest) = .string token.text :: quoteTokens rest := by
  rw [quoteTokens, if_pos colon, Token.asKey, if_pos bare]

/-- A token that is a value by itself is a key as a whole or not at all. -/
theorem pieced_keyed_leaf {token : Token} {ps : List Piece} {tokens : List Token}
    (spelled : token.Spelled token.text) (other : ∀ body, token ≠ .string body)
    (leaf : token.leaf?.isSome = true) (tail : Pieced ps tokens)
    (quotable : Quotable (token :: tokens)) {before : Option Char}
    (apart : before.any joinsName = true → Stops (textOf (token.text.map .code ++ ps)))
    (behind : Pieced (keyed (lastChar before (token.text.map .code)) ps) (quoteTokens tokens)) :
    Pieced (keyed before (token.text.map .code ++ ps)) (quoteTokens (token :: tokens)) := by
  obtain ⟨next, -⟩ := List.isChain_cons.mp quotable.ends
  have data : token ≠ .function := by
    rintro rfl
    exact quotable.data List.mem_cons_self
  have stops := stops_of_spells tail.spells fun second first => next second first leaf
  obtain ⟨plain, c, run, text, begins⟩ := run_of_leaf spelled other data leaf
  have free : before.any joinsName = false := Bool.eq_false_iff.mpr fun joins => by
    have stop := apart joins c (by rw [textOf_append, textOf_code, text]; rfl)
    rw [begins] at stop
    cases stop
  have colon := colonNext_pieced tail
  have inner (found : colonNext ps = true) (front : List Char) (d : Char)
      (back : List Char) (split : token.text = front ++ d :: back) (some : back ≠ []) :
      joinsName d = true ∨ isBare back = false := by
    refine apart_of_leaf spelled other data ?_ leaf split some
    rintro literal digits rfl
    obtain ⟨more, rfl⟩ := List.head?_eq_some_iff.mp (colon.mp found)
    exact quotable.unsigned literal digits ⟨[], more, rfl⟩
  rw [keyed_run (not_isNamePart_of_stops stops) plain (by simp [text]) free inner]
  by_cases key : isBare token.text = true ∧ colonNext ps = true
  · obtain ⟨bare, found⟩ := key
    rw [if_pos (by rw [bare, found]; rfl), quoteTokens_key bare (colon.mp found)]
    exact .string (quotedBody_name (isNamePart_of_isBare bare)).string behind
  · rw [if_neg (by simpa using key),
      quoteTokens_kept fun bare found => key ⟨bare, colon.mpr found⟩]
    exact .code spelled other behind

/-- Quotes around keys are quotes around the tokens before colons. -/
theorem pieced_keyed {ps : List Piece} {tokens : List Token} (h : Pieced ps tokens)
    (quotable : Quotable tokens) {before : Option Char}
    (apart : before.any joinsName = true → Stops (textOf ps)) :
    Pieced (keyed before ps) (quoteTokens tokens) := by
  induction h generalizing before with
  | nil =>
    rw [keyed_nil]
    exact .nil
  | @blank c rest tokens blank tail ih =>
    have space : (Piece.code c).isCode isSpace = true := isSpace_of_isBlank blank
    have free : joinsName c = false := by
      have other := of_isStop (fun c => !joinsName c) (c := c) (by simp [isStop, blank])
        (by decide +kernel)
      simpa using other
    rw [keyed_idle (idle_of_isSpace space)]
    refine .blank blank (ih quotable fun joins => ?_)
    exact absurd joins (Bool.eq_false_iff.mp free)
  | @string body rest tokens inside tail ih =>
    have last : (('"' :: body) ++ ['"']).getLast? = some '"' := List.getLast?_concat
    rw [keyed_idle rfl, quoteTokens_kept fun bare => by cases bare]
    refine .string inside (ih quotable.tail fun joins => ?_)
    change (('"' :: body) ++ ['"']).getLast?.any joinsName = true at joins
    rw [last] at joins
    exact absurd joins (by decide)
  | @code token rest tokens spelled other tail ih =>
    cases leaf : token.leaf?.isSome with
    | false =>
      obtain ⟨c, text, idle, free, bare⟩ := mark_of_other other leaf
      have behind := @ih quotable.tail (some c) fun joins =>
        absurd joins (Bool.eq_false_iff.mp free)
      have whole := Pieced.code spelled other behind
      rw [quoteTokens_kept fun found => absurd found (Bool.eq_false_iff.mp bare)]
      rw [text] at whole ⊢
      exact (keyed_idle idle before rest).symm ▸ whole
    | true =>
      obtain ⟨next, -⟩ := List.isChain_cons.mp quotable.ends
      have stops := stops_of_spells tail.spells fun second first => next second first leaf
      exact pieced_keyed_leaf spelled other leaf tail quotable apart
        (ih quotable.tail fun _ => stops)

/-! Trailing commas of data. -/

theorem pieced_dark {ps : List Piece} {tokens : List Token} (h : Pieced ps tokens) :
    Pieced (ps.dropWhile (Piece.isCode isSpace)) tokens := by
  induction h with
  | nil => exact .nil
  | @blank c rest tokens blank tail ih =>
    have space : (Piece.code c).isCode isSpace = true := isSpace_of_isBlank blank
    rw [List.dropWhile_cons, if_pos space]
    exact ih
  | string inside tail => exact .string inside tail
  | @code token rest tokens spelled other tail ih =>
    obtain ⟨c, run, text, dark, -⟩ := first_of_spelled spelled other
    have dark : (Piece.code c).isCode isSpace = false := dark
    have whole := Pieced.code spelled other tail
    rw [text, List.map_cons, List.cons_append] at whole ⊢
    rw [List.dropWhile_cons, dark]
    exact whole

theorem comma_of_spelled {token : Token} (spelled : token.Spelled token.text)
    (other : ∀ body, token ≠ .string body) (comma : ',' ∈ token.text) : token = .comma := by
  rcases plain_of_spelled spelled with ⟨c, mark, text⟩ | ⟨body, rfl⟩ | plain
  · obtain rfl : ',' = c := List.mem_singleton.mp (text ▸ comma)
    cases token <;> first | rfl | cases mark
  · exact absurd rfl (other body)
  · exact absurd (plain ',' comma) (by decide)

theorem dropTokens_kept {token : Token} {rest : List Token}
    (h : token = .comma → rest.head?.any Token.closes = false) :
    dropTokens (token :: rest) = token :: dropTokens rest := by
  rw [dropTokens, if_neg]
  rintro ⟨comma, closes⟩
  rw [h comma] at closes
  cases closes

/-- The commas that are dropped are those before a closing bracket. -/
theorem pieced_dropCommas {ps : List Piece} {tokens : List Token} (h : Pieced ps tokens) :
    Pieced (dropCommas ps) (dropTokens tokens) := by
  induction h with
  | nil => exact .nil
  | @blank c rest tokens blank tail ih =>
    have other : Piece.code c ≠ .code ',' := by
      rintro ⟨⟩
      cases blank
    rw [dropCommas_copy fun comma => absurd comma other]
    exact .blank blank ih
  | @string body rest tokens inside tail ih =>
    have other : Piece.quoted '"' body ≠ .code ',' := by simp
    have token : Token.string body ≠ .comma := by simp
    rw [dropCommas_copy fun comma => absurd comma other,
      dropTokens_kept fun comma => absurd comma token]
    exact .string inside ih
  | @code token rest tokens spelled other tail ih =>
    have closes := closesNext_pieced tail
    by_cases comma : token = .comma
    · subst comma
      cases trailing : closesNext rest with
      | true =>
        rw [dropTokens, if_pos ⟨rfl, closes.symm.trans trailing⟩]
        exact (dropCommas_drop trailing).symm ▸ pieced_dark ih
      | false =>
        rw [dropTokens_kept fun _ => closes.symm.trans trailing]
        exact (dropCommas_copy fun _ => trailing).symm ▸ Pieced.code spelled other ih
    · have plain : ∀ piece ∈ token.text.map Piece.code, piece ≠ .code ',' := by
        rintro piece mem rfl
        obtain ⟨c, mem, ⟨⟩⟩ := List.mem_map.mp mem
        exact comma (comma_of_spelled spelled other mem)
      rw [dropCommas_plain plain, dropTokens_kept fun same => absurd same comma]
      exact .code spelled other ih

/-! The steps together. -/

/-- Neither strings nor comments are opened inside a token. -/
theorem calm_of_spelled {token : Token} (spelled : token.Spelled token.text)
    (other : ∀ body, token ≠ .string body) : ∀ c ∈ token.text, isQuote c = false ∧ c ≠ '/' := by
  generalize text : token.text = lexeme at spelled
  cases spelled with
  | fixed mem =>
    have all : ∀ token ∈ Token.fixed, token.text.all (fun c => !isQuote c && c != '/') = true := by
      decide +kernel
    exact calm_of_all (all token mem)
  | @string body => exact absurd rfl (other body)
  | number spelled =>
    intro c found
    have numeric := isNumeric_of_spelled spelled c found
    have plain := isPlain_of_isNumeric numeric
    simp only [isPlain, Bool.and_eq_true, Bool.not_eq_true'] at plain
    refine ⟨plain.1.2, ?_⟩
    rintro rfl
    cases numeric

theorem isQuote_of_isBlank {c : Char} (blank : isBlank c = true) : isQuote c = false := by
  have other := of_isStop (fun c => !isQuote c) (c := c) (by simp [isStop, blank]) (by decide)
  simpa using other

theorem Pieced.whole {ps : List Piece} {tokens : List Token} (h : Pieced ps tokens) :
    Whole ps := by
  induction h with
  | nil => exact .nil
  | @blank c rest tokens blank tail ih =>
    have slash : c ≠ '/' := by
      rintro rfl
      cases blank
    exact .code (isQuote_of_isBlank blank) (fun same => absurd same slash) ih
  | string inside _ ih => exact .quoted rfl inside.quoted ih
  | code spelled other _ ih => exact whole_codes (calm_of_spelled spelled other) ih

/-- Strings of data have double quotes. -/
theorem Pieced.doubled {ps : List Piece} {tokens : List Token} (h : Pieced ps tokens) :
    ps.map Piece.doubled = ps := by
  induction h with
  | nil => rfl
  | blank _ _ ih => exact congrArg (_ :: ·) ih
  | string _ _ ih => exact congrArg (_ :: ·) ih
  | code _ _ _ ih => rw [List.map_append, map_doubled_codes, ih]

/-- Data hold no comments. -/
theorem Pieced.visible {ps : List Piece} {tokens : List Token} (h : Pieced ps tokens) :
    visible ps = ps := by
  induction h with
  | nil => rfl
  | blank _ _ ih => exact congrArg (_ :: ·) ih
  | string _ _ ih => exact congrArg (_ :: ·) ih
  | code _ _ _ ih => rw [visible_codes, ih]

/-- The normal form of data spells their tokens, with the keys in quotes and without the commas
before a closing bracket. -/
theorem normalize_spells {text : List Char} {tokens : List Token} (h : Spells text tokens)
    (quotable : Quotable tokens) (plain : ¬ ['$', '{'] <:+: text) :
    Spells (normalize text) (dropTokens (quoteTokens tokens)) := by
  obtain ⟨ps, rfl, pieced⟩ := pieced_of_spells h
  have named := @pieced_keyed ps tokens pieced quotable none fun joins => by cases joins
  have dropped := pieced_dropCommas named
  have normal : normalFrom none ps = dropCommas (keyed none ps) := by
    rw [normalFrom, named.doubled, dropped.visible]
  have steps := steps_textOf pieced.whole
  rw [normal] at steps
  rw [normalize_steps, resolveInterpolations_plain plain, steps]
  exact dropped.spells

end Literal
end ThemeSheet
