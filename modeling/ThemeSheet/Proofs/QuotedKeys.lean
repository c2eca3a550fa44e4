import ThemeSheet.Proofs.WrittenLiteral

namespace ThemeSheet.Literal

open Text

/-- Without interpolations a text stays as it is. -/
theorem resolveInterpolations_plain {text : List Char} (h : ¬ ['$', '{'] <:+: text) :
    resolveInterpolations text = text := by
  fun_induction resolveInterpolations text with
  | case1 => rfl
  | case2 rest => exact absurd ⟨[], rest, rfl⟩ h
  | case3 rest => exact absurd ⟨[], rest, rfl⟩ h
  | case4 c rest _ ih => rw [ih fun found => h (List.infix_cons found)]

/-! Changes to all keys, values and gaps of a literal. -/

section Map

variable (key : WrittenKey → WrittenKey) (value : WrittenValue → WrittenValue) (gap : Gap → Gap)

def WrittenMember.map (member : WrittenMember) : WrittenMember :=
  ⟨gap member.before, key member.key, gap member.middle, value member.value, gap member.after⟩

def WrittenLiteral.map : WrittenLiteral → WrittenLiteral
  | empty inside => .empty (gap inside)
  | filled first others comma =>
    .filled (first.map key value gap) (others.map (WrittenMember.map key value gap)) (comma.map gap)

end Map

theorem noIndex_of_isName {name : List Char} (h : IsName name) : NoIndex name := by
  obtain ⟨c, rest, rfl, starts⟩ := h.head
  refine .inr ⟨c, List.mem_cons_self, ?_⟩
  have small : c.toNat < 128 := by
    have := toNat_of_isNameStart starts
    omega
  have := of_ascii (fun c => !isNameStart c || !isDigit c) small (by decide)
  simpa [starts] using this

def WrittenKey.withQuotes : WrittenKey → WrittenKey
  | bare name h gap _ => .quoted '"' isKeyQuote_double name (noIndex_of_isName h) gap
  | quoted quote h name named gap => .quoted quote h name named gap

def WrittenMember.withQuotes : WrittenMember → WrittenMember :=
  WrittenMember.map WrittenKey.withQuotes id id

def WrittenLiteral.withQuotes : WrittenLiteral → WrittenLiteral :=
  WrittenLiteral.map WrittenKey.withQuotes id id

/-! Quotes around bare keys. -/

/-- The last character before what follows some pieces. -/
def lastChar (before : Option Char) (ps : List Piece) : Option Char :=
  ps.foldl (fun _ piece => piece.text.getLast?) before

/-- A piece at which no bare key begins. -/
def Piece.isIdle : Piece → Bool
  | code c => !isNameStart c && !isDecimal c
  | _ => true

theorem keyLength_idle {piece : Piece} (h : piece.isIdle = true) (before : Option Char)
    (rest : List Piece) : keyLength before (piece :: rest) = 0 := by
  cases piece with
  | code c =>
    simp only [Piece.isIdle, Bool.and_eq_true, Bool.not_eq_true'] at h
    obtain ⟨name, digit⟩ := h
    have none : (Piece.code c :: rest).takeWhile (Piece.isCode isDecimal) = [] := by
      rw [List.takeWhile_cons, Piece.isCode, digit]
      rfl
    simp only [keyLength, name, Bool.false_eq_true, if_false, none, List.length_nil]
    split
    · rfl
    · split <;> rfl
  | lineComment body => rfl
  | blockComment body => rfl
  | quoted quote body => rfl

theorem quoteKeysFrom_none {before : Option Char} {piece : Piece} {rest : List Piece}
    (h : keyLength before (piece :: rest) = 0) :
    quoteKeysFrom 0 before (piece :: rest) =
      piece.text ++ quoteKeysFrom 0 piece.text.getLast? rest := by
  simp [quoteKeysFrom, h]

/-- Where no key begins, the text is copied. -/
theorem quoteKeysFrom_idle {ps : List Piece} (h : ∀ piece ∈ ps, piece.isIdle = true)
    (before : Option Char) (rest : List Piece) :
    quoteKeysFrom 0 before (ps ++ rest) = textOf ps ++ quoteKeysFrom 0 (lastChar before ps) rest := by
  induction ps generalizing before with
  | nil => rfl
  | cons piece ps ih =>
    rw [List.cons_append, quoteKeysFrom_none (keyLength_idle (h piece List.mem_cons_self) _ _),
      ih fun p hp => h p (List.mem_cons_of_mem piece hp), textOf_cons, List.append_assoc]
    rfl

/-- A key is copied up to its closing quote. -/
theorem quoteKeysFrom_left {name : List Char} (some : name ≠ []) (before : Option Char)
    (rest : List Piece) :
    quoteKeysFrom name.length before (name.map .code ++ rest) =
      name ++ '"' :: quoteKeysFrom 0 (lastChar before (name.map .code)) rest := by
  induction name generalizing before with
  | nil => exact absurd rfl some
  | cons c name ih =>
    cases name with
    | nil => simp [quoteKeysFrom, Piece.text, lastChar]
    | cons d name =>
      have inner := ih (by simp) (Option.some c)
      rw [List.map_cons, List.cons_append, quoteKeysFrom]
      simp [Piece.text] at inner ⊢
      rw [inner]
      rfl

theorem quoteKeysFrom_begin {before : Option Char} {ps : List Piece} {n : Nat}
    (h : keyLength before ps = n) (some : n ≠ 0) :
    quoteKeysFrom 0 before ps = '"' :: quoteKeysFrom n before ps := by
  cases ps with
  | nil =>
    rw [← h] at some
    exact absurd rfl some
  | cons piece rest => simp [quoteKeysFrom, h, some]

theorem takeWhile_name {name : List Char} (h : ∀ c ∈ name, isNamePart c = true)
    {rest : List Piece} (ends : ∀ piece ∈ rest.head?, piece.isCode isNamePart = false) :
    (name.map Piece.code ++ rest).takeWhile (Piece.isCode isNamePart) = name.map .code ∧
      (name.map Piece.code ++ rest).dropWhile (Piece.isCode isNamePart) = rest := by
  have all : ∀ piece ∈ name.map Piece.code, piece.isCode isNamePart = true := by
    intro piece hp
    obtain ⟨c, hc, rfl⟩ := List.mem_map.mp hp
    exact h c hc
  rw [List.takeWhile_append_of_pos all, List.dropWhile_append_of_pos all]
  cases rest with
  | nil => simp
  | cons piece rest =>
    have := ends piece rfl
    simp [this]

/-- Where a name begins that no other continues, a key begins if a colon follows. -/
theorem keyLength_name {before : Option Char} {name : List Char} (h : IsName name)
    {rest : List Piece} (ends : ∀ piece ∈ rest.head?, piece.isCode isNamePart = false) :
    keyLength before (name.map .code ++ rest) =
      if before.any joinsName then 0
      else if (rest.dropWhile (Piece.isCode isSpace)).head? = some (.code ':') then name.length
      else 0 := by
  obtain ⟨c, tail, rfl, starts⟩ := h.head
  obtain ⟨taken, dropped⟩ := takeWhile_name h.2 ends
  rw [List.map_cons, List.cons_append] at taken dropped ⊢
  simp only [keyLength, starts, if_true, taken, dropped]
  cases rest.dropWhile (Piece.isCode isSpace) with
  | nil => simp
  | cons piece rest =>
    by_cases colon : piece = .code ':'
    · subst colon
      simp
    · simp only [List.head?_cons, Option.some.injEq, colon, if_false]
      congr 1
      split
      · rename_i eq
        exact absurd (List.cons.inj eq).1 colon
      · rfl

/-- What follows a bare key: spaces and a colon. -/
def ColonFollows (rest : List Piece) : Prop :=
  (∀ piece ∈ rest.head?, piece.isCode isNamePart = false) ∧
    (rest.dropWhile (Piece.isCode isSpace)).head? = some (.code ':')

/-- What follows a keyword that is no key. -/
def NoColonFollows (rest : List Piece) : Prop :=
  (∀ piece ∈ rest.head?, piece.isCode isNamePart = false) ∧
    (rest.dropWhile (Piece.isCode isSpace)).head? ≠ some (.code ':')

theorem quoteKeysFrom_key {name : List Char} (h : IsName name) {before : Option Char}
    (apart : before.any joinsName = false) {rest : List Piece} (colon : ColonFollows rest) :
    quoteKeysFrom 0 before (name.map .code ++ rest) =
      '"' :: (name ++ '"' :: quoteKeysFrom 0 (lastChar before (name.map .code)) rest) := by
  have some : name ≠ [] := by
    obtain ⟨c, tail, rfl, -⟩ := h.head
    simp
  have length : keyLength before (name.map .code ++ rest) = name.length := by
    rw [keyLength_name h colon.1, apart, if_neg Bool.false_ne_true, if_pos colon.2]
  rw [quoteKeysFrom_begin length fun none => some (List.length_eq_zero_iff.mp none),
    quoteKeysFrom_left some]

/-- Inside a name no key begins. -/
theorem quoteKeysFrom_inside {chars : List Char} (h : ∀ c ∈ chars, isNamePart c = true)
    {before : Option Char} (joins : before.any joinsName = true) (rest : List Piece) :
    quoteKeysFrom 0 before (chars.map .code ++ rest) =
      chars ++ quoteKeysFrom 0 (lastChar before (chars.map .code)) rest := by
  induction chars generalizing before with
  | nil => rfl
  | cons c chars ih =>
    have none : keyLength before (.code c :: (chars.map .code ++ rest)) = 0 := by
      simp [keyLength, joins]
    have next : (Piece.code c).text.getLast?.any joinsName = true := by
      simp [Piece.text, joinsName, h c List.mem_cons_self]
    rw [List.map_cons, List.cons_append, quoteKeysFrom_none none,
      ih (fun d hd => h d (List.mem_cons_of_mem c hd)) next]
    rfl

theorem quoteKeysFrom_word {word : List Char} (h : IsName word) {before : Option Char}
    {rest : List Piece} (ends : NoColonFollows rest) :
    quoteKeysFrom 0 before (word.map .code ++ rest) =
      word ++ quoteKeysFrom 0 (lastChar before (word.map .code)) rest := by
  have none : keyLength before (word.map .code ++ rest) = 0 := by
    rw [keyLength_name h ends.1, if_neg ends.2, ite_self]
  obtain ⟨c, tail, rfl, starts⟩ := h.head
  have next : (Piece.code c).text.getLast?.any joinsName = true := by
    simp [Piece.text, joinsName, isNamePart_of_isNameStart starts]
  rw [List.map_cons, List.cons_append] at none ⊢
  rw [quoteKeysFrom_none none,
    quoteKeysFrom_inside (fun d hd => h.2 d (List.mem_cons_of_mem c hd)) next]
  rfl

/-! Gaps. -/

theorem Gap.pieces_cons (filler : Filler) (gap : Gap) :
    Gap.pieces (filler :: gap) = filler.pieces ++ Gap.pieces gap :=
  List.flatMap_cons

theorem lastChar_append (before : Option Char) (a b : List Piece) :
    lastChar before (a ++ b) = lastChar (lastChar before a) b :=
  List.foldl_append

theorem idle_of_isBlank {c : Char} (h : isBlank c = true) : (Piece.code c).isIdle = true := by
  simp only [isBlank, Bool.or_eq_true, beq_iff_eq] at h
  rcases h with (((rfl | rfl) | rfl) | rfl) | rfl <;> decide

theorem idle_gap (gap : Gap) : ∀ piece ∈ gap.pieces, piece.isIdle = true := by
  intro piece hp
  obtain ⟨filler, -, hp⟩ := List.mem_flatMap.mp hp
  cases filler with
  | blank c h =>
    rw [List.mem_singleton.mp hp]
    exact idle_of_isBlank h
  | block body _ =>
    rw [List.mem_singleton.mp hp]
    rfl
  | line body _ =>
    rcases List.mem_cons.mp hp with rfl | hp
    · rfl
    · rw [List.mem_singleton.mp hp]
      decide

/-- No name is joined to what follows a gap, if none is joined to the gap. -/
theorem apart_gap {before : Option Char} (apart : before.any joinsName = false) (gap : Gap) :
    (lastChar before gap.pieces).any joinsName = false := by
  induction gap generalizing before with
  | nil => exact apart
  | cons filler gap ih =>
    have last : (lastChar before filler.pieces).any joinsName = false := by
      cases filler with
      | blank c h =>
        change joinsName c = false
        simp only [isBlank, Bool.or_eq_true, beq_iff_eq] at h
        rcases h with (((rfl | rfl) | rfl) | rfl) | rfl <;> decide
      | block body _ =>
        have slash : (Piece.blockComment body).text.getLast? = some '/' :=
          List.getLast?_append_of_ne_nil ('/' :: '*' :: body) (by simp)
        change (Piece.blockComment body).text.getLast?.any joinsName = false
        rw [slash]
        decide
      | line body _ =>
        change joinsName '\n' = false
        decide
    rw [Gap.pieces_cons, lastChar_append]
    exact ih last

/-- A gap is no part of a name and no colon. -/
theorem noColonFollows_gap (gap : Gap) {c : Char} (name : isNamePart c = false)
    (space : isSpace c = false) (colon : c ≠ ':') (rest : List Piece) :
    NoColonFollows (gap.pieces ++ .code c :: rest) := by
  induction gap with
  | nil =>
    refine ⟨?_, ?_⟩
    · intro piece hp
      cases hp
      exact name
    · simp [Gap.pieces, Piece.isCode, space, colon]
  | cons filler gap ih =>
    rw [Gap.pieces_cons, List.append_assoc]
    cases filler with
    | blank d h =>
      have blank : (Piece.code d).isCode isSpace = true := isSpace_of_isBlank h
      refine ⟨?_, ?_⟩
      · intro piece hp
        cases hp
        exact not_isNamePart_of_isSpace blank
      · change ((Piece.code d :: (Gap.pieces gap ++ .code c :: rest)).dropWhile _).head? ≠ _
        rw [List.dropWhile_cons, if_pos blank]
        exact ih.2
    | block body _ => exact ⟨by rintro piece ⟨⟩; rfl, by simp [Filler.pieces, Piece.isCode]⟩
    | line body _ => exact ⟨by rintro piece ⟨⟩; rfl, by simp [Filler.pieces, Piece.isCode]⟩

theorem spaces_of_blankGap {gap : Gap} (blank : gap.all Filler.isBlank = true) :
    ∀ piece ∈ gap.pieces, piece.isCode isSpace = true := by
  intro piece hp
  obtain ⟨filler, mem, hp⟩ := List.mem_flatMap.mp hp
  have := List.all_eq_true.mp blank filler mem
  cases filler with
  | blank c h =>
    rw [List.mem_singleton.mp hp]
    exact isSpace_of_isBlank h
  | block => cases this
  | line => cases this

theorem colonFollows_gap {gap : Gap} (blank : gap.all Filler.isBlank = true)
    (rest : List Piece) : ColonFollows (gap.pieces ++ .code ':' :: rest) := by
  have spaces := spaces_of_blankGap blank
  refine ⟨?_, ?_⟩
  · intro piece hp
    cases found : gap.pieces with
    | nil =>
      rw [found] at hp
      cases hp
      decide
    | cons first others =>
      rw [found] at hp spaces
      cases hp
      have space := spaces piece List.mem_cons_self
      cases piece with
      | code c => exact not_isNamePart_of_isSpace space
      | lineComment => cases space
      | blockComment => cases space
      | quoted => cases space
  · rw [List.dropWhile_append_of_pos spaces]
    rfl

/-! Members. -/

/-- What may stand behind a member. -/
def EndsPieces (rest : List Piece) : Prop :=
  ∃ c more, rest = .code c :: more ∧ (c = ',' ∨ c = '}')

theorem isName_word {token : Token} (h : token.isWord = true) : IsName token.text := by
  refine ⟨?_, isNamePart_of_word h⟩
  cases token <;> first | rfl | cases h

theorem writtenBody_name {name : List Char} (h : IsName name) : writtenBody '"' name = name := by
  have plain : ∀ c ∈ name, writtenChar '"' c = [c] := by
    intro c hc
    have part := h.2 c hc
    have apart (d : Char) (other : isNamePart d = false) : c ≠ d := by
      rintro rfl
      rw [other] at part
      cases part
    simp [writtenChar, apart '\\' rfl, apart '"' rfl, apart '\n' rfl]
  have same := List.flatMap_congr plain
  rw [writtenBody, same]
  simp

/-- Values are copied. -/
theorem quoteKeysFrom_value (value : WrittenValue) (gap : Gap) (before : Option Char)
    {rest : List Piece} (ends : EndsPieces rest) :
    quoteKeysFrom 0 before (value.pieces ++ (gap.pieces ++ rest)) =
      textOf value.pieces ++ (textOf gap.pieces ++
        quoteKeysFrom 0 (lastChar (lastChar before value.pieces) gap.pieces) rest) := by
  cases value with
  | text quote h content =>
    have idle : ∀ piece ∈ (WrittenValue.text quote h content).pieces, piece.isIdle = true := by
      intro piece hp
      rw [List.mem_singleton.mp hp]
      rfl
    rw [quoteKeysFrom_idle idle, quoteKeysFrom_idle (idle_gap gap)]
  | word token h =>
    obtain ⟨c, more, rfl, last⟩ := ends
    have follows : NoColonFollows (gap.pieces ++ .code c :: more) := by
      rcases last with rfl | rfl <;>
        exact noColonFollows_gap gap (by decide) (by decide) (by decide) more
    change quoteKeysFrom 0 before (token.text.map .code ++ _) = textOf (token.text.map .code) ++ _
    rw [quoteKeysFrom_word (isName_word h) follows, quoteKeysFrom_idle (idle_gap gap), textOf_code]
    rfl

/-- The key of a member is quoted, all else is copied. -/
theorem quoteKeysFrom_member (member : WrittenMember) {before : Option Char}
    (apart : before.any joinsName = false) {rest : List Piece} (ends : EndsPieces rest) :
    ∃ last, quoteKeysFrom 0 before (member.pieces ++ rest) =
      textOf member.withQuotes.pieces ++ quoteKeysFrom 0 last rest := by
  obtain ⟨front, key, middle, value, after⟩ := member
  have behind (start : Option Char) (gap : Gap) : ∃ last,
      quoteKeysFrom 0 start (gap.pieces ++ (.code ':' ::
        (middle.pieces ++ (value.pieces ++ (after.pieces ++ rest))))) =
      textOf gap.pieces ++ (':' :: (textOf middle.pieces ++
        (textOf value.pieces ++ (textOf after.pieces ++ quoteKeysFrom 0 last rest)))) := by
    have colon (last : Option Char) (more : List Piece) :
        keyLength last (.code ':' :: more) = 0 := keyLength_idle (by decide) last more
    refine ⟨lastChar (lastChar (lastChar (some ':') middle.pieces) value.pieces) after.pieces, ?_⟩
    rw [quoteKeysFrom_idle (idle_gap gap), quoteKeysFrom_none (colon _ _),
      quoteKeysFrom_idle (idle_gap middle), quoteKeysFrom_value value after _ ends]
    rfl
  have start := apart_gap apart front
  cases key with
  | bare name h gap blank =>
    have colon := colonFollows_gap blank
      (middle.pieces ++ (value.pieces ++ (after.pieces ++ rest)))
    obtain ⟨last, found⟩ := behind (lastChar (lastChar before front.pieces) (name.map .code)) gap
    refine ⟨last, ?_⟩
    simp only [WrittenMember.pieces, WrittenKey.pieces, WrittenMember.withQuotes,
      WrittenMember.map, WrittenKey.withQuotes, id, List.append_assoc, List.cons_append]
    rw [quoteKeysFrom_idle (idle_gap front), quoteKeysFrom_key h start colon, found]
    simp [textOf_append, textOf_cons, Piece.text, writtenBody_name h]
  | quoted quote h name named gap =>
    obtain ⟨last, found⟩ := behind (some quote) gap
    refine ⟨last, ?_⟩
    have none : keyLength (lastChar before front.pieces) (.quoted quote (writtenBody quote name) ::
        (gap.pieces ++ (.code ':' :: (middle.pieces ++ (value.pieces ++
          (after.pieces ++ rest)))))) = 0 := rfl
    have closing : (Piece.quoted quote (writtenBody quote name)).text.getLast? = some quote :=
      List.getLast?_append_of_ne_nil (quote :: writtenBody quote name) (by simp)
    simp only [WrittenMember.pieces, WrittenKey.pieces, WrittenMember.withQuotes,
      WrittenMember.map, WrittenKey.withQuotes, id, List.append_assoc, List.cons_append]
    rw [quoteKeysFrom_idle (idle_gap front), quoteKeysFrom_none none, closing, found]
    simp [textOf_append, textOf_cons, Piece.text]

theorem endsPieces_later (others : List WrittenMember) {rest : List Piece}
    (ends : EndsPieces rest) : EndsPieces (laterPieces others ++ rest) := by
  cases others with
  | nil => exact ends
  | cons other others => exact ⟨',', _, rfl, .inl rfl⟩

theorem endsPieces_end (comma : Option Gap) : EndsPieces (endPieces comma ++ [.code '}']) := by
  cases comma with
  | none => exact ⟨'}', [], rfl, .inr rfl⟩
  | some gap => exact ⟨',', _, rfl, .inl rfl⟩

/-- Behind a comma each member begins anew. -/
theorem quoteKeysFrom_later (others : List WrittenMember) (before : Option Char)
    {rest : List Piece} (ends : EndsPieces rest) :
    ∃ last, quoteKeysFrom 0 before (laterPieces others ++ rest) =
      textOf (laterPieces (others.map WrittenMember.withQuotes)) ++ quoteKeysFrom 0 last rest := by
  induction others generalizing before with
  | nil => exact ⟨before, rfl⟩
  | cons member others ih =>
    have comma (more : List Piece) : keyLength before (.code ',' :: more) = 0 :=
      keyLength_idle (by decide) before more
    have apart : (some ',').any joinsName = false := by decide
    obtain ⟨middle, first⟩ := quoteKeysFrom_member member apart (endsPieces_later others ends)
    obtain ⟨last, later⟩ := ih middle
    refine ⟨last, ?_⟩
    rw [laterPieces_cons, List.cons_append, List.append_assoc, quoteKeysFrom_none (comma _)]
    change [','] ++ quoteKeysFrom 0 (some ',') _ = _
    rw [first, later]
    simp [laterPieces, textOf_append, textOf_cons, Piece.text]

/-- Quoting the keys of a literal writes it with all keys quoted. -/
theorem quoteKeys_text (literal : WrittenLiteral) :
    quoteKeys literal.text = literal.withQuotes.text := by
  have opening (more : List Piece) : keyLength none (.code '{' :: more) = 0 :=
    keyLength_idle (by decide) none more
  have closing (last : Option Char) : quoteKeysFrom 0 last [.code '}'] = ['}'] := by
    rw [quoteKeysFrom_none (keyLength_idle (by decide) last [])]
    rfl
  rw [quoteKeys, pieces_text, quoteKeysFrom_none (opening _)]
  change '{' :: quoteKeysFrom 0 (some '{') (literal.inner ++ [.code '}']) = _
  cases literal with
  | empty gap =>
    change '{' :: quoteKeysFrom 0 (some '{') (gap.pieces ++ [.code '}']) = _
    rw [quoteKeysFrom_idle (idle_gap gap), closing]
    rfl
  | filled first others comma =>
    have ending := endsPieces_end comma
    have apart : (some '{').any joinsName = false := by decide
    have idle : ∀ piece ∈ endPieces comma, piece.isIdle = true := by
      intro piece hp
      cases comma with
      | none => cases hp
      | some gap =>
        rcases List.mem_cons.mp hp with rfl | hp
        · decide
        · exact idle_gap gap piece hp
    obtain ⟨middle, here⟩ := quoteKeysFrom_member first apart (endsPieces_later others ending)
    obtain ⟨last, later⟩ := quoteKeysFrom_later others middle ending
    simp only [WrittenLiteral.inner, List.append_assoc]
    rw [here, later, quoteKeysFrom_idle idle, closing]
    simp [WrittenLiteral.text, WrittenLiteral.withQuotes, WrittenLiteral.map, WrittenLiteral.inner,
      WrittenMember.withQuotes, textOf_append]

end ThemeSheet.Literal
