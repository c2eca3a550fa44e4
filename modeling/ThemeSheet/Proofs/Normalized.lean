import ThemeSheet.Proofs.DataLiteral
import ThemeSheet.Proofs.QuotedKeys

namespace ThemeSheet.Literal

open Text

/-! Steps that rewrite pieces one by one. -/

section Rewriting

variable {f : Piece → List Char} {key : WrittenKey → WrittenKey} {value : WrittenValue → WrittenValue}
  {gap : Gap → Gap} (copies : ∀ c, f (.code c) = [c])
  (atKey : ∀ k : WrittenKey, k.pieces.flatMap f = textOf (key k).pieces)
  (atValue : ∀ v : WrittenValue, v.pieces.flatMap f = textOf (value v).pieces)
  (atGap : ∀ g : Gap, g.pieces.flatMap f = textOf (gap g).pieces)

include copies atKey atValue atGap

theorem flatMap_member (member : WrittenMember) :
    member.pieces.flatMap f = textOf (member.map key value gap).pieces := by
  simp only [WrittenMember.pieces, WrittenMember.map, List.flatMap_append, List.flatMap_cons,
    textOf_append, textOf_cons, atKey, atValue, atGap, copies]
  rfl

theorem flatMap_later (others : List WrittenMember) :
    (laterPieces others).flatMap f =
      textOf (laterPieces (others.map (WrittenMember.map key value gap))) := by
  induction others with
  | nil => rfl
  | cons other others ih =>
    rw [List.map_cons, laterPieces_cons, laterPieces_cons, List.flatMap_cons, List.flatMap_append,
      copies, flatMap_member copies atKey atValue atGap, ih, textOf_cons, textOf_append]
    rfl

theorem flatMap_text (literal : WrittenLiteral) :
    (pieces literal.text).flatMap f = (literal.map key value gap).text := by
  have inner : literal.inner.flatMap f = textOf (literal.map key value gap).inner := by
    cases literal with
    | empty inside => exact atGap inside
    | filled first others comma =>
      have last : (endPieces comma).flatMap f = textOf (endPieces (comma.map gap)) := by
        cases comma with
        | none => rfl
        | some inside =>
          change f (.code ',') ++ inside.pieces.flatMap f = ',' :: textOf (gap inside).pieces
          rw [copies, atGap]
          rfl
      simp only [WrittenLiteral.inner, WrittenLiteral.map, List.flatMap_append, textOf_append,
        flatMap_member copies atKey atValue atGap, flatMap_later copies atKey atValue atGap, last]
  rw [pieces_text, List.flatMap_cons, List.flatMap_append, inner, copies, List.flatMap_singleton,
    copies]
  rfl

end Rewriting

/-! Double quotes. -/

def WrittenKey.doubled : WrittenKey → WrittenKey
  | bare name h gap blank => .bare name h gap blank
  | quoted _ _ name named gap => .quoted '"' isKeyQuote_double name named gap

def WrittenValue.doubled : WrittenValue → WrittenValue
  | text _ _ content => .text '"' rfl content
  | word token h => .word token h

def WrittenLiteral.doubled : WrittenLiteral → WrittenLiteral :=
  WrittenLiteral.map WrittenKey.doubled WrittenValue.doubled id

theorem doubleQuoted_written {quote : Char} (h : isQuote quote = true) (text : List Char) :
    (Piece.quoted quote (writtenBody quote text)).doubleQuoted =
      '"' :: writtenBody '"' text ++ ['"'] := by
  by_cases double : quote = '"'
  · subst double
    rfl
  · change (if quote = '"' then _ else _) = _
    rw [if_neg double, requote_written h double]

theorem doubleQuoted_code (c : Char) : (Piece.code c).doubleQuoted = [c] := rfl

theorem doubleQuoted_gap (gap : Gap) : gap.pieces.flatMap Piece.doubleQuoted = textOf gap.pieces := by
  induction gap with
  | nil => rfl
  | cons filler gap ih =>
    rw [Gap.pieces_cons, List.flatMap_append, ih, textOf_append]
    cases filler <;> rfl

theorem doubleQuoted_key (key : WrittenKey) :
    key.pieces.flatMap Piece.doubleQuoted = textOf key.doubled.pieces := by
  cases key with
  | bare name h gap blank =>
    simp only [WrittenKey.pieces, WrittenKey.doubled, List.flatMap_append, textOf_append,
      flatMap_chars doubleQuoted_code, doubleQuoted_gap, textOf_code]
  | quoted quote h name named gap =>
    simp only [WrittenKey.pieces, WrittenKey.doubled, List.flatMap_cons, textOf_cons,
      doubleQuoted_written (isQuote_of_key h), doubleQuoted_gap]
    rfl

theorem doubleQuoted_value (value : WrittenValue) :
    value.pieces.flatMap Piece.doubleQuoted = textOf value.doubled.pieces := by
  cases value with
  | text quote h content =>
    simp only [WrittenValue.pieces, WrittenValue.doubled, List.flatMap_cons, List.flatMap_nil,
      doubleQuoted_written h]
    rfl
  | word token h => exact (flatMap_chars doubleQuoted_code _).trans (textOf_code _).symm

theorem convertQuotes_text (literal : WrittenLiteral) :
    convertQuotes literal.text = literal.doubled.text :=
  flatMap_text doubleQuoted_code doubleQuoted_key doubleQuoted_value doubleQuoted_gap literal

/-! Trailing commas. -/

/-- A comma with nothing but blanks behind it is dropped, and the blanks with it. -/
def WrittenLiteral.withoutComma : WrittenLiteral → WrittenLiteral
  | empty gap => .empty gap
  | filled first others none => .filled first others none
  | filled first others (some gap) =>
    if gap.all Filler.isBlank then .filled first others none else .filled first others (some gap)

theorem dropCommas_plain {ps : List Piece} (h : ∀ piece ∈ ps, piece ≠ .code ',')
    (rest : List Piece) : dropCommas (ps ++ rest) = ps ++ dropCommas rest := by
  induction ps with
  | nil => rfl
  | cons piece ps ih =>
    rw [List.cons_append, dropCommas, if_neg fun comma => h piece List.mem_cons_self comma.1,
      ih fun p hp => h p (List.mem_cons_of_mem piece hp)]
    rfl

theorem noComma_gap (gap : Gap) : ∀ piece ∈ gap.pieces, piece ≠ .code ',' := by
  intro piece hp
  obtain ⟨filler, -, hp⟩ := List.mem_flatMap.mp hp
  cases filler with
  | blank c h =>
    rw [List.mem_singleton.mp hp]
    intro comma
    rw [Piece.code.inj comma] at h
    cases h
  | block body _ =>
    rw [List.mem_singleton.mp hp]
    simp
  | line body _ =>
    rcases List.mem_cons.mp hp with rfl | hp
    · simp
    · rw [List.mem_singleton.mp hp]
      decide

theorem noComma_name {name : List Char} (h : ∀ c ∈ name, isNamePart c = true) :
    ∀ piece ∈ name.map Piece.code, piece ≠ .code ',' := by
  intro piece hp
  obtain ⟨c, hc, rfl⟩ := List.mem_map.mp hp
  intro comma
  have := h c hc
  rw [Piece.code.inj comma] at this
  exact absurd this (by decide)

theorem noComma_member (member : WrittenMember) : ∀ piece ∈ member.pieces, piece ≠ .code ',' := by
  obtain ⟨front, key, middle, value, after⟩ := member
  intro piece hp
  simp only [WrittenMember.pieces, List.mem_append, List.mem_cons] at hp
  rcases hp with hp | hp | rfl | hp | hp | hp
  · exact noComma_gap front piece hp
  · cases key with
    | bare name h gap _ =>
      rcases List.mem_append.mp hp with hp | hp
      · exact noComma_name h.2 piece hp
      · exact noComma_gap gap piece hp
    | quoted quote _ name _ gap =>
      rcases List.mem_cons.mp hp with rfl | hp
      · simp
      · exact noComma_gap gap piece hp
  · decide
  · exact noComma_gap middle piece hp
  · cases value with
    | text quote _ content =>
      rw [List.mem_singleton.mp hp]
      simp
    | word token h => exact noComma_name (isNamePart_of_word h) piece hp
  · exact noComma_gap after piece hp

/-- Whether the next piece behind spaces closes the literal. -/
def closesNext (rest : List Piece) : Bool :=
  (rest.dropWhile (Piece.isCode isSpace)).head?.any (Piece.isCode closesContainer)

theorem closesNext_space {piece : Piece} (space : piece.isCode isSpace = true)
    (rest : List Piece) : closesNext (piece :: rest) = closesNext rest := by
  rw [closesNext, List.dropWhile_cons, if_pos space]
  rfl

theorem closesNext_dark {piece : Piece} (dark : piece.isCode isSpace = false)
    (rest : List Piece) : closesNext (piece :: rest) = piece.isCode closesContainer := by
  rw [closesNext, List.dropWhile_cons, dark]
  rfl

/-- Behind a gap comes what comes without it, or a comment. -/
theorem closesNext_gap (gap : Gap) {rest : List Piece} (h : closesNext rest = false) :
    closesNext (gap.pieces ++ rest) = false := by
  induction gap with
  | nil => exact h
  | cons filler gap ih =>
    rw [Gap.pieces_cons, List.append_assoc]
    cases filler with
    | blank c blank =>
      have space : (Piece.code c).isCode isSpace = true := isSpace_of_isBlank blank
      exact (closesNext_space space _).trans ih
    | block body _ => rfl
    | line body _ => rfl

theorem closesNext_member (member : WrittenMember) (rest : List Piece) :
    closesNext (member.pieces ++ rest) = false := by
  rw [WrittenMember.pieces, List.append_assoc]
  apply closesNext_gap
  cases member.key with
  | bare name h gap _ =>
    obtain ⟨c, tail, rfl, starts⟩ := h.head
    have space : (Piece.code c).isCode isSpace = false := (apart_of_isNameStart starts).1
    have closer : (Piece.code c).isCode closesContainer = false := by
      have part := isNamePart_of_isNameStart starts
      have apart (d : Char) (other : isNamePart d = false) : c ≠ d := by
        rintro rfl
        rw [other] at part
        cases part
      simp [Piece.isCode, closesContainer, apart '}' rfl, apart ']' rfl]
    exact (closesNext_dark space _).trans closer
  | quoted quote _ name _ gap => rfl

/-- A gap that holds a comment closes nothing. -/
theorem closesNext_comment {gap : Gap} (h : gap.all Filler.isBlank = false) (rest : List Piece) :
    closesNext (gap.pieces ++ rest) = false := by
  induction gap with
  | nil => cases h
  | cons filler gap ih =>
    rw [Gap.pieces_cons, List.append_assoc]
    cases filler with
    | blank c blank =>
      have space : (Piece.code c).isCode isSpace = true := isSpace_of_isBlank blank
      exact (closesNext_space space _).trans (ih h)
    | block body _ => rfl
    | line body _ => rfl

theorem dropCommas_keep {rest : List Piece} (h : closesNext rest = false) :
    dropCommas (.code ',' :: rest) = .code ',' :: dropCommas rest := by
  rw [dropCommas, if_neg]
  rintro ⟨-, closes⟩
  change closesNext rest = true at closes
  rw [h] at closes
  cases closes

theorem dropCommas_drop {rest : List Piece} (h : closesNext rest = true) :
    dropCommas (.code ',' :: rest) = (dropCommas rest).dropWhile (Piece.isCode isSpace) := by
  rw [dropCommas, if_pos ⟨rfl, h⟩]

/-- A comma before a member stays. -/
theorem dropCommas_later (others : List WrittenMember) (rest : List Piece) :
    dropCommas (laterPieces others ++ rest) = laterPieces others ++ dropCommas rest := by
  induction others with
  | nil => rfl
  | cons member others ih =>
    rw [laterPieces_cons]
    simp only [List.cons_append, List.append_assoc]
    rw [dropCommas_keep (closesNext_member member _), dropCommas_plain (noComma_member member), ih]

theorem dropCommas_brace : dropCommas [.code '}'] = [.code '}'] := by
  rw [dropCommas, if_neg (by simp), dropCommas]

theorem stripTrailingCommas_text (literal : WrittenLiteral) :
    stripTrailingCommas literal.text = literal.withoutComma.text := by
  have dropped : dropCommas (literal.inner ++ [.code '}']) =
      literal.withoutComma.inner ++ [.code '}'] := by
    cases literal with
    | empty gap =>
      simp only [WrittenLiteral.inner, WrittenLiteral.withoutComma]
      rw [dropCommas_plain (noComma_gap gap), dropCommas_brace]
    | filled first others comma =>
      simp only [WrittenLiteral.inner, List.append_assoc]
      rw [dropCommas_plain (noComma_member first), dropCommas_later]
      cases comma with
      | none =>
        change _ ++ (_ ++ dropCommas [.code '}']) = _
        rw [dropCommas_brace]
        simp [WrittenLiteral.withoutComma, endPieces]
      | some gap =>
        change _ ++ (_ ++ dropCommas (.code ',' :: (gap.pieces ++ [.code '}']))) = _
        have copied := dropCommas_plain (noComma_gap gap) [.code '}']
        rw [dropCommas_brace] at copied
        rw [WrittenLiteral.withoutComma]
        by_cases blank : gap.all Filler.isBlank = true
        · have spaces := spaces_of_blankGap blank
          have closes : closesNext (gap.pieces ++ [.code '}']) = true := by
            rw [closesNext, List.dropWhile_append_of_pos spaces]
            decide
          rw [dropCommas_drop closes, copied, List.dropWhile_append_of_pos spaces, if_pos blank]
          simp only [endPieces, List.append_nil, List.append_assoc]
          rfl
        · have commented := closesNext_comment (Bool.eq_false_iff.mpr blank) [.code '}']
          rw [dropCommas_keep commented, copied, if_neg blank]
          simp [endPieces]
  rw [stripTrailingCommas, pieces_text, dropCommas, if_neg (by simp), dropped]
  simp [WrittenLiteral.text, textOf, Piece.text]

/-! Comments. -/

def Filler.lineFeed : Filler :=
  .blank '\n' rfl

/-- What is left of a filler without its comment. -/
def Filler.bared? : Filler → Option Filler
  | blank c h => some (.blank c h)
  | block _ _ => none
  | line _ _ => some .lineFeed

def Gap.bared (gap : Gap) : Gap :=
  gap.filterMap Filler.bared?

theorem blank_bared (gap : Gap) : gap.bared.all Filler.isBlank = true := by
  rw [List.all_eq_true]
  intro filler mem
  obtain ⟨was, -, left⟩ := List.mem_filterMap.mp mem
  cases was <;> cases left <;> rfl

def WrittenKey.bared : WrittenKey → WrittenKey
  | bare name h gap _ => .bare name h gap.bared (blank_bared gap)
  | quoted quote h name named gap => .quoted quote h name named gap.bared

def WrittenLiteral.bared : WrittenLiteral → WrittenLiteral :=
  WrittenLiteral.map WrittenKey.bared id Gap.bared

def Piece.uncommented (piece : Piece) : List Char :=
  if piece.isComment then [] else piece.text

theorem stripComments_eq (text : List Char) :
    stripComments text = (pieces text).flatMap Piece.uncommented := by
  rw [stripComments]
  induction pieces text with
  | nil => rfl
  | cons piece rest ih =>
    rw [List.flatMap_cons, ← ih]
    cases piece <;> rfl

theorem uncommented_code (c : Char) : (Piece.code c).uncommented = [c] := rfl

theorem uncommented_gap (gap : Gap) :
    gap.pieces.flatMap Piece.uncommented = textOf gap.bared.pieces := by
  induction gap with
  | nil => rfl
  | cons filler gap ih =>
    rw [Gap.pieces_cons, List.flatMap_append, ih]
    cases filler <;> rfl

theorem uncommented_key (key : WrittenKey) :
    key.pieces.flatMap Piece.uncommented = textOf key.bared.pieces := by
  cases key with
  | bare name h gap blank =>
    simp only [WrittenKey.pieces, WrittenKey.bared, List.flatMap_append, textOf_append,
      flatMap_chars uncommented_code, uncommented_gap, textOf_code]
  | quoted quote h name named gap =>
    simp only [WrittenKey.pieces, WrittenKey.bared, List.flatMap_cons, textOf_cons,
      uncommented_gap]
    rfl

theorem uncommented_value (value : WrittenValue) :
    value.pieces.flatMap Piece.uncommented = textOf value.pieces := by
  cases value with
  | text quote h content => rfl
  | word token h => exact (flatMap_chars uncommented_code _).trans (textOf_code _).symm

theorem stripComments_text (literal : WrittenLiteral) :
    stripComments literal.text = literal.bared.text := by
  rw [stripComments_eq]
  exact flatMap_text uncommented_code uncommented_key uncommented_value uncommented_gap literal

/-! All steps. -/

theorem normalize_steps (text : List Char) : normalize text =
    stripComments (stripTrailingCommas (convertQuotes (quoteKeys (resolveInterpolations text)))) :=
  rfl

/-- A literal with its keys and values in double quotes and without its comments. A comma before
the closing brace is left only where a comment stood between them. -/
def WrittenLiteral.normal (literal : WrittenLiteral) : WrittenLiteral :=
  literal.withQuotes.doubled.withoutComma.bared

theorem normalize_text {literal : WrittenLiteral} (h : ¬ ['$', '{'] <:+: literal.text) :
    normalize literal.text = literal.normal.text := by
  rw [normalize_steps, resolveInterpolations_plain h, quoteKeys_text, convertQuotes_text,
    stripTrailingCommas_text, stripComments_text]
  rfl

end ThemeSheet.Literal
