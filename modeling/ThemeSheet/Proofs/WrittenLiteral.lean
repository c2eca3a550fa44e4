import ThemeSheet.Proofs.Functions
import ThemeSheet.Proofs.Pieces
import ThemeSheet.Proofs.Quoting

namespace ThemeSheet.Literal

open Text

/-- What may stand between two tokens of a source: a blank, a block comment, or a line comment
with its line feed. -/
inductive Filler
  | blank (c : Char) (h : isBlank c = true)
  | block (body : List Char) (h : ¬ ['*', '/'] <:+: body)
  | line (body : List Char) (h : '\n' ∉ body)

def Filler.isBlank : Filler → Bool
  | blank _ _ => true
  | _ => false

def Filler.pieces : Filler → List Piece
  | blank c _ => [.code c]
  | block body _ => [.blockComment body]
  | line body _ => [.lineComment body, .code '\n']

abbrev Gap := List Filler

def Gap.pieces (gap : Gap) : List Piece :=
  gap.flatMap Filler.pieces

/-- Not the digits of an index: nothing, or with a character that is no digit. -/
def NoIndex (key : List Char) : Prop :=
  key = [] ∨ ∃ c ∈ key, isDigit c = false

/-- Keys are written between these quotes, never between backticks. -/
def IsKeyQuote (quote : Char) : Prop :=
  quote = '"' ∨ quote = '\''

theorem isKeyQuote_double : IsKeyQuote '"' := .inl rfl

theorem isKeyQuote_single : IsKeyQuote '\'' := .inr rfl

/-- A key and what stands between it and the colon. A bare one has only blanks there. -/
inductive WrittenKey
  | bare (name : List Char) (h : IsName name) (gap : Gap) (blank : gap.all Filler.isBlank = true)
  | quoted (quote : Char) (h : IsKeyQuote quote) (name : List Char) (named : NoIndex name)
    (gap : Gap)

namespace WrittenKey

def name : WrittenKey → List Char
  | bare name _ _ _ => name
  | quoted _ _ name _ _ => name

def pieces : WrittenKey → List Piece
  | bare name _ gap _ => name.map .code ++ gap.pieces
  | quoted quote _ name _ gap => .quoted quote (writtenBody quote name) :: gap.pieces

end WrittenKey

/-- A text in quotes, or `true`, `false`, `null` or `undefined`. -/
inductive WrittenValue
  | text (quote : Char) (h : isQuote quote = true) (content : List Char)
  | word (token : Token) (h : token.isWord = true)

namespace WrittenValue

def content : WrittenValue → List Char
  | text _ _ body => body
  | word token _ => token.text

def pieces : WrittenValue → List Piece
  | text quote _ body => [.quoted quote (writtenBody quote body)]
  | word token _ => token.text.map .code

end WrittenValue

structure WrittenMember where
  before : Gap
  key : WrittenKey
  middle : Gap
  value : WrittenValue
  after : Gap

namespace WrittenMember

def entry (member : WrittenMember) : String × String :=
  (String.ofList member.key.name, String.ofList member.value.content)

def pieces (member : WrittenMember) : List Piece :=
  member.before.pieces ++ (member.key.pieces ++ .code ':' ::
    (member.middle.pieces ++ (member.value.pieces ++ member.after.pieces)))

end WrittenMember

/-- An object literal of texts and keywords. A comma may follow the last member, and a gap that
comma. -/
inductive WrittenLiteral
  | empty (gap : Gap)
  | filled (first : WrittenMember) (others : List WrittenMember) (comma : Option Gap)

def endPieces : Option Gap → List Piece
  | none => []
  | some gap => .code ',' :: gap.pieces

def laterPieces (others : List WrittenMember) : List Piece :=
  others.flatMap fun member => .code ',' :: member.pieces

theorem laterPieces_cons (member : WrittenMember) (others : List WrittenMember) :
    laterPieces (member :: others) = .code ',' :: (member.pieces ++ laterPieces others) :=
  List.flatMap_cons

namespace WrittenLiteral

def members : WrittenLiteral → List WrittenMember
  | empty _ => []
  | filled first others _ => first :: others

def entries (literal : WrittenLiteral) : List (String × String) :=
  literal.members.map WrittenMember.entry

/-- What stands between the braces. -/
def inner : WrittenLiteral → List Piece
  | empty gap => gap.pieces
  | filled first others comma => first.pieces ++ (laterPieces others ++ endPieces comma)

def text (literal : WrittenLiteral) : List Char :=
  '{' :: (textOf literal.inner ++ ['}'])

end WrittenLiteral

/-! The pieces of a literal are those it is cut into. -/

theorem tidy_chars {text : List Char} {rest : List Piece}
    (h : ∀ c ∈ text, c ≠ '/' ∧ isQuote c = false ∧ c ≠ '{' ∧ c ≠ '}') (tail : Tidy rest) :
    Tidy (text.map .code ++ rest) := by
  induction text with
  | nil => exact tail
  | cons c text ih =>
    obtain ⟨slash, quote, brace⟩ := h c List.mem_cons_self
    exact .code slash quote brace (ih fun d hd => h d (List.mem_cons_of_mem c hd))

theorem apart_of_isNamePart {c : Char} (h : isNamePart c = true) :
    c ≠ '/' ∧ isQuote c = false ∧ c ≠ '{' ∧ c ≠ '}' := by
  have apart (d : Char) (other : isNamePart d = false) : c ≠ d := by
    rintro rfl
    rw [other] at h
    cases h
  refine ⟨apart '/' rfl, ?_, apart '{' rfl, apart '}' rfl⟩
  simp [isQuote, apart '"' rfl, apart '\'' rfl, apart backtick rfl]

theorem apart_of_isBlank {c : Char} (h : isBlank c = true) :
    c ≠ '/' ∧ isQuote c = false ∧ c ≠ '{' ∧ c ≠ '}' := by
  simp only [isBlank, Bool.or_eq_true, beq_iff_eq] at h
  rcases h with (((rfl | rfl) | rfl) | rfl) | rfl <;> decide

theorem isNamePart_of_word {token : Token} (h : token.isWord = true) :
    ∀ c ∈ token.text, isNamePart c = true := by
  cases token <;> first | exact List.all_eq_true.mp (by decide) | cases h

theorem tidy_filler (filler : Filler) : Tidy filler.pieces := by
  cases filler with
  | blank c h =>
    obtain ⟨slash, quote, brace⟩ := apart_of_isBlank h
    exact .code slash quote brace .nil
  | block body h => exact .closed (closed_block h) .nil
  | line body h => exact .line h .nil

theorem tidy_gap (gap : Gap) : Tidy gap.pieces :=
  tidy_flatMap tidy_filler gap

theorem isQuote_of_key {quote : Char} (h : IsKeyQuote quote) : isQuote quote = true := by
  rcases h with rfl | rfl <;> rfl

theorem closed_written {quote : Char} (h : isQuote quote = true) (text : List Char) :
    (Piece.quoted quote (writtenBody quote text)).Closed :=
  closed_quoted h (splitString?_written h text)

theorem tidy_member (member : WrittenMember) : Tidy member.pieces := by
  have key : Tidy member.key.pieces := by
    cases member.key with
    | bare name h gap _ =>
      exact tidy_chars (fun c hc => apart_of_isNamePart (h.2 c hc)) (tidy_gap gap)
    | quoted quote h name _ gap =>
      exact .closed (closed_written (isQuote_of_key h) name) (tidy_gap gap)
  have value : Tidy member.value.pieces := by
    cases member.value with
    | text quote h text => exact .closed (closed_written h text) .nil
    | word token h =>
      have := tidy_chars (fun c hc => apart_of_isNamePart (isNamePart_of_word h c hc)) Tidy.nil
      rwa [List.append_nil] at this
  have behind := (tidy_gap member.middle).append (value.append (tidy_gap member.after))
  exact (tidy_gap member.before).append
    (key.append (.code (by decide) rfl (by decide) behind))

theorem tidy_inner (literal : WrittenLiteral) : Tidy literal.inner := by
  have comma {rest : List Piece} (tail : Tidy rest) : Tidy (.code ',' :: rest) :=
    .code (by decide) rfl (by decide) tail
  cases literal with
  | empty gap => exact tidy_gap gap
  | filled first others ending =>
    have later := tidy_flatMap (fun member => comma (tidy_member member)) others
    refine (tidy_member first).append (later.append ?_)
    cases ending with
    | none => exact .nil
    | some gap => exact comma (tidy_gap gap)

/-- A literal is cut into its pieces. -/
theorem pieces_text (literal : WrittenLiteral) :
    pieces literal.text = .code '{' :: (literal.inner ++ [.code '}']) := by
  have brace : pieces ['}'] = [.code '}'] := by
    rw [pieces_code (opaque?_code (by decide) rfl []), pieces]
    rfl
  rw [WrittenLiteral.text, pieces_code (opaque?_code (by decide) rfl _),
    pieces_tidy (tidy_inner literal), brace]

/-- A literal is closed by its last brace, whatever follows. -/
theorem balanced?_text (literal : WrittenLiteral) (more : List Char) :
    balanced? (literal.text ++ more) = some literal.text := by
  have closed : afterBalanced? (literal.text ++ more) = some more := by
    rw [WrittenLiteral.text, List.cons_append, List.append_assoc, afterBalanced?]
    change afterClose? '{' '}' 1 (textOf literal.inner ++ ('}' :: more)) = _
    rw [afterClose?_tidy (tidy_inner literal),
      afterClose?_code (afterOpaque?_code (by decide) rfl more)]
    rfl
  rw [balanced?, closed]
  simp

end ThemeSheet.Literal
