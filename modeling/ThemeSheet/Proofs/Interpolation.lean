import ThemeSheet.Proofs.Alike
import ThemeSheet.Proofs.LowerCase
import ThemeSheet.Proofs.QuotedKeys
import ThemeSheet.Proofs.StringParts

/-! Interpolations are resolved wherever they stand, each by itself: none reaches out of the string
or block comment in which it begins. -/

namespace ThemeSheet.Literal

open Text

/-- The name of a constant: capitals, digits and underscores, no digit first. -/
def IsConstant (text : List Char) : Prop :=
  text.head?.any isConstantStart = true ∧ ∀ c ∈ text, isConstantPart c = true

/-- What stands between the braces of an interpolation: a constant, a dot and a name, with spaces
around each. -/
structure Reference where
  before : List Char
  space : List Char
  middle : List Char
  inner : List Char
  name : List Char
  after : List Char
  spaced : Spaces before ∧ Spaces middle ∧ Spaces inner ∧ Spaces after
  constant : IsConstant space
  named : IsName name

namespace Reference

/-- The text behind the opening brace. -/
def inside (r : Reference) : List Char :=
  r.before ++ (r.space ++ (r.middle ++ '.' :: (r.inner ++ (r.name ++ (r.after ++ ['}'])))))

def text (r : Reference) : List Char :=
  '$' :: '{' :: r.inside

/-- The custom property of the name, with the constant in lower case as its namespace. -/
def property (r : Reference) : List Char :=
  ("var(" ++ PropertyName.ofKey (String.ofList r.name) (String.ofList (lower r.space)) ++
    ")").toList

end Reference

/-! Classes of characters. -/

theorem toNat_of_isConstantPart {c : Char} (h : isConstantPart c = true) : c.toNat < 128 := by
  simp only [isConstantPart, Bool.or_eq_true, beq_iff_eq] at h
  have val : c.toNat = c.val.toNat := rfl
  rcases h with (upper | digit) | rfl
  · delta Char.isUpper at upper
    simp only [decide_eq_true_eq, ge_iff_le] at upper
    have := UInt32.le_iff_toNat_le.mp upper.2
    simp at this
    omega
  · delta Char.isDigit at digit
    simp only [Bool.and_eq_true, decide_eq_true_eq, ge_iff_le] at digit
    have := UInt32.le_iff_toNat_le.mp digit.2
    simp at this
    omega
  · decide

theorem isNamePart_of_isConstantPart {c : Char} (h : isConstantPart c = true) :
    isNamePart c = true := by
  have := of_ascii (fun c => !isConstantPart c || isNamePart c) (toNat_of_isConstantPart h)
    (by decide)
  simpa [h] using this

theorem not_isSpace_of_isNamePart {c : Char} (h : isNamePart c = true) : isSpace c = false := by
  refine Bool.eq_false_iff.mpr fun space => ?_
  rw [not_isNamePart_of_isSpace space] at h
  cases h

theorem split_spaces (text : List Char) :
    ∃ spaces, Spaces spaces ∧ text = spaces ++ trimLeft text :=
  ⟨text.takeWhile isSpace, List.all_eq_true.mp List.all_takeWhile,
    List.takeWhile_append_dropWhile.symm⟩

/-! Reading one reference. -/

/-- What is taken off the front with a dot or brace behind it is the whole run. -/
theorem span_run {part : Char → Bool} {run : List Char} (all : ∀ c ∈ run, part c = true)
    {more : List Char} (ends : ∀ c ∈ more.head?, part c = false) :
    (run ++ more).takeWhile part = run ∧ (run ++ more).dropWhile part = more := by
  obtain ⟨dropped, taken⟩ := run_before ends run
  rw [dropped, taken, List.takeWhile_eq_self_iff.mpr all, List.dropWhile_eq_nil_iff.mpr all]
  exact ⟨rfl, rfl⟩

theorem IsConstant.head {text : List Char} (h : IsConstant text) :
    ∃ c rest, text = c :: rest ∧ isConstantPart c = true := by
  obtain ⟨starts, all⟩ := h
  cases text with
  | nil => cases starts
  | cons c rest => exact ⟨c, rest, rfl, all c List.mem_cons_self⟩

theorem IsConstant.trimLeft {text : List Char} (h : IsConstant text) (more : List Char) :
    Text.trimLeft (text ++ more) = text ++ more := by
  obtain ⟨c, rest, rfl, part⟩ := h.head
  exact trimLeft_cons (not_isSpace_of_isNamePart (isNamePart_of_isConstantPart part)) _

theorem IsName.trimLeft {text : List Char} (h : IsName text) (more : List Char) :
    Text.trimLeft (text ++ more) = text ++ more := by
  obtain ⟨c, rest, rfl, starts⟩ := h.head
  exact trimLeft_cons (apart_of_isNameStart starts).1 _

/-- Spaces before what is no part of a run are none either. -/
theorem head_spaces {part : Char → Bool} (apart : ∀ c, isSpace c = true → part c = false)
    {spaces : List Char} (h : Spaces spaces) {c : Char} (other : part c = false)
    (more : List Char) : ∀ d ∈ (spaces ++ c :: more).head?, part d = false := by
  cases spaces with
  | nil =>
    intro d hd
    cases hd
    exact other
  | cons e spaces =>
    intro d hd
    cases hd
    exact apart e (h e List.mem_cons_self)

theorem not_isConstantPart_of_isSpace (c : Char) (h : isSpace c = true) :
    isConstantPart c = false := by
  refine Bool.eq_false_iff.mpr fun part => ?_
  have := not_isSpace_of_isNamePart (isNamePart_of_isConstantPart part)
  rw [h] at this
  cases this

/-- The namespace of a constant is its name in lower case. -/
theorem Reference.property_eq (r : Reference) :
    r.property = "var(--".toList ++ r.space.map Char.toLower ++
      '-' :: PropertyName.kebab r.name ++ [')'] := by
  obtain ⟨c, rest, eq, -⟩ := r.constant.head
  have ascii : ∀ c ∈ r.space, c.toNat < 128 := fun c mem =>
    toNat_of_isConstantPart (r.constant.2 c mem)
  have some : (String.ofList (lower r.space)).isEmpty = false := by
    refine Bool.eq_false_iff.mpr fun none => ?_
    have := congrArg String.toList (String.isEmpty_iff.mp none)
    rw [lower_of_ascii ascii, String.toList_ofList, eq] at this
    cases this
  rw [Reference.property, PropertyName.ofKey, some, lower_of_ascii ascii]
  simp [PropertyName.kebabCase]

theorem reference?_inside (r : Reference) (rest : List Char) :
    reference? (r.inside ++ rest) = some (r.property, rest) := by
  obtain ⟨before, middle, inner, after⟩ := r.spaced
  have first := span_run r.constant.2
    (head_spaces not_isConstantPart_of_isSpace middle (c := '.') (by decide)
      (r.inner ++ (r.name ++ (r.after ++ '}' :: rest))))
  have second := span_run r.named.2
    (head_spaces (fun _ => not_isNamePart_of_isSpace) after (c := '}') (by decide) rest)
  have dot := trimLeft_spaces middle ('.' :: (r.inner ++ (r.name ++ (r.after ++ '}' :: rest))))
  have brace := trimLeft_spaces after ('}' :: rest)
  rw [trimLeft_cons (by decide)] at dot brace
  have starts : (r.space.head?.any isConstantStart && r.name.head?.any isNameStart) = true := by
    rw [r.constant.1, Bool.true_and]
    exact r.named.1
  have whole : r.inside ++ rest = r.before ++ (r.space ++ (r.middle ++ '.' ::
      (r.inner ++ (r.name ++ (r.after ++ '}' :: rest))))) := by
    simp [Reference.inside]
  rw [whole, reference?, trimLeft_spaces before, r.constant.trimLeft, first.1, first.2, dot]
  simp only [trimLeft_spaces inner, r.named.trimLeft, second, brace, starts, if_true, r.property_eq]

theorem reference?_eq_some {text out rest : List Char} (h : reference? text = some (out, rest)) :
    ∃ r : Reference, text = r.inside ++ rest ∧ out = r.property := by
  obtain ⟨before, spaced, eq⟩ := split_spaces text
  have constant := List.takeWhile_append_dropWhile (p := isConstantPart) (l := trimLeft text)
  obtain ⟨middle, spaced', eq'⟩ := split_spaces ((trimLeft text).dropWhile isConstantPart)
  unfold reference? at h
  dsimp only at h
  split at h
  · rename_i behind dot
    obtain ⟨inner, spaced'', eq''⟩ := split_spaces behind
    have named := List.takeWhile_append_dropWhile (p := isNamePart) (l := trimLeft behind)
    obtain ⟨after, spacedBrace, eqBrace⟩ := split_spaces ((trimLeft behind).dropWhile isNamePart)
    split at h
    · rename_i brace
      split at h
      · rename_i starts
        obtain ⟨first, second⟩ := Bool.and_eq_true_iff.mp starts
        let r : Reference :=
          ⟨before, _, middle, inner, _, after, ⟨spaced, spaced', spaced'', spacedBrace⟩,
            ⟨first, List.all_eq_true.mp List.all_takeWhile⟩,
            ⟨second, List.all_eq_true.mp List.all_takeWhile⟩⟩
        cases h
        refine ⟨r, ?_, r.property_eq.symm⟩
        rw [brace] at eqBrace
        rw [eqBrace] at named
        rw [← named] at eq''
        rw [dot, eq''] at eq'
        rw [eq'] at constant
        rw [← constant] at eq
        conv_lhs => rw [eq]
        simp [r, Reference.inside]
      · cases h
    · cases h
  · cases h

/-! What a property is made of. -/

theorem mem_hyphenate {c : Char} (other : c ≠ '-') {before : Option Char} {text : List Char}
    (h : c ∈ PropertyName.hyphenate before text) : c ∈ text := by
  induction text generalizing before with
  | nil => exact h
  | cons d rest ih =>
    rw [PropertyName.hyphenate] at h
    split at h
    · rcases List.mem_cons.mp h with same | h
      · exact absurd same other
      · exact (List.mem_cons.mp h).elim (· ▸ List.mem_cons_self)
          (List.mem_cons_of_mem d <| ih ·)
    · exact (List.mem_cons.mp h).elim (· ▸ List.mem_cons_self) (List.mem_cons_of_mem d <| ih ·)

/-- A character that no property holds. -/
def isForeign (c : Char) : Bool :=
  !isLetter c && !isNamePart c && !(['(', ')', '-'].contains c)

theorem isForeign_iff {c : Char} : isForeign c = true ↔
    isLetter c = false ∧ isNamePart c = false ∧ c ≠ '(' ∧ c ≠ ')' ∧ c ≠ '-' := by
  simp [isForeign, and_assoc]

theorem Reference.not_mem_property (r : Reference) {c : Char} (h : isForeign c = true) :
    c ∉ r.property := by
  obtain ⟨letter, name, left, right, hyphen⟩ := isForeign_iff.mp h
  have start : c ∉ "var(--".toList := by
    intro mem
    have own : "var(--".toList.all (fun d => !isForeign d) = true := by decide
    have here := List.all_eq_true.mp own c mem
    rw [h] at here
    cases here
  have space : c ∉ r.space.map Char.toLower := by
    intro mem
    obtain ⟨d, found, rfl⟩ := List.mem_map.mp mem
    have part := r.constant.2 d found
    cases upper : isLetter d with
    | true =>
      rw [isLetter_toLower upper (toNat_of_isConstantPart part)] at letter
      cases letter
    | false =>
      rw [toLower_of_not_isLetter upper, isNamePart_of_isConstantPart part] at name
      cases name
  have tail : c ∉ PropertyName.kebab r.name := by
    intro mem
    have mem := mem_hyphenate hyphen ((mem_lowerAfter_iff letter _).mp mem)
    rw [r.named.2 c mem] at name
    cases name
  rw [r.property_eq]
  simp only [List.mem_append, List.mem_cons, List.not_mem_nil, or_false, not_or]
  exact ⟨⟨⟨start, space⟩, hyphen, tail⟩, right⟩

/-- A character of a reference behind its braces. -/
theorem Reference.mem_inside (r : Reference) {c : Char} (h : c ∈ r.inside) :
    isSpace c = true ∨ isNamePart c = true ∨ c = '.' ∨ c = '}' := by
  obtain ⟨before, middle, inner, after⟩ := r.spaced
  simp only [Reference.inside, List.mem_append, List.mem_cons, List.not_mem_nil, or_false] at h
  rcases h with h | h | h | h | h | h | h | h
  · exact .inl (before c h)
  · exact .inr (.inl (isNamePart_of_isConstantPart (r.constant.2 c h)))
  · exact .inl (middle c h)
  · exact .inr (.inr (.inl h))
  · exact .inl (inner c h)
  · exact .inr (.inl (r.named.2 c h))
  · exact .inl (after c h)
  · exact .inr (.inr (.inr h))

/-! A text is resolved part by part. -/

theorem resolve_reference (r : Reference) (rest : List Char) :
    resolveInterpolations (r.text ++ rest) = r.property ++ resolveInterpolations rest := by
  change resolveInterpolations ('$' :: '{' :: (r.inside ++ rest)) = _
  rw [resolveInterpolations]
  split
  · rename_i found
    rw [reference?_inside] at found
    cases found
    rfl
  · rename_i none
    rw [reference?_inside] at none
    cases none

theorem resolve_none {rest : List Char} (h : reference? rest = none) :
    resolveInterpolations ('$' :: '{' :: rest) = '$' :: resolveInterpolations ('{' :: rest) := by
  rw [resolveInterpolations]
  split
  · rename_i found
    rw [h] at found
    cases found
  · rfl

theorem resolve_cons {c : Char} {rest : List Char} (h : c = '$' → rest.head? ≠ some '{') :
    resolveInterpolations (c :: rest) = c :: resolveInterpolations rest := by
  rw [resolveInterpolations]
  rintro behind rfl rfl
  exact h rfl rfl

theorem resolve_nil : resolveInterpolations [] = [] := by
  rw [resolveInterpolations]

/-- No reference begins in one text and ends in the other. -/
def NoneAcross (x y : List Char) : Prop :=
  ∀ (r : Reference) (left right : List Char), left ++ right = r.text → left <:+ x → right <+: y →
    left = [] ∨ right = []

theorem NoneAcross.suffix {x x' y : List Char} (h : NoneAcross x y) (tail : x' <:+ x) :
    NoneAcross x' y :=
  fun r left right whole before after => h r left right whole (before.trans tail) after

theorem resolve_append {x y : List Char} (h : NoneAcross x y) :
    resolveInterpolations (x ++ y) = resolveInterpolations x ++ resolveInterpolations y := by
  fun_induction resolveInterpolations x with
  | case1 => rfl
  | case2 rest out after found _ ih =>
    obtain ⟨r, rfl, rfl⟩ := reference?_eq_some found
    have tail : after <:+ '$' :: '{' :: (r.inside ++ after) := ⟨r.text, rfl⟩
    have whole := resolve_reference r (after ++ y)
    rw [ih (h.suffix tail)] at whole
    rw [List.append_assoc, ← whole, Reference.text]
    simp
  | case3 rest none ih =>
    have still : reference? (rest ++ y) = Option.none := by
      refine Option.eq_none_iff_forall_ne_some.mpr ?_
      rintro ⟨out, after⟩ found
      obtain ⟨r, eq, -⟩ := reference?_eq_some found
      rcases List.append_eq_append_iff.mp eq with ⟨right, inside, eq'⟩ | ⟨more, eq', -⟩
      · rcases h r ('$' :: '{' :: rest) right (by rw [Reference.text, inside]; rfl)
          (List.suffix_refl _) ⟨after, eq'.symm⟩ with empty | rfl
        · cases empty
        · rw [List.append_nil] at inside
          have := reference?_inside r []
          rw [inside, List.append_nil, none] at this
          cases this
      · rw [eq', reference?_inside] at none
        cases none
    have tail := ih (h.suffix (List.suffix_cons '$' _))
    change resolveInterpolations ('$' :: '{' :: (rest ++ y)) = _
    rw [resolve_none still]
    exact congrArg ('$' :: ·) tail
  | case4 c rest pair ih =>
    have tail := ih (h.suffix (List.suffix_cons c rest))
    by_cases opens : c = '$' ∧ (rest ++ y).head? = some '{'
    · obtain ⟨rfl, first⟩ := opens
      -- The brace is the first character of the second text.
      obtain rfl : rest = [] := by
        cases rest with
        | nil => rfl
        | cons d rest =>
          cases first
          exact (pair rest rfl rfl).elim
      obtain ⟨behind, rfl⟩ := List.head?_eq_some_iff.mp first
      have none : reference? behind = Option.none := by
        refine Option.eq_none_iff_forall_ne_some.mpr ?_
        rintro ⟨out, after⟩ found
        obtain ⟨r, rfl, -⟩ := reference?_eq_some found
        rcases h r ['$'] ('{' :: r.inside) rfl (List.suffix_refl _) ⟨after, rfl⟩ with none | none
        · cases none
        · cases none
      change resolveInterpolations ('$' :: '{' :: behind) = _
      rw [resolve_none none]
      exact congrArg ('$' :: ·) tail
    · rw [List.cons_append, resolve_cons fun dollar brace => opens ⟨dollar, brace⟩, tail]
      rfl

/-- A character that stands in no reference. -/
def isBarrier (c : Char) : Bool :=
  !isSpace c && !isNamePart c && !(['{', '}', '.'].contains c)

theorem Reference.not_mem_text (r : Reference) {c : Char} (h : isBarrier c = true) :
    c ∉ r.text := by
  simp only [isBarrier, Bool.and_eq_true, Bool.not_eq_true', List.contains_eq_mem,
    decide_eq_false_iff_not, List.mem_cons, List.not_mem_nil, or_false, not_or] at h
  obtain ⟨⟨space, name⟩, left, right, dot⟩ := h
  intro mem
  rcases List.mem_cons.mp mem with rfl | mem
  · cases name
  · rcases List.mem_cons.mp mem with same | mem
    · exact left same
    · rcases r.mem_inside mem with h | h | h | h
      · rw [h] at space
        cases space
      · rw [h] at name
        cases name
      · exact dot h
      · exact right h

theorem noneAcross_barrier {c : Char} (h : isBarrier c = true) (x y : List Char) :
    NoneAcross x (c :: y) := by
  rintro r left right whole - after
  cases right with
  | nil => exact .inr rfl
  | cons d right =>
    obtain ⟨rfl, -⟩ := List.cons_prefix_cons.mp after
    exact absurd (by rw [← whole]; simp) (r.not_mem_text h)

/-! Strings, comments and code. -/

/-- What makes no comment of a slash before it. -/
def Piece.followsSlash : Piece → Bool
  | code c => c != '/' && c != '*'
  | quoted _ _ => true
  | _ => false

/-- Strings and comments that are closed, and characters that open none. -/
inductive Whole : List Piece → Prop
  | nil : Whole []
  | code {c rest} (quote : isQuote c = false)
    (slash : c = '/' → ∀ piece ∈ rest.head?, piece.followsSlash = true)
    (tail : Whole rest) : Whole (.code c :: rest)
  | quoted {quote body rest} (quoted : isQuote quote = true) (inner : QuotedBody quote body)
    (tail : Whole rest) : Whole (.quoted quote body :: rest)
  | block {body rest} (closed : ¬ ['*', '/'] <:+: body) (tail : Whole rest) :
    Whole (.blockComment body :: rest)
  | line {body rest} (one : '\n' ∉ body) (ends : rest = [] ∨ rest.head? = some (.code '\n'))
    (tail : Whole rest) : Whole (.lineComment body :: rest)

theorem Whole.tail {piece : Piece} {rest : List Piece} (h : Whole (piece :: rest)) : Whole rest := by
  cases h with
  | code _ _ tail => exact tail
  | quoted _ _ tail => exact tail
  | block _ tail => exact tail
  | line _ _ tail => exact tail

theorem Whole.right {a b : List Piece} (h : Whole (a ++ b)) : Whole b := by
  induction a with
  | nil => exact h
  | cons piece a ih => exact ih h.tail

theorem whole_codes {chars : List Char} (h : ∀ c ∈ chars, isQuote c = false ∧ c ≠ '/')
    {rest : List Piece} (tail : Whole rest) : Whole (chars.map .code ++ rest) := by
  induction chars with
  | nil => exact tail
  | cons c chars ih =>
    obtain ⟨quote, slash⟩ := h c List.mem_cons_self
    exact .code quote (absurd · slash) (ih fun d mem => h d (List.mem_cons_of_mem c mem))

theorem calm_of_all {chars : List Char}
    (h : chars.all (fun c => !isQuote c && c != '/') = true) :
    ∀ c ∈ chars, isQuote c = false ∧ c ≠ '/' := by
  intro c mem
  simpa using List.all_eq_true.mp h c mem

theorem Whole.noComment {ps : List Piece} (h : Whole ps)
    (follows : ∀ piece ∈ ps.head?, piece.followsSlash = true) : NoComment (textOf ps) := by
  intro c first
  cases h with
  | nil => cases first
  | code =>
    cases first
    simpa [Piece.followsSlash] using follows _ rfl
  | quoted quoted =>
    cases first
    constructor <;> rintro rfl <;> cases quoted
  | block => cases follows _ rfl
  | line => cases follows _ rfl

theorem afterOpaque?_slash {text : List Char} (h : NoComment text) :
    afterOpaque? ('/' :: text) = none := by
  cases text with
  | nil => rfl
  | cons c rest =>
    obtain ⟨slash, star⟩ := h c rfl
    simp [afterOpaque?, slash, star, isQuote, backtick]

/-- Code of a whole text opens no string and no comment. -/
theorem Whole.not_opens {c : Char} {rest : List Piece} (h : Whole (.code c :: rest)) :
    afterOpaque? (c :: textOf rest) = none := by
  cases h with
  | code quote slash tail =>
    by_cases same : c = '/'
    · subst same
      exact afterOpaque?_slash (tail.noComment (slash rfl))
    · exact afterOpaque?_code same quote _

/-- A string or a comment of a whole text is found at its front. -/
theorem Whole.opens {piece : Piece} {rest : List Piece} (h : Whole (piece :: rest))
    (other : ∀ c, piece ≠ .code c) :
    opaque? (textOf (piece :: rest)) = some (piece, textOf rest) := by
  rw [textOf_cons]
  cases h with
  | @code c => exact absurd rfl (other c)
  | quoted quoted inner => exact closed_quoted quoted (inner.split quoted) _
  | block closed => exact closed_block closed _
  | @line body _ one ends =>
    have all : ∀ c ∈ body, (c != '\n') = true := by
      intro c mem
      simp only [bne_iff_ne, ne_eq]
      rintro rfl
      exact one mem
    rcases ends with rfl | first
    · change opaque? ('/' :: '/' :: (body ++ [])) = some (.lineComment body, [])
      rw [opaque?, List.takeWhile_append_of_pos all, List.dropWhile_append_of_pos all]
      simp
    · obtain ⟨more, rfl⟩ := List.head?_eq_some_iff.mp first
      exact opaque?_line one (textOf more)

/-- A whole text is cut into its pieces again. -/
theorem pieces_whole {ps : List Piece} (h : Whole ps) : pieces (textOf ps) = ps := by
  induction ps with
  | nil =>
    rw [textOf, List.flatMap_nil, pieces]
    rfl
  | cons piece rest ih =>
    have tail := ih h.tail
    by_cases code : ∃ c, piece = .code c
    · obtain ⟨c, rfl⟩ := code
      have none : opaque? (c :: textOf rest) = none := by
        refine Option.eq_none_iff_forall_ne_some.mpr ?_
        rintro ⟨piece, after⟩ found
        have := afterOpaque?_of_opaque? found
        rw [h.not_opens] at this
        cases this
      rw [textOf_cons]
      change pieces (c :: textOf rest) = _
      rw [pieces_code none, tail]
    · rw [pieces_of_opaque? (h.opens fun c same => code ⟨c, same⟩), tail]

/-- A piece with the interpolations in it resolved. -/
def Piece.resolved : Piece → Piece
  | lineComment body => .lineComment (resolveInterpolations body)
  | blockComment body => .blockComment (resolveInterpolations body)
  | quoted quote body => .quoted quote (resolveInterpolations body)
  | code c => .code c

/-- Interpolations stand in strings and comments only. In a line comment each that is opened is
closed. -/
structure Settled (ps : List Piece) : Prop where
  code : ¬ [.code '$', .code '{'] <:+: ps
  line : ∀ body, .lineComment body ∈ ps → ∀ behind, '$' :: '{' :: behind <:+ body → '}' ∈ behind

theorem Settled.tail {piece : Piece} {rest : List Piece} (h : Settled (piece :: rest)) :
    Settled rest :=
  ⟨fun found => h.code (List.infix_cons found),
    fun body mem => h.line body (List.mem_cons_of_mem piece mem)⟩

/-- Only a brace in code makes a text begin with one. -/
theorem Whole.head_brace {ps : List Piece} (h : Whole ps) (brace : (textOf ps).head? = some '{') :
    ps.head? = some (.code '{') := by
  cases h with
  | nil => cases brace
  | code => cases brace; rfl
  | quoted quoted => cases brace; cases quoted
  | block => cases brace
  | line => cases brace

/-- The brace that closes a reference is its last character and the only one. -/
theorem Reference.closing (r : Reference) : ∃ front, r.inside = front ++ ['}'] ∧ '}' ∉ front := by
  refine ⟨r.before ++ (r.space ++ (r.middle ++ '.' :: (r.inner ++ (r.name ++ r.after)))),
    by simp [Reference.inside], fun mem => ?_⟩
  obtain ⟨before, middle, inner, after⟩ := r.spaced
  simp only [List.mem_append, List.mem_cons] at mem
  rcases mem with mem | mem | mem | mem | mem | mem | mem
  · exact absurd (before _ mem) (by decide)
  · exact absurd (r.constant.2 _ mem) (by decide)
  · exact absurd (middle _ mem) (by decide)
  · cases mem
  · exact absurd (inner _ mem) (by decide)
  · exact absurd (r.named.2 _ mem) (by decide)
  · exact absurd (after _ mem) (by decide)

theorem noneAcross_line {body rest : List Char}
    (closed : ∀ behind, '$' :: '{' :: behind <:+ body → '}' ∈ behind)
    (ends : rest = [] ∨ rest.head? = some '\n') : NoneAcross body rest := by
  rintro r left right whole before after
  rcases ends with rfl | first
  · exact .inr (List.prefix_nil.mp after)
  · obtain ⟨rest, rfl⟩ := List.head?_eq_some_iff.mp first
    rcases left with - | ⟨dollar, - | ⟨brace, behind⟩⟩
    · exact .inl rfl
    · -- The line ends between the dollar sign and the brace.
      obtain ⟨rfl, rfl⟩ := List.cons.inj whole
      exact absurd (List.cons_prefix_cons.mp after).1 (by decide)
    · obtain ⟨rfl, more⟩ := List.cons.inj whole
      obtain ⟨rfl, inside⟩ := List.cons.inj more
      obtain ⟨front, eq, none⟩ := r.closing
      refine .inr (Decidable.byContradiction fun some => none ?_)
      obtain ⟨right, c, rfl⟩ := (List.eq_nil_or_concat right).resolve_left some
      have parted : (behind ++ right) ++ [c] = front ++ ['}'] := by
        rw [← eq, ← inside, List.concat_eq_append, List.append_assoc]
        rfl
      rw [← (List.append_inj' parted rfl).1]
      exact List.mem_append_left _ (closed behind before)

theorem isBarrier_of_isQuote {c : Char} (h : isQuote c = true) : isBarrier c = true := by
  simp only [isQuote, Bool.or_eq_true, beq_iff_eq] at h
  rcases h with (rfl | rfl) | rfl <;> decide

/-- In front of a character of no reference a text is resolved alone. -/
theorem resolve_barrier {c : Char} (h : isBarrier c = true) (x y : List Char) :
    resolveInterpolations (x ++ c :: y) =
      resolveInterpolations x ++ c :: resolveInterpolations y := by
  have other : c ≠ '$' := by
    rintro rfl
    cases h
  rw [resolve_append (noneAcross_barrier h x y), resolve_cons fun same => absurd same other]

theorem resolve_textOf {ps : List Piece} (whole : Whole ps) (settled : Settled ps) :
    resolveInterpolations (textOf ps) = textOf (ps.map Piece.resolved) := by
  have inner {c d : Char} (h : isBarrier c = true) (h' : isBarrier d = true)
      (body rest : List Char) : resolveInterpolations (c :: (body ++ d :: rest)) =
        c :: (resolveInterpolations body ++ d :: resolveInterpolations rest) := by
    have other : c ≠ '$' := by
      rintro rfl
      cases h
    rw [resolve_cons fun same => absurd same other, resolve_barrier h']
  induction whole with
  | nil => exact resolve_nil
  | @code c rest _ _ tail ih =>
    have apart : c = '$' → (textOf rest).head? ≠ some '{' := by
      rintro rfl brace
      obtain ⟨rest, rfl⟩ := List.head?_eq_some_iff.mp (tail.head_brace brace)
      exact settled.code ⟨[], rest, rfl⟩
    rw [List.map_cons, textOf_cons, textOf_cons, ← ih settled.tail]
    exact resolve_cons apart
  | @quoted quote body rest quoted _ _ ih =>
    have barrier := isBarrier_of_isQuote quoted
    have resolved := inner barrier barrier body (textOf rest)
    rw [ih settled.tail] at resolved
    rw [List.map_cons, textOf_cons, textOf_cons]
    simpa [Piece.text, Piece.resolved] using resolved
  | @block body rest _ _ ih =>
    have opening : resolveInterpolations ('/' :: '*' :: (body ++ '*' :: '/' :: textOf rest)) =
        '/' :: resolveInterpolations ('*' :: (body ++ '*' :: '/' :: textOf rest)) :=
      resolve_cons fun same => absurd same (by decide)
    have closing : resolveInterpolations ('/' :: textOf rest) =
        '/' :: textOf (rest.map Piece.resolved) := by
      rw [← ih settled.tail]
      exact resolve_cons fun same => absurd same (by decide)
    rw [inner (by decide) (by decide), closing] at opening
    rw [List.map_cons, textOf_cons, textOf_cons]
    simpa [Piece.text, Piece.resolved] using opening
  | @line body rest _ ends _ ih =>
    have last : textOf rest = [] ∨ (textOf rest).head? = some '\n' := by
      rcases ends with rfl | first
      · exact .inl rfl
      · obtain ⟨more, rfl⟩ := List.head?_eq_some_iff.mp first
        exact .inr rfl
    have across := noneAcross_line (settled.line body List.mem_cons_self) last
    rw [List.map_cons, textOf_cons, textOf_cons]
    change resolveInterpolations ('/' :: '/' :: (body ++ textOf rest)) = _
    rw [resolve_cons fun same => absurd same (by decide),
      resolve_cons fun same => absurd same (by decide), resolve_append across, ih settled.tail]
    rfl

/-! What is resolved stays whole. -/

theorem isForeign_of_isQuote {c : Char} (h : isQuote c = true) : isForeign c = true := by
  simp only [isQuote, Bool.or_eq_true, beq_iff_eq] at h
  rcases h with (rfl | rfl) | rfl <;> decide

/-- A character that no property holds is in a resolved text only if it was there. -/
theorem mem_of_mem_resolve {c : Char} (h : isForeign c = true) {text : List Char}
    (mem : c ∈ resolveInterpolations text) : c ∈ text := by
  fun_induction resolveInterpolations text with
  | case1 => exact mem
  | case2 rest out after found _ ih =>
    obtain ⟨r, rfl, rfl⟩ := reference?_eq_some found
    have behind := ih ((List.mem_append.mp mem).resolve_left (r.not_mem_property h))
    simp [behind]
  | case3 rest _ ih =>
    exact (List.mem_cons.mp mem).elim (· ▸ List.mem_cons_self) (List.mem_cons_of_mem '$' <| ih ·)
  | case4 d rest _ ih =>
    exact (List.mem_cons.mp mem).elim (· ▸ List.mem_cons_self) (List.mem_cons_of_mem d <| ih ·)

/-- A property begins with the `v` of `var`. -/
theorem Reference.property_cons (r : Reference) : ∃ more, r.property = 'v' :: more := by
  rw [r.property_eq]
  exact ⟨_, rfl⟩

theorem head_of_resolve {c : Char} (h : isForeign c = true) {text : List Char}
    (first : (resolveInterpolations text).head? = some c) : text.head? = some c := by
  fun_induction resolveInterpolations text with
  | case1 => exact first
  | case2 rest out after found _ _ =>
    obtain ⟨r, -, rfl⟩ := reference?_eq_some found
    obtain ⟨more, eq⟩ := r.property_cons
    rw [eq] at first
    cases first
    cases h
  | case3 => exact first
  | case4 => exact first

theorem infix_cons_iff {α : Type} {a b c : α} {rest : List α} :
    [a, b] <:+: c :: rest ↔ c = a ∧ rest.head? = some b ∨ [a, b] <:+: rest := by
  rw [List.infix_cons_iff, List.cons_prefix_cons, List.singleton_prefix_iff_head?_eq_some]
  simp only [eq_comm]

theorem infix_append_of_not_mem {a b : Char} {x y : List Char} (none : a ∉ x)
    (h : [a, b] <:+: x ++ y) : [a, b] <:+: y := by
  induction x with
  | nil => exact h
  | cons c x ih =>
    rcases infix_cons_iff.mp h with ⟨rfl, -⟩ | found
    · exact absurd List.mem_cons_self none
    · exact ih (fun mem => none (List.mem_cons_of_mem c mem)) found

/-- No block comment ends sooner when the interpolations in it are resolved. -/
theorem resolve_unclosed {body : List Char} (h : ¬ ['*', '/'] <:+: body) :
    ¬ ['*', '/'] <:+: resolveInterpolations body := by
  fun_induction resolveInterpolations body with
  | case1 => exact h
  | case2 rest out after found _ ih =>
    obtain ⟨r, rfl, rfl⟩ := reference?_eq_some found
    have tail : ¬ ['*', '/'] <:+: after := fun found =>
      h (List.infix_cons (List.infix_cons (found.trans (List.suffix_append r.inside after).isInfix)))
    exact fun found => ih tail (infix_append_of_not_mem (r.not_mem_property (by decide)) found)
  | case3 rest _ ih =>
    have tail : ¬ ['*', '/'] <:+: '{' :: rest := fun found => h (List.infix_cons found)
    intro found
    rcases infix_cons_iff.mp found with ⟨same, -⟩ | found
    · cases same
    · exact ih tail found
  | case4 c rest _ ih =>
    have tail : ¬ ['*', '/'] <:+: rest := fun found => h (List.infix_cons found)
    intro found
    rcases infix_cons_iff.mp found with ⟨rfl, slash⟩ | found
    · exact h (infix_cons_iff.mpr (.inl ⟨rfl, head_of_resolve (by decide) slash⟩))
    · exact ih tail found

section Bodies

variable {quote : Char}

theorem QuotedBody.append {x y : List Char} (first : QuotedBody quote x)
    (second : QuotedBody quote y) : QuotedBody quote (x ++ y) := by
  induction first with
  | nil => exact second
  | escaped _ ih => exact .escaped ih
  | plain other slash line _ ih => exact .plain other slash line ih

/-- Characters that a body does not turn on are a body. -/
theorem quotedBody_plain {text : List Char} (h : ∀ c ∈ text, c ≠ quote ∧ c ≠ '\\' ∧ c ≠ '\n') :
    QuotedBody quote text := by
  induction text with
  | nil => exact .nil
  | cons c text ih =>
    obtain ⟨other, slash, line⟩ := h c List.mem_cons_self
    exact .plain other slash (absurd · line) (ih fun d mem => h d (List.mem_cons_of_mem c mem))

theorem QuotedBody.tail {c : Char} {rest : List Char} (h : QuotedBody quote (c :: rest))
    (slash : c ≠ '\\') : QuotedBody quote rest := by
  cases h with
  | escaped => exact absurd rfl slash
  | plain _ _ _ tail => exact tail

theorem QuotedBody.behind {x y : List Char} (h : QuotedBody quote (x ++ y)) (none : '\\' ∉ x) :
    QuotedBody quote y := by
  induction x with
  | nil => exact h
  | cons c x ih =>
    have other : c ≠ '\\' := fun same => none (same ▸ List.mem_cons_self)
    exact ih (h.tail other) fun mem => none (List.mem_cons_of_mem c mem)

/-- A resolved body is one, also behind a backslash that escapes its first character. -/
theorem QuotedBody.resolve (quoted : isQuote quote = true) {body : List Char} :
    (QuotedBody quote body → QuotedBody quote (resolveInterpolations body)) ∧
      (QuotedBody quote ('\\' :: body) → QuotedBody quote ('\\' :: resolveInterpolations body)) := by
  have property (r : Reference) : QuotedBody quote r.property := by
    refine quotedBody_plain fun c mem => ⟨?_, ?_, ?_⟩ <;> rintro rfl
    · exact r.not_mem_property (isForeign_of_isQuote quoted) mem
    · exact r.not_mem_property (by decide) mem
    · exact r.not_mem_property (by decide) mem
  fun_induction resolveInterpolations body with
  | case1 => exact ⟨id, id⟩
  | case2 rest out after found _ ih =>
    obtain ⟨r, rfl, rfl⟩ := reference?_eq_some found
    have none : '\\' ∉ r.inside := fun mem =>
      r.not_mem_text (c := '\\') (by decide) (List.mem_cons_of_mem _ (List.mem_cons_of_mem _ mem))
    refine ⟨fun h => ?_, fun h => ?_⟩
    · have tail := ((h.tail (by decide)).tail (by decide)).behind none
      exact (property r).append (ih.1 tail)
    · -- The escape takes the `v` of the property in place of the dollar sign.
      have tail : QuotedBody quote after := by
        cases h with
        | escaped tail => exact (tail.tail (by decide)).behind none
        | plain _ slash => exact absurd rfl slash
      have whole := (property r).append (ih.1 tail)
      obtain ⟨more, eq⟩ := r.property_cons
      rw [eq] at whole ⊢
      exact .escaped (whole.tail (by decide))
  | case3 rest _ ih =>
    refine ⟨fun h => ?_, fun h => ?_⟩
    · cases h with
      | plain other slash line tail => exact .plain other slash line (ih.1 tail)
    · cases h with
      | escaped tail => exact .escaped (ih.1 tail)
      | plain _ slash => exact absurd rfl slash
  | case4 c rest _ ih =>
    refine ⟨fun h => ?_, fun h => ?_⟩
    · by_cases slash : c = '\\'
      · subst slash
        exact ih.2 h
      · cases h with
        | escaped => exact absurd rfl slash
        | plain other slash line tail => exact .plain other slash line (ih.1 tail)
    · cases h with
      | escaped tail => exact .escaped (ih.1 tail)
      | plain _ slash => exact absurd rfl slash

end Bodies

section Map

variable {f : Piece → Piece} (atCode : ∀ c, f (.code c) = .code c)
  (atQuoted : ∀ quote body, isQuote quote = true → QuotedBody quote body →
    ∃ quote' body', f (.quoted quote body) = .quoted quote' body' ∧ isQuote quote' = true ∧
      QuotedBody quote' body')
  (atBlock : ∀ body, ¬ ['*', '/'] <:+: body →
    ∃ body', f (.blockComment body) = .blockComment body' ∧ ¬ ['*', '/'] <:+: body')
  (atLine : ∀ body, '\n' ∉ body → ∃ body', f (.lineComment body) = .lineComment body' ∧ '\n' ∉ body')

include atCode atQuoted atBlock atLine

/-- What changes each string and comment by itself leaves a text whole. -/
theorem Whole.map {ps : List Piece} (h : Whole ps) : Whole (ps.map f) := by
  induction h with
  | nil => exact .nil
  | @code c rest quote slash tail ih =>
    rw [List.map_cons, atCode]
    refine .code quote (fun same piece first => ?_) ih
    cases tail with
    | nil => cases first
    | @code d =>
      rw [List.map_cons, atCode] at first
      exact slash same piece first
    | @quoted quote body _ quoted inner =>
      obtain ⟨_, _, eq, -⟩ := atQuoted quote body quoted inner
      rw [List.map_cons, eq] at first
      cases first
      rfl
    | block => cases slash same _ rfl
    | line => cases slash same _ rfl
  | @quoted quote body rest quoted inner _ ih =>
    obtain ⟨_, _, eq, quoted, inner⟩ := atQuoted quote body quoted inner
    rw [List.map_cons, eq]
    exact .quoted quoted inner ih
  | @block body rest closed _ ih =>
    obtain ⟨_, eq, closed⟩ := atBlock body closed
    rw [List.map_cons, eq]
    exact .block closed ih
  | @line body rest one ends _ ih =>
    obtain ⟨_, eq, one⟩ := atLine body one
    rw [List.map_cons, eq]
    refine .line one ?_ ih
    rcases ends with rfl | first
    · exact .inl rfl
    · obtain ⟨more, rfl⟩ := List.head?_eq_some_iff.mp first
      rw [List.map_cons, atCode]
      exact .inr rfl

end Map

theorem Whole.resolved {ps : List Piece} (h : Whole ps) : Whole (ps.map Piece.resolved) :=
  h.map (fun _ => rfl)
    (fun quote body quoted inner => ⟨quote, _, rfl, quoted, (QuotedBody.resolve quoted).1 inner⟩)
    (fun _ closed => ⟨_, rfl, resolve_unclosed closed⟩)
    (fun _ one => ⟨_, rfl, fun mem => one (mem_of_mem_resolve (by decide) mem)⟩)

end ThemeSheet.Literal
