import ThemeSheet.Proofs.Functions
import ThemeSheet.Proofs.UnmaskedData

/-! Texts that differ in what no reader of a literal looks at: blanks between tokens, a comma before
a closing bracket, and the way in which a string is written. -/

namespace ThemeSheet.Literal

open Text

/-- No plain character begins the text. -/
def Breaks (text : List Char) : Prop :=
  ∀ c ∈ text.head?, isPlain c = false

/-- What goes on into one of two texts goes on alike into the other. -/
def SameFront (x y : List Char) : Prop :=
  x.head? = y.head? ∨ Breaks x ∧ Breaks y

/-- A text that makes no comment of a slash before it. -/
def NoComment (text : List Char) : Prop :=
  ∀ c ∈ text.head?, c ≠ '/' ∧ c ≠ '*'

/-- A character behind which a container has no part that a comma could end. -/
def opensPart (c : Char) : Bool :=
  c == '{' || c == '[' || c == ','

/-- A character of code that two texts may go on behind. -/
structure Joins (c : Char) (x y : List Char) : Prop where
  quote : isQuote c = false
  slash : c = '/' → NoComment x ∧ NoComment y
  front : isPlain c = true → SameFront x y
  comma : opensPart c = true → (trimLeft x).head? = some ',' → (trimLeft y).head? = some ','

/-- The second text may have more blanks than the first and lack commas before closing brackets.
Strings may be written otherwise. -/
inductive Alike : List Char → List Char → Prop
  | nil : Alike [] []
  | blank {c x y} (blank : isBlank c = true) (tail : Alike x y) : Alike x (c :: y)
  | comma {gap closer x y} (blanks : Blanks gap) (closes : closesContainer closer = true)
    (tail : Alike x y) : Alike (',' :: (gap ++ closer :: x)) (closer :: y)
  | code {c x y} (joins : Joins c x y) (tail : Alike x y) : Alike (c :: x) (c :: y)
  | string {body body' x y} (inner : StringBody body) (inner' : StringBody body')
    (same : ∀ site, readString site body = readString site body') (tail : Alike x y) :
    Alike ('"' :: (body ++ '"' :: x)) ('"' :: (body' ++ '"' :: y))
  | mark {x y} (tail : Alike x y) : Alike (functionMark ++ x) (functionMark ++ y)

/-- Two texts alike that go on alike from what is before them. -/
structure Tied (x y : List Char) : Prop where
  alike : Alike x y
  front : SameFront x y

/-- Two texts alike behind the spaces that began them. -/
structure Trimmed (x y : List Char) : Prop where
  alike : Alike x y
  front : x.head? = y.head? ∨ x.head? = some ',' ∧ y.head?.any closesContainer = true

/-! Classes of characters. -/

theorem breaks_nil : Breaks [] := by
  intro c h
  cases h

theorem breaks_cons {c : Char} {rest : List Char} : Breaks (c :: rest) ↔ isPlain c = false := by
  simp [Breaks]

theorem not_plain_of_isBlank {c : Char} (h : isBlank c = true) : isPlain c = false := by
  simp [isPlain, isSpace_of_isBlank h]

theorem not_plain_of_closes {c : Char} (h : closesContainer c = true) : isPlain c = false := by
  simp only [closesContainer, Bool.or_eq_true, beq_iff_eq] at h
  rcases h with rfl | rfl <;> decide

theorem isPlain_of_isNamePart {c : Char} (h : isNamePart c = true) : isPlain c = true := by
  by_cases small : c.toNat < 128
  · have := of_ascii (fun c => !isNamePart c || isPlain c) small (by decide +kernel)
    simpa [h] using this
  · have apart (d : Char) (near : d.toNat < 128) : c ≠ d := by
      rintro rfl
      exact small near
    have space : isSpace c = false := by
      refine Bool.eq_false_iff.mpr fun space => ?_
      rw [not_isNamePart_of_isSpace space] at h
      cases h
    simp [isPlain, isQuote, space, apart '"' (by decide), apart '\'' (by decide),
      apart backtick (by decide), apart '{' (by decide), apart '}' (by decide),
      apart '[' (by decide), apart ']' (by decide), apart ',' (by decide), apart ':' (by decide)]

theorem Joins.none_opens {c : Char} {x y : List Char} (h : Joins c x y) :
    afterOpaque? (c :: x) = none ∧ afterOpaque? (c :: y) = none := by
  by_cases slash : c = '/'
  · have code {text : List Char} (safe : NoComment text) : afterOpaque? ('/' :: text) = none := by
      cases text with
      | nil => rfl
      | cons d text =>
        obtain ⟨line, block⟩ := safe d rfl
        simp [afterOpaque?, line, block, isQuote, backtick]
    obtain ⟨first, second⟩ := h.slash slash
    subst slash
    exact ⟨code first, code second⟩
  · exact ⟨afterOpaque?_code slash h.quote x, afterOpaque?_code slash h.quote y⟩

theorem SameFront.refl (x : List Char) : SameFront x x :=
  .inl rfl

theorem Trimmed.tied {x y : List Char} (h : Trimmed x y) : Tied x y := by
  refine ⟨h.alike, ?_⟩
  rcases h.front with same | ⟨comma, closes⟩
  · exact .inl same
  · refine .inr ⟨fun c hc => ?_, fun c hc => ?_⟩
    · rw [comma] at hc
      cases hc
      decide
    · rw [Option.mem_def] at hc
      rw [hc] at closes
      exact not_plain_of_closes closes

theorem trimLeft_of_isBlank {c : Char} (h : isBlank c = true) (rest : List Char) :
    trimLeft (c :: rest) = trimLeft rest := by
  rw [trimLeft, List.dropWhile_cons, if_pos (isSpace_of_isBlank h)]
  rfl

theorem not_isSpace_of_closes {c : Char} (h : closesContainer c = true) : isSpace c = false := by
  simp only [closesContainer, Bool.or_eq_true, beq_iff_eq] at h
  rcases h with rfl | rfl <;> decide

theorem trimLeft_mark (text : List Char) :
    trimLeft (functionMark ++ text) = functionMark ++ text :=
  trimLeft_cons (c := '@') (by decide) _

/-- The spaces in front are dropped. -/
theorem trimLeft_alike {x y : List Char} (h : Alike x y) :
    Trimmed (trimLeft x) (trimLeft y) := by
  induction h with
  | nil => exact ⟨.nil, .inl rfl⟩
  | blank blank _ ih =>
    rw [trimLeft_of_isBlank blank]
    exact ih
  | comma blanks closes tail _ =>
    rw [trimLeft_cons (by decide), trimLeft_cons (not_isSpace_of_closes closes)]
    exact ⟨.comma blanks closes tail, .inr ⟨rfl, closes⟩⟩
  | @code c x y joins tail ih =>
    cases space : isSpace c with
    | true =>
      simp only [trimLeft, List.dropWhile_cons, space, if_true]
      exact ih
    | false =>
      rw [trimLeft_cons space, trimLeft_cons space]
      exact ⟨.code joins tail, .inl rfl⟩
  | string inner inner' same tail _ =>
    rw [trimLeft_cons (by decide), trimLeft_cons (by decide)]
    exact ⟨.string inner inner' same tail, .inl rfl⟩
  | mark tail _ =>
    rw [trimLeft_mark, trimLeft_mark]
    exact ⟨.mark tail, .inl rfl⟩

/-! Words and names. -/

theorem isPrefixOf?_breaks {c : Char} (plain : isPlain c = true) (word : List Char)
    {text : List Char} (h : Breaks text) : (c :: word).isPrefixOf? text = none := by
  cases text with
  | nil => rfl
  | cons d text =>
    have apart : c ≠ d := by
      rintro rfl
      rw [breaks_cons.mp h] at plain
      cases plain
    simp [Token.isPrefixOf?_cons, apart]

/-- Behind a plain character that begins both texts they go on alike. -/
theorem Alike.tail {c : Char} (plain : isPlain c = true) (other : c ≠ '@') {x y : List Char}
    (h : Alike (c :: x) (c :: y)) : Tied x y := by
  cases h with
  | blank blank _ =>
    rw [not_plain_of_isBlank blank] at plain
    cases plain
  | comma _ closes _ => cases closes
  | code joins tail => exact ⟨tail, joins.front plain⟩
  | string => cases plain
  | mark => exact absurd rfl other

theorem isPrefixOf?_tied {word : List Char} (plain : ∀ c ∈ word, isPlain c = true ∧ c ≠ '@')
    {x y : List Char} (h : Tied x y) :
    Option.Rel Tied (word.isPrefixOf? x) (word.isPrefixOf? y) := by
  induction word generalizing x y with
  | nil => exact .some h
  | cons c word ih =>
    obtain ⟨here, other⟩ := plain c List.mem_cons_self
    have later : ∀ d ∈ word, isPlain d = true ∧ d ≠ '@' := fun d hd =>
      plain d (List.mem_cons_of_mem c hd)
    rcases h.front with same | ⟨first, second⟩
    · cases x with
      | nil =>
        obtain rfl : y = [] := by simpa using same.symm
        exact .none
      | cons d x =>
        obtain ⟨y, rfl⟩ := List.head?_eq_some_iff.mp same.symm
        rw [Token.isPrefixOf?_cons, Token.isPrefixOf?_cons]
        by_cases eq : c = d
        · subst eq
          rw [if_pos rfl, if_pos rfl]
          exact ih later (h.alike.tail here other)
        · rw [if_neg eq, if_neg eq]
          exact .none
    · rw [isPrefixOf?_breaks here word first, isPrefixOf?_breaks here word second]
      exact .none

theorem Breaks.name {text : List Char} (h : Breaks text) :
    text.takeWhile isNamePart = [] ∧ text.dropWhile isNamePart = text := by
  cases text with
  | nil => exact ⟨rfl, rfl⟩
  | cons c text =>
    have other : isNamePart c = false := by
      refine Bool.eq_false_iff.mpr fun part => ?_
      have plain := breaks_cons.mp h
      rw [isPlain_of_isNamePart part] at plain
      cases plain
    simp [other]

/-- A name at the front is the same, and so is what follows it. -/
theorem name_tied {x y : List Char} (h : Tied x y) :
    x.takeWhile isNamePart = y.takeWhile isNamePart ∧
      Tied (x.dropWhile isNamePart) (y.dropWhile isNamePart) := by
  induction x generalizing y with
  | nil =>
    have none : Breaks y := by
      rcases h.front with same | ⟨-, second⟩
      · obtain rfl : y = [] := by simpa using same.symm
        exact breaks_nil
      · exact second
    rw [none.name.1, none.name.2]
    exact ⟨rfl, h⟩
  | cons c x ih =>
    rcases h.front with same | ⟨first, second⟩
    · obtain ⟨y, rfl⟩ := List.head?_eq_some_iff.mp same.symm
      cases part : isNamePart c with
      | true =>
        have other : c ≠ '@' := by
          rintro rfl
          exact absurd part (by decide)
        obtain ⟨taken, left⟩ := ih (h.alike.tail (isPlain_of_isNamePart part) other)
        simp only [List.takeWhile_cons, List.dropWhile_cons, part, if_true, taken, left, and_self]
      | false =>
        simp only [List.takeWhile_cons, List.dropWhile_cons, part, Bool.false_eq_true, if_false]
        exact ⟨trivial, h⟩
    · rw [first.name.1, first.name.2, second.name.1, second.name.2]
      exact ⟨rfl, h⟩

/-! Brackets. -/

/-- A character that no scan for a bracket stops at. -/
def isIgnored (c : Char) : Bool :=
  c != '/' && !isQuote c && !opensBracket c && !closesBracket c

section brackets

variable {opening closing : Char} (pair : closing? opening = some closing)

include pair

theorem bracket_pair : opensBracket opening = true ∧ closesBracket closing = true := by
  unfold closing? at pair
  split at pair <;> cases pair <;> decide

theorem afterClose?_ignored {c : Char} (h : isIgnored c = true) (depth : Nat) (rest : List Char) :
    afterClose? opening closing depth (c :: rest) = afterClose? opening closing depth rest := by
  simp only [isIgnored, Bool.and_eq_true, bne_iff_ne, Bool.not_eq_true'] at h
  obtain ⟨⟨⟨slash, quote⟩, opens⟩, closes⟩ := h
  obtain ⟨left, right⟩ := bracket_pair pair
  have other : c ≠ opening ∧ c ≠ closing := by
    constructor <;> rintro rfl <;> simp_all
  rw [afterClose?_code (afterOpaque?_code slash quote rest), if_neg other.1, if_neg other.2]

theorem afterClose?_ignoring {start : List Char} (h : ∀ c ∈ start, isIgnored c = true)
    (depth : Nat) (rest : List Char) :
    afterClose? opening closing depth (start ++ rest) = afterClose? opening closing depth rest := by
  induction start with
  | nil => rfl
  | cons c start ih =>
    rw [List.cons_append, afterClose?_ignored pair (h c List.mem_cons_self),
      ih fun d hd => h d (List.mem_cons_of_mem c hd)]

end brackets

theorem isIgnored_of_isBlank {c : Char} (h : isBlank c = true) : isIgnored c = true := by
  simp only [isBlank, Bool.or_eq_true, beq_iff_eq] at h
  rcases h with (((rfl | rfl) | rfl) | rfl) | rfl <;> decide

theorem afterOpaque?_closes {c : Char} (h : closesContainer c = true) (rest : List Char) :
    afterOpaque? (c :: rest) = none := by
  simp only [closesContainer, Bool.or_eq_true, beq_iff_eq] at h
  rcases h with rfl | rfl <;> exact afterOpaque?_code (by decide) (by decide) rest

theorem StringBody.behind {body : List Char} (h : StringBody body) (rest : List Char) :
    afterOpaque? ('"' :: (body ++ '"' :: rest)) = some rest := by
  rw [afterOpaque?_quote (by decide), afterString_of_splitString? (h.split rest)]

/-- A bracket is closed alike in texts alike. -/
theorem afterClose?_alike {opening closing : Char} (pair : closing? opening = some closing)
    {x y : List Char} (h : Alike x y) (depth : Nat) :
    Option.Rel Alike (afterClose? opening closing depth x)
      (afterClose? opening closing depth y) := by
  -- A bracket of the pair changes the depth, and the last closing one is found.
  have step {c : Char} {x y : List Char} {depth : Nat} (tail : Alike x y)
      (ih : ∀ depth, Option.Rel Alike (afterClose? opening closing depth x)
        (afterClose? opening closing depth y)) :
      Option.Rel Alike
        (if c = opening then afterClose? opening closing (depth + 1) x
          else if c = closing then
            if depth ≤ 1 then some x else afterClose? opening closing (depth - 1) x
          else afterClose? opening closing depth x)
        (if c = opening then afterClose? opening closing (depth + 1) y
          else if c = closing then
            if depth ≤ 1 then some y else afterClose? opening closing (depth - 1) y
          else afterClose? opening closing depth y) := by
    split
    · exact ih _
    · split
      · split
        · exact .some tail
        · exact ih _
      · exact ih _
  induction h generalizing depth with
  | nil =>
    rw [afterClose?]
    exact .none
  | blank blank _ ih =>
    rw [afterClose?_ignored pair (isIgnored_of_isBlank blank)]
    exact ih depth
  | comma blanks closes tail ih =>
    rw [afterClose?_ignored pair (by decide),
      afterClose?_ignoring pair fun c hc => isIgnored_of_isBlank (blanks c hc),
      afterClose?_code (afterOpaque?_closes closes _), afterClose?_code (afterOpaque?_closes closes _)]
    exact step tail ih
  | code joins tail ih =>
    rw [afterClose?_code joins.none_opens.1, afterClose?_code joins.none_opens.2]
    exact step tail ih
  | string inner inner' _ _ ih =>
    rw [afterClose?_of_afterOpaque? (inner.behind _), afterClose?_of_afterOpaque? ( inner'.behind _)]
    exact ih depth
  | mark _ ih =>
    have plain : ∀ c ∈ functionMark, isIgnored c = true := List.all_eq_true.mp (by decide)
    rw [afterClose?_ignoring pair plain, afterClose?_ignoring pair plain]
    exact ih depth

theorem afterBalanced?_none {text : List Char} (h : ∀ c ∈ text.head?, closing? c = none) :
    afterBalanced? text = none := by
  cases text with
  | nil => rfl
  | cons c rest => rw [afterBalanced?, h c rfl, Option.bind_none]

theorem afterBalanced?_trimmed {x y : List Char} (h : Trimmed x y) :
    Option.Rel Alike (afterBalanced? x) (afterBalanced? y) := by
  by_cases pair : ∃ c ∈ y.head?, (closing? c).isSome = true
  · obtain ⟨c, first, pair⟩ := pair
    obtain ⟨closing, pair⟩ := Option.isSome_iff_exists.mp pair
    obtain ⟨y, rfl⟩ := List.head?_eq_some_iff.mp first
    have bracket := bracket_pair pair
    have same : x.head? = some c := by
      rcases h.front with same | ⟨-, closes⟩
      · exact same
      · have closes : closesContainer c = true := closes
        have := not_opensBracket_of_closes (c := c) (by simp [closesBracket, closes])
        rw [bracket.1] at this
        cases this
    obtain ⟨x, rfl⟩ := List.head?_eq_some_iff.mp same
    rw [afterBalanced?, afterBalanced?, pair, Option.bind_some, Option.bind_some]
    have tail : Alike x y := by
      cases h.alike with
      | blank blank _ =>
        simp only [isBlank, Bool.or_eq_true, beq_iff_eq] at blank
        rcases blank with (((rfl | rfl) | rfl) | rfl) | rfl <;> cases pair
      | comma => cases pair
      | code _ tail => exact tail
      | string => cases pair
      | mark => cases pair
    exact afterClose?_alike pair tail 1
  · have second : ∀ c ∈ y.head?, closing? c = none := fun c hc => by
      refine Option.not_isSome_iff_eq_none.mp fun some => pair ⟨c, hc, some⟩
    have first : ∀ c ∈ x.head?, closing? c = none := by
      rcases h.front with same | ⟨comma, -⟩
      · rwa [same]
      · intro c hc
        rw [comma] at hc
        cases hc
        rfl
    rw [afterBalanced?_none first, afterBalanced?_none second]
    exact .none

end ThemeSheet.Literal
