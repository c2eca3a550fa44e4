import ThemeSheet.Proofs.Brackets

namespace ThemeSheet

open Text

/-- No space can stand in a name. -/
theorem not_isNamePart_of_isSpace {c : Char} (h : isSpace c = true) : isNamePart c = false := by
  by_cases small : c.toNat < 128
  · have := of_ascii (fun c => !isSpace c || !isNamePart c) small (by decide +kernel)
    simpa [h] using this
  · obtain ⟨space, mem, low, high⟩ := Ranges.covers_iff.mp h
    have apart : ∀ space ∈ spaceRanges, ∀ word ∈ wordRanges,
        space.2 < word.1 ∨ word.2 < space.1 := by decide +kernel
    have no_word : wordRanges.covers c = false := by
      apply Bool.eq_false_iff.mpr
      intro word
      obtain ⟨word, mem', low', high'⟩ := Ranges.covers_iff.mp word
      have := apart space mem word mem'
      omega
    have dollar : c ≠ '$' := by
      rintro rfl
      exact small (by decide)
    simp [isNamePart, isWord, small, no_word, dollar]

namespace Literal

def IsName (text : List Char) : Prop :=
  startsName text = true ∧ ∀ c ∈ text, isNamePart c = true

/-- What may stand before a function: `async` and spaces, or nothing. -/
inductive Async : List Char → Prop
  | no : Async []
  | yes {spaces} (some : spaces ≠ []) (all : Spaces spaces) : Async ("async".toList ++ spaces)

/-- What may stand before the name of a method: a star and spaces, or nothing. -/
inductive Star : List Char → Prop
  | no : Star []
  | yes {spaces} (all : Spaces spaces) : Star ('*' :: spaces)

/-- What stands between `function` and the parameters. A name needs a space or a star before it. -/
inductive FunctionName : List Char → Prop
  | plain {spaces} (all : Spaces spaces) : FunctionName spaces
  | named {spaces name after} (some : spaces ≠ []) (all : Spaces spaces) (named : IsName name)
    (all' : Spaces after) : FunctionName (spaces ++ (name ++ after))
  | star {spaces after} (all : Spaces spaces) (all' : Spaces after) :
    FunctionName (spaces ++ '*' :: after)
  | namedStar {spaces middle name after} (all : Spaces spaces) (all' : Spaces middle)
    (named : IsName name) (all'' : Spaces after) :
    FunctionName (spaces ++ '*' :: (middle ++ (name ++ after)))

/-- What stands before an arrow: one name or a list of parameters. -/
inductive ArrowParams : List Char → Prop
  | name {async name spaces} (before : Async async) (named : IsName name) (all : Spaces spaces) :
    ArrowParams (async ++ (name ++ spaces))
  | list {params spaces} (list : Bracketed '(' params) (all : Spaces spaces) :
    ArrowParams (params ++ spaces)
  | asyncList {gap params spaces} (between : Spaces gap) (list : Bracketed '(' params)
    (all : Spaces spaces) : ArrowParams ("async".toList ++ (gap ++ (params ++ spaces)))

/-- What stands behind an arrow: a block, or an expression that begins with no brace. -/
inductive ArrowBody : List Char → Prop
  | block {spaces block} (all : Spaces spaces) (closed : Bracketed '{' block) :
    ArrowBody (spaces ++ block)
  | expression {text} (body : Expression 0 text) (first : (trimLeft text).head? ≠ some '{') :
    ArrowBody text

/-- A function that is a value. -/
inductive FunctionText : List Char → Prop
  | function {async name params spaces block} (before : Async async) (named : FunctionName name)
    (list : Bracketed '(' params) (all : Spaces spaces) (closed : Bracketed '{' block) :
    FunctionText (async ++ ("function".toList ++ (name ++ (params ++ (spaces ++ block)))))
  | arrow {params body} (before : ArrowParams params) (behind : ArrowBody body) :
    FunctionText (params ++ ("=>".toList ++ body))

/-- A method of a name, as it stands in an object. -/
inductive MethodText (name : List Char) : List Char → Prop
  | method {async star spaces params gap block} (before : Async async) (starred : Star star)
    (named : IsName name) (all : Spaces spaces) (list : Bracketed '(' params)
    (between : Spaces gap) (closed : Bracketed '{' block) :
    MethodText name (async ++ (star ++ (name ++ (spaces ++ (params ++ (gap ++ block))))))

/-! Spaces and names. -/

theorem trimLeft_cons {c : Char} (h : isSpace c = false) (rest : List Char) :
    trimLeft (c :: rest) = c :: rest := by
  rw [trimLeft, List.dropWhile_cons, if_neg (by simp [h])]

/-- A text in which no name goes on. -/
def EndsName (text : List Char) : Prop :=
  ∀ c ∈ text.head?, isNamePart c = false

theorem endsName_spaces {spaces : List Char} (h : Spaces spaces) {text : List Char}
    (ends : EndsName text) : EndsName (spaces ++ text) := by
  cases spaces with
  | nil => exact ends
  | cons c spaces =>
    intro d hd
    cases hd
    exact not_isNamePart_of_isSpace (h c List.mem_cons_self)

theorem name_append {name tail : List Char} (h : ∀ c ∈ name, isNamePart c = true)
    (ends : EndsName tail) :
    (name ++ tail).takeWhile isNamePart = name ∧ (name ++ tail).dropWhile isNamePart = tail := by
  rw [List.takeWhile_append_of_pos h, List.dropWhile_append_of_pos h]
  cases tail with
  | nil => simp
  | cons c tail =>
    have := ends c rfl
    simp [this]

theorem IsName.head {name : List Char} (h : IsName name) :
    ∃ c rest, name = c :: rest ∧ isNameStart c = true := by
  obtain ⟨starts, -⟩ := h
  cases name with
  | nil => cases starts
  | cons c rest => exact ⟨c, rest, rfl, starts⟩

/-- A name is no space, no star and no bracket. -/
theorem apart_of_isNameStart {c : Char} (h : isNameStart c = true) :
    isSpace c = false ∧ c ≠ '*' ∧ c ≠ '(' := by
  refine ⟨?_, ?_, ?_⟩
  · apply Bool.eq_false_iff.mpr
    intro space
    have := isNamePart_of_isNameStart h
    rw [not_isNamePart_of_isSpace space] at this
    cases this
  · rintro rfl
    exact absurd h (by decide)
  · rintro rfl
    exact absurd h (by decide)

theorem Bracketed.head {opening : Char} {text : List Char} (h : Bracketed opening text) :
    ∃ rest, text = opening :: rest :=
  List.head?_eq_some_iff.mp h.1

theorem fromParen?_spaces {spaces params : List Char} (all : Spaces spaces)
    (list : Bracketed '(' params) (more : List Char) :
    fromParen? (spaces ++ (params ++ more)) = some (params ++ more) := by
  obtain ⟨rest, rfl⟩ := list.head
  rw [fromParen?, trimLeft_spaces all, List.cons_append, trimLeft_cons (by decide)]
  rfl

theorem afterBlock?_spaces {spaces block : List Char} (all : Spaces spaces)
    (h : Bracketed '{' block) (more : List Char) :
    afterBlock? (spaces ++ (block ++ more)) = some more := by
  have closed := afterBalanced?_bracketed h more
  obtain ⟨rest, rfl⟩ := h.head
  rw [afterBlock?, fromBrace?, trimLeft_spaces all, List.cons_append, trimLeft_cons (by decide)]
  exact closed

theorem head?_spaceTails (text : List Char) :
    (spaceTails text).head? = if text.head?.any isSpace then some (trimLeft text) else none := by
  induction text with
  | nil => rfl
  | cons c rest ih =>
    cases space : isSpace c with
    | false => simp [spaceTails, space]
    | true =>
      have whole : trimLeft (c :: rest) = trimLeft rest := by
        rw [trimLeft, List.dropWhile_cons, if_pos space]
        rfl
      rw [spaceTails, if_pos space, List.head?_append, ih, whole]
      cases rest with
      | nil => simp [space, trimLeft]
      | cons d rest =>
        cases next : isSpace d with
        | true => simp [space, next]
        | false => simp [space, next, trimLeft_cons next]

theorem afterAsync_async (text : List Char) : afterAsync ("async".toList ++ text) =
    if text.head?.any isSpace then trimLeft text else "async".toList ++ text := by
  rw [afterAsync, afterWord, Token.isPrefixOf?_self]
  dsimp only
  rw [head?_spaceTails]
  split <;> rfl

theorem afterAsync_spaces {spaces : List Char} (some : spaces ≠ []) (all : Spaces spaces)
    (text : List Char) : afterAsync ("async".toList ++ (spaces ++ text)) = trimLeft text := by
  rw [afterAsync_async, trimLeft_spaces all, if_pos]
  cases spaces with
  | nil => exact absurd rfl some
  | cons c spaces => simpa using all c List.mem_cons_self

/-- A name that is not followed by another is taken for `async` only if it is that word. -/
theorem afterAsync_name {name tail : List Char} (h : ∀ c ∈ name, isNamePart c = true)
    (ends : EndsName tail) : afterAsync (name ++ tail) = name ++ tail ∨
      afterAsync (name ++ tail) = trimLeft tail := by
  cases found : "async".toList.isPrefixOf? (name ++ tail) with
  | none =>
    left
    unfold afterAsync afterWord
    rw [found]
    rfl
  | some rest =>
    have same := isPrefixOf?_append found
    rw [same, afterAsync_async]
    by_cases space : rest.head?.any isSpace = true
    · right
      have ends' : EndsName rest := by
        intro c hc
        rw [Option.mem_def.mp hc] at space
        exact not_isNamePart_of_isSpace (by simpa using space)
      have split := name_append h ends
      have split' := @name_append "async".toList rest (List.all_eq_true.mp (by decide)) ends'
      rw [same] at split
      rw [if_pos space, ← split.2, split'.2]
    · left
      rw [if_neg space]

theorem endsName_params {params : List Char} (h : Bracketed '(' params) (more : List Char) :
    EndsName (params ++ more) := by
  obtain ⟨rest, rfl⟩ := h.head
  intro c hc
  cases hc
  decide

theorem afterAsync_before {async : List Char} (before : Async async) {c : Char}
    (space : isSpace c = false) (other : c ≠ 'a') (rest : List Char) :
    afterAsync (async ++ c :: rest) = c :: rest := by
  cases before with
  | no => exact afterAsync_of_head other rest
  | yes some all => rw [List.append_assoc, afterAsync_spaces some all, trimLeft_cons space]

/-! Function expressions. -/

theorem afterStar_spaces {spaces : List Char} (all : Spaces spaces) {c : Char}
    (space : isSpace c = false) (star : c ≠ '*') (rest : List Char) :
    afterStar (spaces ++ c :: rest) = c :: rest := by
  have := afterStar_of_head space star rest
  unfold afterStar at this ⊢
  rwa [trimLeft_spaces all]

theorem afterStar_star {spaces middle : List Char} (all : Spaces spaces) (all' : Spaces middle)
    {c : Char} (space : isSpace c = false) (rest : List Char) :
    afterStar (spaces ++ '*' :: (middle ++ c :: rest)) = c :: rest := by
  unfold afterStar
  rw [trimLeft_spaces all, trimLeft_cons (by decide)]
  change trimLeft (middle ++ c :: rest) = c :: rest
  rw [trimLeft_spaces all', trimLeft_cons space]

/-- The parameters behind a name, spaces and a star, which are all optional. -/
theorem fromParen?_functionName {name params : List Char} (named : FunctionName name)
    (list : Bracketed '(' params) (more : List Char) :
    fromParen? (if startsName (afterStar (name ++ (params ++ more))) then
        (afterStar (name ++ (params ++ more))).dropWhile isNamePart
      else afterStar (name ++ (params ++ more))) = some (params ++ more) := by
  have unnamed {text : List Char} (eq : text = params ++ more) :
      fromParen? (if startsName text then text.dropWhile isNamePart else text) =
        some (params ++ more) := by
    subst eq
    have none : startsName (params ++ more) = false := by
      obtain ⟨rest, rfl⟩ := list.head
      rfl
    rw [none]
    exact @fromParen?_spaces [] params spaces_nil list more
  have after_name {text word after : List Char} (isName : IsName word) (all : Spaces after)
      (eq : text = word ++ (after ++ (params ++ more))) :
      fromParen? (if startsName text then text.dropWhile isNamePart else text) =
        some (params ++ more) := by
    subst eq
    obtain ⟨c, rest, rfl, starts⟩ := isName.head
    have split := name_append isName.2 (endsName_spaces all (endsName_params list more))
    have starts : startsName (c :: rest ++ (after ++ (params ++ more))) = true := starts
    rw [if_pos starts, split.2]
    exact fromParen?_spaces all list more
  obtain ⟨inner, same⟩ := list.head
  cases named with
  | plain all =>
    apply unnamed
    rw [same]
    exact afterStar_spaces all (by decide) (by decide) _
  | @named spaces word after some all isName all' =>
    apply after_name isName all'
    obtain ⟨c, rest, rfl, starts⟩ := isName.head
    obtain ⟨space, star, -⟩ := apart_of_isNameStart starts
    simp only [List.append_assoc, List.cons_append]
    exact afterStar_spaces all space star _
  | star all all' =>
    apply unnamed
    rw [same]
    simp only [List.append_assoc, List.cons_append]
    exact afterStar_star all all' (by decide) _
  | @namedStar spaces middle word after all all' isName all'' =>
    apply after_name isName all''
    obtain ⟨c, rest, rfl, starts⟩ := isName.head
    simp only [List.append_assoc, List.cons_append]
    exact afterStar_star all all' (apart_of_isNameStart starts).1 _

theorem not_isWord_functionName {name params : List Char} (named : FunctionName name)
    (list : Bracketed '(' params) (more : List Char) :
    (name ++ (params ++ more)).head?.any isWord = false := by
  have spaced {spaces text : List Char} (all : Spaces spaces)
      (first : text.head?.any isWord = false) : (spaces ++ text).head?.any isWord = false := by
    cases spaces with
    | nil => exact first
    | cons c spaces =>
      have := not_isNamePart_of_isSpace (all c List.mem_cons_self)
      simp only [isNamePart, Bool.or_eq_false_iff] at this
      simpa using this.1
  have paren : (params ++ more).head?.any isWord = false := by
    obtain ⟨rest, rfl⟩ := list.head
    rfl
  cases named with
  | plain all => exact spaced all paren
  | @named spaces word after some all _ _ =>
    obtain ⟨c, rest, rfl⟩ := List.exists_cons_of_ne_nil some
    have := not_isNamePart_of_isSpace (all c List.mem_cons_self)
    simp only [isNamePart, Bool.or_eq_false_iff] at this
    simpa using this.1
  | star all _ =>
    rw [List.append_assoc]
    exact spaced all rfl
  | namedStar all _ _ _ =>
    rw [List.append_assoc]
    exact spaced all rfl

theorem functionParams?_text {async name params : List Char} (before : Async async)
    (named : FunctionName name) (list : Bracketed '(' params) (more : List Char) :
    functionParams? (async ++ ("function".toList ++ (name ++ (params ++ more)))) =
      some (params ++ more) := by
  have word : afterAsync (async ++ ("function".toList ++ (name ++ (params ++ more)))) =
      "function".toList ++ (name ++ (params ++ more)) :=
    afterAsync_before before (by decide) (by decide) _
  rw [functionParams?, word, Token.isPrefixOf?_self]
  dsimp only
  rw [not_isWord_functionName named list more, if_neg Bool.false_ne_true]
  exact fromParen?_functionName named list more

/-! Arrow functions. -/

/-- What can stand in the head of a `function` before its parameters. -/
def isHeadChar (c : Char) : Bool :=
  isNamePart c || isSpace c || c == '*'

theorem passes_dropWhile {holds : Char → Bool} (h : ∀ c, holds c = true → isHeadChar c = true)
    (text : List Char) : Passes isHeadChar text (text.dropWhile holds) :=
  ⟨text.takeWhile holds, List.takeWhile_append_dropWhile.symm, fun c hc =>
    h c (List.all_eq_true.mp List.all_takeWhile c hc)⟩

theorem passes_trimLeft (text : List Char) : Passes isHeadChar text (trimLeft text) :=
  passes_dropWhile (fun c h => by simp [isHeadChar, h]) text

theorem passes_afterStar (text : List Char) : Passes isHeadChar text (afterStar text) := by
  refine (passes_trimLeft text).trans ?_
  unfold afterStar
  split
  · rename_i rest eq
    rw [eq]
    exact .cons (by decide) (passes_trimLeft rest)
  · exact .refl _

theorem passes_afterAsync (text : List Char) : Passes isHeadChar text (afterAsync text) := by
  cases found : "async".toList.isPrefixOf? text with
  | none =>
    unfold afterAsync afterWord
    rw [found]
    exact .refl _
  | some rest =>
    rw [isPrefixOf?_append found, afterAsync_async]
    split
    · exact Passes.trans ⟨"async".toList, rfl, List.all_eq_true.mp (by decide)⟩ (passes_trimLeft rest)
    · exact .refl _

/-- The parameters of a `function` stand behind characters of its head alone. -/
theorem functionParams?_passes {text params : List Char} (h : functionParams? text = some params) :
    Passes isHeadChar text params ∧ params.head? = some '(' := by
  have paren {text params : List Char} (h : fromParen? text = some params) :
      Passes isHeadChar text params ∧ params.head? = some '(' := by
    obtain ⟨eq, first⟩ := Option.filter_eq_some_iff.mp h
    cases eq
    exact ⟨passes_trimLeft text, by simpa using first⟩
  unfold functionParams? at h
  split at h
  · cases h
  · rename_i rest found
    split at h
    · cases h
    · obtain ⟨passes, first⟩ := paren h
      refine ⟨(passes_afterAsync text).trans ?_, first⟩
      rw [isPrefixOf?_append found]
      refine Passes.trans ⟨"function".toList, rfl, List.all_eq_true.mp (by decide)⟩ ((passes_afterStar rest).trans ?_)
      split at passes
      · exact (passes_dropWhile (fun c hc => by simp [isHeadChar, hc]) _).trans passes
      · exact passes

/-- Before an arrow with one name there is no `function`. -/
theorem functionParams?_none {start : List Char} (h : ∀ c ∈ start, isHeadChar c = true)
    (rest : List Char) : functionParams? (start ++ ("=>".toList ++ rest)) = none := by
  apply Option.eq_none_iff_forall_not_mem.mpr
  intro params found
  obtain ⟨⟨head, same, all⟩, first⟩ := functionParams?_passes found
  obtain ⟨tail, rfl⟩ := List.head?_eq_some_iff.mp first
  have left : (start ++ ("=>".toList ++ rest)).dropWhile isHeadChar = "=>".toList ++ rest := by
    rw [List.dropWhile_append_of_pos h]
    rfl
  have right : (head ++ '(' :: tail).dropWhile isHeadChar = '(' :: tail := by
    rw [List.dropWhile_append_of_pos all]
    rfl
  rw [same, right] at left
  cases left

theorem afterArrow?_spaces {spaces : List Char} (all : Spaces spaces) (rest : List Char) :
    afterArrow? (spaces ++ ("=>".toList ++ rest)) = some rest := by
  have arrow : trimLeft ("=>".toList ++ rest) = "=>".toList ++ rest := trimLeft_cons (by decide) _
  rw [afterArrow?, trimLeft_spaces all, arrow, Token.isPrefixOf?_self]

theorem afterArrow?_params {params : List Char} (list : Bracketed '(' params) {spaces : List Char}
    (all : Spaces spaces) (more : List Char) : afterArrow? (spaces ++ (params ++ more)) = none := by
  obtain ⟨rest, rfl⟩ := list.head
  rw [afterArrow?, trimLeft_spaces all, List.cons_append, trimLeft_cons (by decide)]
  rfl

theorem afterBareArrow?_none {text : List Char} (h : startsName text = false) :
    afterBareArrow? text = none := by
  simp [afterBareArrow?, h]

theorem startsName_params {params : List Char} (list : Bracketed '(' params) (more : List Char) :
    startsName (params ++ more) = false := by
  obtain ⟨rest, rfl⟩ := list.head
  rfl

theorem endsName_arrow (rest : List Char) : EndsName ("=>".toList ++ rest) := by
  intro c hc
  cases hc
  decide

theorem afterBareArrow?_name {name spaces : List Char} (named : IsName name) (all : Spaces spaces)
    (rest : List Char) : afterBareArrow? (name ++ (spaces ++ ("=>".toList ++ rest))) = some rest := by
  obtain ⟨c, tail, rfl, starts⟩ := named.head
  have starts : startsName (c :: tail ++ (spaces ++ ("=>".toList ++ rest))) = true := starts
  rw [afterBareArrow?, if_pos starts,
    (name_append named.2 (endsName_spaces all (endsName_arrow rest))).2]
  exact afterArrow?_spaces all rest

theorem isHeadChar_of_isSpace {c : Char} (h : isSpace c = true) : isHeadChar c = true := by
  simp [isHeadChar, h]

theorem isHeadChar_async {async : List Char} (h : Async async) :
    ∀ c ∈ async, isHeadChar c = true := by
  intro c hc
  cases h with
  | no => cases hc
  | yes _ all =>
    rcases List.mem_append.mp hc with hc | hc
    · have : ∀ c ∈ "async".toList, isHeadChar c = true := List.all_eq_true.mp (by decide)
      exact this c hc
    · exact isHeadChar_of_isSpace (all c hc)

theorem afterAsync_asyncList {gap params : List Char} (between : Spaces gap)
    (list : Bracketed '(' params) (more : List Char) :
    afterAsync ("async".toList ++ (gap ++ (params ++ more))) = params ++ more ∨
      afterAsync ("async".toList ++ (gap ++ (params ++ more))) =
        "async".toList ++ (gap ++ (params ++ more)) := by
  obtain ⟨tail, eq⟩ := list.head
  rw [afterAsync_async]
  split
  · left
    rw [trimLeft_spaces between, eq, List.cons_append, trimLeft_cons (by decide)]
  · exact .inr rfl

/-- A bare name before an arrow is found behind `async`, or at the front if it is `async` itself. -/
theorem afterBareArrow?_before {async name spaces : List Char} (before : Async async)
    (named : IsName name) (all : Spaces spaces) (rest : List Char) :
    (afterBareArrow? (afterAsync (async ++ (name ++ (spaces ++ ("=>".toList ++ rest)))))).or
      (afterBareArrow? (async ++ (name ++ (spaces ++ ("=>".toList ++ rest))))) = some rest := by
  have bare := afterBareArrow?_name named all rest
  cases before with
  | no =>
    rw [List.nil_append]
    rcases afterAsync_name named.2 (endsName_spaces all (endsName_arrow rest)) with same | past
    · rw [same, bare]
      rfl
    · have none : startsName (trimLeft (spaces ++ ("=>".toList ++ rest))) = false := by
        have arrow : trimLeft ("=>".toList ++ rest) = "=>".toList ++ rest :=
          trimLeft_cons (by decide) _
        rw [trimLeft_spaces all, arrow]
        rfl
      rw [past, afterBareArrow?_none none, bare]
      rfl
  | yes some all' =>
    obtain ⟨c, tail, eq, starts⟩ := named.head
    have past : trimLeft (name ++ (spaces ++ ("=>".toList ++ rest))) =
        name ++ (spaces ++ ("=>".toList ++ rest)) := by
      rw [eq, List.cons_append, trimLeft_cons (apart_of_isNameStart starts).1]
    rw [List.append_assoc, afterAsync_spaces some all', past, bare]
    rfl

theorem afterListArrow?_params {text params spaces rest : List Char}
    (list : Bracketed '(' params) (all : Spaces spaces)
    (whole : fromParams text = params ++ (spaces ++ ("=>".toList ++ rest))) :
    afterListArrow? text = some rest := by
  obtain ⟨tail, eq⟩ := list.head
  have opens : (params ++ (spaces ++ ("=>".toList ++ rest))).head? == some '(' := by
    rw [eq]
    rfl
  rw [afterListArrow?, whole, if_pos opens, afterBalanced?_bracketed list, Option.bind_some,
    afterArrow?_spaces all]

theorem functionParams?_params {text params more : List Char} (list : Bracketed '(' params)
    (past : afterAsync text = params ++ more) : functionParams? text = none := by
  obtain ⟨tail, eq⟩ := list.head
  rw [functionParams?, past, eq]
  rfl

theorem afterFunction?_bare {async name spaces : List Char} (before : Async async)
    (named : IsName name) (all : Spaces spaces) (rest : List Char) :
    afterFunction? (async ++ (name ++ (spaces ++ ("=>".toList ++ rest)))) =
      afterArrowBody? rest := by
  have head : ∀ c ∈ async ++ (name ++ spaces), isHeadChar c = true := by
    intro c hc
    simp only [List.mem_append] at hc
    rcases hc with hc | hc | hc
    · exact isHeadChar_async before c hc
    · simp [isHeadChar, named.2 c hc]
    · exact isHeadChar_of_isSpace (all c hc)
  have no_function := functionParams?_none head rest
  simp only [List.append_assoc] at no_function
  rw [afterFunction?, no_function]
  dsimp only
  rw [afterBareArrow?_before before named all]
  rfl

theorem afterFunction?_list {params spaces : List Char} (list : Bracketed '(' params)
    (all : Spaces spaces) (rest : List Char) :
    afterFunction? (params ++ (spaces ++ ("=>".toList ++ rest))) = afterArrowBody? rest := by
  obtain ⟨tail, eq⟩ := list.head
  have plain (more : List Char) : afterAsync (params ++ more) = params ++ more := by
    rw [eq]
    exact afterAsync_of_head (by decide) _
  have whole (more : List Char) : fromParams (params ++ more) = params ++ more := by
    rw [eq]
    exact fromParams_of_head (by decide) _
  rw [afterFunction?, functionParams?_params list (plain _)]
  dsimp only
  rw [plain, afterBareArrow?_none (startsName_params list _),
    afterListArrow?_params list all (whole _)]
  rfl

theorem afterFunction?_asyncList {gap params spaces : List Char} (between : Spaces gap)
    (list : Bracketed '(' params) (all : Spaces spaces) (rest : List Char) :
    afterFunction? ("async".toList ++ (gap ++ (params ++ (spaces ++ ("=>".toList ++ rest))))) =
      afterArrowBody? rest := by
  have whole : fromParams ("async".toList ++
      (gap ++ (params ++ (spaces ++ ("=>".toList ++ rest))))) =
        params ++ (spaces ++ ("=>".toList ++ rest)) := by
    rw [fromParams, Token.isPrefixOf?_self]
    change (fromParen? (gap ++ (params ++ (spaces ++ ("=>".toList ++ rest))))).getD _ = _
    rw [fromParen?_spaces between list]
    rfl
  have no_bare : afterBareArrow? ("async".toList ++
      (gap ++ (params ++ (spaces ++ ("=>".toList ++ rest))))) = none := by
    have ends := endsName_spaces between (endsName_params list (spaces ++ ("=>".toList ++ rest)))
    rw [afterBareArrow?, if_pos (by rfl), (name_append (List.all_eq_true.mp (by decide)) ends).2]
    exact afterArrow?_params list between _
  -- Without spaces behind it, `async` is not passed over: it is a name, of no function.
  have no_function : functionParams? ("async".toList ++
      (gap ++ (params ++ (spaces ++ ("=>".toList ++ rest))))) = none ∧
        afterBareArrow? (afterAsync ("async".toList ++
          (gap ++ (params ++ (spaces ++ ("=>".toList ++ rest)))))) = none := by
    rcases afterAsync_asyncList between list (spaces ++ ("=>".toList ++ rest)) with past | past
    · refine ⟨functionParams?_params list past, ?_⟩
      rw [past]
      exact afterBareArrow?_none (startsName_params list _)
    · rw [functionParams?, past]
      exact ⟨rfl, no_bare⟩
  rw [afterFunction?, no_function.1]
  dsimp only
  rw [no_function.2, no_bare, afterListArrow?_params list all whole]
  rfl

/-- A function with an arrow is known by what stands before the arrow. -/
theorem afterFunction?_arrow {params : List Char} (h : ArrowParams params) (rest : List Char) :
    afterFunction? (params ++ ("=>".toList ++ rest)) = afterArrowBody? rest := by
  cases h with
  | name before named all =>
    simpa only [List.append_assoc] using afterFunction?_bare before named all rest
  | list list all => simpa only [List.append_assoc] using afterFunction?_list list all rest
  | asyncList between list all =>
    simpa only [List.append_assoc] using afterFunction?_asyncList between list all rest

/-! Bodies. -/

theorem trimLeft_append {text more : List Char} (dark : ∀ c ∈ more.head?, isSpace c = false) :
    trimLeft (text ++ more) = trimLeft text ++ more := by
  rw [trimLeft, List.dropWhile_append]
  split
  · rename_i empty
    rw [trimLeft, List.isEmpty_iff.mp empty]
    cases more with
    | nil => rfl
    | cons c more => exact trimLeft_cons (dark c rfl) more
  · rfl

/-- A body ends where the member does, or with blanks before that. -/
theorem afterArrowBody?_more {body trail : List Char} (h : ArrowBody body)
    (all : Blanks trail) :
    ∃ left, Blanks left ∧ ∀ more, EndsMember more →
      afterArrowBody? (body ++ (trail ++ more)) = some (left ++ more) := by
  cases h with
  | @block spaces block spaced closed =>
    refine ⟨trail, all, fun more _ => ?_⟩
    have after := afterBalanced?_bracketed closed (trail ++ more)
    obtain ⟨tail, rfl⟩ := closed.head
    have past : trimLeft (spaces ++ '{' :: tail ++ (trail ++ more)) =
        '{' :: tail ++ (trail ++ more) := by
      rw [List.append_assoc, trimLeft_spaces spaced]
      exact trimLeft_cons (by decide) _
    rw [afterArrowBody?, past]
    exact after
  | expression expr first =>
    refine ⟨[], blanks_nil, fun more ends => ?_⟩
    have dark : ∀ c ∈ more.head?, isSpace c = false ∧ c ≠ '{' := by
      obtain ⟨c, rest, rfl, last⟩ := ends
      intro d hd
      cases hd
      rcases last with rfl | rfl <;> decide
    have past : trimLeft (body ++ (trail ++ more)) = trimLeft (body ++ trail) ++ more := by
      rw [← List.append_assoc, trimLeft_append fun c hc => (dark c hc).1]
    have no_block : (trimLeft (body ++ trail) ++ more).head? ≠ some '{' := by
      intro brace
      rw [List.head?_append] at brace
      rcases Option.or_eq_some_iff.mp brace with brace | ⟨-, brace⟩
      · rw [trimLeft, List.dropWhile_append] at brace
        split at brace
        · have blank := List.mem_of_mem_head? brace
          have := all _ ((List.dropWhile_suffix _).subset blank)
          exact absurd this (by decide)
        · rename_i some
          rw [List.head?_append] at brace
          rcases Option.or_eq_some_iff.mp brace with brace | ⟨none, -⟩
          · exact first brace
          · exact some (by rw [List.head?_eq_none_iff.mp none]; rfl)
      · exact (dark '{' brace).2 rfl
    rw [afterArrowBody?, past, if_neg (by simpa using no_block),
      afterExpression_more (expr.append_blanks all).trimLeft ends]
    rfl

/-- A function is found to its end, in front of what ends the member. -/
theorem afterFunction?_text {text trail : List Char} (h : FunctionText text)
    (all : Blanks trail) :
    ∃ left, Blanks left ∧ ∀ more, EndsMember more →
      afterFunction? (text ++ (trail ++ more)) = some (left ++ more) := by
  cases h with
  | @function async name params spaces block before named list spaced closed =>
    refine ⟨trail, all, fun more _ => ?_⟩
    simp only [List.append_assoc]
    rw [afterFunction?, functionParams?_text before named list]
    dsimp only
    rw [afterBalanced?_bracketed list]
    exact afterBlock?_spaces spaced closed (trail ++ more)
  | @arrow params body before behind =>
    obtain ⟨left, blank, found⟩ := afterArrowBody?_more behind all
    refine ⟨left, blank, fun more ends => ?_⟩
    simp only [List.append_assoc]
    rw [afterFunction?_arrow before]
    exact found more ends

/-! Methods. -/

theorem methodName?_star {star name spaces params : List Char} (starred : Star star)
    (named : IsName name) (all : Spaces spaces) (list : Bracketed '(' params) (more : List Char) :
    methodName? (star ++ (name ++ (spaces ++ (params ++ more)))) = some (name, params ++ more) := by
  have past : afterStar (star ++ (name ++ (spaces ++ (params ++ more)))) =
      name ++ (spaces ++ (params ++ more)) := by
    obtain ⟨c, rest, rfl, starts⟩ := named.head
    obtain ⟨space, other, -⟩ := apart_of_isNameStart starts
    cases starred with
    | no => exact afterStar_of_head space other _
    | yes all' => exact @afterStar_star [] _ spaces_nil all' _ space _
  have starts : startsName (name ++ (spaces ++ (params ++ more))) = true := by
    obtain ⟨c, rest, rfl, starts⟩ := named.head
    exact starts
  have split := name_append named.2 (endsName_spaces all (endsName_params list more))
  rw [methodName?, past, if_pos starts, split.1, split.2, fromParen?_spaces all list]
  rfl

theorem maskedMethod?_text {name text : List Char} (h : MethodText name text) (more : List Char) :
    maskedMethod? (text ++ more) =
      some (jsonChars name ++ ": ".toList ++ functionMark, more) := by
  obtain ⟨before, starred, named, all, list, between, closed⟩ := h
  rename_i async star spaces params gap block
  simp only [List.append_assoc]
  have found (rest : List Char) : (methodName? (afterAsync
      (async ++ (star ++ (name ++ (spaces ++ (params ++ rest))))))).or
        (methodName? (async ++ (star ++ (name ++ (spaces ++ (params ++ rest)))))) =
          some (name, params ++ rest) := by
    have direct := methodName?_star starred named all list rest
    have first : trimLeft (star ++ (name ++ (spaces ++ (params ++ rest)))) =
        star ++ (name ++ (spaces ++ (params ++ rest))) := by
      obtain ⟨c, tail, rfl, starts⟩ := named.head
      cases starred with
      | no => exact trimLeft_cons (apart_of_isNameStart starts).1 _
      | yes _ => exact trimLeft_cons (by decide) _
    cases before with
    | yes some all' =>
      rw [List.append_assoc, afterAsync_spaces some all', first, direct]
      rfl
    | no =>
      rw [List.nil_append]
      cases starred with
      | yes _ =>
        rw [List.cons_append, afterAsync_of_head (by decide), ← List.cons_append, direct]
        rfl
      | no =>
        have ends := endsName_spaces all (endsName_params list rest)
        rcases afterAsync_name named.2 ends with same | past
        · rw [List.nil_append, same, ← List.nil_append (name ++ _), direct]
          rfl
        · have none : methodName? (trimLeft (spaces ++ (params ++ rest))) = Option.none := by
            obtain ⟨tail, eq⟩ := list.head
            rw [trimLeft_spaces all, eq, List.cons_append, trimLeft_cons (by decide), methodName?,
              afterStar_of_head (by decide) (by decide)]
            rfl
          rw [List.nil_append, past, none, ← List.nil_append (name ++ _), direct]
          rfl
  rw [maskedMethod?, found]
  change ((afterBalanced? (params ++ (gap ++ (block ++ more)))).bind afterBlock?).map _ = _
  rw [afterBalanced?_bracketed list]
  change (afterBlock? (gap ++ (block ++ more))).map _ = _
  rw [afterBlock?_spaces between closed]
  simp

end Literal
end ThemeSheet
