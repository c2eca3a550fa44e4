import ThemeSheet.Literal.Locate
import ThemeSheet.Text.Json

namespace ThemeSheet.Literal

open Text

/-- Stands for a function. -/
def functionMark : List Char := "@function".toList

/-- What follows an optional `async` and the spaces after it. -/
def afterAsync (text : List Char) : List Char :=
  (afterWord "async" text).head?.getD text

/-- The text from the parenthesis that may follow spaces. -/
def fromParen? (text : List Char) : Option (List Char) :=
  (some (trimLeft text)).filter fun rest => rest.head? == some '('

/-- What follows an optional star and the spaces around it. -/
def afterStar (text : List Char) : List Char :=
  match trimLeft text with
  | '*' :: rest => trimLeft rest
  | rest => rest

def startsName (text : List Char) : Bool :=
  text.head?.any isNameStart

/-- The text from the parameters of a `function`. -/
def functionParams? (text : List Char) : Option (List Char) :=
  match "function".toList.isPrefixOf? (afterAsync text) with
  | none => none
  | some rest =>
    if rest.head?.any isWord then none
    else
      let rest := afterStar rest
      fromParen? (if startsName rest then rest.dropWhile isNamePart else rest)

/-- What follows an arrow that may follow spaces. -/
def afterArrow? (text : List Char) : Option (List Char) :=
  "=>".toList.isPrefixOf? (trimLeft text)

/-- What follows the arrow of a function with one bare parameter. -/
def afterBareArrow? (text : List Char) : Option (List Char) :=
  if startsName text then afterArrow? (text.dropWhile isNamePart) else none

/-- The text from a parameter list that `async` may precede. -/
def fromParams (text : List Char) : List Char :=
  (("async".toList.isPrefixOf? text).bind fromParen?).getD text

/-- What follows the arrow of a function with a parameter list. -/
def afterListArrow? (text : List Char) : Option (List Char) :=
  if (fromParams text).head? == some '(' then (afterBalanced? (fromParams text)).bind afterArrow?
  else none

/-- What follows a block that may follow spaces. -/
def afterBlock? (text : List Char) : Option (List Char) :=
  (fromBrace? text).bind afterBalanced?

/-- The text from the comma or closing bracket that ends an expression. Comments are not opaque
here. -/
def afterExpression (depth : Nat) (text : List Char) : List Char :=
  match text with
  | [] => []
  | c :: rest =>
    have := afterString_length_le c rest
    if isQuote c then afterExpression depth (afterString c rest)
    else if opensBracket c then afterExpression (depth + 1) rest
    else if closesBracket c then if depth = 0 then c :: rest else afterExpression (depth - 1) rest
    else if c = ',' ∧ depth = 0 then c :: rest
    else afterExpression depth rest
termination_by text.length

/-- What follows the body of an arrow function: a block or an expression. -/
def afterArrowBody? (text : List Char) : Option (List Char) :=
  let body := trimLeft text
  if body.head? == some '{' then afterBalanced? body else some (afterExpression 0 body)

/-- What follows the function that is the value at the front. -/
def afterFunction? (text : List Char) : Option (List Char) :=
  match functionParams? text with
  | some params => (afterBalanced? params).bind afterBlock?
  | none =>
    let arrow := ((afterBareArrow? (afterAsync text)).or (afterBareArrow? text)).or
      (afterListArrow? text)
    arrow.bind afterArrowBody?

/-- The name of a method and the text from its parameters. -/
def methodName? (text : List Char) : Option (List Char × List Char) :=
  let text := afterStar text
  if startsName text then
    (fromParen? (text.dropWhile isNamePart)).map (text.takeWhile isNamePart, ·)
  else none

/-- The method at the front, written as a member, and what follows it. -/
def maskedMethod? (text : List Char) : Option (List Char × List Char) :=
  ((methodName? (afterAsync text)).or (methodName? text)).bind fun (name, params) =>
    ((afterBalanced? params).bind afterBlock?).map
      (jsonChars name ++ ": ".toList ++ functionMark, ·)

/-- What the last token of code leaves to come. -/
inductive Expected
  | value
  | member
  | other
deriving DecidableEq, Repr

/-- The function at the front, masked, where one is expected, and what follows it. -/
def masked? : Expected → List Char → Option (List Char × List Char)
  | .value, text => (afterFunction? text).map (functionMark, ·)
  | .member, text => maskedMethod? text
  | .other, _ => none

theorem dropWhile_length_le (holds : Char → Bool) (text : List Char) :
    (text.dropWhile holds).length ≤ text.length :=
  (List.dropWhile_suffix _).length_le

theorem spaceTails_length_le {text rest : List Char} (h : rest ∈ spaceTails text) :
    rest.length ≤ text.length := by
  induction text with
  | nil => cases h
  | cons c tail ih =>
    rw [spaceTails] at h
    split at h
    · rcases List.mem_append.1 h with h | h
      · exact Nat.le_succ_of_le (ih h)
      · rw [List.mem_singleton.1 h]; exact Nat.le_succ _
    · cases h

theorem isPrefixOf?_append {start text rest : List Char} (h : start.isPrefixOf? text = some rest) :
    text = start ++ rest := by
  induction start generalizing text with
  | nil => cases h; rfl
  | cons c tail ih =>
    cases text with
    | nil => cases h
    | cons d text =>
      replace h : (if (c == d) = true then tail.isPrefixOf? text else none) = some rest := h
      split at h
      · rename_i same
        rw [ih h, eq_of_beq same]
        rfl
      · cases h

theorem afterWord_length_le {word : String} {text rest : List Char}
    (h : rest ∈ afterWord word text) :
    rest.length ≤ text.length := by
  unfold afterWord at h
  split at h
  · cases h
  · rename_i found
    have := spaceTails_length_le h
    rw [isPrefixOf?_append found, List.length_append]
    omega

theorem afterAsync_length_le (text : List Char) : (afterAsync text).length ≤ text.length := by
  unfold afterAsync
  cases h : (afterWord "async" text).head? with
  | none => exact Nat.le_refl _
  | some rest => exact afterWord_length_le (List.mem_of_head? h)

theorem fromParen?_length_le {text rest : List Char} (h : fromParen? text = some rest) :
    rest.length ≤ text.length := by
  cases Option.some.inj (Option.filter_eq_some_iff.1 h).1
  exact trimLeft_length_le text

theorem fromBrace?_length_le {text rest : List Char} (h : fromBrace? text = some rest) :
    rest.length ≤ text.length := by
  cases Option.some.inj (Option.filter_eq_some_iff.1 h).1
  exact trimLeft_length_le text

theorem afterArrow?_length_lt {text rest : List Char} (h : afterArrow? text = some rest) :
    rest.length < text.length := by
  have := trimLeft_length_le text
  rw [isPrefixOf?_append h] at this
  simp only [List.length_append] at this
  have : 0 < "=>".toList.length := by decide
  omega

theorem afterBlock?_length_lt {text rest : List Char} (h : afterBlock? text = some rest) :
    rest.length < text.length := by
  obtain ⟨block, brace, h⟩ := Option.bind_eq_some_iff.1 h
  exact Nat.lt_of_lt_of_le (afterBalanced?_length_lt h) (fromBrace?_length_le brace)

theorem afterExpression_length_le (depth : Nat) (text : List Char) :
    (afterExpression depth text).length ≤ text.length := by
  fun_induction afterExpression depth text <;> simp_all <;> omega

theorem afterArrowBody?_length_le {text rest : List Char} (h : afterArrowBody? text = some rest) :
    rest.length ≤ text.length := by
  refine Nat.le_trans ?_ (trimLeft_length_le text)
  unfold afterArrowBody? at h
  dsimp only at h
  split at h
  · exact Nat.le_of_lt (afterBalanced?_length_lt h)
  · cases h
    exact afterExpression_length_le _ _

theorem afterStar_length_le (text : List Char) : (afterStar text).length ≤ text.length := by
  have outer := trimLeft_length_le text
  unfold afterStar
  split
  · rename_i inner eq
    have := trimLeft_length_le inner
    rw [eq, List.length_cons] at outer
    omega
  · exact outer

theorem functionParams?_length_le {text rest : List Char} (h : functionParams? text = some rest) :
    rest.length ≤ text.length := by
  unfold functionParams? at h
  split at h
  · cases h
  · rename_i tail found
    split at h
    · cases h
    · have star := afterStar_length_le tail
      have whole := afterAsync_length_le text
      rw [isPrefixOf?_append found, List.length_append] at whole
      have inner := fromParen?_length_le h
      have := dropWhile_length_le isNamePart (afterStar tail)
      split at inner <;> omega

theorem afterBareArrow?_length_lt {text rest : List Char} (h : afterBareArrow? text = some rest) :
    rest.length < text.length := by
  unfold afterBareArrow? at h
  split at h
  · exact Nat.lt_of_lt_of_le (afterArrow?_length_lt h) (dropWhile_length_le _ _)
  · cases h

theorem fromParams_length_le (text : List Char) : (fromParams text).length ≤ text.length := by
  unfold fromParams
  cases h : ("async".toList.isPrefixOf? text).bind fromParen? with
  | none => exact Nat.le_refl _
  | some rest =>
    obtain ⟨tail, found, paren⟩ := Option.bind_eq_some_iff.1 h
    have := fromParen?_length_le paren
    rw [Option.getD_some, isPrefixOf?_append found, List.length_append]
    omega

theorem afterListArrow?_length_lt {text rest : List Char} (h : afterListArrow? text = some rest) :
    rest.length < text.length := by
  unfold afterListArrow? at h
  split at h
  · obtain ⟨inner, list, arrow⟩ := Option.bind_eq_some_iff.1 h
    exact Nat.lt_of_lt_of_le
      (Nat.lt_trans (afterArrow?_length_lt arrow) (afterBalanced?_length_lt list))
      (fromParams_length_le text)
  · cases h

theorem afterFunction?_length_lt {text rest : List Char} (h : afterFunction? text = some rest) :
    rest.length < text.length := by
  unfold afterFunction? at h
  split at h
  · rename_i params found
    obtain ⟨inner, list, block⟩ := Option.bind_eq_some_iff.1 h
    exact Nat.lt_of_lt_of_le
      (Nat.lt_trans (afterBlock?_length_lt block) (afterBalanced?_length_lt list))
      (functionParams?_length_le found)
  · obtain ⟨body, arrow, h⟩ := Option.bind_eq_some_iff.1 h
    refine Nat.lt_of_le_of_lt (afterArrowBody?_length_le h) ?_
    rcases Option.or_eq_some_iff.1 arrow with arrow | ⟨_, arrow⟩
    · rcases Option.or_eq_some_iff.1 arrow with arrow | ⟨_, arrow⟩
      · exact Nat.lt_of_lt_of_le (afterBareArrow?_length_lt arrow) (afterAsync_length_le text)
      · exact afterBareArrow?_length_lt arrow
    · exact afterListArrow?_length_lt arrow

theorem methodName?_length_le {text name rest : List Char}
    (h : methodName? text = some (name, rest)) : rest.length ≤ text.length := by
  unfold methodName? at h
  dsimp only at h
  split at h
  · obtain ⟨params, paren, eq⟩ := Option.map_eq_some_iff.1 h
    cases eq
    exact Nat.le_trans (fromParen?_length_le paren)
      (Nat.le_trans (dropWhile_length_le _ _) (afterStar_length_le text))
  · cases h

theorem maskedMethod?_length_lt {text out rest : List Char}
    (h : maskedMethod? text = some (out, rest)) : rest.length < text.length := by
  obtain ⟨⟨name, params⟩, head, h⟩ := Option.bind_eq_some_iff.1 h
  obtain ⟨after, h, eq⟩ := Option.map_eq_some_iff.1 h
  cases eq
  obtain ⟨inner, list, block⟩ := Option.bind_eq_some_iff.1 h
  refine Nat.lt_of_lt_of_le
    (Nat.lt_trans (afterBlock?_length_lt block) (afterBalanced?_length_lt list)) ?_
  rcases Option.or_eq_some_iff.1 head with head | ⟨_, head⟩
  · exact Nat.le_trans (methodName?_length_le head) (afterAsync_length_le text)
  · exact methodName?_length_le head

theorem masked?_length_lt {expected : Expected} {text out rest : List Char}
    (h : masked? expected text = some (out, rest)) : rest.length < text.length := by
  cases expected with
  | value =>
    obtain ⟨after, h, eq⟩ := Option.map_eq_some_iff.1 h
    cases eq
    exact afterFunction?_length_lt h
  | member => exact maskedMethod?_length_lt h
  | other => cases h

/-- The containers open after a character of code, innermost first, and what is to come. -/
def advance (containers : List Char) (c : Char) : List Char × Expected :=
  if c = '{' then (c :: containers, .member)
  else if c = '[' then (c :: containers, .value)
  else if closesContainer c then (containers.drop 1, .other)
  else if c = ':' then (containers, .value)
  else if c = ',' then (containers, if containers.head? = some '{' then .member else .value)
  else (containers, .other)

def maskFrom (containers : List Char) (expected : Expected) (text : List Char) : List Char :=
  match text with
  | [] => []
  | c :: rest =>
    if isSpace c then c :: maskFrom containers expected rest
    else
      match h : masked? expected (c :: rest) with
      | some (out, after) =>
        have : after.length ≤ rest.length := Nat.le_of_lt_succ (masked?_length_lt h)
        out ++ maskFrom containers .other after
      | none =>
        if isQuote c then
          have : (afterString c rest).length ≤ rest.length := afterString_length_le c rest
          c :: rest.take (rest.length - (afterString c rest).length) ++
            maskFrom containers .other (afterString c rest)
        else
          let (containers, expected) := advance containers c
          c :: maskFrom containers expected rest
termination_by text.length

/-- Replaces each function that is a value or a method by a mark. What is no recognizable function
stays. -/
def maskFunctions (text : List Char) : List Char :=
  maskFrom [] .other text

end ThemeSheet.Literal
