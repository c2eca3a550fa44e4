import ThemeSheet.Proofs.Alike

/-! In texts alike the same functions are found, and what the mask makes of them is alike. -/

namespace ThemeSheet.Literal

open Text

/-! Optional answers. -/

section optional

variable {α α' β β' : Type} {r : α → α' → Prop} {s : β → β' → Prop} {a b : Option α}
  {a' b' : Option α'}

theorem rel_cases (h : Option.Rel r a a') :
    a = none ∧ a' = none ∨ ∃ x x', a = some x ∧ a' = some x' ∧ r x x' := by
  cases h with
  | none => exact .inl ⟨rfl, rfl⟩
  | some same => exact .inr ⟨_, _, rfl, rfl, same⟩

theorem rel_bind (h : Option.Rel r a a') {f : α → Option β} {g : α' → Option β'}
    (next : ∀ x y, r x y → Option.Rel s (f x) (g y)) : Option.Rel s (a.bind f) (a'.bind g) := by
  cases h with
  | some related => exact next _ _ related
  | none => exact .none

theorem rel_map (h : Option.Rel r a a') {f : α → β} {g : α' → β'}
    (next : ∀ x y, r x y → s (f x) (g y)) : Option.Rel s (a.map f) (a'.map g) := by
  cases h with
  | some related => exact .some (next _ _ related)
  | none => exact .none

theorem rel_or (h : Option.Rel r a a') (h' : Option.Rel r b b') :
    Option.Rel r (a.or b) (a'.or b') := by
  cases h with
  | some related => exact .some related
  | none => exact h'

theorem rel_getD (h : Option.Rel r a a') {x : α} {y : α'} (other : r x y) :
    r (a.getD x) (a'.getD y) := by
  cases h with
  | some related => exact related
  | none => exact other

theorem rel_mono {q : α → α' → Prop} (h : Option.Rel r a a') (weaker : ∀ x y, r x y → q x y) :
    Option.Rel q a a' := by
  cases h with
  | some related => exact .some (weaker _ _ related)
  | none => exact .none

end optional

/-! What may stand in a function. -/

/-- A bracket that is looked for behind spaces. -/
theorem filter_trimmed {c : Char} (opens : c = '(' ∨ c = '{') {x y : List Char} (h : Trimmed x y) :
    Option.Rel Trimmed ((some x).filter fun text => text.head? == some c)
      ((some y).filter fun text => text.head? == some c) := by
  have same : (x.head? == some c) = (y.head? == some c) := by
    rcases h.front with same | ⟨comma, closes⟩
    · rw [same]
    · have other : (y.head? == some c) = false := by
        refine beq_eq_false_iff_ne.mpr fun first => ?_
        rw [first] at closes
        rcases opens with rfl | rfl <;> cases closes
      rw [comma, other]
      rcases opens with rfl | rfl <;> rfl
  simp only [Option.filter, same]
  split
  · exact .some h
  · exact .none

theorem fromParen?_alike {x y : List Char} (h : Alike x y) :
    Option.Rel Trimmed (fromParen? x) (fromParen? y) :=
  filter_trimmed (.inl rfl) (trimLeft_alike h)

theorem fromBrace?_alike {x y : List Char} (h : Alike x y) :
    Option.Rel Trimmed (fromBrace? x) (fromBrace? y) :=
  filter_trimmed (.inr rfl) (trimLeft_alike h)

theorem afterBlock?_alike {x y : List Char} (h : Alike x y) :
    Option.Rel Alike (afterBlock? x) (afterBlock? y) :=
  rel_bind (fromBrace?_alike h) fun _ _ brace => afterBalanced?_trimmed brace

theorem afterArrow?_alike {x y : List Char} (h : Alike x y) :
    Option.Rel Tied (afterArrow? x) (afterArrow? y) :=
  isPrefixOf?_tied (List.forall_mem_cons.mpr ⟨by decide, by simp; decide⟩) (trimLeft_alike h).tied

theorem afterStar_alike {x y : List Char} (h : Alike x y) :
    Trimmed (afterStar x) (afterStar y) := by
  have trimmed := trimLeft_alike h
  unfold afterStar
  by_cases star : (trimLeft x).head? = some '*'
  · have same : (trimLeft y).head? = some '*' := by
      rcases trimmed.front with same | ⟨comma, -⟩
      · rw [← same, star]
      · rw [comma] at star
        cases star
    obtain ⟨x', eq⟩ := List.head?_eq_some_iff.mp star
    obtain ⟨y', eq'⟩ := List.head?_eq_some_iff.mp same
    rw [eq, eq'] at trimmed ⊢
    exact trimLeft_alike (trimmed.alike.tail (by decide) (by decide)).alike
  · have other : (trimLeft y).head? ≠ some '*' := by
      rcases trimmed.front with same | ⟨-, closes⟩
      · rwa [← same]
      · intro star
        rw [star] at closes
        cases closes
    split
    · rename_i eq
      rw [eq] at star
      exact absurd rfl star
    · split
      · rename_i eq
        rw [eq] at other
        exact absurd rfl other
      · exact trimmed

theorem startsName_breaks {text : List Char} (h : Breaks text) : startsName text = false := by
  cases text with
  | nil => rfl
  | cons c text =>
    refine Bool.eq_false_iff.mpr fun starts => ?_
    have plain := isPlain_of_isNamePart (isNamePart_of_isNameStart starts)
    rw [breaks_cons.mp h] at plain
    cases plain

theorem not_isWord_breaks {text : List Char} (h : Breaks text) : text.head?.any isWord = false := by
  cases text with
  | nil => rfl
  | cons c text =>
    refine Bool.eq_false_iff.mpr fun word => ?_
    have part : isNamePart c = true := by simpa [isNamePart] using .inl word
    have plain := isPlain_of_isNamePart part
    rw [breaks_cons.mp h] at plain
    cases plain

theorem startsName_tied {x y : List Char} (h : Tied x y) : startsName x = startsName y := by
  rcases h.front with same | ⟨first, second⟩
  · rw [startsName, startsName, same]
  · rw [startsName_breaks first, startsName_breaks second]

theorem plain_async : ∀ c ∈ "async".toList, isPlain c = true ∧ c ≠ '@' := by
  have := List.all_eq_true.mp (by decide +kernel :
    "async".toList.all (fun c => isPlain c && c != '@') = true)
  simpa using this

theorem plain_function : ∀ c ∈ "function".toList, isPlain c = true ∧ c ≠ '@' := by
  have := List.all_eq_true.mp (by decide +kernel :
    "function".toList.all (fun c => isPlain c && c != '@') = true)
  simpa using this

theorem afterAsync_none {text : List Char} (h : "async".toList.isPrefixOf? text = none) :
    afterAsync text = text := by
  unfold afterAsync afterWord
  rw [h]
  rfl

theorem trimLeft_trimLeft (text : List Char) : trimLeft (trimLeft text) = trimLeft text := by
  cases found : trimLeft text with
  | nil => rfl
  | cons c rest => exact trimLeft_cons (head_trimLeft found) rest

theorem space_of_alike {x y : List Char} (h : Alike x y) (space : x.head?.any isSpace = true) :
    y.head?.any isSpace = true := by
  cases h with
  | nil => exact space
  | blank blank _ => simp [isSpace_of_isBlank blank]
  | comma => cases space
  | code => exact space
  | string => cases space
  | mark => cases space

/-- Where the second text alone has a space behind `async`, nothing that the word could be a part of
begins behind it. -/
inductive AsyncCase (x y : List Char) : Prop
  | alike (tied : Tied (afterAsync x) (afterAsync y))
  | spaced {rest} (whole : x = "async".toList ++ rest) (kept : afterAsync x = x)
    (bare : Breaks rest) (left : Breaks (afterAsync y)) (trimmed : trimLeft (afterAsync y) = afterAsync y)

theorem afterAsync_tied {x y : List Char} (h : Tied x y) : AsyncCase x y := by
  rcases rel_cases (isPrefixOf?_tied plain_async h) with
    ⟨first, second⟩ | ⟨x', y', first, second, behind⟩
  · refine .alike ?_
    rwa [afterAsync_none first, afterAsync_none second]
  · obtain rfl := isPrefixOf?_append first
    obtain rfl := isPrefixOf?_append second
    have trimmed := trimLeft_alike behind.alike
    by_cases space' : y'.head?.any isSpace = true
    · by_cases space : x'.head?.any isSpace = true
      · refine .alike ?_
        rw [afterAsync_async, afterAsync_async, if_pos space, if_pos space']
        exact trimmed.tied
      · have bare : Breaks x' := by
          rcases behind.front with same | ⟨bare, -⟩
          · rw [same] at space
            exact absurd space' space
          · exact bare
        have kept : trimLeft x' = x' := by
          cases x' with
          | nil => rfl
          | cons c x' => exact trimLeft_cons (by simpa using space) x'
        have left : afterAsync ("async".toList ++ y') = trimLeft y' := by
          rw [afterAsync_async, if_pos space']
        rw [kept] at trimmed
        refine .spaced rfl ?_ bare ?_ ?_
        · rw [afterAsync_async, if_neg space]
        · rw [left]
          rcases trimmed.tied.front with same | ⟨-, breaks⟩
          · intro c hc
            exact bare c (same ▸ hc)
          · exact breaks
        · rw [left]
          exact trimLeft_trimLeft y'
    · have space : ¬ x'.head?.any isSpace = true := fun space =>
        space' (space_of_alike behind.alike space)
      refine .alike ?_
      rw [afterAsync_async, afterAsync_async, if_neg space, if_neg space']
      exact h

theorem functionParams?_eq (text : List Char) :
    functionParams? text =
      ("function".toList.isPrefixOf? (afterAsync text)).bind fun rest =>
        if rest.head?.any isWord then none
        else fromParen? (if startsName (afterStar rest) then (afterStar rest).dropWhile isNamePart
          else afterStar rest) := by
  unfold functionParams?
  cases "function".toList.isPrefixOf? (afterAsync text) <;> rfl

theorem functionParams?_tied {x y : List Char} (h : Tied x y) :
    Option.Rel Trimmed (functionParams? x) (functionParams? y) := by
  have words : Option.Rel Tied ("function".toList.isPrefixOf? (afterAsync x))
      ("function".toList.isPrefixOf? (afterAsync y)) := by
    cases afterAsync_tied h with
    | alike tied => exact isPrefixOf?_tied plain_function tied
    | spaced whole kept _ left _ =>
      have first : "function".toList.isPrefixOf? (afterAsync x) = none := by
        rw [kept, whole]
        rfl
      have second : "function".toList.isPrefixOf? (afterAsync y) = none :=
        isPrefixOf?_breaks (by decide : isPlain 'f' = true) "unction".toList left
      rw [first, second]
      exact .none
  rw [functionParams?_eq, functionParams?_eq]
  refine rel_bind words fun x' y' behind => ?_
  have letter : x'.head?.any isWord = y'.head?.any isWord := by
    rcases behind.front with same | ⟨first, second⟩
    · rw [same]
    · rw [not_isWord_breaks first, not_isWord_breaks second]
  have star := (afterStar_alike behind.alike).tied
  rw [letter, startsName_tied star]
  split
  · exact .none
  · split
    · exact fromParen?_alike (name_tied star).2.alike
    · exact fromParen?_alike star.alike

theorem afterBareArrow?_tied {x y : List Char} (h : Tied x y) :
    Option.Rel Tied (afterBareArrow? x) (afterBareArrow? y) := by
  unfold afterBareArrow?
  rw [startsName_tied h]
  split
  · exact afterArrow?_alike (name_tied h).2.alike
  · exact .none

theorem fromParams_trimmed {x y : List Char} (h : Trimmed x y) :
    Trimmed (fromParams x) (fromParams y) := by
  have parens : Option.Rel Trimmed (("async".toList.isPrefixOf? x).bind fromParen?)
      (("async".toList.isPrefixOf? y).bind fromParen?) :=
    rel_bind (isPrefixOf?_tied plain_async h.tied) fun _ _ behind => fromParen?_alike behind.alike
  exact rel_getD parens h

theorem afterListArrow?_trimmed {x y : List Char} (h : Trimmed x y) :
    Option.Rel Tied (afterListArrow? x) (afterListArrow? y) := by
  have params := fromParams_trimmed h
  have same : ((fromParams x).head? == some '(') = ((fromParams y).head? == some '(') := by
    rcases params.front with same | ⟨comma, closes⟩
    · rw [same]
    · rw [comma]
      refine (beq_eq_false_iff_ne.mpr fun first => ?_).symm
      rw [first] at closes
      cases closes
  unfold afterListArrow?
  rw [same]
  split
  · exact rel_bind (afterBalanced?_trimmed params) fun _ _ list => afterArrow?_alike list
  · exact .none

/-! Expressions. -/

theorem afterExpression_string {body : List Char} (inner : StringBody body) (depth : Nat)
    (rest : List Char) :
    afterExpression depth ('"' :: (body ++ '"' :: rest)) = afterExpression depth rest := by
  rw [afterExpression, if_pos (by decide), afterString_of_splitString? (inner.split rest)]

theorem afterExpression_code {c : Char} (quote : isQuote c = false) (depth : Nat)
    (rest : List Char) : afterExpression depth (c :: rest) =
      if opensBracket c then afterExpression (depth + 1) rest
      else if closesBracket c then if depth = 0 then c :: rest else afterExpression (depth - 1) rest
      else if c = ',' ∧ depth = 0 then c :: rest
      else afterExpression depth rest := by
  rw [afterExpression, if_neg (by simp [quote])]

theorem afterExpression_ignored {c : Char} (h : isIgnored c = true) {depth : Nat}
    (comma : c = ',' → depth ≠ 0) (rest : List Char) :
    afterExpression depth (c :: rest) = afterExpression depth rest := by
  simp only [isIgnored, Bool.and_eq_true, bne_iff_ne, Bool.not_eq_true'] at h
  obtain ⟨⟨⟨-, quote⟩, opens⟩, closes⟩ := h
  rw [afterExpression_code quote, if_neg (by simp [opens]), if_neg (by simp [closes]),
    if_neg fun h => comma h.1 h.2]

theorem afterExpression_ignoring {start : List Char}
    (h : ∀ c ∈ start, isIgnored c = true ∧ c ≠ ',') (depth : Nat) (rest : List Char) :
    afterExpression depth (start ++ rest) = afterExpression depth rest := by
  induction start with
  | nil => rfl
  | cons c start ih =>
    obtain ⟨ignored, other⟩ := h c List.mem_cons_self
    rw [List.cons_append, afterExpression_ignored ignored fun comma => absurd comma other,
      ih fun d hd => h d (List.mem_cons_of_mem c hd)]

theorem comma_ne_of_isBlank {c : Char} (h : isBlank c = true) : c ≠ ',' := by
  rintro rfl
  cases h

theorem afterExpression_alike {x y : List Char} (h : Alike x y) (depth : Nat) :
    Alike (afterExpression depth x) (afterExpression depth y) := by
  have ignored {c : Char} (blank : isBlank c = true) : isIgnored c = true ∧ c ≠ ',' :=
    ⟨isIgnored_of_isBlank blank, comma_ne_of_isBlank blank⟩
  induction h generalizing depth with
  | nil =>
    rw [afterExpression]
    exact .nil
  | blank blank _ ih =>
    rw [afterExpression_ignored (ignored blank).1 fun comma => absurd comma (ignored blank).2]
    exact ih depth
  | @comma gap closer x y blanks closes tail ih =>
    have bracket : closesBracket closer = true := by simp [closesBracket, closes]
    have other := not_opensBracket_of_closes bracket
    have quote := not_isQuote_of_bracket (.inr bracket)
    cases depth with
    | zero =>
      have first : afterExpression 0 (',' :: (gap ++ closer :: x)) =
          ',' :: (gap ++ closer :: x) := by
        rw [afterExpression_code (by decide), if_neg (by decide), if_neg (by decide),
          if_pos ⟨rfl, rfl⟩]
      have second : afterExpression 0 (closer :: y) = closer :: y := by
        rw [afterExpression_code quote, if_neg (by simp [other]), if_pos bracket, if_pos rfl]
      rw [first, second]
      exact .comma blanks closes tail
    | succ depth =>
      have close (text : List Char) :
          afterExpression (depth + 1) (closer :: text) = afterExpression depth text := by
        rw [afterExpression_code quote, if_neg (by simp [other]), if_pos bracket, if_neg (by simp)]
        rfl
      rw [afterExpression_ignored (by decide) (by simp),
        afterExpression_ignoring fun c hc => ignored (blanks c hc), close, close]
      exact ih depth
  | code joins tail ih =>
    rw [afterExpression_code joins.quote, afterExpression_code joins.quote]
    split
    · exact ih _
    · split
      · split
        · exact .code joins tail
        · exact ih _
      · split
        · exact .code joins tail
        · exact ih _
  | string inner inner' _ _ ih =>
    rw [afterExpression_string inner, afterExpression_string inner']
    exact ih depth
  | mark _ ih =>
    have plain : ∀ c ∈ functionMark, isIgnored c = true ∧ c ≠ ',' := by
      have := List.all_eq_true.mp (by decide +kernel :
        functionMark.all (fun c => isIgnored c && c != ',') = true)
      simpa using this
    rw [afterExpression_ignoring plain, afterExpression_ignoring plain]
    exact ih depth

theorem afterArrowBody?_alike {x y : List Char} (h : Alike x y) :
    Option.Rel Alike (afterArrowBody? x) (afterArrowBody? y) := by
  have body := trimLeft_alike h
  have same : ((trimLeft x).head? == some '{') = ((trimLeft y).head? == some '{') := by
    rcases body.front with same | ⟨comma, closes⟩
    · rw [same]
    · rw [comma]
      refine (beq_eq_false_iff_ne.mpr fun first => ?_).symm
      rw [first] at closes
      cases closes
  unfold afterArrowBody?
  dsimp only
  rw [same]
  split
  · exact afterBalanced?_trimmed body
  · exact .some (afterExpression_alike body.alike 0)

/-! Functions. -/

theorem afterBareArrow?_async {x y : List Char} (h : Tied x y) :
    Option.Rel Tied ((afterBareArrow? (afterAsync x)).or (afterBareArrow? x))
      ((afterBareArrow? (afterAsync y)).or (afterBareArrow? y)) := by
  have plain := afterBareArrow?_tied h
  cases afterAsync_tied h with
  | alike tied => exact rel_or (afterBareArrow?_tied tied) plain
  | spaced _ kept _ left _ =>
    have none : afterBareArrow? (afterAsync y) = none := afterBareArrow?_none (startsName_breaks left)
    rw [kept, Option.or_self, none, Option.none_or]
    exact plain

theorem afterFunction?_trimmed {x y : List Char} (h : Trimmed x y) :
    Option.Rel Alike (afterFunction? x) (afterFunction? y) := by
  have arrow := rel_or (afterBareArrow?_async h.tied) (afterListArrow?_trimmed h)
  unfold afterFunction?
  rcases rel_cases (functionParams?_tied h.tied) with ⟨first, second⟩ | ⟨_, _, first, second, list⟩
  · rw [first, second]
    exact rel_bind arrow fun _ _ behind => afterArrowBody?_alike behind.alike
  · rw [first, second]
    exact rel_bind (afterBalanced?_trimmed list) fun _ _ block => afterBlock?_alike block

/-- The same name, and texts alike from the parameters on. -/
def SameMethod (m n : List Char × List Char) : Prop :=
  m.1 = n.1 ∧ Trimmed m.2 n.2

theorem methodName?_alike {x y : List Char} (h : Alike x y) :
    Option.Rel SameMethod (methodName? x) (methodName? y) := by
  have star := (afterStar_alike h).tied
  unfold methodName?
  dsimp only
  rw [startsName_tied star]
  split
  · exact rel_map (fromParen?_alike (name_tied star).2.alike) fun _ _ params =>
      ⟨(name_tied star).1, params⟩
  · exact .none

theorem methodName?_breaks {text : List Char} (h : Breaks text) (trimmed : trimLeft text = text) :
    methodName? text = none := by
  have star : afterStar text = text := by
    unfold afterStar
    rw [trimmed]
    split
    · exact absurd (breaks_cons.mp h) (by decide)
    · rfl
  unfold methodName?
  dsimp only
  rw [star, startsName_breaks h, if_neg Bool.false_ne_true]

/-- The same text in place of a function, and texts alike behind it. -/
def SameMask (m n : List Char × List Char) : Prop :=
  m.1 = n.1 ∧ Alike m.2 n.2

theorem maskedMethod?_tied {x y : List Char} (h : Tied x y) :
    Option.Rel SameMask (maskedMethod? x) (maskedMethod? y) := by
  have plain := methodName?_alike h.alike
  have head : Option.Rel SameMethod ((methodName? (afterAsync x)).or (methodName? x))
      ((methodName? (afterAsync y)).or (methodName? y)) := by
    cases afterAsync_tied h with
    | alike tied => exact rel_or (methodName?_alike tied.alike) plain
    | spaced _ kept _ left trimmed =>
      rw [kept, Option.or_self, methodName?_breaks left trimmed, Option.none_or]
      exact plain
  refine rel_bind head fun m n same => ?_
  obtain ⟨name, params⟩ := m
  obtain ⟨name', params'⟩ := n
  obtain ⟨rfl, list⟩ := same
  exact rel_map (rel_bind (afterBalanced?_trimmed list) fun _ _ block => afterBlock?_alike block)
    fun _ _ after => ⟨rfl, after⟩

theorem masked?_trimmed {x y : List Char} (h : Trimmed x y) (expected : Expected) :
    Option.Rel SameMask (masked? expected x) (masked? expected y) := by
  cases expected with
  | value => exact rel_map (afterFunction?_trimmed h) fun _ _ after => ⟨rfl, after⟩
  | member => exact maskedMethod?_tied h.tied
  | other => exact .none

/-! The mask. -/

theorem maskFrom_functionMark (containers : List Char) (expected : Expected) (text : List Char) :
    maskFrom containers expected (functionMark ++ text) =
      functionMark ++ maskFrom containers .other text :=
  maskFrom_fixed (by decide : Token.function ∈ Token.fixed) (fun word => by cases word) containers
    expected

theorem maskFrom_quoted {body : List Char} (inner : StringBody body) (containers : List Char)
    (expected : Expected) (text : List Char) :
    maskFrom containers expected ('"' :: (body ++ '"' :: text)) =
      '"' :: (body ++ '"' :: maskFrom containers .other text) := by
  rw [maskFrom_string (inner.split text) (by decide)]
  simp

theorem maskFrom_closes {c : Char} (closes : closesContainer c = true) (containers : List Char)
    (expected : Expected) (rest : List Char) :
    maskFrom containers expected (c :: rest) = c :: maskFrom (containers.drop 1) .other rest := by
  simp only [closesContainer, Bool.or_eq_true, beq_iff_eq] at closes
  rcases closes with rfl | rfl <;> exact maskFrom_mark (by decide) containers expected rest

/-- Where no function can be, the first character is copied. -/
theorem head_maskFrom_other (containers text : List Char) :
    (maskFrom containers .other text).head? = text.head? := by
  cases text with
  | nil => rw [maskFrom]
  | cons c rest =>
    cases space : isSpace c with
    | true => rw [maskFrom_space space, List.head?_cons, List.head?_cons]
    | false =>
      cases quote : isQuote c with
      | true => rw [maskFrom_quote quote, List.cons_append, List.head?_cons, List.head?_cons]
      | false => rw [maskFrom_code space rfl quote, List.head?_cons, List.head?_cons]

theorem head_of_masked? {expected : Expected} {text out after : List Char}
    (h : masked? expected text = some (out, after)) :
    ∃ c rest, out = c :: rest ∧ isSpace c = false ∧ c ≠ ',' := by
  cases expected with
  | value =>
    obtain ⟨_, -, eq⟩ := Option.map_eq_some_iff.mp h
    cases eq
    exact ⟨'@', _, rfl, by decide, by decide⟩
  | member =>
    obtain ⟨_, -, found⟩ := Option.bind_eq_some_iff.mp h
    obtain ⟨_, -, eq⟩ := Option.map_eq_some_iff.mp found
    cases eq
    exact ⟨'"', _, rfl, by decide, by decide⟩
  | other => cases h

/-- A comma that stands first behind spaces stays there, and none comes there. -/
theorem comma_maskFrom (containers : List Char) (expected : Expected) (text : List Char) :
    (trimLeft (maskFrom containers expected text)).head? = some ',' ↔
      (trimLeft text).head? = some ',' := by
  induction text with
  | nil => rw [maskFrom]
  | cons c rest ih =>
    cases space : isSpace c with
    | true =>
      rw [maskFrom_space space]
      simp only [trimLeft, List.dropWhile_cons, space, if_true] at ih ⊢
      exact ih
    | false =>
      rw [trimLeft_cons space]
      cases found : masked? expected (c :: rest) with
      | some answer =>
        obtain ⟨out, after⟩ := answer
        obtain ⟨d, more, rfl, dark, other⟩ := head_of_masked? found
        have first : c ≠ ',' := by
          rintro rfl
          rw [masked?_of_head (by decide) (by decide) (by decide) (by decide)] at found
          cases found
        rw [maskFrom_function (by simp [space]) found, List.cons_append, trimLeft_cons dark]
        simp [other, first]
      | none =>
        cases quote : isQuote c with
        | true => rw [maskFrom_quote quote, List.cons_append, trimLeft_cons space]; simp
        | false => rw [maskFrom_code space found quote, trimLeft_cons space]; simp

/-- What the mask makes of two texts goes on alike as well. -/
theorem joins_masked {c : Char} {x y : List Char} (joins : Joins c x y) (containers : List Char) :
    Joins c (maskFrom (advance containers c).1 (advance containers c).2 x)
      (maskFrom (advance containers c).1 (advance containers c).2 y) := by
  have kept (plain : isPlain c = true) (text : List Char) :
      (maskFrom (advance containers c).1 (advance containers c).2 text).head? = text.head? := by
    rw [advance_plain plain, head_maskFrom_other]
  refine ⟨joins.quote, fun slash => ?_, fun plain => ?_, fun opens => ?_⟩
  · have plain : isPlain c = true := by rw [slash]; decide
    unfold NoComment
    rw [kept plain, kept plain]
    exact joins.slash slash
  · unfold SameFront Breaks
    rw [kept plain, kept plain]
    exact joins.front plain
  · rw [comma_maskFrom, comma_maskFrom]
    exact joins.comma opens

theorem joins_space {c : Char} (space : isSpace c = true) (x y : List Char) : Joins c x y := by
  have apart (d : Char) (dark : isSpace d = false) : c ≠ d := by
    rintro rfl
    rw [space] at dark
    cases dark
  refine ⟨?_, fun slash => ?_, fun plain => ?_, fun opens => ?_⟩
  · simp [isQuote, apart '"' (by decide), apart '\'' (by decide), apart backtick (by decide)]
  · exact absurd slash (apart '/' (by decide))
  · simp [isPlain, space] at plain
  · simp [opensPart, apart '{' (by decide), apart '[' (by decide), apart ',' (by decide)] at opens

theorem alike_mask {expected : Expected} {text out after x y : List Char}
    (h : masked? expected text = some (out, after)) (tail : Alike x y) :
    Alike (out ++ x) (out ++ y) := by
  cases expected with
  | value =>
    obtain ⟨_, -, eq⟩ := Option.map_eq_some_iff.mp h
    cases eq
    exact .mark tail
  | member =>
    obtain ⟨⟨name, params⟩, -, found⟩ := Option.bind_eq_some_iff.mp h
    obtain ⟨_, -, eq⟩ := Option.map_eq_some_iff.mp found
    cases eq
    have inside : Inside '"' (name.flatMap jsonChar) := inside_flatMap inside_jsonChar name
    have body := stringBody_of_split (inside.split (by decide) [])
    have split (text : List Char) : jsonChars name ++ ": ".toList ++ functionMark ++ text =
        '"' :: (name.flatMap jsonChar ++ '"' :: (':' :: ' ' :: (functionMark ++ text))) := by
      simp [jsonChars]
    rw [split, split]
    refine .string body body (fun _ => rfl) (.code ?_ (.code (joins_space (by decide) _ _) (.mark tail)))
    refine ⟨rfl, ?_, ?_, ?_⟩ <;> rintro ⟨⟩
  | other => cases h

/-- Data and functions are found at the same places of texts alike. -/
theorem maskFrom_alike {x y : List Char} (h : Alike x y) (containers : List Char)
    (expected : Expected) :
    Alike (maskFrom containers expected x) (maskFrom containers expected y) := by
  induction size : x.length + y.length using Nat.strong_induction_on
    generalizing x y containers expected with
  | h n ih =>
    subst size
    cases h with
    | nil =>
      rw [maskFrom]
      exact .nil
    | @blank c x y blank tail =>
      rw [maskFrom_space (isSpace_of_isBlank blank)]
      exact .blank blank (ih _ (by simp) tail containers expected rfl)
    | comma blanks closes tail =>
      rw [maskFrom_mark (by decide), maskFrom_spaces blanks.spaces, maskFrom_closes closes,
        maskFrom_closes closes]
      exact .comma blanks closes (ih _ (by simp; omega) tail _ _ rfl)
    | @code c x y joins tail =>
      cases space : isSpace c with
      | true =>
        rw [maskFrom_space space, maskFrom_space space]
        exact .code (joins_space space _ _) (ih _ (by simp; omega) tail containers expected rfl)
      | false =>
        rcases rel_cases (masked?_trimmed ⟨.code joins tail, .inl rfl⟩ expected) with
          ⟨first, second⟩ | ⟨⟨out, after⟩, ⟨out', after'⟩, first, second, rfl, behind⟩
        · rw [maskFrom_code space first joins.quote, maskFrom_code space second joins.quote]
          exact .code (joins_masked joins containers) (ih _ (by simp; omega) tail _ _ rfl)
        · dsimp only at behind
          have shorter := masked?_length_lt first
          have shorter' := masked?_length_lt second
          rw [maskFrom_function (by simp [space]) first,
            maskFrom_function (by simp [space]) second]
          exact alike_mask first (ih _ (by omega) behind containers .other rfl)
    | string inner inner' same tail =>
      rw [maskFrom_quoted inner, maskFrom_quoted inner']
      exact .string inner inner' same (ih _ (by simp; omega) tail _ _ rfl)
    | mark tail =>
      have : 0 < functionMark.length := by decide
      rw [maskFrom_functionMark, maskFrom_functionMark]
      exact .mark (ih _ (by simp; omega) tail _ _ rfl)

end ThemeSheet.Literal
