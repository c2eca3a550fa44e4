import ThemeSheet.Proofs.Grammar

namespace ThemeSheet.Literal

open State (next? place? beginValue? closeObject)

/-! What the automaton has read when it stands in a state. -/

theorem derives_members_snoc {members : List Member} {tokens tokens' : List Token}
    {member : Member} (h : Derives (.members members) tokens)
    (last : Derives (.members [member]) tokens') :
    Derives (.members (members ++ [member]))
      (tokens ++ ((if members.isEmpty then [] else [.comma]) ++ tokens')) := by
  induction members generalizing tokens with
  | nil =>
    cases h
    exact last
  | cons first rest ih =>
    cases h with
    | lastMember named value => simpa using Derives.member named value (by simp) last
    | member named value more tail =>
      have whole := Derives.member named value (by simp) (ih tail)
      simpa [more] using whole

theorem derives_items_snoc {items : List Node} {tokens tokens' : List Token} {node : Node}
    (h : Derives (.items items) tokens) (last : Derives (.items [node]) tokens') :
    Derives (.items (items ++ [node]))
      (tokens ++ ((if items.isEmpty then [] else [.comma]) ++ tokens')) := by
  induction items generalizing tokens with
  | nil =>
    cases h
    exact last
  | cons first rest ih =>
    cases h with
    | lastItem value =>
      cases last with
      | lastItem value' => simpa using Derives.item value (by simp) (.lastItem value')
      | item _ more _ => exact absurd rfl more
    | item value more tail =>
      have whole := Derives.item value (by simp) (ih tail)
      simpa [more] using whole

/-- Parts behind which another may stand: each of them is followed by a comma. The parts are kept
last first. -/
def Continued {α : Type} (derives : List α → List Token → Prop) (done : List α)
    (tokens : List Token) : Prop :=
  ∃ parts, derives done.reverse parts ∧
    tokens = parts ++ if done.reverse.isEmpty then [] else [.comma]

abbrev ContinuedMembers := Continued fun members tokens => Derives (.members members) tokens

abbrev ContinuedItems := Continued fun items tokens => Derives (.items items) tokens

theorem continuedMembers_nil : ContinuedMembers [] [] :=
  ⟨[], .noMembers, rfl⟩

theorem continuedItems_nil : ContinuedItems [] [] :=
  ⟨[], .noItems, rfl⟩

/-- The parts of a container and what stands behind them up to its end. -/
theorem Continued.closing {α : Type} {derives : List α → List Token → Prop} {done : List α}
    {tokens : List Token} (h : Continued derives done tokens) :
    ∃ parts tail, derives done.reverse parts ∧ Closing done.reverse tail ∧
      tokens = parts ++ tail := by
  obtain ⟨parts, derived, rfl⟩ := h
  refine ⟨parts, _, derived, ?_, rfl⟩
  cases empty : done.reverse.isEmpty with
  | true => exact .inl rfl
  | false => exact .inr ⟨List.isEmpty_eq_false_iff.mp empty, rfl⟩

/-- The tokens up to the value that is being read, given the containers that are open around it. -/
inductive Around : List Frame → List Token → Prop
  | document : Around [] []
  | member {frames tokens done parts token key} (outer : Around frames tokens)
    (continued : ContinuedMembers done parts) (named : token.key? = some key) :
    Around (.member done key :: frames) (tokens ++ .leftBrace :: (parts ++ [token, .colon]))
  | element {frames tokens done parts} (outer : Around frames tokens)
    (continued : ContinuedItems done parts) :
    Around (.element done :: frames) (tokens ++ .leftBracket :: parts)

/-- The tokens that bring the automaton from its start to a state. -/
inductive ReadTo : State → List Token → Prop
  | document : ReadTo ⟨[], .document⟩ []
  | memberOrClose {frames outer done parts} (around : Around frames outer)
    (continued : ContinuedMembers done parts) :
    ReadTo ⟨frames, .memberOrClose done⟩ (outer ++ .leftBrace :: parts)
  | colon {frames outer done parts token key} (around : Around frames outer)
    (continued : ContinuedMembers done parts) (named : token.key? = some key) :
    ReadTo ⟨frames, .colon done key⟩ (outer ++ .leftBrace :: (parts ++ [token]))
  | value {frames tokens} (around : Around frames tokens) : ReadTo ⟨frames, .value⟩ tokens
  | valueOrClose {frames outer done parts} (around : Around frames outer)
    (continued : ContinuedItems done parts) :
    ReadTo ⟨frames, .valueOrClose done⟩ (outer ++ .leftBracket :: parts)
  | memberEnd {frames outer done parts} (around : Around frames outer) (some : done ≠ [])
    (members : Derives (.members done.reverse) parts) :
    ReadTo ⟨frames, .memberEnd done⟩ (outer ++ .leftBrace :: parts)
  | elementEnd {frames outer done parts} (around : Around frames outer) (some : done ≠ [])
    (items : Derives (.items done.reverse) parts) :
    ReadTo ⟨frames, .elementEnd done⟩ (outer ++ .leftBracket :: parts)
  | nothing {members tokens} (whole : Derives (.value (.object members)) tokens) :
    ReadTo ⟨[], .nothing members⟩ tokens

theorem readTo_start : ReadTo .start [] :=
  .document

/-- A value takes its place behind the parts of the container that is open around it. -/
theorem readTo_place {frames : List Frame} {outer tokens : List Token} {node : Node} {state : State}
    (around : Around frames outer) (value : Derives (.value node) tokens)
    (placed : place? node frames = some state) : ReadTo state (outer ++ tokens) := by
  cases around with
  | document => cases placed
  | @member frames outer done parts token key around continued named =>
    cases placed
    obtain ⟨parts, members, rfl⟩ := continued
    have more := derives_members_snoc members (.lastMember named value)
    rw [← List.reverse_cons] at more
    simpa using ReadTo.memberEnd around (by simp) more
  | @element frames outer done parts around continued =>
    cases placed
    obtain ⟨parts, items, rfl⟩ := continued
    have more := derives_items_snoc items (.lastItem value)
    rw [← List.reverse_cons] at more
    simpa using ReadTo.elementEnd around (by simp) more

/-- So does an object, but it may also stand alone. -/
theorem readTo_closeObject {frames : List Frame} {outer tokens tail : List Token}
    {members : List Member} (around : Around frames outer)
    (inside : Derives (.members members) tokens) (closing : Closing members tail) :
    ReadTo (closeObject members frames)
      (outer ++ .leftBrace :: (tokens ++ tail ++ [.rightBrace])) := by
  have value := Derives.object inside closing
  cases frames with
  | nil =>
    cases around
    exact .nothing value
  | cons frame frames =>
    refine readTo_place around value ?_
    cases frame <;> rfl

theorem readTo_beginValue {frames : List Frame} {outer : List Token} {token : Token}
    {state : State} (around : Around frames outer) (begun : beginValue? frames token = some state) :
    ReadTo state (outer ++ [token]) := by
  cases leaf : token.leaf? with
  | some node =>
    rw [beginValue?_leaf leaf] at begun
    exact readTo_place around (.leaf leaf) begun
  | none =>
    -- Only the brackets that open a container are left.
    cases token <;> cases leaf <;> cases begun
    · exact .memberOrClose around continuedMembers_nil
    · exact .valueOrClose around continuedItems_nil

theorem readTo_next {state state' : State} {tokens : List Token} {token : Token}
    (h : ReadTo state tokens) (next : state.next? token = some state') :
    ReadTo state' (tokens ++ [token]) := by
  cases h with
  | document =>
    cases token <;> cases next
    exact .memberOrClose .document continuedMembers_nil
  | @memberOrClose frames outer done parts around continued =>
    cases key : token.key? with
    | some named =>
      rw [next?_key key] at next
      cases next
      simpa using ReadTo.colon around continued key
    | none =>
      cases token <;> cases key <;> cases next
      obtain ⟨inside, tail, members, closing, rfl⟩ := continued.closing
      simpa using readTo_closeObject around members closing
  | colon around continued named =>
    cases token <;> cases next
    simpa using ReadTo.value (.member around continued named)
  | value around => exact readTo_beginValue around next
  | @valueOrClose frames outer done parts around continued =>
    by_cases close : token = .rightBracket
    · subst close
      obtain ⟨inside, tail, items, closing, rfl⟩ := continued.closing
      simpa using readTo_place around (.array items closing) next
    · rw [next?_valueOrClose close] at next
      exact readTo_beginValue (.element around continued) next
  | @memberEnd frames outer done parts around some members =>
    cases token <;> cases next
    · simpa using readTo_closeObject around members (.inl rfl)
    · have continued : ContinuedMembers done (parts ++ [.comma]) := ⟨parts, members, by simp [some]⟩
      simpa using ReadTo.memberOrClose around continued
  | @elementEnd frames outer done parts around some items =>
    cases token <;> first | cases next | skip
    · simpa using readTo_place around (.array items (.inl rfl)) next
    · have continued : ContinuedItems done (parts ++ [.comma]) := ⟨parts, items, by simp [some]⟩
      simpa using ReadTo.valueOrClose around continued
  | nothing => cases token <;> cases next

theorem readTo_run {state state' : State} {before tokens : List Token} (h : ReadTo state before)
    (reached : run state tokens = some state') : ReadTo state' (before ++ tokens) := by
  induction tokens generalizing state before with
  | nil =>
    cases reached
    simpa using h
  | cons token rest ih =>
    rw [run_cons] at reached
    obtain ⟨middle, next, reached⟩ := Option.bind_eq_some_iff.mp reached
    simpa using ih (readTo_next h next) reached

/-- A text that is read to its end was cut into tokens that the automaton accepts. -/
theorem run_of_parse {text : List Char} {members : List Member} (h : parse text = .ok members) :
    ∃ tokens frames, Lexes text tokens ∧ run .start tokens = some ⟨frames, .nothing members⟩ := by
  have accepted (placed : List PlacedToken) (textEnd : TextEnd) (state : State) (last : Position)
      (h : parseFrom textEnd state last placed = .ok members) :
      textEnd = .finished ∧
        ∃ frames, run state (placed.map PlacedToken.token) = some ⟨frames, .nothing members⟩ := by
    induction placed generalizing state last with
    | nil =>
      obtain ⟨frames, expecting⟩ := state
      cases textEnd with
      | badCharacter => cases h
      | finished =>
        cases expecting <;> cases h
        exact ⟨rfl, frames, rfl⟩
    | cons first rest ih =>
      rw [parseFrom] at h
      cases next : state.next? first.token with
      | none =>
        rw [next] at h
        cases h
      | some middle =>
        rw [next] at h
        obtain ⟨finished, frames, reached⟩ := ih middle first.position h
        refine ⟨finished, frames, ?_⟩
        rw [List.map_cons, run_cons, next]
        exact reached
  obtain ⟨finished, frames, reached⟩ := accepted (tokens text).1 (tokens text).2 .start .start h
  exact ⟨_, frames, lexes_of_tokensAt (Prod.ext rfl finished), reached⟩

/-- A text that is read to its end is an object of the grammar. -/
theorem derives_of_parse {text : List Char} {members : List Member}
    (h : parse text = .ok members) :
    ∃ tokens, Lexes text tokens ∧ Derives (.value (.object members)) tokens := by
  obtain ⟨tokens, frames, lexes, reached⟩ := run_of_parse h
  refine ⟨tokens, lexes, ?_⟩
  cases readTo_run readTo_start reached with
  | nothing whole => exact whole

end ThemeSheet.Literal
