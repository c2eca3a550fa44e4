import ThemeSheet.Proofs.DerivationTree

/-!
# Prefixes of sentences

The automaton stands in some state behind a list of tokens exactly if a sentence begins with them.
One half is that the automaton follows every sentence. The other is that every state which can be
reached leads on to the end of a sentence: what is open is closed, from the inside outwards.
-/

namespace ThemeSheet.Literal

open State (next? place? beginValue? closeObject)

/-- A sentence of the grammar, of tokens that can be written. -/
def Sentence (tokens : List Token) : Prop :=
  (∃ tree : Tree .object, tree.tokens = tokens) ∧ ∀ token ∈ tokens, token.Spelled token.text

/-- The beginning of a sentence. -/
def Viable (tokens : List Token) : Prop :=
  ∃ more, Sentence (tokens ++ more)

theorem Sentence.viable {tokens : List Token} (h : Sentence tokens) : Viable tokens :=
  ⟨[], by rwa [List.append_nil]⟩

/-! The automaton on a sentence. -/

theorem run_of_tree (tree : Tree .object) :
    run .start tree.tokens = some ⟨[], .nothing tree.meaning⟩ := by
  have derived : Derives (.value (.object tree.meaning)) tree.tokens := tree.derived
  generalize tree.tokens = tokens at derived
  generalize tree.meaning = members at derived
  cases derived with
  | @leaf token _ leaf => cases token <;> cases leaf
  | object inside closing =>
    rw [run_cons]
    exact run_object (accepted_of_derives inside) closing []

theorem tree_of_run {tokens : List Token} {frames : List Frame} {members : List Member}
    (h : run .start tokens = some ⟨frames, .nothing members⟩) :
    ∃ tree : Tree .object, tree.tokens = tokens := by
  cases readTo_run readTo_start h with
  | nothing whole =>
    obtain ⟨tree, -, written⟩ := tree_of_object whole
    exact ⟨tree, written⟩

theorem run_of_viable {tokens : List Token} (h : Viable tokens) :
    ∃ state, run .start tokens = some state := by
  obtain ⟨more, ⟨tree, written⟩, -⟩ := h
  have reached := run_of_tree tree
  rw [written, run_append] at reached
  obtain ⟨state, found, -⟩ := Option.bind_eq_some_iff.mp reached
  exact ⟨state, found⟩

/-! The containers that are open in a reachable state. -/

/-- Open containers, the innermost first. The outermost is an object. -/
inductive Nested : List Frame → Prop
  | outside : Nested []
  | member {frames done key} (outer : Nested frames) : Nested (.member done key :: frames)
  | element {frames done} (outer : Nested frames) (within : frames ≠ []) :
    Nested (.element done :: frames)

/-- Only an object stands in no container. -/
inductive Grounded : State → Prop
  | document : Grounded ⟨[], .document⟩
  | memberOrClose {frames done} (inside : Nested frames) : Grounded ⟨frames, .memberOrClose done⟩
  | colon {frames done key} (inside : Nested frames) : Grounded ⟨frames, .colon done key⟩
  | value {frames} (inside : Nested frames) (within : frames ≠ []) : Grounded ⟨frames, .value⟩
  | valueOrClose {frames done} (inside : Nested frames) (within : frames ≠ []) :
    Grounded ⟨frames, .valueOrClose done⟩
  | memberEnd {frames done} (inside : Nested frames) : Grounded ⟨frames, .memberEnd done⟩
  | elementEnd {frames done} (inside : Nested frames) (within : frames ≠ []) :
    Grounded ⟨frames, .elementEnd done⟩
  | nothing {members} : Grounded ⟨[], .nothing members⟩

theorem grounded_start : Grounded .start :=
  .document

theorem grounded_place {frames : List Frame} {node : Node} {state : State} (inside : Nested frames)
    (placed : place? node frames = some state) : Grounded state := by
  cases inside with
  | outside => cases placed
  | member outer =>
    cases placed
    exact .memberEnd outer
  | element outer within =>
    cases placed
    exact .elementEnd outer within

theorem grounded_closeObject {frames : List Frame} (inside : Nested frames)
    (members : List Member) : Grounded (closeObject members frames) := by
  cases inside with
  | outside => exact .nothing
  | member outer => exact .memberEnd outer
  | element outer within => exact .elementEnd outer within

theorem grounded_beginValue {frames : List Frame} {token : Token} {state : State}
    (inside : Nested frames) (within : frames ≠ [])
    (begun : beginValue? frames token = some state) : Grounded state := by
  cases leaf : token.leaf? with
  | some node =>
    rw [beginValue?_leaf leaf] at begun
    exact grounded_place inside begun
  | none =>
    cases token <;> cases leaf <;> cases begun
    · exact .memberOrClose inside
    · exact .valueOrClose inside within

theorem grounded_next {state state' : State} {token : Token} (h : Grounded state)
    (next : state.next? token = some state') : Grounded state' := by
  cases h with
  | document =>
    cases token <;> cases next
    exact .memberOrClose .outside
  | memberOrClose inside =>
    cases token <;> cases next
    · exact grounded_closeObject inside _
    · exact .colon inside
    · exact .colon inside
  | colon inside =>
    cases token <;> cases next
    exact .value (.member inside) (List.cons_ne_nil _ _)
  | value inside within => exact grounded_beginValue inside within next
  | valueOrClose inside within =>
    by_cases close : token = .rightBracket
    · subst close
      exact grounded_place inside next
    · rw [next?_valueOrClose close] at next
      exact grounded_beginValue (.element inside within) (by simp) next
  | memberEnd inside =>
    cases token <;> cases next
    · exact grounded_closeObject inside _
    · exact .memberOrClose inside
  | elementEnd inside within =>
    cases token <;> first | cases next | skip
    · exact grounded_place inside next
    · exact .valueOrClose inside within
  | nothing => cases token <;> cases next

theorem grounded_run {state state' : State} {tokens : List Token} (h : Grounded state)
    (reached : run state tokens = some state') : Grounded state' := by
  induction tokens generalizing state with
  | nil =>
    cases reached
    exact h
  | cons token rest ih =>
    rw [run_cons] at reached
    obtain ⟨middle, next, reached⟩ := Option.bind_eq_some_iff.mp reached
    exact ih (grounded_next h next) reached

/-! From a reachable state to the end of a sentence. -/

/-- Closes the containers around a value that is done. -/
def closers : List Frame → List Token
  | [] => []
  | .member _ _ :: frames => .rightBrace :: closers frames
  | .element _ :: frames => .rightBracket :: closers frames

/-- Tokens that end the sentence that is being read. -/
def State.completion (state : State) : List Token :=
  match state.expecting with
  | .document => [.leftBrace, .rightBrace]
  | .memberOrClose _ => .rightBrace :: closers state.frames
  | .colon _ _ => .colon :: .null :: .rightBrace :: closers state.frames
  | .value => .null :: closers state.frames
  | .valueOrClose _ => .rightBracket :: closers state.frames
  | .memberEnd _ => .rightBrace :: closers state.frames
  | .elementEnd _ => .rightBracket :: closers state.frames
  | .nothing _ => []

/-- The sentence is over behind tokens. -/
def Concludes (state : State) (tokens : List Token) : Prop :=
  ∃ members, run state tokens = some ⟨[], .nothing members⟩

theorem concludes_cons {state state' : State} {token : Token} {rest : List Token}
    (next : state.next? token = some state') (h : Concludes state' rest) :
    Concludes state (token :: rest) := by
  obtain ⟨members, reached⟩ := h
  exact ⟨members, by rw [run_cons, next, Option.bind_some, reached]⟩

theorem exists_place? {frames : List Frame} (within : frames ≠ []) (node : Node) :
    ∃ state, place? node frames = some state := by
  cases frames with
  | nil => exact absurd rfl within
  | cons frame frames => cases frame <;> exact ⟨_, rfl⟩

/-- An object in a container is placed there as any value is. -/
theorem place?_object {frames : List Frame} (within : frames ≠ []) (members : List Member) :
    place? (.object members) frames = some (closeObject members frames) := by
  cases frames with
  | nil => exact absurd rfl within
  | cons frame frames => cases frame <;> rfl

theorem concludes_place {frames : List Frame} {node : Node} {state : State} (inside : Nested frames)
    (placed : place? node frames = some state) : Concludes state (closers frames) := by
  induction inside generalizing node state with
  | outside => cases placed
  | @member frames done key outer ih =>
    cases placed
    refine concludes_cons rfl ?_
    by_cases alone : frames = []
    · subst alone
      exact ⟨_, rfl⟩
    · exact ih (place?_object alone _)
  | @element frames done outer within ih =>
    cases placed
    obtain ⟨state, placed⟩ := exists_place? within (.array (node :: done).reverse)
    exact concludes_cons placed (ih placed)

theorem concludes_closeObject {frames : List Frame} (inside : Nested frames) (members : List Member) :
    Concludes (closeObject members frames) (closers frames) := by
  by_cases alone : frames = []
  · subst alone
    exact ⟨members, rfl⟩
  · exact concludes_place inside (place?_object alone members)

theorem concludes_completion {state : State} (h : Grounded state) : Concludes state state.completion := by
  cases h with
  | document => exact concludes_cons rfl (concludes_cons rfl ⟨_, rfl⟩)
  | memberOrClose inside => exact concludes_cons rfl (concludes_closeObject inside _)
  | colon inside =>
    exact concludes_cons rfl (concludes_cons rfl (concludes_cons rfl (concludes_closeObject inside _)))
  | value inside within =>
    obtain ⟨state, placed⟩ := exists_place? within .null
    exact concludes_cons placed (concludes_place inside placed)
  | @valueOrClose frames done inside within =>
    obtain ⟨state, placed⟩ := exists_place? within (.array done.reverse)
    exact concludes_cons placed (concludes_place inside placed)
  | memberEnd inside => exact concludes_cons rfl (concludes_closeObject inside _)
  | @elementEnd frames done inside within =>
    obtain ⟨state, placed⟩ := exists_place? within (.array done.reverse)
    exact concludes_cons placed (concludes_place inside placed)
  | nothing => exact ⟨_, rfl⟩

/-- Only brackets, a colon and a null are needed to end a sentence. -/
theorem mem_fixed_of_closers {frames : List Frame} {token : Token} (h : token ∈ closers frames) :
    token ∈ Token.fixed := by
  induction frames with
  | nil => cases h
  | cons frame frames ih =>
    cases frame with
    | member =>
      rcases List.mem_cons.mp h with rfl | h
      · decide
      · exact ih h
    | element =>
      rcases List.mem_cons.mp h with rfl | h
      · decide
      · exact ih h

theorem mem_fixed_of_completion {state : State} {token : Token} (h : token ∈ state.completion) :
    token ∈ Token.fixed := by
  obtain ⟨frames, expecting⟩ := state
  have closes (h : token ∈ closers frames) := mem_fixed_of_closers h
  cases expecting <;> simp only [State.completion, List.mem_cons, List.not_mem_nil, or_false] at h
  case document => rcases h with rfl | rfl <;> decide
  case colon => rcases h with rfl | rfl | rfl | h <;> first | exact closes h | decide
  all_goals rcases h with rfl | h <;> first | exact closes h | decide

/-! What the automaton reads. -/

/-- The automaton reads tokens exactly if a sentence begins with them. -/
theorem viable_iff_run {tokens : List Token} (written : ∀ token ∈ tokens, token.Spelled token.text) :
    Viable tokens ↔ ∃ state, run .start tokens = some state := by
  refine ⟨run_of_viable, fun ⟨state, reached⟩ => ?_⟩
  obtain ⟨members, ends⟩ := concludes_completion (grounded_run grounded_start reached)
  have whole : run .start (tokens ++ state.completion) = some ⟨[], .nothing members⟩ := by
    rw [run_append, reached, Option.bind_some, ends]
  refine ⟨state.completion, tree_of_run whole, fun token h => ?_⟩
  rcases List.mem_append.mp h with h | h
  · exact written token h
  · exact .fixed (mem_fixed_of_completion h)

theorem not_viable_of_next? {tokens : List Token} {token : Token} {state : State}
    (reached : run .start tokens = some state) (stuck : state.next? token = none) :
    ¬ Viable (tokens ++ [token]) := by
  intro viable
  obtain ⟨state', reached'⟩ := run_of_viable viable
  rw [run_append, reached, Option.bind_some, run_cons, stuck] at reached'
  cases reached'

theorem Sentence.nothing {tokens : List Token} {state : State} (h : Sentence tokens)
    (reached : run .start tokens = some state) : ∃ members, state.expecting = .nothing members := by
  obtain ⟨⟨tree, rfl⟩, -⟩ := h
  rw [run_of_tree] at reached
  cases reached
  exact ⟨_, rfl⟩

end ThemeSheet.Literal
