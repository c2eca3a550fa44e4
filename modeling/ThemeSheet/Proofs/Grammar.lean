import ThemeSheet.Proofs.Tokens

namespace ThemeSheet.Literal

namespace Token

/-- The value that a token is by itself. -/
def leaf? : Token → Option Node
  | string body => some (.string body)
  | number literal _ => some (.number literal)
  | yes => some .yes
  | no => some .no
  | null => some .null
  | undefined => some .undefined
  | function => some .function
  | _ => none

def key? : Token → Option Key
  | string body => some (.string body)
  | number literal _ => some (.number literal)
  | _ => none

end Token

/-- What a stretch of tokens can be. -/
inductive Phrase
  | value (node : Node)
  | members (members : List Member)
  | items (items : List Node)

/-- What may stand before the end of a container: a comma after the last part, if there is one. -/
def Closing {α : Type} (parts : List α) (tokens : List Token) : Prop :=
  tokens = [] ∨ parts ≠ [] ∧ tokens = [.comma]

/-- The grammar of data literals. -/
inductive Derives : Phrase → List Token → Prop
  | leaf {token node} (h : token.leaf? = some node) : Derives (.value node) [token]
  | object {members tokens tail} (inside : Derives (.members members) tokens)
    (closing : Closing members tail) :
    Derives (.value (.object members)) (.leftBrace :: (tokens ++ tail ++ [.rightBrace]))
  | array {items tokens tail} (inside : Derives (.items items) tokens)
    (closing : Closing items tail) :
    Derives (.value (.array items)) (.leftBracket :: (tokens ++ tail ++ [.rightBracket]))
  | noMembers : Derives (.members []) []
  | lastMember {token key node tokens} (named : token.key? = some key)
    (value : Derives (.value node) tokens) :
    Derives (.members [(key, node)]) (token :: .colon :: tokens)
  | member {token key node tokens members rest} (named : token.key? = some key)
    (value : Derives (.value node) tokens) (more : members ≠ [])
    (tail : Derives (.members members) rest) :
    Derives (.members ((key, node) :: members)) (token :: .colon :: (tokens ++ .comma :: rest))
  | noItems : Derives (.items []) []
  | lastItem {node tokens} (value : Derives (.value node) tokens) :
    Derives (.items [node]) tokens
  | item {node tokens items rest} (value : Derives (.value node) tokens) (more : items ≠ [])
    (tail : Derives (.items items) rest) :
    Derives (.items (node :: items)) (tokens ++ .comma :: rest)

/-! The automaton accepts what the grammar derives. -/

open State (next? place? beginValue?)

def run (state : State) (tokens : List Token) : Option State :=
  tokens.foldlM next? state

theorem run_append (state : State) (first second : List Token) :
    run state (first ++ second) = (run state first).bind (run · second) :=
  List.foldlM_append

theorem run_cons (state : State) (token : Token) (rest : List Token) :
    run state (token :: rest) = (state.next? token).bind (run · rest) :=
  List.foldlM_cons

/-- What the automaton makes of a phrase, in any container and after any parts of it. -/
def Accepted : Phrase → List Token → Prop
  | .value node, tokens => ∃ first rest, tokens = first :: rest ∧ first ≠ .rightBracket ∧
      ∀ frame frames, (beginValue? (frame :: frames) first).bind (run · rest) =
        place? node (frame :: frames)
  | .members [], tokens => tokens = []
  | .members members, tokens => ∀ frames done,
      run ⟨frames, .memberOrClose done⟩ tokens =
        some ⟨frames, .memberEnd (members.reverse ++ done)⟩
  | .items [], tokens => tokens = []
  | .items items, tokens => ∀ frames done,
      run ⟨frames, .valueOrClose done⟩ tokens =
        some ⟨frames, .elementEnd (items.reverse ++ done)⟩

theorem next?_valueOrClose {frames : List Frame} {done : List Node} {token : Token}
    (h : token ≠ .rightBracket) :
    next? ⟨frames, .valueOrClose done⟩ token = beginValue? (.element done :: frames) token := by
  cases token <;> first | rfl | exact absurd rfl h

theorem beginValue?_leaf {token : Token} {node : Node} (h : token.leaf? = some node)
    (frames : List Frame) : beginValue? frames token = place? node frames := by
  cases token <;> simp [Token.leaf?] at h <;> subst h <;> rfl

theorem next?_key {token : Token} {key : Key} (h : token.key? = some key) (frames : List Frame)
    (done : List Member) :
    next? ⟨frames, .memberOrClose done⟩ token = some ⟨frames, .colon done key⟩ := by
  cases token <;> simp [Token.key?] at h <;> subst h <;> rfl

/-- An object is placed by its closing brace, after a trailing comma or without one. -/
theorem run_object {members : List Member} {tokens tail : List Token}
    (inside : Accepted (.members members) tokens) (closing : Closing members tail)
    (frames : List Frame) :
    run ⟨frames, .memberOrClose []⟩ (tokens ++ tail ++ [.rightBrace]) =
      some (State.closeObject members frames) := by
  cases members with
  | nil =>
    have empty : tokens = [] := inside
    rcases closing with rfl | ⟨more, -⟩
    · subst empty
      rfl
    · exact absurd rfl more
  | cons member members =>
    have reached := inside frames []
    rw [List.append_nil] at reached
    rw [List.append_assoc, run_append, reached, Option.bind_some]
    rcases closing with rfl | ⟨-, rfl⟩
    · change some (State.closeObject (member :: members).reverse.reverse frames) = _
      rw [List.reverse_reverse]
    · change some (State.closeObject (member :: members).reverse.reverse frames) = _
      rw [List.reverse_reverse]

theorem run_array {items : List Node} {tokens tail : List Token}
    (inside : Accepted (.items items) tokens) (closing : Closing items tail)
    (frames : List Frame) :
    run ⟨frames, .valueOrClose []⟩ (tokens ++ tail ++ [.rightBracket]) =
      place? (.array items) frames := by
  cases items with
  | nil =>
    have empty : tokens = [] := inside
    rcases closing with rfl | ⟨more, -⟩
    · subst empty
      change (place? (.array []) frames).bind _ = _
      cases place? (.array []) frames <;> rfl
    · exact absurd rfl more
  | cons item items =>
    have reached := inside frames []
    rw [List.append_nil] at reached
    rw [List.append_assoc, run_append, reached, Option.bind_some]
    have closed (done : List Node) : run ⟨frames, .elementEnd done⟩ [.rightBracket] =
        place? (.array done.reverse) frames := by
      change (place? (.array done.reverse) frames).bind some = _
      cases place? (.array done.reverse) frames <;> rfl
    rcases closing with rfl | ⟨-, rfl⟩
    · rw [List.nil_append, closed, List.reverse_reverse]
    · change (place? (.array (item :: items).reverse.reverse) frames).bind some = _
      rw [List.reverse_reverse]
      cases place? (.array (item :: items)) frames <;> rfl

theorem accepted_of_derives {phrase : Phrase} {tokens : List Token} (h : Derives phrase tokens) :
    Accepted phrase tokens := by
  induction h with
  | @leaf token node leaf =>
    refine ⟨token, [], rfl, ?_, fun frame frames => ?_⟩
    · rintro rfl
      cases leaf
    · rw [beginValue?_leaf leaf]
      cases place? node (frame :: frames) <;> rfl
  | @object members tokens tail _ closing ih =>
    refine ⟨_, _, rfl, by simp, fun frame frames => ?_⟩
    change run ⟨frame :: frames, .memberOrClose []⟩ _ = _
    rw [run_object ih closing]
    cases frame <;> rfl
  | @array items tokens tail _ closing ih =>
    refine ⟨_, _, rfl, by simp, fun frame frames => ?_⟩
    exact run_array ih closing (frame :: frames)
  | noMembers => rfl
  | @lastMember token key node tokens named _ ih =>
    obtain ⟨first, rest, rfl, -, accepts⟩ := ih
    intro frames done
    rw [run_cons, next?_key named]
    exact accepts (.member done key) frames
  | @member token key node tokens members rest named _ more _ ih ih' =>
    obtain ⟨first, start, rfl, -, accepts⟩ := ih
    intro frames done
    have placed : run ⟨.member done key :: frames, .value⟩ (first :: start) =
        some ⟨frames, .memberEnd ((key, node) :: done)⟩ := accepts (.member done key) frames
    rw [run_cons, next?_key named]
    change run ⟨.member done key :: frames, .value⟩ (first :: start ++ .comma :: rest) = _
    rw [run_append, placed]
    change run ⟨frames, .memberOrClose ((key, node) :: done)⟩ rest = _
    cases members with
    | nil => exact absurd rfl more
    | cons next members =>
      rw [ih' frames ((key, node) :: done)]
      simp
  | noItems => rfl
  | @lastItem node tokens _ ih =>
    obtain ⟨first, rest, rfl, open_, accepts⟩ := ih
    intro frames done
    rw [run_cons, next?_valueOrClose open_]
    exact accepts (.element done) frames
  | @item node tokens items rest _ more _ ih ih' =>
    obtain ⟨first, start, rfl, open_, accepts⟩ := ih
    intro frames done
    have placed : run ⟨frames, .valueOrClose done⟩ (first :: start) =
        some ⟨frames, .elementEnd (node :: done)⟩ := by
      rw [run_cons, next?_valueOrClose open_]
      exact accepts (.element done) frames
    rw [run_append, placed]
    change run ⟨frames, .valueOrClose (node :: done)⟩ rest = _
    cases items with
    | nil => exact absurd rfl more
    | cons next items =>
      rw [ih' frames (node :: done)]
      simp

/-- A text whose tokens are an object of the grammar has its members. -/
theorem parse_of_derives {text : List Char} {members : List Member} {tokens tail : List Token}
    (lexes : Lexes text (.leftBrace :: (tokens ++ tail ++ [.rightBrace])))
    (inside : Derives (.members members) tokens) (closing : Closing members tail) :
    parse text = .ok members :=
  parse_of_lexes lexes (run_object (accepted_of_derives inside) closing [])

end ThemeSheet.Literal
