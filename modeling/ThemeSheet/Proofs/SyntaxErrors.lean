import ThemeSheet.Proofs.ViablePrefix

/-!
# Where a syntax error points

A text is cut into tokens while the automaton reads them, so the first place is found at which either
fails: what stands before it can go on to a sentence, and what stands there cannot follow.
-/

namespace ThemeSheet.Literal

open State (next?)

/-- The place behind a text: line feeds, and the characters behind the last of them, each counted
from one. -/
def Position.behind (text : List Char) : Position :=
  ⟨text.count '\n' + 1, (text.reverse.takeWhile (· != '\n')).length + 1⟩

theorem Position.behind_snoc (text : List Char) (c : Char) :
    Position.behind (text ++ [c]) = (Position.behind text).step c := by
  by_cases feed : c = '\n'
  · subst feed
    simp [behind, step]
  · simp [behind, step, feed]

theorem Position.behind_append (text more : List Char) :
    Position.behind (text ++ more) = (Position.behind text).after more := by
  induction more generalizing text with
  | nil => rw [List.append_nil]; rfl
  | cons c rest ih =>
    rw [List.append_cons, ih, behind_snoc]
    rfl

/-! Tokens and places. -/

/-- The tokens of a text up to a place in it, with what stands before the place and behind it. -/
inductive CutsTo : List Char → List Token → List Char → Prop
  | start {text} : CutsTo [] [] text
  | blank {front tokens c rest} (before : CutsTo front tokens (c :: rest))
    (blank : isBlank c = true) : CutsTo (front ++ [c]) tokens rest
  | token {front tokens lexeme rest token} (before : CutsTo front tokens (lexeme ++ rest))
    (next : token.Longest lexeme rest) : CutsTo (front ++ lexeme) (tokens ++ [token]) rest

/-- The tokens up to a place and those behind it are the tokens of the text. -/
theorem CutsTo.append {front rest : List Char} {tokens more : List Token}
    (h : CutsTo front tokens rest) (behind : Cuts rest more) :
    Cuts (front ++ rest) (tokens ++ more) := by
  induction h generalizing more with
  | start => exact behind
  | blank _ blank ih =>
    rw [← List.append_cons]
    exact ih (.blank blank behind)
  | token _ next ih =>
    rw [List.append_assoc, ← List.append_cons]
    exact ih (.token next behind)

theorem CutsTo.spelled {front rest : List Char} {tokens : List Token}
    (h : CutsTo front tokens rest) : ∀ token ∈ tokens, token.Spelled token.text := by
  induction h with
  | start => exact fun _ none => absurd none List.not_mem_nil
  | blank _ _ ih => exact ih
  | @token front tokens lexeme rest token _ next ih =>
    intro other mem
    rcases List.mem_append.mp mem with mem | mem
    · exact ih other mem
    · obtain rfl := List.mem_singleton.mp mem
      rw [← next.spelled.text]
      exact next.spelled

theorem CutsTo.scan {front text rest : List Char} {tokens : List Token} {token : Token}
    (before : CutsTo front tokens text) (found : Token.scan? text = some (token, rest)) :
    CutsTo (front ++ token.text) (tokens ++ [token]) rest := by
  obtain ⟨lexeme, rfl, longest⟩ := Token.scan?_eq_some_iff.mp found
  rw [← longest.spelled.text]
  exact .token before longest

/-- The place of the last of the first tokens of a text, which is the start of the text if there are
none. -/
inductive LastAt (text : List Char) : List Token → Position → Prop
  | none : LastAt text [] ⟨1, 1⟩
  | token {front tokens lexeme rest token} (whole : text = front ++ (lexeme ++ rest))
    (before : CutsTo front tokens (lexeme ++ rest)) (last : token.Longest lexeme rest) :
    LastAt text (tokens ++ [token]) (.behind front)

/-- The characters that begin a token but are none by themselves. -/
def openers : List Char :=
  ['"', '+', '-', '.', 't', 'f', 'n', 'u', '@']

/-- What a fault says about the text in which it is found. -/
def SyntaxFault.Explained (text : List Char) : SyntaxFault → Prop
  | badToken token position => ∃ front before lexeme after,
      text = front ++ (lexeme ++ after) ∧ position = .behind front ∧
      CutsTo front before (lexeme ++ after) ∧ token.Longest lexeme after ∧
      Viable before ∧ ¬ Viable (before ++ [token])
  | badCharacter c position => ∃ front before after,
      text = front ++ c :: after ∧ position = .behind front ∧
      CutsTo front before (c :: after) ∧ isBlank c = false ∧ Viable before ∧
      ∀ token lexeme, Token.Spelled token lexeme →
        ¬ lexeme <+: c :: after ∧ (lexeme.head? = some c → c ∈ openers)
  | unfinished position => ∃ tokens,
      Cuts text tokens ∧ LastAt text tokens position ∧ Viable tokens ∧ ¬ Sentence tokens

/-! Characters at which no token begins. -/

theorem fixed_openers : ∀ token ∈ Token.fixed,
    token.text.head?.all (fun c => token.text == [c] || openers.contains c) = true := by
  decide

theorem not_prefix_of_scan? {text lexeme : List Char} {token : Token}
    (none : Token.scan? text = none) (spelled : token.Spelled lexeme) : ¬ lexeme <+: text := by
  rintro ⟨more, rfl⟩
  obtain ⟨token', rest, found, -⟩ := Token.scan?_taken spelled more
  rw [none] at found
  cases found

theorem mem_openers {c : Char} {after lexeme : List Char} {token : Token}
    (none : Token.scan? (c :: after) = none) (spelled : token.Spelled lexeme)
    (head : lexeme.head? = some c) : c ∈ openers := by
  cases spelled with
  | fixed mem =>
    have alone := fixed_openers token mem
    rw [head] at alone
    simp only [Option.all_some, Bool.or_eq_true, beq_iff_eq, List.contains_iff_mem] at alone
    rcases alone with alone | opener
    · refine absurd ?_ (not_prefix_of_scan? none (.fixed mem))
      rw [alone]
      exact ⟨after, rfl⟩
    · exact opener
  | string =>
    cases head
    decide
  | @number literal _ number =>
    obtain ⟨d, rest, rfl, begins⟩ := Token.begins_of_spelled number
    cases head
    by_cases digit : Text.isDecimal c = true
    · -- A digit is a number by itself.
      obtain ⟨value, found⟩ := Option.isSome_iff_exists.mp digit
      have run : NumberLiteral.Digits Text.decimalValue? [value] [c] := by
        simp [NumberLiteral.Digits, found]
      have alone : Token.Spelled _ [c] :=
        .number (.decimal .none (.whole run (List.cons_ne_nil _ _)) .none)
      exact absurd ⟨after, rfl⟩ (not_prefix_of_scan? none alone)
    · simp [NumberLiteral.begins, digit] at begins
      rcases begins with (rfl | rfl) | rfl <;> decide

/-! The reading of a text, token by token. -/

/-- That the automaton has come to a place in a text. -/
structure ComeTo (text : List Char) (state : State) (last : Position) (front : List Char)
    (before : List Token) (rest : List Char) : Prop where
  whole : text = front ++ rest
  cut : CutsTo front before rest
  reached : run .start before = some state
  last : LastAt text before last

namespace ComeTo

variable {text front rest : List Char} {state : State} {last : Position} {before : List Token}

theorem start (text : List Char) : ComeTo text .start .start [] [] text :=
  ⟨rfl, .start, rfl, .none⟩

theorem blank {c : Char} (h : ComeTo text state last front before (c :: rest))
    (blank : isBlank c = true) : ComeTo text state last (front ++ [c]) before rest :=
  ⟨by rw [h.whole, List.append_cons], .blank h.cut blank, h.reached, h.last⟩

theorem token {lexeme : List Char} {token : Token} {state' : State}
    (h : ComeTo text state last front before (lexeme ++ rest)) (next : token.Longest lexeme rest)
    (follows : state.next? token = some state') :
    ComeTo text state' (.behind front) (front ++ lexeme) (before ++ [token]) rest where
  whole := by rw [h.whole, List.append_assoc]
  cut := .token h.cut next
  reached := by rw [run_append, h.reached, Option.bind_some, run_cons, follows]; rfl
  last := .token h.whole h.cut next

theorem viable (h : ComeTo text state last front before rest) : Viable before :=
  (viable_iff_run h.cut.spelled).mpr ⟨state, h.reached⟩

/-- At the end of the text, all its tokens are read. -/
theorem unfinished (h : ComeTo text state last front before [])
    (more : ∀ members, state.expecting ≠ .nothing members) :
    SyntaxFault.Explained text (.unfinished last) := by
  refine ⟨before, ?_, h.last, h.viable, fun sentence => ?_⟩
  · have cuts := h.cut.append .nil
    rwa [List.append_nil before, ← h.whole] at cuts
  · obtain ⟨members, ended⟩ := sentence.nothing h.reached
    exact more members ended

theorem badCharacter {c : Char} (h : ComeTo text state last front before (c :: rest))
    (dark : isBlank c = false) (none : Token.scan? (c :: rest) = none) :
    SyntaxFault.Explained text (.badCharacter c (.behind front)) :=
  ⟨front, before, rest, h.whole, rfl, h.cut, dark, h.viable, fun _ _ spelled =>
    ⟨not_prefix_of_scan? none spelled, mem_openers none spelled⟩⟩

theorem badToken {lexeme : List Char} {token : Token}
    (h : ComeTo text state last front before (lexeme ++ rest)) (next : token.Longest lexeme rest)
    (stuck : state.next? token = none) :
    SyntaxFault.Explained text (.badToken token (.behind front)) :=
  ⟨front, before, lexeme, rest, h.whole, rfl, h.cut, next, h.viable,
    not_viable_of_next? h.reached stuck⟩

end ComeTo

/-- The run over what is left of a text, which ends at the first place where it fails. -/
theorem explained_of_parseFrom {text front rest : List Char} {position last : Position}
    {state : State} {before : List Token} {fault : SyntaxFault}
    (come : ComeTo text state last front before rest) (place : position = .behind front)
    (failed : parseFrom (tokensAt position rest).2 state last (tokensAt position rest).1 =
      .error fault) : fault.Explained text := by
  fun_induction tokensAt position rest generalizing state last front before with
  | case1 position =>
    obtain ⟨frames, expecting⟩ := state
    cases expecting with
    | nothing members => cases failed
    | _ =>
      cases failed
      exact come.unfinished fun members same => by cases same
  | case2 position c rest blank ih =>
    refine ih (come.blank blank) ?_ failed
    rw [place, Position.behind_snoc]
  | case3 position c rest dark none =>
    cases failed
    rw [place]
    exact come.badCharacter (by simpa using dark) none
  | case4 position c rest dark token after first _ tokens textEnd found ih =>
    obtain ⟨lexeme, split, longest⟩ := Token.scan?_eq_some_iff.mp first
    rw [split] at come
    rw [parseFrom] at failed
    cases follows : state.next? token with
    | none =>
      rw [follows] at failed
      cases failed
      rw [place]
      exact come.badToken longest follows
    | some state' =>
      rw [follows] at failed
      have come' := come.token longest follows
      rw [← place] at come'
      rw [found] at ih
      refine ih come' ?_ failed
      rw [place, Position.behind_append, longest.spelled.text]

theorem explained_of_parse {text : List Char} {fault : SyntaxFault}
    (failed : parse text = .error fault) : fault.Explained text :=
  explained_of_parseFrom (.start text) rfl failed

/-! Faults of values have no place. -/

theorem readString_unplaced {site : Site} {body : List Char} {fault : Fault}
    (h : readString site body = .error fault) : fault.position? = none := by
  unfold readString at h
  split at h <;> cases h
  rfl

theorem readNumber_unplaced {site : Site} {literal : NumberLiteral} {fault : Fault}
    (h : readNumber site literal = .error fault) : fault.position? = none := by
  unfold readNumber at h
  split at h <;> cases h
  rfl

theorem except_map_error {ε α β : Type} {f : α → β} {x : Except ε α} {e : ε}
    (h : x.map f = .error e) : x = .error e := by
  cases x with
  | error => cases h; rfl
  | ok => cases h

theorem Key.read_unplaced {key : Key} {fault : Fault} (h : key.read = .error fault) :
    fault.position? = none := by
  cases key with
  | string body => exact readString_unplaced h
  | number literal => exact readNumber_unplaced h

mutual

theorem Node.read_unplaced {depth : Nat} {node : Node} {fault : Fault}
    (h : node.read depth = .error fault) : fault.position? = none := by
  match node with
  | .string body => exact readString_unplaced (except_map_error h)
  | .number literal => exact readNumber_unplaced (except_map_error h)
  | .object members =>
    unfold Node.read at h
    split at h
    · cases h
      rfl
    · exact readMembers_unplaced (except_map_error h)
  | .array items =>
    unfold Node.read at h
    split at h
    · cases h
      rfl
    · exact readItems_unplaced (except_map_error h)
  | .yes | .no | .null | .undefined | .function => cases h

theorem readMembers_unplaced {depth : Nat} {members : List Member} {fault : Fault}
    (h : readMembers depth members = .error fault) : fault.position? = none := by
  match members with
  | [] => cases h
  | (key, node) :: rest =>
    rw [readMembers] at h
    cases named : key.read with
    | error => rw [named] at h; cases h; exact Key.read_unplaced named
    | ok =>
      cases read : node.read depth with
      | error => rw [named, read] at h; cases h; exact Node.read_unplaced read
      | ok =>
        cases tail : readMembers depth rest with
        | error => rw [named, read, tail] at h; cases h; exact readMembers_unplaced tail
        | ok => rw [named, read, tail] at h; cases h

theorem readItems_unplaced {depth : Nat} {items : List Node} {fault : Fault}
    (h : readItems depth items = .error fault) : fault.position? = none := by
  match items with
  | [] => cases h
  | node :: rest =>
    rw [readItems] at h
    cases read : node.read depth with
    | error => rw [read] at h; cases h; exact Node.read_unplaced read
    | ok =>
      cases tail : readItems depth rest with
      | error => rw [read, tail] at h; cases h; exact readItems_unplaced tail
      | ok => rw [read, tail] at h; cases h

end

/-- A fault with a place is one of the syntax. -/
theorem parse_of_evaluate {name : String} {text : List Char} {fault : Fault} {position : Position}
    (failed : (evaluate name text).2 = .error (.literal fault))
    (placed : fault.position? = some position) :
    ∃ found : SyntaxFault, fault = .malformed found ∧ parse (maskFunctions text) = .error found := by
  unfold evaluate at failed
  have result := members_case text
  generalize members text = gathered at failed result
  cases result with
  | malformed parsed =>
    cases failed
    exact ⟨_, rfl, parsed⟩
  | unread _ read =>
    cases failed
    rw [readMembers_unplaced read] at placed
    cases placed
  | unordered => cases failed
  | done =>
    dsimp only at failed
    split at failed
    · cases failed
      cases placed
    · cases failed

/-- A fault with a place points at the first token or character that cannot follow, or at the last
token of a text that goes no further. -/
theorem evaluate_points (name : String) (text : List Char) (fault : Fault) (position : Position)
    (failed : (evaluate name text).2 = .error (.literal fault))
    (placed : fault.position? = some position) :
    ∃ found : SyntaxFault, fault = .malformed found ∧ found.position = position ∧
      found.Explained (maskFunctions text) := by
  obtain ⟨found, rfl, refused⟩ := parse_of_evaluate failed placed
  exact ⟨found, rfl, Option.some.inj placed, explained_of_parse refused⟩

theorem evaluate_points_colon :
    (evaluate "" "\x7b\"a\"\n \"b\"\x7d".toList).2 =
        .error (.literal (.malformed (.badToken (.string ['b']) ⟨2, 2⟩))) ∧
      ∃ found : SyntaxFault, Fault.malformed (.badToken (.string ['b']) ⟨2, 2⟩) = .malformed found ∧
        found.position = ⟨2, 2⟩ ∧
        found.Explained (maskFunctions "\x7b\"a\"\n \"b\"\x7d".toList) :=
  ⟨by decide +kernel, evaluate_points "" _ _ _ (by decide +kernel) rfl⟩

/-- Where no token begins, one that starts with the same character may be what should follow: the
quote of a string that is not closed stands where a string may stand. -/
theorem evaluate_openString :
    evaluate "" "\x7b\"a\": \"x".toList =
        ([], .error (.literal (.malformed (.badCharacter '"' ⟨1, 7⟩)))) ∧
      maskFunctions "\x7b\"a\": \"x".toList = "\x7b\"a\": ".toList ++ "\"x".toList ∧
      Position.behind "\x7b\"a\": ".toList = ⟨1, 7⟩ ∧
      CutsTo "\x7b\"a\": ".toList [.leftBrace, .string ['a'], .colon] "\"x".toList ∧
      Token.Spelled (.string []) "\"\"".toList ∧
      Viable ([.leftBrace, .string ['a'], .colon] ++ [.string []]) := by
  have first : Token.scan? "\x7b\"a\": \"x".toList = some (.leftBrace, "\"a\": \"x".toList) := by
    decide +kernel
  have second : Token.scan? "\"a\": \"x".toList = some (.string ['a'], ": \"x".toList) := by
    decide +kernel
  have third : Token.scan? ": \"x".toList = some (.colon, " \"x".toList) := by decide +kernel
  have colon := ((CutsTo.start.scan first).scan second).scan third
  have empty : Token.Spelled (.string []) "\"\"".toList := .string .nil
  have letter : Token.Spelled (.string ['a']) "\"a\"".toList :=
    .string (.plain (by decide) (by decide) (by decide) .nil)
  refine ⟨by decide +kernel, by decide +kernel, by decide, colon.blank (by decide), empty, ?_⟩
  refine (viable_iff_run ?_).mpr ⟨_, rfl⟩
  intro token mem
  simp only [List.cons_append, List.nil_append, List.mem_cons, List.not_mem_nil, or_false] at mem
  rcases mem with rfl | rfl | rfl | rfl
  · exact .fixed (by decide)
  · exact letter
  · exact .fixed (by decide)
  · exact empty

end ThemeSheet.Literal
