import ThemeSheet.Proofs.DataLiteral
import ThemeSheet.Proofs.Evaluation
import ThemeSheet.Proofs.ReadSoFar
import ThemeSheet.Proofs.Terminals

namespace ThemeSheet.Literal

/-- What the grammar has productions for. A literal is an object. -/
inductive Symbol
  | object
  | pairs
  | pair
  | key
  | value
  | array
  | values

/-- A derivation of the grammar, production by production. Behind the last part of a container there
may be a comma. -/
inductive Tree : Symbol → Type
  | noPairs : Tree .object
  | object (pairs : Tree .pairs) (comma : Bool) : Tree .object
  | lastPair (pair : Tree .pair) : Tree .pairs
  | nextPair (pair : Tree .pair) (rest : Tree .pairs) : Tree .pairs
  | pair (key : Tree .key) (value : Tree .value) : Tree .pair
  | stringKey (body : List Char) : Tree .key
  | numberKey (literal : NumberLiteral) (text : List Char) : Tree .key
  | ofObject (object : Tree .object) : Tree .value
  | ofArray (array : Tree .array) : Tree .value
  | string (body : List Char) : Tree .value
  | number (literal : NumberLiteral) (text : List Char) : Tree .value
  | yes : Tree .value
  | no : Tree .value
  | null : Tree .value
  | undefined : Tree .value
  | function : Tree .value
  | noValues : Tree .array
  | array (values : Tree .values) (comma : Bool) : Tree .array
  | lastValue (value : Tree .value) : Tree .values
  | nextValue (value : Tree .value) (rest : Tree .values) : Tree .values

/-- What a symbol stands for. -/
abbrev Symbol.Meaning : Symbol → Type
  | object => List Member
  | pairs => List Member
  | pair => Member
  | key => Key
  | value => Node
  | array => List Node
  | values => List Node

namespace Tree

def comma (present : Bool) : List Token :=
  if present then [.comma] else []

/-- The sentence that is derived. -/
@[simp]
def tokens : {symbol : Symbol} → Tree symbol → List Token
  | _, noPairs => [.leftBrace, .rightBrace]
  | _, object pairs last => .leftBrace :: (pairs.tokens ++ (comma last ++ [.rightBrace]))
  | _, lastPair first => first.tokens
  | _, nextPair first rest => first.tokens ++ .comma :: rest.tokens
  | _, pair key value => key.tokens ++ .colon :: value.tokens
  | _, stringKey body => [.string body]
  | _, numberKey literal text => [.number literal text]
  | _, ofObject inner => inner.tokens
  | _, ofArray inner => inner.tokens
  | _, string body => [.string body]
  | _, number literal text => [.number literal text]
  | _, yes => [.yes]
  | _, no => [.no]
  | _, null => [.null]
  | _, undefined => [.undefined]
  | _, function => [.function]
  | _, noValues => [.leftBracket, .rightBracket]
  | _, array values last => .leftBracket :: (values.tokens ++ (comma last ++ [.rightBracket]))
  | _, lastValue value => value.tokens
  | _, nextValue value rest => value.tokens ++ .comma :: rest.tokens

/-- Members and values in the order in which they are derived. -/
def meaning : {symbol : Symbol} → Tree symbol → symbol.Meaning
  | _, noPairs => ([] : List Member)
  | _, object pairs _ => pairs.meaning
  | _, lastPair first => [first.meaning]
  | _, nextPair first rest => (first.meaning :: rest.meaning : List Member)
  | _, pair key value => (key.meaning, value.meaning)
  | _, stringKey body => Key.string body
  | _, numberKey literal _ => Key.number literal
  | _, ofObject inner => Node.object inner.meaning
  | _, ofArray inner => Node.array inner.meaning
  | _, string body => Node.string body
  | _, number literal _ => Node.number literal
  | _, yes => Node.yes
  | _, no => Node.no
  | _, null => Node.null
  | _, undefined => Node.undefined
  | _, function => Node.function
  | _, noValues => ([] : List Node)
  | _, array values _ => values.meaning
  | _, lastValue value => [value.meaning]
  | _, nextValue value rest => (value.meaning :: rest.meaning : List Node)

end Tree

/-! Trees derive what the grammar derives. -/

/-- That a symbol's meaning is derived from tokens. -/
def Symbol.Derived : (symbol : Symbol) → symbol.Meaning → List Token → Prop
  | object, members, tokens => Derives (.value (.object members)) tokens
  | pairs, members, tokens => members ≠ [] ∧ Derives (.members members) tokens
  | pair, member, tokens => Derives (.members [member]) tokens
  | key, meaning, tokens => ∃ token, tokens = [token] ∧ token.key? = some meaning
  | value, node, tokens => Derives (.value node) tokens
  | array, items, tokens => Derives (.value (.array items)) tokens
  | values, items, tokens => items ≠ [] ∧ Derives (.items items) tokens

theorem closing_comma {α : Type} {parts : List α} (some : parts ≠ []) (present : Bool) :
    Closing parts (Tree.comma present) := by
  cases present with
  | false => exact .inl rfl
  | true => exact .inr ⟨some, rfl⟩

theorem Tree.derived {symbol : Symbol} (tree : Tree symbol) :
    symbol.Derived tree.meaning tree.tokens := by
  induction tree with
  | noPairs => exact .object .noMembers (.inl rfl)
  | object pairs last ih =>
    have whole := Derives.object ih.2 (closing_comma ih.1 last)
    rw [List.append_assoc] at whole
    exact whole
  | lastPair first ih => exact ⟨List.cons_ne_nil _ _, ih⟩
  | nextPair first rest ih ih' =>
    refine ⟨List.cons_ne_nil _ _, ?_⟩
    obtain ⟨token, value, tokens, named, derived⟩ := derives_member ih
    rw [Tree.tokens, tokens]
    exact .member named derived ih'.1 ih'.2
  | pair key value ih ih' =>
    obtain ⟨token, tokens, named⟩ := ih
    rw [Tree.tokens, tokens]
    exact .lastMember named ih'
  | stringKey body => exact ⟨.string body, rfl, rfl⟩
  | numberKey literal text => exact ⟨.number literal text, rfl, rfl⟩
  | ofObject inner ih => exact ih
  | ofArray inner ih => exact ih
  | noValues => exact .array .noItems (.inl rfl)
  | array values last ih =>
    have whole := Derives.array ih.2 (closing_comma ih.1 last)
    rw [List.append_assoc] at whole
    exact whole
  | lastValue value ih => exact ⟨List.cons_ne_nil _ _, .lastItem ih⟩
  | nextValue value rest ih ih' => exact ⟨List.cons_ne_nil _ _, .item ih ih'.1 ih'.2⟩
  | string | number | yes | no | null | undefined | function => exact .leaf rfl

/-- That there is a tree for what the grammar derives. A container without parts has none inside. -/
def Phrase.HasTree : Phrase → List Token → Prop
  | .value node, tokens => ∃ tree : Tree .value, tree.meaning = node ∧ tree.tokens = tokens
  | .members parts, tokens => parts = [] ∧ tokens = [] ∨
      ∃ tree : Tree .pairs, tree.meaning = parts ∧ tree.tokens = tokens
  | .items parts, tokens => parts = [] ∧ tokens = [] ∨
      ∃ tree : Tree .values, tree.meaning = parts ∧ tree.tokens = tokens

theorem comma_of_closing {α : Type} {parts : List α} {tail : List Token}
    (h : Closing parts tail) : ∃ present, tail = Tree.comma present := by
  rcases h with rfl | ⟨-, rfl⟩
  · exact ⟨false, rfl⟩
  · exact ⟨true, rfl⟩

theorem tree_of_leaf {token : Token} {node : Node} (h : token.leaf? = some node) :
    ∃ tree : Tree .value, tree.meaning = node ∧ tree.tokens = [token] := by
  cases token with
  | yes => cases h; exact ⟨.yes, rfl, rfl⟩
  | no => cases h; exact ⟨.no, rfl, rfl⟩
  | null => cases h; exact ⟨.null, rfl, rfl⟩
  | undefined => cases h; exact ⟨.undefined, rfl, rfl⟩
  | function => cases h; exact ⟨.function, rfl, rfl⟩
  | string body => cases h; exact ⟨.string body, rfl, rfl⟩
  | number literal text => cases h; exact ⟨.number literal text, rfl, rfl⟩
  | _ => cases h

theorem tree_of_key {token : Token} {key : Key} (h : token.key? = some key) :
    ∃ tree : Tree .key, tree.meaning = key ∧ tree.tokens = [token] := by
  cases token with
  | string body => cases h; exact ⟨.stringKey body, rfl, rfl⟩
  | number literal text => cases h; exact ⟨.numberKey literal text, rfl, rfl⟩
  | _ => cases h

theorem hasTree_of_derives {phrase : Phrase} {tokens : List Token} (h : Derives phrase tokens) :
    phrase.HasTree tokens := by
  induction h with
  | leaf leaf => exact tree_of_leaf leaf
  | object _ closing ih =>
    rcases ih with ⟨rfl, rfl⟩ | ⟨pairs, rfl, rfl⟩
    · rcases closing with rfl | ⟨some, -⟩
      · exact ⟨.ofObject .noPairs, rfl, rfl⟩
      · exact absurd rfl some
    · obtain ⟨present, rfl⟩ := comma_of_closing closing
      exact ⟨.ofObject (.object pairs present), rfl, by simp [Tree.tokens]⟩
  | array _ closing ih =>
    rcases ih with ⟨rfl, rfl⟩ | ⟨values, rfl, rfl⟩
    · rcases closing with rfl | ⟨some, -⟩
      · exact ⟨.ofArray .noValues, rfl, rfl⟩
      · exact absurd rfl some
    · obtain ⟨present, rfl⟩ := comma_of_closing closing
      exact ⟨.ofArray (.array values present), rfl, by simp [Tree.tokens]⟩
  | noMembers => exact .inl ⟨rfl, rfl⟩
  | lastMember named _ ih =>
    obtain ⟨key, rfl, written⟩ := tree_of_key named
    obtain ⟨value, rfl, rfl⟩ := ih
    exact .inr ⟨.lastPair (.pair key value), rfl, by simp [Tree.tokens, written]⟩
  | member named _ more _ ih ih' =>
    obtain ⟨key, rfl, written⟩ := tree_of_key named
    obtain ⟨value, rfl, rfl⟩ := ih
    rcases ih' with ⟨none, -⟩ | ⟨rest, rfl, rfl⟩
    · exact absurd none more
    · exact .inr ⟨.nextPair (.pair key value) rest, rfl, by simp [Tree.tokens, written]⟩
  | noItems => exact .inl ⟨rfl, rfl⟩
  | lastItem _ ih =>
    obtain ⟨value, rfl, rfl⟩ := ih
    exact .inr ⟨.lastValue value, rfl, rfl⟩
  | item _ more _ ih ih' =>
    obtain ⟨value, rfl, rfl⟩ := ih
    rcases ih' with ⟨none, -⟩ | ⟨rest, rfl, rfl⟩
    · exact absurd none more
    · exact .inr ⟨.nextValue value rest, rfl, rfl⟩

theorem tree_of_object {members : List Member} {tokens : List Token}
    (h : Derives (.value (.object members)) tokens) :
    ∃ tree : Tree .object, tree.meaning = members ∧ tree.tokens = tokens := by
  obtain ⟨tree, meaning, written⟩ := hasTree_of_derives h
  cases tree with
  | ofObject inner =>
    cases meaning
    exact ⟨inner, rfl, written⟩
  | _ => cases meaning

/-! No sentence has two trees. -/

/-- The tokens that a sentence can begin with. -/
def Symbol.begins : Symbol → Token → Bool
  | object, token => token == .leftBrace
  | array, token => token == .leftBracket
  | pairs, token => token.key?.isSome
  | pair, token => token.key?.isSome
  | key, token => token.key?.isSome
  | value, token => token == .leftBrace || token == .leftBracket || token.leaf?.isSome
  | values, token => token == .leftBrace || token == .leftBracket || token.leaf?.isSome

namespace Tree

theorem head {symbol : Symbol} (tree : Tree symbol) :
    ∃ first rest, tree.tokens = first :: rest ∧ symbol.begins first = true := by
  induction tree with
  | noPairs | object | noValues | array => exact ⟨_, _, rfl, rfl⟩
  | stringKey | numberKey => exact ⟨_, _, rfl, rfl⟩
  | string | number | yes | no | null | undefined | function => exact ⟨_, _, rfl, rfl⟩
  | lastPair _ ih => exact ih
  | lastValue _ ih => exact ih
  | nextPair first rest ih _ =>
    obtain ⟨token, tokens, written, begins⟩ := ih
    exact ⟨token, _, by rw [Tree.tokens, written]; rfl, begins⟩
  | nextValue first rest ih _ =>
    obtain ⟨token, tokens, written, begins⟩ := ih
    exact ⟨token, _, by rw [Tree.tokens, written]; rfl, begins⟩
  | pair key value ih _ =>
    obtain ⟨token, tokens, written, begins⟩ := ih
    exact ⟨token, _, by rw [Tree.tokens, written]; rfl, begins⟩
  | ofObject inner ih =>
    obtain ⟨token, tokens, written, begins⟩ := ih
    exact ⟨token, tokens, written, by simp [Symbol.begins] at begins ⊢; simp [begins]⟩
  | ofArray inner ih =>
    obtain ⟨token, tokens, written, begins⟩ := ih
    exact ⟨token, tokens, written, by simp [Symbol.begins] at begins ⊢; simp [begins]⟩

/-- That a tree is the only one for the sentence it derives, wherever this ends. -/
def Alone {symbol : Symbol} (tree : Tree symbol) : Prop :=
  ∀ (other : Tree symbol) (more more' : List Token),
    tree.tokens ++ more = other.tokens ++ more' → tree = other ∧ more = more'

/-- That a tree is the only one for the parts of a container, which end at its bracket, with or
without a comma before it. -/
def AloneBefore (bracket : Token) {symbol : Symbol} (tree : Tree symbol) : Prop :=
  ∀ (other : Tree symbol) (last last' : Bool) (more more' : List Token),
    tree.tokens ++ (comma last ++ bracket :: more) =
      other.tokens ++ (comma last' ++ bracket :: more') →
    tree = other ∧ last = last' ∧ more = more'

def Unique : {symbol : Symbol} → Tree symbol → Prop
  | .pairs, tree => tree.AloneBefore .rightBrace
  | .values, tree => tree.AloneBefore .rightBracket
  | _, tree => tree.Alone

/-- What cannot begin a sentence does not stand where one begins. -/
theorem ne_of_begins {symbol : Symbol} (tree : Tree symbol) {token : Token}
    (h : symbol.begins token = false) (more more' : List Token) :
    token :: more ≠ tree.tokens ++ more' := by
  obtain ⟨first, rest, written, begins⟩ := tree.head
  rw [written]
  intro same
  obtain rfl := (List.cons.inj same).1
  rw [h] at begins
  cases begins

theorem comma_inj {bracket : Token} (h : bracket ≠ .comma) {last last' : Bool}
    {more more' : List Token}
    (same : comma last ++ bracket :: more = comma last' ++ bracket :: more') :
    last = last' ∧ more = more' := by
  cases last <;> cases last' <;> simp_all [comma]

/-- A comma with more parts behind it is not the last. -/
theorem comma_ne {symbol : Symbol} {bracket : Token} (h : bracket ≠ .comma)
    (other : symbol.begins bracket = false) (rest : Tree symbol) (last : Bool)
    (more more' : List Token) :
    comma last ++ bracket :: more ≠ .comma :: rest.tokens ++ more' := by
  intro same
  cases last with
  | false => exact h (List.cons.inj same).1
  | true => exact ne_of_begins rest other more more' (List.cons.inj same).2

theorem object_head (tree : Tree .object) : ∃ rest, tree.tokens = .leftBrace :: rest := by
  cases tree <;> exact ⟨_, rfl⟩

theorem array_head (tree : Tree .array) : ∃ rest, tree.tokens = .leftBracket :: rest := by
  cases tree <;> exact ⟨_, rfl⟩

/-! The two kinds of containers are told apart from others, and taken apart, alike. -/

section Containers

variable {part parts : Symbol} {bracket opening : Token} {last last' : Bool}
  {more more' : List Token}

theorem empty_ne (inside : Tree parts) (h : parts.begins bracket = false) :
    [opening, bracket] ++ more ≠
      opening :: (inside.tokens ++ (comma last ++ [bracket])) ++ more' := by
  intro same
  simp only [List.cons_append, List.nil_append, List.append_assoc] at same
  exact ne_of_begins inside h more _ (List.cons.inj same).2

theorem filled_inj {inside inside' : Tree parts} (h : inside.AloneBefore bracket)
    (same : opening :: (inside.tokens ++ (comma last ++ [bracket])) ++ more =
      opening :: (inside'.tokens ++ (comma last' ++ [bracket])) ++ more') :
    inside = inside' ∧ last = last' ∧ more = more' := by
  simp only [List.cons_append, List.nil_append, List.append_assoc] at same
  exact h inside' last last' more more' (List.cons.inj same).2

variable {first first' : Tree part} {rest rest' : Tree parts}

theorem last_inj (h : first.Alone) (closing : bracket ≠ .comma)
    (same : first.tokens ++ (comma last ++ bracket :: more) =
      first'.tokens ++ (comma last' ++ bracket :: more')) :
    first = first' ∧ last = last' ∧ more = more' := by
  obtain ⟨rfl, behind⟩ := h first' _ _ same
  exact ⟨rfl, comma_inj closing behind⟩

theorem last_ne_next (h : first.Alone) (closing : bracket ≠ .comma)
    (outside : parts.begins bracket = false) :
    first.tokens ++ (comma last ++ bracket :: more) ≠
      first'.tokens ++ .comma :: rest.tokens ++ more' := by
  intro same
  rw [List.append_assoc] at same
  obtain ⟨-, behind⟩ := h first' _ _ same
  exact comma_ne closing outside rest _ _ _ behind

theorem next_ne_last (h : first.Alone) (closing : bracket ≠ .comma)
    (outside : parts.begins bracket = false) :
    first.tokens ++ .comma :: rest.tokens ++ more' ≠
      first'.tokens ++ (comma last ++ bracket :: more) := by
  intro same
  rw [List.append_assoc] at same
  obtain ⟨-, behind⟩ := h first' _ _ same
  exact comma_ne closing outside rest _ _ _ behind.symm

theorem next_inj (h : first.Alone) (tail : rest.AloneBefore bracket)
    (same : first.tokens ++ .comma :: rest.tokens ++ (comma last ++ bracket :: more) =
      first'.tokens ++ .comma :: rest'.tokens ++ (comma last' ++ bracket :: more')) :
    first = first' ∧ rest = rest' ∧ last = last' ∧ more = more' := by
  simp only [List.append_assoc] at same
  obtain ⟨rfl, behind⟩ := h first' _ _ same
  exact ⟨rfl, tail rest' _ _ _ _ (List.cons.inj behind).2⟩

end Containers

/-! One production at a time: it is told from the others for its symbol by the token at which they
part. -/

theorem unique_noPairs : noPairs.Unique := by
  intro other more more' same
  cases other with
  | noPairs => exact ⟨rfl, (List.cons.inj (List.cons.inj same).2).2⟩
  | object pairs last => exact absurd same (empty_ne pairs rfl)

theorem unique_noValues : noValues.Unique := by
  intro other more more' same
  cases other with
  | noValues => exact ⟨rfl, (List.cons.inj (List.cons.inj same).2).2⟩
  | array values last => exact absurd same (empty_ne values rfl)

theorem unique_object {pairs : Tree .pairs} (h : pairs.Unique) (last : Bool) :
    (object pairs last).Unique := by
  intro other more more' same
  cases other with
  | noPairs => exact absurd same.symm (empty_ne pairs rfl)
  | object pairs' last' =>
    obtain ⟨rfl, rfl, rfl⟩ := filled_inj h same
    exact ⟨rfl, rfl⟩

theorem unique_array {values : Tree .values} (h : values.Unique) (last : Bool) :
    (array values last).Unique := by
  intro other more more' same
  cases other with
  | noValues => exact absurd same.symm (empty_ne values rfl)
  | array values' last' =>
    obtain ⟨rfl, rfl, rfl⟩ := filled_inj h same
    exact ⟨rfl, rfl⟩

theorem unique_lastPair {first : Tree .pair} (h : first.Unique) : (lastPair first).Unique := by
  intro other last last' more more' same
  cases other with
  | lastPair first' =>
    obtain ⟨rfl, ends⟩ := last_inj h (by simp) same
    exact ⟨rfl, ends⟩
  | nextPair first' rest => exact absurd same (last_ne_next h (by simp) rfl)

theorem unique_lastValue {first : Tree .value} (h : first.Unique) : (lastValue first).Unique := by
  intro other last last' more more' same
  cases other with
  | lastValue first' =>
    obtain ⟨rfl, ends⟩ := last_inj h (by simp) same
    exact ⟨rfl, ends⟩
  | nextValue first' rest => exact absurd same (last_ne_next h (by simp) rfl)

theorem unique_nextPair {first : Tree .pair} {rest : Tree .pairs} (h : first.Unique)
    (tail : rest.Unique) : (nextPair first rest).Unique := by
  intro other last last' more more' same
  cases other with
  | lastPair first' => exact absurd same (next_ne_last h (by simp) rfl)
  | nextPair first' rest' =>
    obtain ⟨rfl, rfl, ends⟩ := next_inj h tail same
    exact ⟨rfl, ends⟩

theorem unique_nextValue {first : Tree .value} {rest : Tree .values} (h : first.Unique)
    (tail : rest.Unique) : (nextValue first rest).Unique := by
  intro other last last' more more' same
  cases other with
  | lastValue first' => exact absurd same (next_ne_last h (by simp) rfl)
  | nextValue first' rest' =>
    obtain ⟨rfl, rfl, ends⟩ := next_inj h tail same
    exact ⟨rfl, ends⟩

theorem unique_pair {key : Tree .key} {value : Tree .value} (h : key.Unique)
    (h' : value.Unique) : (pair key value).Unique := by
  intro other more more' same
  cases other with
  | pair key' value' =>
    simp only [tokens, List.append_assoc] at same
    obtain ⟨rfl, behind⟩ := h key' _ _ same
    obtain ⟨rfl, rfl⟩ := h' value' _ _ (List.cons.inj behind).2
    exact ⟨rfl, rfl⟩

theorem unique_ofObject {inner : Tree .object} (h : inner.Unique) : (ofObject inner).Unique := by
  intro other more more' same
  cases other with
  | ofObject inner' =>
    obtain ⟨rfl, rfl⟩ := h inner' more more' same
    exact ⟨rfl, rfl⟩
  | ofArray inner' =>
    obtain ⟨rest, written⟩ := inner.object_head
    simp only [tokens, written] at same
    exact absurd same (ne_of_begins inner' rfl _ _)
  | _ => exact absurd same.symm (ne_of_begins inner rfl _ _)

theorem unique_ofArray {inner : Tree .array} (h : inner.Unique) : (ofArray inner).Unique := by
  intro other more more' same
  cases other with
  | ofArray inner' =>
    obtain ⟨rfl, rfl⟩ := h inner' more more' same
    exact ⟨rfl, rfl⟩
  | ofObject inner' =>
    obtain ⟨rest, written⟩ := inner.array_head
    simp only [tokens, written] at same
    exact absurd same (ne_of_begins inner' rfl _ _)
  | _ => exact absurd same.symm (ne_of_begins inner rfl _ _)

theorem unique {symbol : Symbol} (tree : Tree symbol) : tree.Unique := by
  induction tree with
  | noPairs => exact unique_noPairs
  | object _ last ih => exact unique_object ih last
  | lastPair _ ih => exact unique_lastPair ih
  | nextPair _ _ ih ih' => exact unique_nextPair ih ih'
  | pair _ _ ih ih' => exact unique_pair ih ih'
  | stringKey | numberKey =>
    intro other more more' same
    cases other <;> simp_all [tokens]
  | ofObject _ ih => exact unique_ofObject ih
  | ofArray _ ih => exact unique_ofArray ih
  | string | number | yes | no | null | undefined | function =>
    intro other more more' same
    cases other with
    | ofObject inner => exact absurd same (ne_of_begins inner rfl _ _)
    | ofArray inner => exact absurd same (ne_of_begins inner rfl _ _)
    | _ => simp_all [tokens]
  | noValues => exact unique_noValues
  | array _ last ih => exact unique_array ih last
  | lastValue _ ih => exact unique_lastValue ih
  | nextValue _ _ ih ih' => exact unique_nextValue ih ih'

end Tree

/-! Texts. -/

theorem Lexes.unique {text : List Char} {tokens tokens' : List Token} (h : Lexes text tokens)
    (h' : Lexes text tokens') : tokens = tokens' := by
  obtain ⟨placed, found, same⟩ := tokensAt_of_lexes h .start
  obtain ⟨placed', found', same'⟩ := tokensAt_of_lexes h' .start
  obtain ⟨rfl, -⟩ := Prod.mk.inj (found.symm.trans found')
  exact same.symm.trans same'

theorem parse_of_object {text : List Char} {tokens : List Token} {members : List Member}
    (lexes : Lexes text tokens) (derived : Derives (.value (.object members)) tokens) :
    parse text = .ok members := by
  cases derived with
  | @leaf token _ leaf => cases token <;> cases leaf
  | object inside closing => exact parse_of_derives lexes inside closing

theorem parse_of_tree {text : List Char} {tree : Tree .object} (h : Cuts text tree.tokens) :
    parse text = .ok tree.meaning :=
  parse_of_object (cuts_iff_lexes.mp h) tree.derived

/-- A text is read exactly if it can be cut into the tokens of a sentence. There is one derivation
of this sentence, and what is read is what it derives, keys and values in their order. -/
theorem parse_ok_iff_derived (text : List Char) :
    ((∃ members, parse text = .ok members) ↔ ∃ tree : Tree .object, Cuts text tree.tokens) ∧
      (∀ tree tree' : Tree .object, Cuts text tree.tokens → Cuts text tree'.tokens →
        tree = tree') ∧
      ∀ tree : Tree .object, Cuts text tree.tokens → parse text = .ok tree.meaning ∧
        ∀ members, readMembers 2 tree.meaning = .ok members →
          List.Forall₂ (fun node member => node.1.Names member.1 ∧ node.2.Reads member.2)
            tree.meaning members := by
  refine ⟨⟨?_, ?_⟩, ?_, ?_⟩
  · rintro ⟨members, parsed⟩
    obtain ⟨tokens, lexes, derived⟩ := derives_of_parse parsed
    obtain ⟨tree, -, rfl⟩ := tree_of_object derived
    exact ⟨tree, cuts_iff_lexes.mpr lexes⟩
  · rintro ⟨tree, cut⟩
    exact ⟨tree.meaning, parse_of_tree cut⟩
  · intro tree tree' cut cut'
    have same := (cuts_iff_lexes.mp cut).unique (cuts_iff_lexes.mp cut')
    exact (tree.unique tree' [] [] (by rw [same])).1
  · intro tree cut
    exact ⟨parse_of_tree cut, fun members read => forall₂_readMembers read⟩

theorem parse_ok_iff_derived_trailing_commas :
    Cuts "\x7b\"a\": [true,],\x7d".toList
        [.leftBrace, .string ['a'], .colon, .leftBracket, .yes, .comma, .rightBracket, .comma,
          .rightBrace] ∧
      parse "\x7b\"a\": [true,],\x7d".toList = .ok [(.string ['a'], .array [.yes])] := by
  have cut : Cuts "\x7b\"a\": [true,],\x7d".toList
      [.leftBrace, .string ['a'], .colon, .leftBracket, .yes, .comma, .rightBracket, .comma,
        .rightBrace] :=
    cuts_iff_lexes.mpr (lexes_of_tokens _ (by decide +kernel) (by decide +kernel))
  let value : Tree .value := .ofArray (.array (.lastValue .yes) true)
  let tree : Tree .object := .object (.lastPair (.pair (.stringKey ['a']) value)) true
  exact ⟨cut, ((parse_ok_iff_derived _).2.2 tree cut).1⟩

end ThemeSheet.Literal
