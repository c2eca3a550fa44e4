import ThemeSheet.Proofs.NormalTokens
import ThemeSheet.Proofs.StringParts
import ThemeSheet.Proofs.WholeNumbers

/-!
# Data in normal form

The steps towards a normal literal do two things to data. Keys that are all digits are put in quotes,
and commas before a closing bracket go. The tokens that are left derive the same members, but for
keys that were numbers and are strings now.
-/

namespace ThemeSheet.Literal

open Text

/-- The steps on tokens. -/
def normalTokens (tokens : List Token) : List Token :=
  dropTokens (quoteTokens tokens)

namespace Tree

/-- The derivation of the normal form. -/
def normal : {symbol : Symbol} → Tree symbol → Tree symbol
  | _, noPairs => noPairs
  | _, object pairs _ => object pairs.normal false
  | _, lastPair first => lastPair first.normal
  | _, nextPair first rest => nextPair first.normal rest.normal
  | _, pair key value => pair key.normal value.normal
  | _, stringKey body => stringKey body
  | _, numberKey literal text => if isBare text then stringKey text else numberKey literal text
  | _, ofObject inner => ofObject inner.normal
  | _, ofArray inner => ofArray inner.normal
  | _, string body => string body
  | _, number literal text => number literal text
  | _, yes => yes
  | _, no => no
  | _, null => null
  | _, undefined => undefined
  | _, function => function
  | _, noValues => noValues
  | _, array values _ => array values.normal false
  | _, lastValue value => lastValue value.normal
  | _, nextValue value rest => nextValue value.normal rest.normal

/-- The keys of an object, without those of the objects in it. -/
def keys : {symbol : Symbol} → Tree symbol → List Token
  | _, object pairs _ => pairs.keys
  | _, lastPair first => first.keys
  | _, nextPair first rest => first.keys ++ rest.keys
  | _, pair key _ => key.keys
  | _, stringKey body => [.string body]
  | _, numberKey literal text => [.number literal text]
  | _, _ => []

end Tree

/-! The tokens of the normal form. -/

theorem normalTokens_cons {token : Token} {rest : List Token}
    (kept : isBare token.text = true → rest.head? ≠ some .colon) (other : token ≠ .comma) :
    normalTokens (token :: rest) = token :: normalTokens rest := by
  rw [normalTokens, quoteTokens_kept kept, dropTokens_kept fun comma => absurd comma other]
  rfl

theorem closes_asKey (token : Token) : token.asKey.closes = token.closes := by
  cases token <;> first | rfl | (unfold Token.asKey; split <;> rfl)

theorem closes_quoteTokens (tokens : List Token) :
    (quoteTokens tokens).head?.any Token.closes = tokens.head?.any Token.closes := by
  cases tokens with
  | nil => rfl
  | cons token rest =>
    rw [quoteTokens]
    split
    · exact closes_asKey token
    · rfl

theorem normalTokens_comma {rest : List Token} (more : rest.head?.any Token.closes = false) :
    normalTokens (.comma :: rest) = .comma :: normalTokens rest := by
  rw [normalTokens, quoteTokens_kept fun bare => absurd bare (by decide), dropTokens_kept]
  · rfl
  · exact fun _ => (closes_quoteTokens rest).trans more

theorem normalTokens_last {rest : List Token} (last : rest.head?.any Token.closes = true) :
    normalTokens (.comma :: rest) = normalTokens rest := by
  rw [normalTokens, quoteTokens_kept fun bare => absurd bare (by decide), dropTokens,
    if_pos ⟨rfl, (closes_quoteTokens rest).trans last⟩]
  rfl

/-- A comma before a closing bracket goes, if there is one. -/
theorem normalTokens_closing {bracket : Token} (closes : bracket.closes = true) (comma : Bool)
    (more : List Token) :
    normalTokens (Tree.comma comma ++ bracket :: more) = bracket :: normalTokens more := by
  have bare : isBare bracket.text = false := by cases bracket <;> first | rfl | cases closes
  have other : bracket ≠ .comma := by
    rintro rfl
    cases closes
  have alone : normalTokens (bracket :: more) = bracket :: normalTokens more :=
    normalTokens_cons (fun h => absurd h (by simp [bare])) other
  cases comma with
  | false => exact alone
  | true =>
    have last : (bracket :: more).head?.any Token.closes = true := closes
    exact (normalTokens_last last).trans alone

namespace Tree

theorem not_closes_head {symbol : Symbol} (tree : Tree symbol) (more : List Token) :
    (tree.tokens ++ more).head?.any Token.closes = false := by
  obtain ⟨first, rest, written, begins⟩ := tree.head
  rw [written]
  cases symbol <;> cases first <;> first | rfl | cases begins

/-- At the end of a container stands no colon. -/
theorem head_closing (last : Bool) {bracket : Token} {parts : Symbol} (other : bracket ≠ .colon)
    (plural : parts ≠ .key) (more : List Token) :
    (comma last ++ bracket :: more).head? = some .colon ↔ parts = .key := by
  refine iff_of_false ?_ plural
  cases last with
  | false => simpa [comma] using other
  | true => simp [comma]

theorem normalTokens_key (literal : NumberLiteral) (text : List Char) {more : List Token}
    (colon : more.head? = some .colon) : normalTokens (.number literal text :: more) =
      (numberKey literal text).normal.tokens ++ normalTokens more := by
  rw [normal]
  cases bare : isBare text with
  | true =>
    have key : isBare (Token.number literal text).text = true := bare
    rw [if_pos rfl, normalTokens, quoteTokens_key key colon,
      dropTokens_kept fun comma => absurd comma (by simp)]
    rfl
  | false =>
    have kept : isBare (Token.number literal text).text = true → more.head? ≠ some .colon :=
      fun found => absurd (bare.symm.trans found) (by simp)
    rw [normalTokens_cons kept (by simp)]
    rfl

/-- A sentence has the normal form that its tree has, wherever it stands: a colon stands behind
keys only. -/
theorem normalTokens_tokens {symbol : Symbol} (tree : Tree symbol) (more : List Token)
    (colon : more.head? = some .colon ↔ symbol = .key) :
    normalTokens (tree.tokens ++ more) = tree.normal.tokens ++ normalTokens more := by
  have mark {token : Token} (mark : isBare token.text = false) (other : token ≠ .comma)
      (rest : List Token) : normalTokens (token :: rest) = token :: normalTokens rest :=
    normalTokens_cons (fun bare => absurd (mark.symm.trans bare) (by simp)) other
  induction tree generalizing more with
  | noPairs =>
    change normalTokens (.leftBrace :: .rightBrace :: more) = _
    rw [mark (by decide) (by simp), mark (by decide) (by simp)]
    rfl
  | object pairs last ih =>
    rw [tokens, List.cons_append, mark (by decide) (by simp), List.append_assoc,
      List.append_assoc, List.singleton_append, ih _ (head_closing last (by simp) (by simp) more),
      normalTokens_closing rfl]
    simp [normal, comma]
  | lastPair first ih => exact ih more (by simpa using colon)
  | nextPair first rest ih ih' =>
    rw [tokens, List.append_assoc, ih _ (by simp), List.cons_append,
      normalTokens_comma (rest.not_closes_head more), ih' more (by simpa using colon)]
    simp [normal]
  | pair key value ih ih' =>
    rw [tokens, List.append_assoc, List.cons_append, ih _ (by simp), mark (by decide) (by simp),
      ih' more (by simpa using colon)]
    simp [normal]
  | stringKey body =>
    have quoted : isBare (Token.string body).text = false := rfl
    exact mark quoted (by simp) more
  | numberKey literal text => exact normalTokens_key literal text (colon.mpr rfl)
  | ofObject inner ih => exact ih more (by simpa using colon)
  | ofArray inner ih => exact ih more (by simpa using colon)
  | noValues =>
    change normalTokens (.leftBracket :: .rightBracket :: more) = _
    rw [mark (by decide) (by simp), mark (by decide) (by simp)]
    rfl
  | array values last ih =>
    rw [tokens, List.cons_append, mark (by decide) (by simp), List.append_assoc,
      List.append_assoc, List.singleton_append, ih _ (head_closing last (by simp) (by simp) more),
      normalTokens_closing rfl]
    simp [normal, comma]
  | lastValue value ih => exact ih more (by simpa using colon)
  | nextValue value rest ih ih' =>
    rw [tokens, List.append_assoc, ih _ (by simp), List.cons_append,
      normalTokens_comma (rest.not_closes_head more), ih' more (by simpa using colon)]
    simp [normal]
  | string | number | yes | no | null | undefined | function =>
    exact normalTokens_cons (fun _ behind => by cases colon.mp behind) (by simp)

end Tree

/-! Keys that are all digits. -/

theorem isDecimal_of_isBare {literal : NumberLiteral} {text : List Char}
    (spelled : literal.Spelled text) (bare : isBare text = true) :
    ∀ c ∈ text, isDecimal c = true := by
  obtain ⟨c, rest, rfl, begins⟩ := Token.begins_of_spelled spelled
  have start : isNameStart c = false := by
    simp only [NumberLiteral.begins, Bool.or_eq_true, beq_iff_eq] at begins
    rcases begins with ((rfl | rfl) | rfl) | digit
    · decide
    · decide
    · decide
    · exact not_isNameStart_of_isDecimal digit
  have part : keyPart c = isDecimal := by
    rw [keyPart, start]
    rfl
  rw [isBare, part] at bare
  exact List.all_eq_true.mp bare

theorem exists_digits {text : List Char} (h : ∀ c ∈ text, isDecimal c = true) :
    ∃ values, NumberLiteral.Digits decimalValue? values text := by
  induction text with
  | nil => exact ⟨[], rfl⟩
  | cons c rest ih =>
    obtain ⟨value, found⟩ := Option.isSome_iff_exists.mp (h c List.mem_cons_self)
    obtain ⟨values, run⟩ := ih fun d mem => h d (List.mem_cons_of_mem c mem)
    exact ⟨value :: values, by rw [NumberLiteral.Digits, List.map_cons, found, run]; rfl⟩

/-- A whole number is never out of range. -/
theorem readNumber_digits (site : Site) {literal : NumberLiteral} {text : List Char}
    (spelled : literal.Spelled text) (digits : ∀ c ∈ text, isDecimal c = true) :
    ∃ name, readNumber site literal = .ok name := by
  obtain ⟨values, run⟩ := exists_digits digits
  have some : values ≠ [] := by
    rintro rfl
    obtain ⟨c, rest, eq, -⟩ := Token.begins_of_spelled spelled
    rw [(NumberLiteral.digits_nil_iff run).mp rfl] at eq
    cases eq
  have whole : NumberLiteral.Spelled ⟨false, .decimal values 0⟩ text := by
    simpa using NumberLiteral.Spelled.decimal .none (.whole run some) .none
  obtain rfl := spelled.unique whole
  rw [readNumber, NumberLiteral.toDouble?]
  dsimp only
  split_ifs
  all_goals exact ⟨_, rfl⟩

theorem readString_digits (site : Site) {text : List Char}
    (digits : ∀ c ∈ text, isDecimal c = true) :
    readString site text = .ok (String.ofList text) :=
  readString_plain site fun slash => absurd (digits _ slash) (by decide)

/-! What is read from the normal form. -/

/-- Both read, or neither and with one fault. -/
def SameEnd {α : Type} (x y : Except Fault α) : Prop :=
  x.map (fun _ => ()) = y.map (fun _ => ())

section SameEnd

variable {α β : Type} {x y : Except Fault α}

theorem SameEnd.refl (x : Except Fault α) : SameEnd x x :=
  Eq.refl _

theorem SameEnd.ok (a b : α) : SameEnd (.ok a) (.ok b) :=
  Eq.refl _

theorem SameEnd.bind (h : SameEnd x y) {f g : α → Except Fault β}
    (next : ∀ a b, SameEnd (f a) (g b)) : SameEnd (x.bind f) (y.bind g) := by
  cases x with
  | error fault =>
    cases y with
    | error => cases h; exact SameEnd.refl _
    | ok => cases h
  | ok a =>
    cases y with
    | error => cases h
    | ok b => exact next a b

theorem SameEnd.map_const (h : SameEnd x y) (b : β) : x.map (fun _ => b) = y.map fun _ => b := by
  cases x <;> cases y <;> cases h <;> rfl

end SameEnd

theorem readMembers_cons (depth : Nat) (member : Member) (rest : List Member) :
    readMembers depth (member :: rest) = member.1.read.bind fun key =>
      (member.2.read depth).bind fun value =>
        (readMembers depth rest).bind fun members => .ok ((key, value) :: members) := by
  rw [readMembers]
  rfl

theorem readItems_cons (depth : Nat) (node : Node) (rest : List Node) :
    readItems depth (node :: rest) = (node.read depth).bind fun value =>
      (readItems depth rest).bind fun items => .ok (value :: items) := by
  rw [readItems]
  rfl

/-- Read alike but for the keys. -/
def Symbol.ReadAlike : (symbol : Symbol) → symbol.Meaning → symbol.Meaning → Prop
  | object, members, members' | pairs, members, members' =>
    ∀ depth, SameEnd (readMembers depth members) (readMembers depth members')
  | pair, member, member' =>
    SameEnd member.1.read member'.1.read ∧ ∀ depth, member.2.read depth = member'.2.read depth
  | key, name, name' => SameEnd name.read name'.read
  | value, node, node' => ∀ depth, node.read depth = node'.read depth
  | array, items, items' | values, items, items' =>
    ∀ depth, readItems depth items = readItems depth items'

theorem sameEnd_cons {member member' : Member} {rest rest' : List Member}
    (first : Symbol.pair.ReadAlike member member')
    (more : Symbol.pairs.ReadAlike rest rest') :
    Symbol.pairs.ReadAlike (member :: rest : List Member) (member' :: rest' : List Member) := by
  intro depth
  rw [readMembers_cons, readMembers_cons, first.2 depth]
  exact first.1.bind fun _ _ => (SameEnd.refl _).bind fun _ _ =>
    (more depth).bind fun _ _ => .ok _ _

theorem sameEnd_key {literal : NumberLiteral} {text : List Char}
    (spelled : literal.Spelled text) :
    SameEnd (Tree.numberKey literal text).normal.meaning.read (Key.number literal).read := by
  rw [Tree.normal]
  cases bare : isBare text with
  | true =>
    have digits := isDecimal_of_isBare spelled bare
    obtain ⟨name, read⟩ := readNumber_digits .numberKey spelled digits
    have quoted : (Key.string text).read = .ok _ := readString_digits .stringKey digits
    have number : (Key.number literal).read = .ok name := read
    rw [number]
    change SameEnd (Key.string text).read _
    rw [quoted]
    exact .ok _ _
  | false => exact .refl _

/-- Wherever it stands, a sentence and its normal form are read alike but for the keys. -/
theorem Tree.readAlike {symbol : Symbol} (tree : Tree symbol)
    (spelled : ∀ token ∈ tree.tokens, token.Spelled token.text) :
    symbol.ReadAlike tree.normal.meaning tree.meaning := by
  induction tree with
  | noPairs => exact fun _ => SameEnd.refl _
  | object pairs last ih => exact ih fun token mem => spelled token (by simp [mem])
  | lastPair first ih => exact sameEnd_cons (ih spelled) fun _ => SameEnd.refl _
  | nextPair first rest ih ih' =>
    exact sameEnd_cons (ih fun token mem => spelled token (by simp [mem]))
      (ih' fun token mem => spelled token (by simp [mem]))
  | pair key value ih ih' =>
    exact ⟨ih fun token mem => spelled token (by simp [mem]),
      ih' fun token mem => spelled token (by simp [mem])⟩
  | stringKey body => exact SameEnd.refl _
  | numberKey literal text =>
    have number : literal.Spelled text := by
      cases spelled (.number literal text) (by simp) with
      | fixed mem => simp [Token.fixed] at mem
      | number number => exact number
    exact sameEnd_key number
  | ofObject inner ih =>
    intro depth
    change Node.read depth (.object inner.normal.meaning) = Node.read depth (.object inner.meaning)
    rw [Node.read, Node.read, (ih spelled (depth + 2)).map_const]
  | ofArray inner ih =>
    intro depth
    change Node.read depth (.array inner.normal.meaning) = Node.read depth (.array inner.meaning)
    rw [Node.read, Node.read, ih spelled (depth + 1)]
  | string | number | yes | no | null | undefined | function => exact fun _ => rfl
  | noValues => exact fun _ => rfl
  | array values last ih => exact ih fun token mem => spelled token (by simp [mem])
  | lastValue value ih =>
    intro depth
    have first : Node.read depth value.normal.meaning = Node.read depth value.meaning :=
      ih spelled depth
    change readItems depth [value.normal.meaning] = readItems depth [value.meaning]
    rw [readItems_cons, readItems_cons, first]
  | nextValue value rest ih ih' =>
    intro depth
    have first : Node.read depth value.normal.meaning = Node.read depth value.meaning :=
      ih (fun token mem => spelled token (by simp [mem])) depth
    have more : readItems depth rest.normal.meaning = readItems depth rest.meaning :=
      ih' (fun token mem => spelled token (by simp [mem])) depth
    change readItems depth (value.normal.meaning :: rest.normal.meaning) =
      readItems depth (value.meaning :: rest.meaning)
    rw [readItems_cons, readItems_cons, first, more]

/-! Keys that are quoted as they are read. -/

/-- All digits, and the text of the number they are. -/
def AsRead (literal : NumberLiteral) (text : List Char) : Prop :=
  (∀ c ∈ text, isDecimal c = true) → readNumber .numberKey literal = .ok (String.ofList text)

/-- Whole numbers of at most 53 bits are, without a zero before them. -/
theorem asRead_whole {literal : NumberLiteral} {n : Nat} (small : n < 2 ^ 53)
    (spelled : literal.Spelled (Nat.toDigits 10 n)) : AsRead literal (Nat.toDigits 10 n) :=
  fun _ => readNumber_whole small spelled

/-- Data whose keys are quoted as they are read. No number before a colon ends in a sign and digits,
of which only the digits would be quoted. A key of the object itself that is all digits is the text
of its number; the keys inside its values are read and forgotten. -/
structure KeysAsRead (tree : Tree .object) : Prop where
  unsigned : ∀ literal digits, [.number literal digits, .colon] <:+: tree.tokens →
    ¬ NumberLiteral.EndsSigned digits
  asRead : ∀ literal digits, .number literal digits ∈ tree.keys → AsRead literal digits

namespace Tree

theorem read_key (key : Tree .key) (spelled : ∀ token ∈ key.tokens, token.Spelled token.text)
    (asRead : ∀ literal digits, .number literal digits ∈ key.keys → AsRead literal digits) :
    Key.read key.normal.meaning = Key.read key.meaning := by
  cases key with
  | stringKey body => rfl
  | numberKey literal text =>
    rw [normal]
    cases bare : isBare text with
    | true =>
      have number : literal.Spelled text := by
        cases spelled (.number literal text) (by simp) with
        | fixed mem => simp [Token.fixed] at mem
        | number number => exact number
      have digits := isDecimal_of_isBare number bare
      have quoted : Key.read (.string text) = .ok (String.ofList text) :=
        readString_digits .stringKey digits
      exact quoted.trans (asRead literal text (by simp [keys]) digits).symm
    | false => rfl

theorem readMembers_normal (tree : Tree .pairs)
    (spelled : ∀ token ∈ tree.tokens, token.Spelled token.text)
    (asRead : ∀ literal digits, .number literal digits ∈ tree.keys → AsRead literal digits)
    (depth : Nat) :
    readMembers depth tree.normal.meaning = readMembers depth tree.meaning := by
  match tree with
  | lastPair (pair key value) =>
    have name := read_key key (fun token mem => spelled token (by simp [mem])) asRead
    have read : Node.read depth value.normal.meaning = Node.read depth value.meaning :=
      value.readAlike (fun token mem => spelled token (by simp [mem])) depth
    change readMembers depth [(key.normal.meaning, value.normal.meaning)] =
      readMembers depth [(key.meaning, value.meaning)]
    rw [readMembers_cons, readMembers_cons, name, read]
  | nextPair (pair key value) rest =>
    have name := read_key key (fun token mem => spelled token (by simp [mem]))
      fun literal digits mem => asRead literal digits (by simp [keys, mem])
    have read : Node.read depth value.normal.meaning = Node.read depth value.meaning :=
      value.readAlike (fun token mem => spelled token (by simp [mem])) depth
    have more := readMembers_normal rest (fun token mem => spelled token (by simp [mem]))
      (fun literal digits mem => asRead literal digits (by simp [keys, mem])) depth
    change readMembers depth ((key.normal.meaning, value.normal.meaning) :: rest.normal.meaning) =
      readMembers depth ((key.meaning, value.meaning) :: rest.meaning)
    rw [readMembers_cons, readMembers_cons, name, read, more]

end Tree

/-! Texts. -/

theorem spelled_of_spells {text : List Char} {tokens : List Token} (h : Spells text tokens) :
    ∀ token ∈ tokens, token.Spelled token.text := by
  induction h with
  | nil => exact fun _ none => absurd none List.not_mem_nil
  | blank _ _ ih => exact ih
  | @token lexeme _ token _ first _ ih =>
    intro other mem
    rcases List.mem_cons.mp mem with rfl | mem
    · exact first.text ▸ first
    · exact ih other mem

/-- Data without functions are read from their text as it is. -/
theorem maskFunctions_of_cuts {text : List Char} {tree : Tree .object}
    (cut : Cuts (maskFunctions text) tree.tokens) (data : .function ∉ tree.tokens) :
    maskFunctions text = text :=
  maskFrom_kept text [] .other tree.tokens (cuts_iff_lexes.mp cut) data

theorem normalize_spells_normal {text : List Char} {tree : Tree .object}
    (spells : Spells text tree.tokens) (data : .function ∉ tree.tokens)
    (plain : ¬ ['$', '{'] <:+: text) (keys : KeysAsRead tree) :
    Spells (normalize text) tree.normal.tokens := by
  have spelled := normalize_spells spells ⟨tree.leavesEnd, data, keys.unsigned⟩ plain
  have normal := tree.normalTokens_tokens [] (by simp)
  rw [List.append_nil, normalTokens] at normal
  rw [normal] at spelled
  simpa [normalTokens, quoteTokens, dropTokens] using spelled

/-- The normal form of data has the members of the data themselves. -/
theorem members_normalize {text : List Char} {tree : Tree .object}
    (cut : Cuts (maskFunctions text) tree.tokens) (data : .function ∉ tree.tokens)
    (plain : ¬ ['$', '{'] <:+: text) (keys : KeysAsRead tree) :
    members (normalize text) = members text := by
  have masked := maskFunctions_of_cuts cut data
  have parsed := parse_of_tree cut
  have spells := (cuts_iff_lexes.mp cut).spells
  rw [masked] at spells
  have normal := normalize_spells_normal spells data plain keys
  have parsed' : parse (maskFunctions (normalize text)) = .ok tree.normal.meaning := by
    rw [maskFunctions_spells normal]
    exact parse_of_tree (cuts_iff_lexes.mpr (lexes_of_spells normal tree.normal.leavesEnd))
  have read : readMembers 2 tree.normal.meaning = readMembers 2 tree.meaning := by
    cases tree with
    | noPairs => rfl
    | object pairs last =>
      exact pairs.readMembers_normal
        (fun token mem => spelled_of_spells spells token (by simp [mem])) keys.asRead 2
  simp only [members, parsed, parsed', read, Except.mapError, bind, Except.bind]

/-- Data evaluate as their normal form does. -/
theorem evaluate_normalized (name : String) (text : List Char) (tree : Tree .object)
    (cut : Cuts (maskFunctions text) tree.tokens) (data : .function ∉ tree.tokens)
    (plain : ¬ ['$', '{'] <:+: text) (keys : KeysAsRead tree) :
    evaluate name (normalize text) = evaluate name text := by
  rw [evaluate, evaluate, members_normalize cut data plain keys]

theorem not_endsSigned {text : List Char} (h : '+' ∉ text ∧ '-' ∉ text) :
    ¬ NumberLiteral.EndsSigned text := by
  rintro ⟨front, sign, digits, rfl, rfl | rfl, -, -⟩
  · exact h.1 (by simp)
  · exact h.2 (by simp)

/-- Keys that are whole numbers, that are not, and that are read and forgotten. -/
def numberKeys : List Char :=
  "\x7b10: \"a\", 1.5: [\x7b007: true,\x7d,], \"b\": null,\x7d".toList

def numberKeysTree : Tree .object :=
  .object (.nextPair (.pair (.numberKey ⟨false, .decimal [1, 0] 0⟩ "10".toList) (.string ['a']))
    (.nextPair (.pair (.numberKey ⟨false, .decimal [1, 5] (-1)⟩ "1.5".toList) (.ofArray (.array
      (.lastValue (.ofObject (.object (.lastPair (.pair
        (.numberKey ⟨false, .decimal [0, 0, 7] 0⟩ "007".toList) .yes)) true))) true)))
      (.lastPair (.pair (.stringKey ['b']) .null)))) true

theorem evaluate_normalized_numberKeys :
    Cuts (maskFunctions numberKeys) numberKeysTree.tokens ∧ .function ∉ numberKeysTree.tokens ∧
      ¬ ['$', '{'] <:+: numberKeys ∧ KeysAsRead numberKeysTree ∧
      evaluate "" (normalize numberKeys) = evaluate "" numberKeys := by
  have cut : Cuts (maskFunctions numberKeys) numberKeysTree.tokens :=
    cuts_iff_lexes.mpr (lexes_of_tokens _ (by decide +kernel) (by decide +kernel))
  have data : .function ∉ numberKeysTree.tokens := by decide
  have plain : ¬ ['$', '{'] <:+: numberKeys := by decide +kernel
  have keys : KeysAsRead numberKeysTree := by
    constructor
    · intro literal digits found
      have mem := found.subset List.mem_cons_self
      simp [numberKeysTree, Tree.comma] at mem
      rcases mem with ⟨-, rfl⟩ | ⟨-, rfl⟩ | ⟨-, rfl⟩ <;> exact not_endsSigned (by decide)
    · intro literal digits mem
      simp [numberKeysTree, Tree.keys] at mem
      rcases mem with ⟨rfl, rfl⟩ | ⟨rfl, rfl⟩
      · have run : (Nat.toDigits 10 10).map decimalValue? = [1, 0].map some := by decide +kernel
        have spelled : NumberLiteral.Spelled ⟨false, .decimal [1, 0] 0⟩ (Nat.toDigits 10 10) := by
          simpa using NumberLiteral.Spelled.decimal .none (.whole run (by simp)) .none
        exact asRead_whole (by decide) spelled
      · intro digits
        exact absurd (digits '.' (by decide)) (by decide)
  exact ⟨cut, data, plain, keys, evaluate_normalized "" _ _ cut data plain keys⟩

/-- Of a key with a sign in its exponent only the digits behind the sign are quoted, and a key with a
leading zero is quoted with it. Both are numbers for the evaluation itself. -/
theorem evaluate_signedKey :
    (evaluate "" "\x7b1e-7: 1\x7d".toList = ([], .ok [("1e-7", "1")]) ∧
      ¬ ['$', '{'] <:+: "\x7b1e-7: 1\x7d".toList ∧
      Cuts (maskFunctions "\x7b1e-7: 1\x7d".toList) (Tree.object (.lastPair (.pair
        (.numberKey ⟨false, .decimal [1] (-7)⟩ "1e-7".toList)
        (.number ⟨false, .decimal [1] 0⟩ ['1']))) false).tokens ∧
      normalize "\x7b1e-7: 1\x7d".toList = "\x7b1e-\"7\": 1\x7d".toList ∧
      evaluate "" (normalize "\x7b1e-7: 1\x7d".toList) =
        ([], .error (.literal (.malformed (.badCharacter 'e' ⟨1, 3⟩))))) ∧
    evaluate "" "\x7b01: 1\x7d".toList = ([], .ok [("1", "1")]) ∧
      evaluate "" (normalize "\x7b01: 1\x7d".toList) = ([], .ok [("01", "1")]) := by
  refine ⟨⟨by decide +kernel, by decide +kernel, cuts_iff_lexes.mpr
    (lexes_of_tokens _ (by decide +kernel) (by decide +kernel)), by decide +kernel,
    by decide +kernel⟩, by decide +kernel, by decide +kernel⟩

end ThemeSheet.Literal
