import Mathlib.Logic.Function.Basic
import ThemeSheet.Proofs.MaskedAlike

/-! Texts alike are cut into the same tokens and read as the same members. -/

namespace ThemeSheet.Literal

open Text NumberLiteral

/-! Answers that are the same in some respect. -/

section same

variable {ε α β γ : Type} {f : α → γ} {g : β → γ}

theorem map_cases {a : Option α} {b : Option β} (h : a.map f = b.map g) :
    a = none ∧ b = none ∨ ∃ x y, a = some x ∧ b = some y ∧ f x = g y := by
  cases a with
  | none => cases b <;> first | exact .inl ⟨rfl, rfl⟩ | cases h
  | some x =>
    cases b with
    | none => cases h
    | some y => exact .inr ⟨x, y, rfl, rfl, Option.some.inj h⟩

theorem toOption_cases {a : Except ε α} {b : Except ε β}
    (h : a.toOption.map f = b.toOption.map g) :
    (∃ e e', a = .error e ∧ b = .error e') ∨ ∃ x y, a = .ok x ∧ b = .ok y ∧ f x = g y := by
  cases a with
  | error e => cases b <;> first | exact .inl ⟨e, _, rfl, rfl⟩ | cases h
  | ok x =>
    cases b with
    | error => cases h
    | ok y => exact .inr ⟨x, y, rfl, rfl, Option.some.inj h⟩

end same

/-! Bodies of strings. -/

/-- One body among those that are read alike. -/
noncomputable def standard (body : List Char) : List Char :=
  Function.invFun (fun body site => readString site body) (fun site => readString site body)

theorem readString_standard (site : Site) (body : List Char) :
    readString site (standard body) = readString site body :=
  congrFun (Function.invFun_eq (f := fun body site => readString site body) ⟨body, rfl⟩) site

theorem standard_congr {body body' : List Char}
    (h : ∀ site, readString site body = readString site body') : standard body = standard body' :=
  congrArg (Function.invFun fun body site => readString site body) (funext h)

/-! Changes to all strings. -/

section strings

variable (f : List Char → List Char)

def Token.mapStrings : Token → Token
  | string body => string (f body)
  | token => token

def Key.mapStrings : Key → Key
  | string body => string (f body)
  | key => key

mutual

def Node.mapStrings : Node → Node
  | .string body => .string (f body)
  | .object members => .object (mapMembers members)
  | .array items => .array (mapItems items)
  | node => node

def mapMembers : List Member → List Member
  | [] => []
  | (key, node) :: rest => (key.mapStrings f, node.mapStrings) :: mapMembers rest

def mapItems : List Node → List Node
  | [] => []
  | node :: rest => node.mapStrings :: mapItems rest

end

def Frame.mapStrings : Frame → Frame
  | member done key => member (mapMembers f done) (key.mapStrings f)
  | element done => element (mapItems f done)

def Expecting.mapStrings : Expecting → Expecting
  | document => document
  | memberOrClose done => memberOrClose (mapMembers f done)
  | colon done key => colon (mapMembers f done) (key.mapStrings f)
  | value => value
  | valueOrClose done => valueOrClose (mapItems f done)
  | memberEnd done => memberEnd (mapMembers f done)
  | elementEnd done => elementEnd (mapItems f done)
  | nothing members => nothing (mapMembers f members)

def State.mapStrings (state : State) : State :=
  ⟨state.frames.map (Frame.mapStrings f), state.expecting.mapStrings f⟩

theorem mapMembers_eq_map (members : List Member) :
    mapMembers f members = members.map fun (key, node) => (key.mapStrings f, node.mapStrings f) := by
  induction members with
  | nil => rw [mapMembers, List.map_nil]
  | cons member rest ih =>
    obtain ⟨key, node⟩ := member
    rw [mapMembers, ih, List.map_cons]

theorem mapItems_eq_map (items : List Node) :
    mapItems f items = items.map (Node.mapStrings f) := by
  induction items with
  | nil => rw [mapItems, List.map_nil]
  | cons node rest ih => rw [mapItems, ih, List.map_cons]

theorem mapMembers_reverse (members : List Member) :
    mapMembers f members.reverse = (mapMembers f members).reverse := by
  rw [mapMembers_eq_map, mapMembers_eq_map, List.map_reverse]

theorem mapItems_reverse (items : List Node) :
    mapItems f items.reverse = (mapItems f items).reverse := by
  rw [mapItems_eq_map, mapItems_eq_map, List.map_reverse]

theorem place?_mapStrings (node : Node) (frames : List Frame) :
    (State.place? node frames).map (State.mapStrings f) =
      State.place? (node.mapStrings f) (frames.map (Frame.mapStrings f)) := by
  cases frames with
  | nil => rfl
  | cons frame frames =>
    cases frame with
    | member done key =>
      simp [State.place?, State.mapStrings, Frame.mapStrings, Expecting.mapStrings, mapMembers]
    | element done =>
      simp [State.place?, State.mapStrings, Frame.mapStrings, Expecting.mapStrings, mapItems]

theorem closeObject_mapStrings (members : List Member) (frames : List Frame) :
    (State.closeObject members frames).mapStrings f =
      State.closeObject (mapMembers f members) (frames.map (Frame.mapStrings f)) := by
  cases frames with
  | nil => rfl
  | cons frame frames =>
    cases frame with
    | member done key =>
      simp [State.closeObject, State.mapStrings, Frame.mapStrings, Expecting.mapStrings, mapMembers,
        Node.mapStrings]
    | element done =>
      simp [State.closeObject, State.mapStrings, Frame.mapStrings, Expecting.mapStrings, mapItems,
        Node.mapStrings]

theorem beginValue?_mapStrings (frames : List Frame) (token : Token) :
    (State.beginValue? frames token).map (State.mapStrings f) =
      State.beginValue? (frames.map (Frame.mapStrings f)) (token.mapStrings f) := by
  cases token <;>
    first
    | exact place?_mapStrings f _ frames
    | simp [State.beginValue?, State.mapStrings, Token.mapStrings, Expecting.mapStrings, mapMembers,
        mapItems]

/-- The automaton does not look into strings. -/
theorem next?_mapStrings (state : State) (token : Token) :
    (state.next? token).map (State.mapStrings f) =
      (state.mapStrings f).next? (token.mapStrings f) := by
  obtain ⟨frames, expecting⟩ := state
  have object (done : List Member) : (State.closeObject done.reverse frames).mapStrings f =
      State.closeObject (mapMembers f done).reverse (frames.map (Frame.mapStrings f)) := by
    rw [closeObject_mapStrings, mapMembers_reverse]
  have array (done : List Node) :
      (State.place? (.array done.reverse) frames).map (State.mapStrings f) =
        State.place? (.array (mapItems f done).reverse) (frames.map (Frame.mapStrings f)) := by
    rw [place?_mapStrings, Node.mapStrings, mapItems_reverse]
  cases expecting with
  | value => exact beginValue?_mapStrings f frames token
  | valueOrClose done =>
    have value := beginValue?_mapStrings f (.element done :: frames) token
    cases token <;> first | exact array done | exact value
  | memberOrClose done =>
    cases token <;>
      first | exact congrArg some (object done) | rfl
  | memberEnd done =>
    cases token <;>
      first | exact congrArg some (object done) | rfl
  | elementEnd done => cases token <;> first | exact array done | rfl
  | document => cases token <;> rfl
  | colon done key => cases token <;> rfl
  | nothing members => cases token <;> rfl

end strings

/-! Reading. -/

/-- A change to bodies that are read as before. -/
def KeepsReading (f : List Char → List Char) : Prop :=
  ∀ site body, readString site (f body) = readString site body

theorem Key.read_mapStrings {f : List Char → List Char} (same : KeepsReading f) (key : Key) :
    (key.mapStrings f).read = key.read := by
  cases key with
  | string body => exact same .stringKey body
  | number => rfl

mutual

theorem Node.read_mapStrings {f : List Char → List Char} (same : KeepsReading f) (depth : Nat)
    (node : Node) : (node.mapStrings f).read depth = node.read depth := by
  match node with
  | .string body => rw [Node.mapStrings, Node.read, Node.read, same]
  | .object members =>
    rw [Node.mapStrings, Node.read, Node.read, readMembers_mapStrings same (depth + 2) members]
  | .array items => rw [Node.mapStrings, Node.read, Node.read, readItems_mapStrings same (depth + 1) items]
  | .number _ => rfl
  | .yes => rfl
  | .no => rfl
  | .null => rfl
  | .undefined => rfl
  | .function => rfl

theorem readMembers_mapStrings {f : List Char → List Char} (same : KeepsReading f) (depth : Nat)
    (members : List Member) :
    readMembers depth (mapMembers f members) = readMembers depth members := by
  match members with
  | [] => rfl
  | (key, node) :: rest =>
    rw [mapMembers, readMembers, readMembers, Key.read_mapStrings same,
      Node.read_mapStrings same depth node, readMembers_mapStrings same depth rest]

theorem readItems_mapStrings {f : List Char → List Char} (same : KeepsReading f) (depth : Nat)
    (items : List Node) :
    readItems depth (mapItems f items) = readItems depth items := by
  match items with
  | [] => rfl
  | node :: rest =>
    rw [mapItems, readItems, readItems, Node.read_mapStrings same depth node,
      readItems_mapStrings same depth rest]

end

/-! Tokens. -/

/-- The same token but for the way in which a string is written. -/
def SameToken (token token' : Token) : Prop :=
  token.mapStrings standard = token'.mapStrings standard

/-- The same token, and texts alike behind it. -/
def SameScan (m n : Token × List Char) : Prop :=
  SameToken m.1 n.1 ∧ Alike m.2 n.2

theorem rel_findSome? {α β γ : Type} {r : β → γ → Prop} {f : α → Option β} {g : α → Option γ}
    {l : List α} (each : ∀ a ∈ l, Option.Rel r (f a) (g a)) :
    Option.Rel r (l.findSome? f) (l.findSome? g) := by
  induction l with
  | nil => exact .none
  | cons a l ih =>
    have first := each a List.mem_cons_self
    rw [List.findSome?_cons, List.findSome?_cons]
    cases hf : f a with
    | some =>
      cases hg : g a with
      | some =>
        rw [hf, hg] at first
        exact first
      | none =>
        rw [hf, hg] at first
        cases first
    | none =>
      cases hg : g a with
      | some =>
        rw [hf, hg] at first
        cases first
      | none => exact ih fun b hb => each b (List.mem_cons_of_mem a hb)

theorem halts_breaks {text : List Char} (h : Breaks text) : Halts text := by
  intro c hc
  refine Bool.eq_false_iff.mpr fun numeric => ?_
  have plain := h c hc
  rw [isPlain_of_isNumeric numeric] at plain
  cases plain

/-- A number ends where two texts alike go on otherwise. -/
theorem run_tied {x y : List Char} (h : Tied x y) :
    ∃ start x' y', x = start ++ x' ∧ y = start ++ y' ∧ Halts x' ∧ Halts y' := by
  induction x generalizing y with
  | nil =>
    refine ⟨[], [], y, rfl, rfl, halts_breaks breaks_nil, ?_⟩
    rcases h.front with same | ⟨-, second⟩
    · obtain rfl : y = [] := by simpa using same.symm
      exact halts_breaks breaks_nil
    · exact halts_breaks second
  | cons c x ih =>
    rcases h.front with same | ⟨first, second⟩
    · obtain ⟨y, rfl⟩ := List.head?_eq_some_iff.mp same.symm
      by_cases numeric : isNumeric c = true
      · have other : c ≠ '@' := by
          rintro rfl
          exact absurd numeric (by decide)
        obtain ⟨start, x', y', rfl, rfl, halts⟩ :=
          ih (h.alike.tail (isPlain_of_isNumeric numeric) other)
        exact ⟨c :: start, x', y', rfl, rfl, halts⟩
      · have halts (text : List Char) : Halts (c :: text) := by
          intro d hd
          cases hd
          simpa using numeric
        exact ⟨[], c :: x, c :: y, rfl, rfl, halts x, halts y⟩
    · exact ⟨[], c :: x, y, rfl, rfl, halts_breaks first, halts_breaks second⟩

theorem alike_of_append {start x y : List Char} (numeric : ∀ c ∈ start, isNumeric c = true)
    (h : Alike (start ++ x) (start ++ y)) : Alike x y := by
  induction start with
  | nil => exact h
  | cons c start ih =>
    have here := numeric c List.mem_cons_self
    have other : c ≠ '@' := by
      rintro rfl
      exact absurd here (by decide)
    exact ih (fun d hd => numeric d (List.mem_cons_of_mem c hd))
      (Alike.tail (isPlain_of_isNumeric here) other h).alike

theorem number?_halts {text more : List Char} (halts : Halts more) :
    Token.number? (text ++ more) = (Token.number? text).map fun (token, rest) => (token, rest ++ more) := by
  cases found : Token.number? text with
  | some answer => exact Token.number?_more found halts
  | none =>
    have none : NumberLiteral.scan? text = none := Option.map_eq_none_iff.mp found
    rw [Token.number?, scan?_append text halts, none]
    rfl

theorem number?_alike {x y : List Char} (tied : Tied x y) :
    Option.Rel SameScan (Token.number? x) (Token.number? y) := by
  obtain ⟨start, x', y', rfl, rfl, halts, halts'⟩ := run_tied tied
  rw [number?_halts halts, number?_halts halts']
  cases found : Token.number? start with
  | none => exact .none
  | some answer =>
    obtain ⟨token, rest⟩ := answer
    obtain ⟨split, numeric⟩ := Token.number?_text found
    have alike := tied.alike
    rw [split, List.append_assoc, List.append_assoc] at alike
    exact .some ⟨rfl, alike_of_append numeric alike⟩

/-- A token that is always written alike is a character by itself or a word. -/
theorem fixed_words : ∀ token ∈ Token.fixed, ∃ c word, token.text = c :: word ∧
    (∀ d ∈ word, isPlain d = true ∧ d ≠ '@') ∧ (word = [] ∨ isPlain c = true) := by
  have words : ∀ token ∈ Token.fixed, token.text ≠ [] ∧
      token.text.tail.all (fun d => isPlain d && d != '@') = true ∧
      (token.text.tail = [] ∨ token.text.head?.all isPlain = true) := by decide +kernel
  intro token mem
  obtain ⟨some, plain, first⟩ := words token mem
  obtain ⟨c, word, text⟩ := List.exists_cons_of_ne_nil some
  rw [text] at plain first
  exact ⟨c, word, text, by simpa using plain, by simpa using first⟩

theorem fixed?_code {c : Char} {x y : List Char} (joins : Joins c x y) (tail : Alike x y) :
    Option.Rel SameScan (Token.fixed? (c :: x)) (Token.fixed? (c :: y)) := by
  refine rel_findSome? fun token mem => ?_
  refine rel_map (r := Alike) ?_ fun _ _ after => ⟨rfl, after⟩
  obtain ⟨d, word, text, plain, first⟩ := fixed_words token mem
  rw [text, Token.isPrefixOf?_cons, Token.isPrefixOf?_cons]
  by_cases same : d = c
  · subst same
    rw [if_pos rfl, if_pos rfl]
    rcases first with rfl | first
    · exact .some tail
    · exact rel_mono (isPrefixOf?_tied plain ⟨tail, joins.front first⟩) fun _ _ behind => behind.alike
  · rw [if_neg same, if_neg same]
    exact .none

theorem string?_code {c : Char} (quote : isQuote c = false) (rest : List Char) :
    Token.string? (c :: rest) = none := by
  have other : c ≠ '"' := by
    rintro rfl
    cases quote
  simp [Token.string?, other]

theorem number?_none {c : Char} (h : begins c = false) (rest : List Char) :
    Token.number? (c :: rest) = none := by
  refine Option.map_eq_none_iff.mpr (Option.not_isSome_iff_eq_none.mp fun found => ?_)
  rw [begins_of_scan? found] at h
  cases h

/-- The same token begins texts alike that begin with the same character. -/
theorem scan?_alike {c : Char} (dark : isBlank c = false) {x y : List Char}
    (h : Alike (c :: x) (c :: y)) :
    Option.Rel SameScan (Token.scan? (c :: x)) (Token.scan? (c :: y)) := by
  generalize hx : c :: x = x' at h
  generalize hy : c :: y = y' at h
  cases h with
  | nil => cases hx
  | blank blank _ =>
    obtain ⟨rfl, -⟩ := List.cons.inj hy
    rw [blank] at dark
    cases dark
  | comma _ closes _ =>
    obtain ⟨rfl, -⟩ := List.cons.inj hx
    obtain ⟨rfl, -⟩ := List.cons.inj hy
    cases closes
  | code joins tail =>
    refine rel_or (fixed?_code joins tail) (rel_or ?_ ?_)
    · rw [string?_code joins.quote, string?_code joins.quote]
      exact .none
    · cases number : begins _ with
      | true =>
        exact number?_alike ⟨.code joins tail, .inl rfl⟩
      | false =>
        rw [number?_none number, number?_none number]
        exact .none
  | string inner inner' same tail =>
    rw [scan?_string (inner.split _), scan?_string (inner'.split _)]
    exact .some ⟨congrArg Token.string (standard_congr same), tail⟩
  | mark tail =>
    have scan (text : List Char) : Token.scan? (functionMark ++ text) = some (.function, text) :=
      scan?_fixed .function (by decide) text
    rw [scan, scan]
    exact .some ⟨rfl, tail⟩

/-- A token behind which a container has no part that a comma could end. -/
def Token.opensPart : Token → Bool
  | leftBrace | leftBracket | comma => true
  | _ => false

/-- The second tokens may lack commas before closing brackets. -/
inductive SameTokens : List Token → List Token → Prop
  | nil : SameTokens [] []
  | comma {closer ts us} (closes : closer = .rightBrace ∨ closer = .rightBracket)
    (tail : SameTokens ts us) : SameTokens (.comma :: closer :: ts) (closer :: us)
  | cons {t u ts us} (same : SameToken t u)
    (comma : t.opensPart = true → ts.head? = some .comma → us.head? = some .comma)
    (tail : SameTokens ts us) : SameTokens (t :: ts) (u :: us)

theorem opensPart_mapStrings (f : List Char → List Char) (token : Token) :
    (token.mapStrings f).opensPart = token.opensPart := by
  cases token <;> rfl

theorem comma_of_lexes {text : List Char} {tokens : List Token} (h : Lexes text tokens) :
    tokens.head? = some .comma ↔ (trimLeft text).head? = some ',' := by
  induction h with
  | nil => simp [trimLeft]
  | blank blank _ ih => rw [trimLeft_of_isBlank blank, ih]
  | @token c rest token after tokens _ first _ =>
    rw [trimLeft_cons (head_of_scan? first).1]
    constructor
    · intro comma
      cases comma
      rw [Token.scan?_text first]
      rfl
    · intro comma
      cases comma
      have found := scan?_fixed .comma (by decide) rest
      cases first.symm.trans found
      rfl

/-- What is scanned as a bracket or a comma is that character. -/
theorem text_of_opensPart {c : Char} {rest after : List Char} {token : Token}
    (h : Token.scan? (c :: rest) = some (token, after)) (opens : token.opensPart = true) :
    opensPart c = true ∧ after = rest := by
  have text := Token.scan?_text h
  cases token <;> cases opens <;> (obtain ⟨rfl, rfl⟩ := List.cons.inj text; exact ⟨rfl, rfl⟩)

theorem lexes_of_blank {c : Char} (blank : isBlank c = true) {rest : List Char}
    {tokens : List Token} (h : Lexes (c :: rest) tokens) : Lexes rest tokens := by
  cases h with
  | blank _ tail => exact tail
  | token dark _ _ =>
    rw [blank] at dark
    cases dark

theorem lexes_of_blanks {blanks : List Char} (h : Blanks blanks) {rest : List Char}
    {tokens : List Token} (lexes : Lexes (blanks ++ rest) tokens) : Lexes rest tokens := by
  induction blanks with
  | nil => exact lexes
  | cons c blanks ih =>
    exact ih (fun d hd => h d (List.mem_cons_of_mem c hd))
      (lexes_of_blank (h c List.mem_cons_self) lexes)

/-- A closing bracket and its token. -/
theorem closer_token {c : Char} (closes : closesContainer c = true) :
    ∃ token ∈ Token.fixed, token.text = [c] ∧ (token = .rightBrace ∨ token = .rightBracket) := by
  simp only [closesContainer, Bool.or_eq_true, beq_iff_eq] at closes
  rcases closes with rfl | rfl
  · exact ⟨.rightBrace, by decide, rfl, .inl rfl⟩
  · exact ⟨.rightBracket, by decide, rfl, .inr rfl⟩

/-- Two texts of which each is cut into tokens if the other is, into the same. -/
def SameLexes (x y : List Char) : Prop :=
  (∀ ts, Lexes x ts → ∃ us, Lexes y us ∧ SameTokens ts us) ∧
    ∀ us, Lexes y us → ∃ ts, Lexes x ts ∧ SameTokens ts us

theorem sameLexes_comma {gap x y : List Char} {closer : Char} (blanks : Blanks gap)
    (closes : closesContainer closer = true) (tail : SameLexes x y) :
    SameLexes (',' :: (gap ++ closer :: x)) (closer :: y) := by
  obtain ⟨token, mem, text, bracket⟩ := closer_token closes
  have scan (more : List Char) : Token.scan? (closer :: more) = some (token, more) := by
    have := scan?_fixed token mem more
    rwa [text] at this
  have dark : isBlank closer = false := by
    refine Bool.eq_false_iff.mpr fun blank => ?_
    have space := isSpace_of_isBlank blank
    rw [not_isSpace_of_closes closes] at space
    cases space
  constructor
  · intro ts lexes
    obtain ⟨later, rfl, gapped⟩ := lexes.inv (scan?_fixed .comma (by decide) (gap ++ closer :: x))
    obtain ⟨later, rfl, inner⟩ := (lexes_of_blanks blanks gapped).inv (scan x)
    obtain ⟨us, found, same⟩ := tail.1 later inner
    exact ⟨token :: us, .token dark (scan y) found, .comma bracket same⟩
  · intro us lexes
    obtain ⟨later, rfl, inner⟩ := lexes.inv (scan y)
    obtain ⟨ts, found, same⟩ := tail.2 later inner
    have closed := Lexes.blanks blanks (.token dark (scan x) found)
    exact ⟨.comma :: token :: ts, .of_fixed .comma (by decide) closed, .comma bracket same⟩

/-- Tokens at the front of both, and behind them texts alike. -/
theorem sameLexes_token {c : Char} {x y : List Char} (dark : isBlank c = false)
    (scan : Option.Rel SameScan (Token.scan? (c :: x)) (Token.scan? (c :: y)))
    (comma : opensPart c = true → (trimLeft x).head? = some ',' → (trimLeft y).head? = some ',')
    (tail : ∀ x' y', Alike x' y' → x'.length ≤ x.length → y'.length ≤ y.length → SameLexes x' y') :
    SameLexes (c :: x) (c :: y) := by
  rcases rel_cases scan with ⟨first, second⟩ | ⟨⟨t, x'⟩, ⟨u, y'⟩, first, second, same, alike⟩
  · have never {text : List Char} (none : Token.scan? (c :: text) = none) (tokens : List Token) :
        ¬ Lexes (c :: text) tokens := by
      intro lexes
      cases lexes with
      | blank blank _ =>
        rw [blank] at dark
        cases dark
      | token _ found _ =>
        rw [none] at found
        cases found
    exact ⟨fun ts lexes => absurd lexes (never first ts),
      fun us lexes => absurd lexes (never second us)⟩
  · have shorter := Token.scan?_length_lt first
    have shorter' := Token.scan?_length_lt second
    have after := tail x' y' alike (Nat.le_of_lt_succ shorter) (Nat.le_of_lt_succ shorter')
    have kept {ts us : List Token} (lexes : Lexes x' ts) (lexes' : Lexes y' us)
        (opens : t.opensPart = true) : ts.head? = some .comma → us.head? = some .comma := by
      have opens' : u.opensPart = true := by
        rw [← opensPart_mapStrings standard, ← same, opensPart_mapStrings, opens]
      obtain ⟨opens, rfl⟩ := text_of_opensPart first opens
      obtain ⟨-, rfl⟩ := text_of_opensPart second opens'
      rw [comma_of_lexes lexes, comma_of_lexes lexes']
      exact comma opens
    constructor
    · intro ts lexes
      obtain ⟨later, rfl, behind⟩ := lexes.inv first
      obtain ⟨us, behind', rest⟩ := after.1 later behind
      exact ⟨u :: us, .token dark second behind', .cons same (kept behind behind') rest⟩
    · intro us lexes
      obtain ⟨later, rfl, behind'⟩ := lexes.inv second
      obtain ⟨ts, behind, rest⟩ := after.2 later behind'
      exact ⟨t :: ts, .token dark first behind, .cons same (kept behind behind') rest⟩

/-- Texts alike are cut into the same tokens, or none of them is cut. -/
theorem sameLexes_alike {x y : List Char} (h : Alike x y) : SameLexes x y := by
  induction size : x.length + y.length using Nat.strong_induction_on generalizing x y with
  | h n ih =>
    subst size
    cases h with
    | nil =>
      have none {tokens : List Token} (h : Lexes [] tokens) : SameTokens tokens tokens := by
        cases h
        exact .nil
      exact ⟨fun ts h => ⟨ts, h, none h⟩, fun us h => ⟨us, h, none h⟩⟩
    | @blank c x y blank tail =>
      obtain ⟨forth, back⟩ := ih _ (by simp) tail rfl
      constructor
      · intro ts lexes
        obtain ⟨us, lexes', same⟩ := forth ts lexes
        exact ⟨us, .blank blank lexes', same⟩
      · intro us lexes
        exact back us (lexes_of_blank blank lexes)
    | comma blanks closes tail =>
      exact sameLexes_comma blanks closes (ih _ (by simp; omega) tail rfl)
    | @code c x y joins tail =>
      cases blank : isBlank c with
      | true =>
        obtain ⟨forth, back⟩ := ih _ (by simp; omega) tail rfl
        constructor
        · intro ts lexes
          obtain ⟨us, lexes', same⟩ := forth ts (lexes_of_blank blank lexes)
          exact ⟨us, .blank blank lexes', same⟩
        · intro us lexes
          obtain ⟨ts, lexes', same⟩ := back us (lexes_of_blank blank lexes)
          exact ⟨ts, .blank blank lexes', same⟩
      | false =>
        exact sameLexes_token blank (scan?_alike blank (.code joins tail)) joins.comma
          fun x' y' alike _ _ => ih _ (by simp; omega) alike rfl
    | string inner inner' same tail =>
      exact sameLexes_token (by decide) (scan?_alike (by decide) (.string inner inner' same tail))
        (by rintro ⟨⟩) fun x' y' alike _ _ => ih _ (by simp at *; omega) alike rfl
    | @mark x y tail =>
      have text (t : List Char) : functionMark ++ t = '@' :: ("function".toList ++ t) := rfl
      rw [text, text] at ih ⊢
      exact sameLexes_token (by decide) (scan?_alike (by decide) (.mark tail)) (by rintro ⟨⟩)
        fun x' y' alike hx hy =>
          ih _ (by rw [List.length_cons, List.length_cons]; omega) alike rfl

/-! The automaton. -/

/-- In a container that may be closed here without a part behind the last token. -/
def State.awaitsPart (state : State) : Bool :=
  match state.expecting with
  | .memberOrClose _ | .valueOrClose _ => true
  | _ => false

theorem place?_awaitsPart {node : Node} {frames : List Frame} {state : State}
    (h : State.place? node frames = some state) : state.awaitsPart = false := by
  cases frames with
  | nil => cases h
  | cons frame frames => cases frame <;> cases h <;> rfl

theorem closeObject_awaitsPart (members : List Member) (frames : List Frame) :
    (State.closeObject members frames).awaitsPart = false := by
  cases frames with
  | nil => rfl
  | cons frame frames => cases frame <;> rfl

/-- Only an opening bracket or a comma leaves a part to come. -/
theorem next?_awaitsPart {state state' : State} {token : Token}
    (h : state.next? token = some state') (awaits : state'.awaitsPart = true) :
    token.opensPart = true := by
  refine Bool.of_not_eq_false fun other => ?_
  have value {frames : List Frame} (h : State.beginValue? frames token = some state') : False := by
    have done : state'.awaitsPart = false := by
      cases token <;>
        first | exact place?_awaitsPart h | exact absurd other (by decide) | cases h
    rw [awaits] at done
    cases done
  have placed {node : Node} {frames : List Frame} (h : State.place? node frames = some state') :
      False := by
    rw [place?_awaitsPart h] at awaits
    cases awaits
  obtain ⟨frames, expecting⟩ := state
  cases expecting <;> cases token <;>
    first
    | exact absurd other (by decide)
    | exact value h
    | exact placed h
    | (cases h; first | done | cases awaits | (rw [closeObject_awaitsPart] at awaits; cases awaits))

/-- Where a part has been read a comma before the closing bracket changes nothing. -/
theorem next?_comma {state : State} (done : state.awaitsPart = false) {closer : Token}
    (closes : closer = .rightBrace ∨ closer = .rightBracket) :
    (state.next? .comma).bind (·.next? closer) = state.next? closer := by
  obtain ⟨frames, expecting⟩ := state
  rcases closes with rfl | rfl <;> cases expecting <;> first | rfl | cases done

theorem run_same {ts us : List Token} (h : SameTokens ts us) {state state' : State}
    (same : state.mapStrings standard = state'.mapStrings standard)
    (fits : state.awaitsPart = true → ts.head? = some .comma → us.head? = some .comma) :
    (run state ts).map (State.mapStrings standard) =
      (run state' us).map (State.mapStrings standard) := by
  -- One token on each side leads to states that are the same again.
  have step {t u : Token} {ts us : List Token} {state state' : State} (token : SameToken t u)
      (same : state.mapStrings standard = state'.mapStrings standard)
      (later : ∀ next next', state.next? t = some next →
        next.mapStrings standard = next'.mapStrings standard →
          (run next ts).map (State.mapStrings standard) =
            (run next' us).map (State.mapStrings standard)) :
      (run state (t :: ts)).map (State.mapStrings standard) =
        (run state' (u :: us)).map (State.mapStrings standard) := by
    have next : (state.next? t).map (State.mapStrings standard) =
        (state'.next? u).map (State.mapStrings standard) := by
      rw [next?_mapStrings, next?_mapStrings, same, token]
    rw [run_cons, run_cons]
    rcases map_cases next with ⟨first, second⟩ | ⟨middle, middle', first, second, same⟩
    · rw [first, second]
      rfl
    · rw [first, second]
      exact later middle middle' first same
  induction h generalizing state state' with
  | nil => exact congrArg some same
  | @comma closer ts us closes tail ih =>
    have done : state.awaitsPart = false := by
      refine Bool.eq_false_iff.mpr fun awaits => ?_
      have first := fits awaits rfl
      rcases closes with rfl | rfl <;> cases first
    have dropped : run state (.comma :: closer :: ts) = run state (closer :: ts) := by
      rw [run_cons, run_cons, ← next?_comma done closes, Option.bind_assoc]
      exact congrArg _ (funext fun middle => run_cons middle closer ts)
    rw [dropped]
    refine step rfl same fun next next' found same' => ih same' fun awaits => ?_
    have opens := next?_awaitsPart found awaits
    rcases closes with rfl | rfl <;> cases opens
  | cons token comma _ ih =>
    exact step token same fun next next' found same' =>
      ih same' fun awaits => comma (next?_awaitsPart found awaits)

/-- The members of a literal that is done. -/
def State.members? (state : State) : Option (List Member) :=
  match state.expecting with
  | .nothing members => some members
  | _ => none

theorem members?_mapStrings (f : List Char → List Char) (state : State) :
    (state.mapStrings f).members? = state.members?.map (mapMembers f) := by
  obtain ⟨frames, expecting⟩ := state
  cases expecting <;> rfl

/-- A text is read exactly if it can be cut into tokens that the automaton accepts. -/
theorem parse_ok_iff_run {text : List Char} {members : List Member} : parse text = .ok members ↔
    ∃ tokens, Lexes text tokens ∧ (run .start tokens).bind State.members? = some members := by
  constructor
  · intro parsed
    obtain ⟨tokens, frames, lexes, reached⟩ := run_of_parse parsed
    exact ⟨tokens, lexes, by rw [reached]; rfl⟩
  · rintro ⟨tokens, lexes, accepted⟩
    obtain ⟨⟨frames, expecting⟩, reached, done⟩ := Option.bind_eq_some_iff.mp accepted
    cases expecting <;> cases done
    cases readTo_run readTo_start reached with
    | nothing whole => exact parse_of_object lexes whole

theorem accepted_same {ts us : List Token} (h : SameTokens ts us) :
    ((run .start ts).bind State.members?).map (mapMembers standard) =
      ((run .start us).bind State.members?).map (mapMembers standard) := by
  have mapped (m : Option State) : (m.bind State.members?).map (mapMembers standard) =
      (m.map (State.mapStrings standard)).bind State.members? := by
    cases m with
    | none => rfl
    | some state => exact (members?_mapStrings standard state).symm
  rw [mapped, mapped, run_same h rfl fun awaits => by cases awaits]

/-- Texts alike are read as the same members but for the way in which strings are written, or
neither is read. -/
theorem parse_alike {x y : List Char} (h : Alike x y) :
    (parse x).toOption.map (mapMembers standard) = (parse y).toOption.map (mapMembers standard) := by
  have lexes := sameLexes_alike h
  have found {ts : List Token} {text : List Char} {members : List Member} (lexes : Lexes text ts)
      (accepted : ((run .start ts).bind State.members?).map (mapMembers standard) =
        some (mapMembers standard members)) :
      (parse text).toOption.map (mapMembers standard) = some (mapMembers standard members) := by
    obtain ⟨members', run, same⟩ := Option.map_eq_some_iff.mp accepted
    rw [parse_ok_iff_run.mpr ⟨ts, lexes, run⟩]
    exact congrArg some same
  cases first : parse x with
  | ok members =>
    obtain ⟨ts, cut, accepted⟩ := parse_ok_iff_run.mp first
    obtain ⟨us, cut', same⟩ := lexes.1 ts cut
    refine (found cut' ?_).symm
    rw [← accepted_same same, accepted]
    rfl
  | error =>
    cases second : parse y with
    | error => rfl
    | ok members =>
      obtain ⟨us, cut, accepted⟩ := parse_ok_iff_run.mp second
      obtain ⟨ts, cut', same⟩ := lexes.2 us cut
      have read : (parse x).toOption.map (mapMembers standard) =
          some (mapMembers standard members) := by
        refine found cut' ?_
        rw [accepted_same same, accepted]
        rfl
      rw [first] at read
      cases read

/-- The members of texts alike are the same, or neither text has any. -/
theorem members_alike {x y : List Char} (h : Alike x y) :
    (members x).toOption = (members y).toOption := by
  have parsed := parse_alike (maskFrom_alike h [] .other)
  have read {nodes nodes' : List Member} (same : mapMembers standard nodes = mapMembers standard nodes') :
      readMembers 2 nodes = readMembers 2 nodes' := by
    rw [← readMembers_mapStrings readString_standard, same, readMembers_mapStrings readString_standard]
  unfold members maskFunctions
  rcases toOption_cases parsed with ⟨e, e', first, second⟩ | ⟨nodes, nodes', first, second, same⟩
  · rw [first, second]
    rfl
  · rw [first, second]
    change ((readMembers 2 nodes).mapError _ >>= _).toOption =
      ((readMembers 2 nodes').mapError _ >>= _).toOption
    rw [read same]

/-- Texts alike have the same outcome, the same mapping or a failure, and warn alike. -/
theorem evaluate_alike {x y : List Char} (h : Alike x y) (name : String) :
    (evaluate name x).1 = (evaluate name y).1 ∧
      (evaluate name x).2.toOption = (evaluate name y).2.toOption := by
  have same := congrArg (Option.map id) (members_alike h)
  unfold evaluate
  rcases toOption_cases same with ⟨e, e', first, second⟩ | ⟨found, _, first, second, rfl⟩
  · rw [first, second]
    exact ⟨rfl, rfl⟩
  · rw [first, second]
    exact ⟨rfl, rfl⟩

end ThemeSheet.Literal
