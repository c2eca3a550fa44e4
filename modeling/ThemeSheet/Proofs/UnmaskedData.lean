import ThemeSheet.Proofs.DerivationTree
import ThemeSheet.Proofs.Quoting

/-! The mask leaves data as they are, and what it changes holds a function. -/

namespace ThemeSheet.Literal

open Text

/-! Texts of sentences. -/

/-- A text that is some tokens, each spelled out, with blanks around them. -/
inductive Spells : List Char → List Token → Prop
  | nil : Spells [] []
  | blank {c rest tokens} (blank : isBlank c = true) (tail : Spells rest tokens) :
    Spells (c :: rest) tokens
  | token {lexeme rest token tokens} (first : token.Spelled lexeme) (tail : Spells rest tokens) :
    Spells (lexeme ++ rest) (token :: tokens)

theorem stops_of_spells {text : List Char} {tokens : List Token} (h : Spells text tokens)
    (first : ∀ token ∈ tokens.head?, token.isEnd = true) : Stops text := by
  cases h with
  | nil => exact stops_nil
  | blank blank _ => exact stops_cons.mpr (by simp [isStop, blank])
  | @token lexeme rest token tokens spelled _ =>
    have last := first token rfl
    cases spelled with
    | fixed mem => cases token <;> first | exact stops_cons.mpr rfl | cases last
    | string => cases last
    | number => cases last

theorem scan?_fixed (token : Token) (mem : token ∈ Token.fixed) (more : List Char) :
    Token.scan? (token.text ++ more) = some (token, more) := by
  rw [Token.scan?, Token.fixed?_eq_some.mpr ⟨mem, rfl⟩]
  rfl

theorem scan?_string {body text more : List Char} (h : splitString? '"' text = some (body, more)) :
    Token.scan? ('"' :: text) = some (.string body, more) := by
  rw [Token.scan?, Token.fixed?_none (.inr rfl), Option.none_or, Token.string?, h]
  rfl

/-- Only a number can be longer than it is spelled. -/
theorem scan?_of_spelled {token : Token} {lexeme : List Char} (h : token.Spelled lexeme)
    {rest : List Char} (stops : token.leaf?.isSome = true → Stops rest) :
    Token.scan? (lexeme ++ rest) = some (token, rest) := by
  cases h with
  | fixed mem => exact scan?_fixed token mem rest
  | @string body inside =>
    have split : '"' :: (body ++ ['"']) ++ rest = '"' :: (body ++ '"' :: rest) := by simp
    rw [split]
    exact scan?_string (inside.split rest)
  | number spelled => exact Token.scan?_more (Token.scan?_alone (.number spelled)) (stops rfl)

/-- The tokens of a sentence are those its text is cut into, since each is ended by the next. -/
theorem lexes_of_spells {text : List Char} {tokens : List Token} (h : Spells text tokens)
    (ends : LeavesEnd tokens) : Lexes text tokens := by
  induction h with
  | nil => exact .nil
  | blank blank _ ih => exact .blank blank (ih ends)
  | @token lexeme rest token tokens spelled tail ih =>
    obtain ⟨next, ends⟩ := List.isChain_cons.mp ends
    have stops (leaf : token.leaf?.isSome = true) : Stops rest :=
      stops_of_spells tail fun second hs => next second hs leaf
    have found := scan?_of_spelled spelled stops
    obtain ⟨c, more, rfl, dark⟩ := spelled.head
    exact .token dark found (ih ends)

/-- What is cut into tokens spells them. -/
theorem Lexes.spells {text : List Char} {tokens : List Token} (h : Lexes text tokens) :
    Spells text tokens := by
  induction h with
  | nil => exact .nil
  | blank blank _ ih => exact .blank blank ih
  | token _ first _ ih =>
    obtain ⟨lexeme, split, spelled⟩ := Token.scan?_split first
    rw [split]
    exact .token spelled ih

theorem Tree.leavesEnd (tree : Tree .object) : LeavesEnd tree.tokens :=
  leavesEnd_of_derives tree.derived

/-- Nothing that the mask could take for a function stands where it looks for one. -/
theorem maskFunctions_of_lexes {text : List Char} {tree : Tree .object}
    (h : Lexes text tree.tokens) : maskFunctions text = text := by
  have last : ∀ token ∈ tree.tokens.getLast?, token.isWord = true → Ends [] := by
    have brace : tree.tokens.getLast? = some .rightBrace := by
      cases tree with
      | noPairs => rfl
      | object pairs comma => simp [Tree.tokens, List.getLast?_cons, List.getLast?_append]
    intro token mem word
    rw [brace] at mem
    cases mem
    cases word
  have copied := maskFrom_tokens h tree.leavesEnd.words stops_nil last [] .other
  rw [List.append_nil, maskFrom, List.append_nil] at copied
  exact copied

/-- The mask leaves every text of the grammar as it is. -/
theorem maskFunctions_spells {text : List Char} {tree : Tree .object}
    (h : Spells text tree.tokens) : maskFunctions text = text :=
  maskFunctions_of_lexes (lexes_of_spells h tree.leavesEnd)

/-- Keys and strings of data may look like functions. -/
theorem maskFunctions_lookalikes :
    Spells "\x7b\"f() \x7b\x7d\": [\"x => 1\",\n true,], 5: \x7b\x7d\x7d".toList
        (Tree.object (.nextPair (.pair (.stringKey "f() \x7b\x7d".toList) (.ofArray (.array
          (.nextValue (.string "x => 1".toList) (.lastValue .yes)) true)))
          (.lastPair (.pair (.numberKey ⟨false, .decimal [5] 0⟩ ['5']) (.ofObject .noPairs))))
          false).tokens ∧
      maskFunctions "\x7b\"f() \x7b\x7d\": [\"x => 1\",\n true,], 5: \x7b\x7d\x7d".toList =
        "\x7b\"f() \x7b\x7d\": [\"x => 1\",\n true,], 5: \x7b\x7d\x7d".toList :=
  have spelled := (lexes_of_tokens _ (by decide +kernel) (by decide +kernel)).spells
  ⟨spelled, maskFunctions_spells spelled⟩

/-! What the mask changes. -/

theorem Lexes.inv {c : Char} {rest after : List Char} {token : Token} {tokens : List Token}
    (h : Lexes (c :: rest) tokens) (found : Token.scan? (c :: rest) = some (token, after)) :
    ∃ later, tokens = token :: later ∧ Lexes after later := by
  cases h with
  | blank blank _ =>
    obtain ⟨lexeme, split, spelled⟩ := Token.scan?_split found
    obtain ⟨d, more, rfl, dark⟩ := spelled.head
    obtain ⟨rfl, -⟩ := List.cons.inj split
    rw [blank] at dark
    cases dark
  | token _ first tail =>
    rw [found] at first
    cases first
    exact ⟨_, rfl, tail⟩

/-- Behind what begins a token stands what the token leaves. -/
theorem Lexes.behind {lexeme more : List Char} {token : Token} {tokens : List Token}
    (h : Lexes (lexeme ++ more) tokens) (some : lexeme ≠ [])
    (found : Token.scan? (lexeme ++ more) = .some (token, more)) :
    ∃ later, tokens = token :: later ∧ Lexes more later := by
  obtain ⟨c, rest, rfl⟩ := List.exists_cons_of_ne_nil some
  exact h.inv found

/-- A mark in a text that is cut into tokens is one of them. -/
theorem function_mem_of_mark {more : List Char} {tokens : List Token}
    (h : Lexes (functionMark ++ more) tokens) : .function ∈ tokens := by
  obtain ⟨later, rfl, -⟩ := h.behind (by decide) (scan?_fixed .function (by decide) more)
  exact List.mem_cons_self

theorem function_mem_of_method {name more : List Char} {tokens : List Token}
    (h : Lexes (jsonChars name ++ ": ".toList ++ functionMark ++ more) tokens) :
    .function ∈ tokens := by
  have inside : Inside '"' (name.flatMap jsonChar) := inside_flatMap inside_jsonChar name
  have text : jsonChars name ++ ": ".toList ++ functionMark ++ more =
      '"' :: (name.flatMap jsonChar ++ '"' :: (':' :: ' ' :: (functionMark ++ more))) := by
    simp [jsonChars]
  rw [text] at h
  obtain ⟨later, rfl, colon⟩ := h.inv (scan?_string (inside.split (by decide) _))
  obtain ⟨later, rfl, value⟩ := colon.inv (scan?_fixed .colon (by decide) _)
  cases value with
  | blank _ tail =>
    exact List.mem_cons_of_mem _ (List.mem_cons_of_mem _ (function_mem_of_mark tail))
  | token dark _ _ => cases dark

/-- A string that is not closed stays so when another text goes on behind its line. -/
theorem splitString?_open {quote : Char} {text : List Char} (h : splitString? quote text = none) :
    ∃ inside, text = inside ++ afterString quote text ∧
      (afterString quote text = [] ∧ splitString? quote inside = none ∨
        ∃ rest, afterString quote text = '\n' :: rest ∧
          ∀ more, splitString? quote (inside ++ '\n' :: more) = none) := by
  fun_induction afterString quote text with
  | case1 => exact ⟨[], rfl, .inl ⟨rfl, rfl⟩⟩
  | case2 => exact ⟨['\\'], rfl, .inl ⟨rfl, rfl⟩⟩
  | case3 c rest ih =>
    rw [splitString?, Option.map_eq_none_iff] at h
    obtain ⟨inside, split, ending⟩ := ih h
    refine ⟨'\\' :: c :: inside, congrArg (fun text => '\\' :: c :: text) split, ?_⟩
    rcases ending with ⟨none, still⟩ | ⟨more, line, still⟩
    · exact .inl ⟨none, by rw [splitString?, still]; rfl⟩
    · refine .inr ⟨more, line, fun other => ?_⟩
      rw [List.cons_append, List.cons_append, splitString?, still]
      rfl
  | case4 rest alone pair =>
    rw [splitString?_cons (ne_backslash alone pair), if_pos rfl] at h
    cases h
  | case5 c rest _ _ other line =>
    obtain ⟨rfl, single⟩ := line
    refine ⟨[], rfl, .inr ⟨rest, rfl, fun more => ?_⟩⟩
    rw [List.nil_append, splitString?_cons (by decide), if_neg other, if_pos ⟨rfl, single⟩]
  | case6 c rest alone pair other line ih =>
    have plain := ne_backslash alone pair
    rw [splitString?_cons plain, if_neg other, if_neg line, Option.map_eq_none_iff] at h
    obtain ⟨inside, split, ending⟩ := ih h
    refine ⟨c :: inside, congrArg (c :: ·) split, ?_⟩
    rcases ending with ⟨none, still⟩ | ⟨more, feed, still⟩
    · refine .inl ⟨none, ?_⟩
      rw [splitString?_cons plain, if_neg other, if_neg line, still]
      rfl
    · refine .inr ⟨more, feed, fun later => ?_⟩
      rw [List.cons_append, splitString?_cons plain, if_neg other, if_neg line, still]
      rfl

/-- No token begins with a space, or with a quote that is not double. -/
theorem head_of_scan? {c : Char} {rest after : List Char} {token : Token}
    (h : Token.scan? (c :: rest) = some (token, after)) :
    isSpace c = false ∧ (isQuote c = true → c = '"') := by
  obtain ⟨lexeme, split, spelled⟩ := Token.scan?_split h
  cases spelled with
  | fixed mem =>
    have heads : ∀ token ∈ Token.fixed, token.text ≠ [] ∧
        token.text.head?.all (fun c => !isSpace c && !isQuote c) = true := by decide +kernel
    obtain ⟨some, first⟩ := heads token mem
    obtain ⟨d, tail, text⟩ := List.exists_cons_of_ne_nil some
    rw [text] at split first
    obtain ⟨rfl, -⟩ := List.cons.inj split
    simp only [List.head?_cons, Option.all_some, Bool.and_eq_true, Bool.not_eq_true'] at first
    exact ⟨first.1, fun quote => by rw [first.2] at quote; cases quote⟩
  | string =>
    obtain ⟨rfl, -⟩ := List.cons.inj split
    exact ⟨by decide, fun _ => rfl⟩
  | number spelled =>
    obtain ⟨d, tail, rfl, begins⟩ := Token.begins_of_spelled spelled
    obtain ⟨rfl, -⟩ := List.cons.inj split
    have plain := isPlain_of_isNumeric (c := c) (by simp [NumberLiteral.isNumeric, begins])
    simp only [isPlain, Bool.and_eq_true, Bool.not_eq_true'] at plain
    exact ⟨plain.1.1, fun quote => by rw [plain.1.2] at quote; cases quote⟩

theorem isNumeric_of_spelled {literal : NumberLiteral} {text : List Char}
    (h : literal.Spelled text) : ∀ c ∈ text, NumberLiteral.isNumeric c = true := by
  have found := Token.scan?_alone (.number h)
  obtain ⟨c, rest, rfl, begins⟩ := Token.begins_of_spelled h
  rw [Token.scan?_of_begins begins] at found
  exact (Token.number?_text found).2

/-- What is no mark and no string is written in characters that the mask copies one by one. -/
theorem plain_of_spelled {token : Token} {lexeme : List Char} (h : token.Spelled lexeme) :
    (∃ c, token.mark? = some c ∧ lexeme = [c]) ∨ (∃ body, token = .string body) ∨
      ∀ c ∈ lexeme, isPlain c = true := by
  cases h with
  | fixed mem =>
    have kinds : ∀ token ∈ Token.fixed, (∃ c, token.mark? = some c ∧ token.text = [c]) ∨
        token.text.all isPlain = true := by
      intro token mem
      cases token <;>
        first | exact .inl ⟨_, rfl, rfl⟩ | exact .inr (by decide +kernel) | simp [Token.fixed] at mem
    exact (kinds token mem).imp_right fun plain => .inr (List.all_eq_true.mp plain)
  | string => exact .inr (.inl ⟨_, rfl⟩)
  | number spelled =>
    exact .inr (.inr fun d mem => isPlain_of_isNumeric (isNumeric_of_spelled spelled d mem))

/-- Where nothing is masked, plain characters of the masked text are those of the text. -/
theorem split_of_maskFrom {front more text containers : List Char}
    (plain : ∀ c ∈ front, isPlain c = true)
    (h : maskFrom containers .other text = front ++ more) :
    ∃ rest, text = front ++ rest ∧ more = maskFrom containers .other rest := by
  induction front generalizing text with
  | nil => exact ⟨text, rfl, h.symm⟩
  | cons c front ih =>
    have here := plain c List.mem_cons_self
    cases text with
    | nil => simp [maskFrom] at h
    | cons d rest =>
      -- Whatever is copied, its first character is that of the text.
      have same : d = c := by
        rw [maskFrom] at h
        split at h
        · exact (List.cons.inj h).1
        · split at h
          · rename_i found
            cases found
          · split at h
            · exact (List.cons.inj h).1
            · exact (List.cons.inj h).1
      subst same
      have advanced := advance_plain here containers
      simp only [isPlain, Bool.and_eq_true, Bool.not_eq_true'] at here
      rw [maskFrom_code here.1.1 rfl here.1.2, advanced] at h
      obtain ⟨tail, rfl, eq⟩ := ih (fun e he => plain e (List.mem_cons_of_mem d he))
        (List.cons.inj h).2
      exact ⟨tail, rfl, eq⟩

theorem not_lexes_open {text : List Char} (h : splitString? '"' text = none) (tokens : List Token) :
    ¬ Lexes ('"' :: text) tokens := by
  intro lexes
  cases lexes with
  | blank blank _ => cases blank
  | @token _ _ token after _ _ first _ =>
    obtain ⟨lexeme, split, spelled⟩ := Token.scan?_split first
    cases spelled with
    | fixed mem =>
      have found := Token.fixed?_eq_some.mpr ⟨mem, split⟩
      rw [Token.fixed?_none (.inr rfl)] at found
      cases found
    | @string body inside =>
      obtain ⟨-, rfl⟩ := List.cons.inj split
      have closed : splitString? '"' (body ++ ['"'] ++ after) = some (body, after) := by
        rw [List.append_assoc]
        exact inside.split after
      cases closed.symm.trans h
    | number spelled =>
      obtain ⟨d, more, rfl, begins⟩ := Token.begins_of_spelled spelled
      obtain ⟨rfl, -⟩ := List.cons.inj split
      exact absurd begins (by decide)

/-- A quote that begins a text of tokens is a double one. -/
theorem Lexes.double {c : Char} {rest : List Char} {tokens : List Token}
    (h : Lexes (c :: rest) tokens) (quote : isQuote c = true) : c = '"' := by
  cases h with
  | blank blank _ =>
    simp only [isBlank, Bool.or_eq_true, beq_iff_eq] at blank
    rcases blank with (((rfl | rfl) | rfl) | rfl) | rfl <;> cases quote
  | token _ first _ => exact (head_of_scan? first).2 quote

/-- What the mask makes of a text is that text, if it can be cut into tokens of data. -/
def Kept (text : List Char) : Prop :=
  ∀ containers expected tokens, Lexes (maskFrom containers expected text) tokens →
    .function ∉ tokens → maskFrom containers expected text = text

section kept

variable {c : Char} {rest : List Char} (shorter : ∀ later, later.length ≤ rest.length → Kept later)
  {containers : List Char} {expected : Expected} {tokens : List Token} (data : .function ∉ tokens)

include shorter data

theorem kept_string (quote : isQuote c = true)
    (h : Lexes (maskFrom containers expected (c :: rest)) tokens) :
    maskFrom containers expected (c :: rest) = c :: rest := by
  cases closed : splitString? c rest with
  | some answer =>
    obtain ⟨body, after⟩ := answer
    have split := splitString?_append closed
    rw [maskFrom_string closed quote] at h ⊢
    obtain rfl := h.double quote
    have text : '"' :: body ++ ['"'] ++ maskFrom containers .other after =
        '"' :: (body ++ '"' :: maskFrom containers .other after) := by simp
    rw [text] at h
    obtain ⟨later, rfl, tail⟩ := h.inv (scan?_string ((stringBody_of_split closed).split _))
    have data : .function ∉ later := fun mem => data (List.mem_cons_of_mem _ mem)
    rw [text, shorter after (by simp [split]; omega) _ _ _ tail data, split]
  | none =>
    exfalso
    obtain ⟨inside, split, ending⟩ := splitString?_open closed
    rw [maskFrom_until quote rfl split] at h
    obtain rfl := h.double quote
    refine not_lexes_open ?_ _ h
    rcases ending with ⟨none, still⟩ | ⟨more, line, still⟩
    · rw [none, maskFrom]
      exact (congrArg _ (List.append_nil inside)).trans still
    · rw [line, maskFrom_space (by decide)]
      exact still _

theorem kept_code (space : isSpace c = false) (quote : isQuote c = false)
    (none : masked? expected (c :: rest) = none)
    (h : Lexes (maskFrom containers expected (c :: rest)) tokens) :
    maskFrom containers expected (c :: rest) = c :: rest := by
  rw [maskFrom_code space none quote] at h ⊢
  cases h with
  | blank blank _ =>
    rw [isSpace_of_isBlank blank] at space
    cases space
  | @token _ _ token after later _ first tail =>
    have data : .function ∉ later := fun mem => data (List.mem_cons_of_mem _ mem)
    obtain ⟨lexeme, split, spelled⟩ := Token.scan?_split first
    rcases plain_of_spelled spelled with ⟨d, -, rfl⟩ | ⟨body, rfl⟩ | plain
    · -- A mark is one character, and the mask goes on behind it.
      obtain ⟨-, rfl⟩ := List.cons.inj split
      rw [shorter rest (Nat.le_refl _) _ _ _ tail data]
    · cases spelled with
      | fixed mem => simp [Token.fixed] at mem
      | string =>
        obtain ⟨rfl, -⟩ := List.cons.inj split
        cases quote
    · obtain ⟨d, lexeme, rfl, -⟩ := spelled.head
      obtain ⟨rfl, masked⟩ := List.cons.inj split
      rw [advance_plain (plain c List.mem_cons_self)] at masked ⊢
      obtain ⟨last, rfl, rfl⟩ :=
        split_of_maskFrom (fun d mem => plain d (List.mem_cons_of_mem c mem)) masked
      rw [masked, shorter last (by simp) _ _ _ tail data]
      rfl

end kept

theorem maskFrom_kept (text : List Char) : Kept text := by
  induction size : text.length using Nat.strong_induction_on generalizing text with
  | h n ih =>
    subst size
    intro containers expected tokens h data
    cases text with
    | nil => rw [maskFrom]
    | cons c rest =>
      have shorter (later : List Char) (le : later.length ≤ rest.length) : Kept later :=
        ih _ (Nat.lt_succ_of_le le) later rfl
      by_cases space : isSpace c = true
      · rw [maskFrom_space space] at h ⊢
        cases h with
        | blank _ tail => rw [shorter rest (Nat.le_refl _) _ _ _ tail data]
        | token _ first _ =>
          rw [(head_of_scan? first).1] at space
          cases space
      · rw [Bool.not_eq_true] at space
        cases found : masked? expected (c :: rest) with
        | some answer =>
          obtain ⟨out, after⟩ := answer
          rw [maskFrom_function (by simp [space]) found] at h
          exfalso
          cases expected with
          | value =>
            obtain ⟨_, -, eq⟩ := Option.map_eq_some_iff.mp found
            cases eq
            exact data (function_mem_of_mark h)
          | member =>
            obtain ⟨_, -, found⟩ := Option.bind_eq_some_iff.mp found
            obtain ⟨_, -, eq⟩ := Option.map_eq_some_iff.mp found
            cases eq
            exact data (function_mem_of_method h)
          | other => cases found
        | none =>
          by_cases quote : isQuote c = true
          · exact kept_string shorter data quote h
          · exact kept_code shorter data space (by simpa using quote) found h

end ThemeSheet.Literal
