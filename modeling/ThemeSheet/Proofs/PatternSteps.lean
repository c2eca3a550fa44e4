import ThemeSheet.Proofs.NormalPieces
import ThemeSheet.Proofs.PatternMatches

/-! The rules of the steps: each finds strings and comments as the pieces that they are, and nothing
else but code. -/

namespace ThemeSheet.Literal

open Text Pattern

/-! Code in front of a text. -/

/-- A character with which no string or comment opens. -/
def OpensNothing (c : Char) : Prop :=
  c ≠ '/' ∧ isQuote c = false

theorem opensNothing_of_class {holds : Char → Bool} {c : Char} (h : holds c = true)
    (none : ['/', '"', '\'', backtick].any holds = false) : OpensNothing c := by
  simp only [List.any_cons, List.any_nil, Bool.or_eq_false_iff] at none
  obtain ⟨slash, double, single, template, -⟩ := none
  refine ⟨?_, Bool.eq_false_iff.mpr fun quoted => ?_⟩
  · rintro rfl
    exact absurd h (Bool.eq_false_iff.mp slash)
  · simp only [isQuote, Bool.or_eq_true, beq_iff_eq] at quoted
    rcases quoted with (rfl | rfl) | rfl
    · exact absurd h (Bool.eq_false_iff.mp double)
    · exact absurd h (Bool.eq_false_iff.mp single)
    · exact absurd h (Bool.eq_false_iff.mp template)

theorem pieces_append_code {front : List Char} (h : ∀ c ∈ front, OpensNothing c)
    (rest : List Char) : pieces (front ++ rest) = front.map .code ++ pieces rest := by
  induction front with
  | nil => rfl
  | cons c front ih =>
    obtain ⟨slash, quote⟩ := h c List.mem_cons_self
    rw [List.cons_append, pieces_code (opaque?_code slash quote _),
      ih fun d there => h d (List.mem_cons_of_mem c there)]
    rfl

/-- A run of code is the same run of pieces. -/
theorem pieces_run (holds : Char → Bool) (none : ['/', '"', '\'', backtick].any holds = false)
    (text : List Char) :
    (pieces text).takeWhile (Piece.isCode holds) = (text.takeWhile holds).map .code ∧
      (pieces text).dropWhile (Piece.isCode holds) = pieces (text.dropWhile holds) := by
  induction text with
  | nil =>
    simp [pieces_nil]
  | cons c rest ih =>
    cases h : holds c with
    | true =>
      obtain ⟨slash, quote⟩ := opensNothing_of_class h none
      rw [pieces_code (opaque?_code slash quote rest)]
      simp [Piece.isCode, h, ih.1, ih.2]
    | false =>
      have stops : ∀ piece ∈ (pieces (c :: rest)).head?, piece.isCode holds = false := by
        cases first : opaque? (c :: rest) with
        | none =>
          rw [pieces_code first]
          simpa [Piece.isCode] using h
        | some found =>
          obtain ⟨piece, after⟩ := found
          rw [pieces_of_opaque? first]
          cases piece with
          | code d => exact absurd rfl (ne_code_of_opaque? first d)
          | _ => simp [Piece.isCode]
      cases ps : pieces (c :: rest) with
      | nil => simp [h, ps]
      | cons piece others =>
        rw [ps] at stops
        simp [h, ps, stops piece rfl]

/-! Patterns that take nothing but code. -/

/-- The second place lies behind the first, and what is between them opens nothing. -/
def CodeBetween (here there : Cursor) : Prop :=
  ∃ front, here.rest = front ++ there.rest ∧ ∀ c ∈ front, OpensNothing c

theorem CodeBetween.refl (here : Cursor) : CodeBetween here here :=
  ⟨[], rfl, by simp⟩

theorem CodeBetween.trans {here between there : Cursor} (first : CodeBetween here between)
    (second : CodeBetween between there) : CodeBetween here there := by
  obtain ⟨front, split, code⟩ := first
  obtain ⟨more, split', code'⟩ := second
  refine ⟨front ++ more, by rw [split, split', List.append_assoc], fun c among => ?_⟩
  rcases List.mem_append.mp among with early | late
  · exact code c early
  · exact code' c late

/-- No class in the pattern has a character with which a string or comment opens. -/
def Pattern.takesCode : Pattern → Bool
  | one holds => !(['/', '"', '\'', backtick].any holds)
  | seq first second => first.takesCode && second.takesCode
  | either first second => first.takesCode && second.takesCode
  | many _ inner => inner.takesCode
  | notAfter _ => true

theorem codeBetween_of_mem_repeated {greedy : Bool} {once : Cursor → List Cursor}
    (code : ∀ {here there : Cursor}, there ∈ once here → CodeBetween here there) {most : Nat}
    {here there : Cursor} (h : there ∈ repeated greedy once most here) :
    CodeBetween here there := by
  induction most generalizing here with
  | zero =>
    cases List.mem_singleton.mp h
    exact .refl _
  | succ most further =>
    rw [repeated] at h
    have same_or_later : there = here ∨ there ∈ ((once here).filter fun there =>
        there.rest.length < here.rest.length).flatMap (repeated greedy once most) := by
      split at h
      · rcases List.mem_append.mp h with later | same
        · exact .inr later
        · exact .inl (List.mem_singleton.mp same)
      · exact List.mem_cons.mp h
    rcases same_or_later with rfl | later
    · exact .refl _
    · obtain ⟨between, first, again⟩ := List.mem_flatMap.mp later
      exact (code (List.mem_filter.mp first).1).trans (further again)

theorem codeBetween_of_mem_ends {p : Pattern} (code : p.takesCode = true) {here there : Cursor}
    (h : there ∈ p.ends here) : CodeBetween here there := by
  induction p generalizing here there with
  | one holds =>
    obtain ⟨before, _ | ⟨c, rest⟩⟩ := here
    · cases h
    · rw [ends_one] at h
      split at h
      · rename_i held
        cases List.mem_singleton.mp h
        refine ⟨[c], rfl, fun d among => ?_⟩
        cases List.mem_singleton.mp among
        exact opensNothing_of_class held (by simpa [takesCode] using code)
      · cases h
  | seq first second ih ih' =>
    obtain ⟨code, code'⟩ := Bool.and_eq_true_iff.mp code
    obtain ⟨between, first, second⟩ := List.mem_flatMap.mp h
    exact (ih code first).trans (ih' code' second)
  | either first second ih ih' =>
    obtain ⟨code, code'⟩ := Bool.and_eq_true_iff.mp code
    rcases List.mem_append.mp h with first | second
    · exact ih code first
    · exact ih' code' second
  | many greedy inner ih =>
    exact codeBetween_of_mem_repeated (fun once => ih code once) h
  | notAfter holds =>
    rw [ends] at h
    split at h
    · cases h
    · cases List.mem_singleton.mp h
      exact .refl _

theorem codeBetween_of_mem_partEnds {parts : List Pattern}
    (code : parts.all Pattern.takesCode = true) {here there : Cursor} {texts : List (List Char)}
    (h : (texts, there) ∈ Rule.partEnds parts here) : CodeBetween here there := by
  induction parts generalizing here texts with
  | nil =>
    cases List.mem_singleton.mp h
    exact .refl _
  | cons p others ih =>
    rw [List.all_cons, Bool.and_eq_true] at code
    obtain ⟨between, first, later⟩ := List.mem_flatMap.mp h
    obtain ⟨⟨more, reached⟩, later, same⟩ := List.mem_map.mp later
    cases same
    exact (codeBetween_of_mem_ends code.1 first).trans (ih code.2 later)

/-! Matches. -/

variable {rules others : List Rule} {rule : Rule} {here : Cursor}

theorem match?_next (none : (Rule.partEnds rule.parts here).head? = none) :
    match? (rule :: others) here = match? others here := by
  rw [match?, match?, List.findSome?_cons, none]
  rfl

theorem match?_first {texts : List (List Char)} {reached : Cursor}
    (first : (Rule.partEnds rule.parts here).head? = some (texts, reached))
    (shorter : reached.rest.length < here.rest.length) :
    match? (rule :: others) here = some ⟨rule, texts, reached⟩ := by
  rw [match?, List.findSome?_cons, first]
  exact Option.filter_some_pos (by simpa using shorter)

theorem match?_nil (here : Cursor) : match? [] here = none := rfl

theorem mem_of_match? {found : Match} (h : match? rules here = some found) :
    found.rule ∈ rules ∧ (found.texts, found.reached) ∈ Rule.partEnds found.rule.parts here := by
  obtain ⟨rule, there, first⟩ := List.exists_of_findSome?_eq_some (Option.filter_eq_some_iff.mp h).1
  obtain ⟨⟨texts, reached⟩, head, rfl⟩ := Option.map_eq_some_iff.mp first
  exact ⟨there, List.mem_of_head? head⟩

section Finds

variable {p : Pattern} {keeps : Piece → Bool} {isOpaque : Bool}
  {write : List (List Char) → List Char} {piece : Piece} {rest : List Char}

theorem Pattern.Finds.head?_partEnds (h : p.Finds keeps) (here : Cursor) :
    (Rule.partEnds [p] here).head? = ((opaque? here.rest).filter fun found => keeps found.1).map
      fun (piece, rest) => ([piece.text], here.past piece.text rest) := by
  have one : (Rule.partEnds [p] here).head? = (p.ends here).head?.map fun there =>
      ([here.rest.take (here.rest.length - there.rest.length)], there) := by
    have all : Rule.partEnds [p] here = (p.ends here).map fun there =>
        ([here.rest.take (here.rest.length - there.rest.length)], there) := by
      simp [Rule.partEnds, List.map_eq_flatMap]
    rw [all, List.head?_map]
  rw [one, h here, Option.map_map]
  cases first : opaque? here.rest with
  | none => rfl
  | some found =>
    obtain ⟨piece, rest⟩ := found
    have taken : here.rest.take (here.rest.length - rest.length) = piece.text := by
      rw [opaque?_append first, List.length_append, Nat.add_sub_cancel_right, List.take_left']
      rfl
    rw [Option.filter_some]
    split
    · exact congrArg (fun text => some ([text], here.past piece.text rest)) taken
    · rfl

/-- Where something else stands, or nothing, the next rule is tried. -/
theorem Pattern.Finds.next (h : p.Finds keeps)
    (other : ∀ found ∈ opaque? here.rest, keeps found.1 = false) :
    match? (⟨[p], isOpaque, write⟩ :: others) here = match? others here := by
  apply match?_next
  rw [h.head?_partEnds here, Option.map_eq_none_iff, Option.filter_eq_none_iff]
  intro found there
  simp [other found there]

theorem Pattern.Finds.first (h : p.Finds keeps) (first : opaque? here.rest = some (piece, rest))
    (kept : keeps piece = true) :
    match? (⟨[p], isOpaque, write⟩ :: others) here =
      some ⟨⟨[p], isOpaque, write⟩, [piece.text], here.past piece.text rest⟩ := by
  apply match?_first
  · rw [h.head?_partEnds here, first, Option.filter_some, if_pos kept]
    rfl
  · exact opaque?_length_lt first

end Finds

/-- By these rules each string and comment is found as a whole and written in one way, and nothing
else is found but code. -/
structure Uniform (rules : List Rule) (rewritten : Piece → List Char) : Prop where
  found (here : Cursor) {piece : Piece} {rest : List Char}
    (first : opaque? here.rest = some (piece, rest)) :
    ∃ rule texts, match? rules here = some ⟨rule, texts, here.past piece.text rest⟩ ∧
      rule.isOpaque = true ∧ rule.write texts = rewritten piece
  code {here : Cursor} {found : Match} (nothing : opaque? here.rest = none)
    (h : match? rules here = some found) :
    found.rule.isOpaque = false ∧ CodeBetween here found.reached

theorem Uniform.eq_found {rewritten : Piece → List Char} (uniform : Uniform rules rewritten)
    {piece : Piece} {rest : List Char} (first : opaque? here.rest = some (piece, rest))
    {found : Match} (h : match? rules here = some found) :
    found.rule.isOpaque = true ∧ found.rule.write found.texts = rewritten piece ∧
      found.reached = here.past piece.text rest := by
  obtain ⟨rule, texts, matched, dark, written⟩ := uniform.found here first
  cases matched.symm.trans h
  exact ⟨dark, written, rfl⟩

theorem Uniform.nothing {rewritten : Piece → List Char} (uniform : Uniform rules rewritten)
    (h : match? rules here = none) : opaque? here.rest = none := by
  cases first : opaque? here.rest with
  | none => rfl
  | some found =>
    obtain ⟨rule, texts, matched, -⟩ := uniform.found here first
    cases matched.symm.trans h

/-- The first rule of a step that leaves strings and comments alone. -/
theorem uniform_copy {rule : Rule} (light : rule.isOpaque = false)
    (code : rule.parts.all Pattern.takesCode = true) :
    Uniform [.copy opaqueText, rule] Piece.text where
  found here piece rest first :=
    ⟨_, _, finds_opaqueText.first first rfl, rfl, List.append_nil _⟩
  code {here found} nothing h := by
    rw [Rule.copy, finds_opaqueText.next (by simp [nothing])] at h
    obtain ⟨own, reached⟩ := mem_of_match? h
    rw [List.mem_singleton.mp own] at reached ⊢
    exact ⟨light, codeBetween_of_mem_partEnds code reached⟩

theorem match?_forComments (nothing : opaque? here.rest = none) :
    match? Rule.forComments here = none := by
  rw [Rule.forComments, Rule.copy, finds_anyString.next (by simp [nothing]),
    finds_comment.next (by simp [nothing]), match?_nil]

theorem match?_forQuotes (nothing : opaque? here.rest = none) :
    match? Rule.forQuotes here = none := by
  rw [Rule.forQuotes, Rule.copy, Rule.copy, Rule.requoted, Rule.requoted,
    finds_comment.next (by simp [nothing]), (finds_string (by decide)).next (by simp [nothing]),
    (finds_string (by decide)).next (by simp [nothing]),
    (finds_string (by decide)).next (by simp [nothing]), match?_nil]

theorem uniform_forComments : Uniform Rule.forComments Piece.uncommented where
  found here piece rest first := by
    rw [Piece.uncommented]
    cases kind : piece.isComment with
    | true =>
      rw [Rule.forComments, Rule.copy, finds_anyString.next (by simp [first, kind])]
      exact ⟨_, _, finds_comment.first first kind, rfl, rfl⟩
    | false =>
      exact ⟨_, _, finds_anyString.first first (by simp [kind]), rfl, List.append_nil _⟩
  code nothing h := by
    rw [match?_forComments nothing] at h
    cases h

theorem requoted_write {quote : Char} (other : quote ≠ '"') (body : List Char) :
    (Rule.requoted quote).write [(Piece.quoted quote body).text] =
      (Piece.quoted quote body).doubleQuoted := by
  have inner : [(Piece.quoted quote body).text].flatten.tail.dropLast = body := by
    simp [Piece.text]
  rw [Piece.doubleQuoted, if_neg other]
  exact congrArg (fun body => '"' :: requote quote body ++ ['"']) inner

theorem uniform_forQuotes : Uniform Rule.forQuotes Piece.doubleQuoted where
  found here piece rest first := by
    rw [Rule.forQuotes, Rule.copy, Rule.copy, Rule.requoted, Rule.requoted]
    rcases comment_or_quoted first with isComment | ⟨quote, body, quoted, rfl⟩
    · refine ⟨_, _, finds_comment.first first isComment, rfl, (List.append_nil _).trans ?_⟩
      cases piece with
      | quoted q body => cases isComment
      | _ => rfl
    · rw [finds_comment.next (by simp [first, Piece.isComment])]
      simp only [isQuote, Bool.or_eq_true, beq_iff_eq] at quoted
      rcases quoted with (rfl | rfl) | rfl
      · exact ⟨_, _, (finds_string (by decide)).first first rfl, rfl, List.append_nil _⟩
      · rw [(finds_string (by decide)).next (by simp [first, Piece.isQuoted])]
        exact ⟨_, _, (finds_string (by decide)).first first rfl, rfl,
          requoted_write (by decide) body⟩
      · rw [(finds_string (by decide)).next (by simp [first, Piece.isQuoted, backtick]),
          (finds_string (by decide)).next (by simp [first, Piece.isQuoted, backtick])]
        exact ⟨_, _, (finds_string (by decide)).first first rfl, rfl,
          requoted_write (by decide) body⟩
  code nothing h := by
    rw [match?_forQuotes nothing] at h
    cases h

theorem uniform_forKeys : Uniform Rule.forKeys Piece.text :=
  uniform_copy rfl (by decide +kernel)

theorem uniform_forCommas : Uniform Rule.forCommas Piece.text :=
  uniform_copy rfl (by decide +kernel)

end ThemeSheet.Literal
