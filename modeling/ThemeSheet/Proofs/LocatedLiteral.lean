import ThemeSheet.Proofs.ClosingBracket
import ThemeSheet.Proofs.Commented
import ThemeSheet.Proofs.Located

/-! A located literal is the balanced text at its place: nothing that stands behind it is needed to
tell where it ends. -/

namespace ThemeSheet.Literal

open Text

/-! What ends inside of a text ends at the same place without the text behind. -/

theorem afterString_alone {quote : Char} {text more rest : List Char}
    (h : afterString quote (text ++ more) = rest ++ more) (some : rest ≠ []) :
    afterString quote text = rest := by
  have long := List.length_pos_iff.mpr some
  fun_induction afterString quote text with
  | case1 =>
    have := afterString_length_le quote more
    rw [List.nil_append] at h
    rw [h, List.length_append] at this
    omega
  | case2 =>
    cases more with
    | nil => simp [afterString, some] at h
    | cons c more =>
      have := afterString_length_le quote more
      simp only [List.cons_append, List.nil_append, afterString] at h
      simp only [h, List.length_append, List.length_cons] at this
      omega
  | case3 c rest' ih => exact ih h
  | case4 rest' alone pair =>
    rw [List.cons_append, afterString_cons (ne_backslash alone pair), if_pos rfl] at h
    exact List.append_cancel_right h
  | case5 c rest' alone pair other line =>
    rw [List.cons_append, afterString_cons (ne_backslash alone pair), if_neg other, if_pos line] at h
    exact List.append_cancel_right h
  | case6 c rest' alone pair other line ih =>
    rw [List.cons_append, afterString_cons (ne_backslash alone pair), if_neg other,
      if_neg line] at h
    exact ih h

theorem afterBlockComment_alone {text more rest : List Char}
    (h : afterBlockComment (text ++ more) = rest ++ more) (some : rest ≠ []) :
    afterBlockComment text = rest := by
  have long := List.length_pos_iff.mpr some
  fun_induction afterBlockComment text with
  | case1 =>
    have := afterBlockComment_length_le more
    rw [List.nil_append] at h
    rw [h, List.length_append] at this
    omega
  | case2 rest' => exact List.append_cancel_right h
  | case3 c rest' pair ih =>
    rw [List.cons_append, afterBlockComment] at h
    · exact ih h
    · intro after star same
      cases rest' with
      | nil =>
        -- The star is the last character, so the comment would end in what follows.
        subst star
        simp only [List.nil_append] at same
        simp only [same, List.nil_append, afterBlockComment] at h
        have := congrArg List.length h
        simp only [List.length_append, List.length_cons] at this
        omega
      | cons d rest' => exact pair rest' star (by simpa using (List.cons.inj same).1)

/-- Whether a string or comment opens is seen from two characters. -/
theorem afterOpaque?_eq_none_iff {c d : Char} {rest : List Char} :
    afterOpaque? (c :: d :: rest) = none ↔
      isQuote c = false ∧ ¬ (c = '/' ∧ (d = '/' ∨ d = '*')) := by
  by_cases slash : c = '/'
  · subst slash
    by_cases line : d = '/'
    · simp [afterOpaque?, line]
    · by_cases block : d = '*'
      · simp [afterOpaque?, block]
      · simp [afterOpaque?, line, block, isQuote, backtick]
  · cases quote : isQuote c with
    | true => simp [afterOpaque?_quote quote]
    | false => simp [afterOpaque?_code slash quote, slash]

/-- What follows a string or comment that ends inside of a text. -/
theorem afterOpaque?_alone {text more rest : List Char}
    (h : afterOpaque? (text ++ more) = some (rest ++ more)) (left : rest ≠ [])
    (shorter : rest.length < text.length) : afterOpaque? text = some rest := by
  obtain ⟨c, text, rfl⟩ := List.exists_cons_of_length_pos (Nat.zero_lt_of_lt shorter)
  have long := List.length_pos_iff.mpr left
  obtain ⟨d, text, rfl⟩ := List.exists_cons_of_length_pos (l := text)
    (by simp only [List.length_cons] at shorter; omega)
  simp only [List.cons_append] at h
  by_cases slash : c = '/'
  · subst slash
    by_cases line : d = '/'
    · subst line
      have inner : (text ++ more).dropWhile (· != '\n') = rest ++ more := Option.some.inj h
      rw [List.dropWhile_append] at inner
      split at inner
      · have := (List.dropWhile_suffix (l := more) (· != '\n')).length_le
        rw [inner, List.length_append] at this
        omega
      · exact congrArg some (List.append_cancel_right inner)
    · by_cases block : d = '*'
      · subst block
        exact congrArg some (afterBlockComment_alone (Option.some.inj h) left)
      · rw [afterOpaque?_eq_none_iff.mpr ⟨by decide, by simp [line, block]⟩] at h
        cases h
  · cases quote : isQuote c with
    | true =>
      rw [afterOpaque?_quote quote] at h ⊢
      exact congrArg some (afterString_alone (Option.some.inj h) left)
    | false =>
      rw [afterOpaque?_code slash quote] at h
      cases h

/-- A bracket that is closed is closed at the end of the text up to there. -/
theorem afterClose?_alone {opening closing : Char} (pair : closing? opening = some closing)
    {depth : Nat} {text rest : List Char} (h : afterClose? opening closing depth text = some rest) :
    ∃ front, text = front ++ rest ∧ afterClose? opening closing depth front = some [] := by
  fun_induction afterClose? opening closing depth text with
  | case1 depth text after found shorter ih =>
    obtain ⟨inner, rfl, closed⟩ := ih h
    obtain ⟨skipped, rfl⟩ := afterOpaque?_suffix found
    have some : inner ≠ [] := by
      rintro rfl
      rw [afterClose?] at closed
      cases closed
    refine ⟨skipped ++ inner, by simp, ?_⟩
    rw [← List.append_assoc] at found shorter
    have ends := afterOpaque?_alone found some (by simp at shorter ⊢; omega)
    rw [afterClose?_of_afterOpaque? ends, closed]
  | case2 => cases h
  | case3 depth rest' code ih =>
    obtain ⟨inner, rfl, closed⟩ := ih h
    refine ⟨opening :: inner, rfl, ?_⟩
    rw [afterClose?_code (afterOpaque?_bracket pair (.inl rfl) inner), if_pos rfl, closed]
  | case4 depth rest' last code other =>
    cases h
    refine ⟨[closing], rfl, ?_⟩
    rw [afterClose?_code (afterOpaque?_bracket pair (.inr rfl) []), if_neg other, if_pos rfl,
      if_pos last]
  | case5 depth rest' other code many ih =>
    obtain ⟨inner, rfl, closed⟩ := ih h
    refine ⟨closing :: inner, rfl, ?_⟩
    rw [afterClose?_code (afterOpaque?_bracket pair (.inr rfl) inner), if_neg other, if_pos rfl,
      if_neg many, closed]
  | case6 depth c rest' code opens closes ih =>
    obtain ⟨inner, rfl, closed⟩ := ih h
    refine ⟨c :: inner, rfl, ?_⟩
    cases inner with
    | nil =>
      rw [afterClose?] at closed
      cases closed
    | cons d inner =>
      have alone : afterOpaque? (c :: d :: inner) = none :=
        afterOpaque?_eq_none_iff.mpr (afterOpaque?_eq_none_iff.mp code)
      rw [afterClose?_code alone, if_neg opens, if_neg closes, closed]

/-- The balanced stretch at the front of a text that begins with a brace. -/
theorem bracketed_of_balanced? {text literal : List Char} (brace : text.head? = some '{')
    (h : balanced? text = some literal) : literal <+: text ∧ Bracketed '{' literal := by
  obtain ⟨rest, closed, rfl⟩ := Option.map_eq_some_iff.mp h
  obtain ⟨tail, rfl⟩ := List.head?_eq_some_iff.mp brace
  refine ⟨List.take_prefix _ _, ?_⟩
  have closed : afterClose? '{' '}' 1 tail = some rest := closed
  obtain ⟨front, rfl, alone⟩ := afterClose?_alone rfl closed
  have whole : ('{' :: (front ++ rest)).take (('{' :: (front ++ rest)).length - rest.length) =
      '{' :: front := by
    rw [← List.cons_append, List.length_append, Nat.add_sub_cancel, List.take_left]
  rw [whole]
  refine ⟨rfl, ?_⟩
  simp [closingIndex, closing?, alone]

/-! What is located. -/

theorem head_of_member? {name text rest : List Char} {before : Option Char}
    (h : member? name before text = some rest) : rest.head? = some '{' := by
  unfold member? at h
  split at h
  · cases h
  · obtain ⟨tail, -, h⟩ := Option.bind_eq_some_iff.mp h
    split at h
    · exact (fromBrace?_eq_some_iff.mp h).choose_spec.2.2
    · cases h

/-- A member's literal lies in the object, and is balanced on its own. -/
theorem bracketed_of_memberLiteral? {name object literal : List Char}
    (h : memberLiteral? name object = some literal) :
    literal <:+: object ∧ Bracketed '{' literal := by
  obtain ⟨after, closed, -⟩ := Option.bind_eq_some_iff.mp h
  have held : inside? object =
      some ((object.drop 1).take (object.length - after.length - 2)) := by
    rw [inside?, closed]
    rfl
  obtain ⟨more, split, eq⟩ := memberLiteral?_eq name held
  rw [eq] at h
  obtain ⟨rest, searched, balanced⟩ := Option.bind_eq_some_iff.mp h
  obtain ⟨front, back, whole, -, found⟩ := search_eq_some searched
  obtain ⟨d, rfl⟩ := List.head?_eq_some_iff.mp (head_of_member? found)
  obtain ⟨first, alone⟩ := bracketed_of_balanced? rfl balanced
  have inner : '{' :: d ++ more <:+ object.drop 1 := by
    obtain ⟨start, rfl⟩ := suffix_of_member? found
    exact ⟨front ++ start, by rw [split, whole]; simp⟩
  exact ⟨(first.isInfix.trans inner.isInfix).trans (List.drop_suffix 1 object).isInfix, alone⟩

theorem bracketed_of_locate {name source literal : List Char}
    (h : locate name source = some literal) : literal <:+: source ∧ Bracketed '{' literal := by
  have declared (h : locateExportConst name source = some literal ∨
      locateDeclaration name source = some literal) :
      literal <:+: source ∧ Bracketed '{' literal := by
    obtain ⟨front, text, found, rfl, -, ⟨binding, -, rfl, brace⟩, balanced⟩ := boundTo_of_located h
    obtain ⟨first, alone⟩ := bracketed_of_balanced? brace balanced
    refine ⟨first.isInfix.trans (List.IsSuffix.isInfix ⟨front ++ binding, ?_⟩), alone⟩
    rw [List.append_assoc]
  obtain ⟨find, mem, found⟩ := List.exists_of_findSome?_eq_some h
  simp only [bindings, List.mem_cons, List.not_mem_nil, or_false] at mem
  rcases mem with rfl | rfl | rfl
  · exact declared (.inl found)
  · obtain ⟨front, back, rfl, -, here⟩ := search_eq_some found
    obtain ⟨object, exported, member⟩ := Option.bind_eq_some_iff.mp here
    obtain ⟨inner, alone⟩ := bracketed_of_memberLiteral? member
    have suffix := (exportObject?_eq_some exported).1.trans (List.suffix_append front back)
    exact ⟨inner.trans suffix.isInfix, alone⟩
  · exact declared (.inr found)

/-! Where an exported constant is found. -/

/-- An optional type annotation as it is written between a name and an equals sign. -/
def typedAs : Option (List Char) → List Char
  | none => []
  | some type => ": ".toList ++ type

/-- The name of a constant, with its literal and what follows. -/
def assignment (name : List Char) (type : Option (List Char)) (literal after : List Char) :
    List Char :=
  name ++ (typedAs type ++ (" = ".toList ++ (literal ++ after)))

theorem binding?_assignment (name : List Char) {type : Option (List Char)}
    (typed : ∀ t, type = some t → t ≠ [] ∧ ∀ c ∈ t, annotationEnd c = false)
    {literal : List Char} (brace : literal.head? = some '{') (after : List Char) :
    binding? name (assignment name type literal after) = some (literal ++ after) := by
  have annotation : Annotation (typedAs type ++ [' ']) := by
    cases type with
    | none =>
      change Annotation [' ']
      exact .absent (by simp [Spaces]; decide)
    | some t =>
      obtain ⟨some, inner⟩ := typed t rfl
      have : Annotation ([] ++ ':' :: (' ' :: t ++ [' '])) := by
        refine .typed (by simp [Spaces]) (by simp) fun c mem => ?_
        simp only [List.cons_append, List.mem_cons, List.mem_append, List.not_mem_nil,
          or_false] at mem
        rcases mem with rfl | mem | rfl
        · rfl
        · exact inner c mem
        · rfl
      simpa [typedAs] using this
  have split : assignment name type literal after =
      name ++ ((typedAs type ++ [' ']) ++ '=' :: ([' '] ++ (literal ++ after))) := by
    simp [assignment]
  have ends : ((typedAs type ++ [' ']) ++ '=' :: ([' '] ++ (literal ++ after))).head?.any
      isNamePart = false := by
    cases type <;> rfl
  rw [binding?, split, afterName?, Token.isPrefixOf?_self]
  simp only [Option.filter, ends, Bool.not_false, if_true, Option.bind_some]
  refine fromInitializer?_annotation annotation (by simp [Spaces]; decide) ?_
  obtain ⟨tail, rfl⟩ := List.head?_eq_some_iff.mp brace
  rfl

theorem exportConst?_assignment {name : String} (h : isIdentifier name = true)
    {type : Option (List Char)}
    (typed : ∀ t, type = some t → t ≠ [] ∧ ∀ c ∈ t, annotationEnd c = false)
    {literal : List Char} (brace : literal.head? = some '{') (after : List Char)
    (before : Option Char) :
    exportConst? name.toList before
      ("export const ".toList ++ assignment name.toList type literal after) =
      some (literal ++ after) := by
  have exported : afterWord "export"
      ("export const ".toList ++ assignment name.toList type literal after) =
      ["const ".toList ++ assignment name.toList type literal after] :=
    spaceTails_one rfl
  have constant : afterWord "const"
      ("const ".toList ++ assignment name.toList type literal after) =
      [assignment name.toList type literal after] :=
    spaceTails_one (head_identifier h _)
  rw [exportConst?, exported, List.findSome?_singleton, constant, List.findSome?_singleton,
    binding?_assignment name.toList typed brace]

/-- Between `export const`, a name with an optional annotation, and any text at all, a balanced
literal is located exactly, if no constant is exported before it. What is located in any text is a
part of it that is balanced on its own. -/
theorem locate_exact :
    (∀ (name : String) (before : List Char) (type : Option (List Char)) (literal after : List Char),
      isIdentifier name = true → ¬ ExportsConst before →
      (∀ t, type = some t → t ≠ [] ∧ ∀ c ∈ t, annotationEnd c = false) →
      Bracketed '{' literal →
      locate name.toList
        (before ++ ("export const ".toList ++ assignment name.toList type literal after)) =
        some literal) ∧
    ∀ name source literal : List Char, locate name source = some literal →
      literal <:+: source ∧ Bracketed '{' literal := by
  refine ⟨?_, fun name source literal => bracketed_of_locate⟩
  intro name before type literal after identifier first typed balanced
  refine locate_exportConst first rfl fun c => ?_
  rw [exportConst?_assignment identifier typed balanced.1, Option.bind_some, balanced?,
    afterBalanced?_bracketed balanced]
  simp

/-- A literal with closing braces in a string and in a comment, before a string that is not
closed. -/
def typedSource : List Char :=
  "let a = '\x7b';\n".toList ++ ("export const ".toList ++
    assignment "THEME".toList (some "Record<string, string>".toList)
      "\x7b b: '\x7d' /* \x7d */ \x7d".toList " as const; '".toList)

theorem locate_typedSource :
    isIdentifier "THEME" = true ∧ ¬ ExportsConst "let a = '\x7b';\n".toList ∧
      Bracketed '{' "\x7b b: '\x7d' /* \x7d */ \x7d".toList ∧
      locate "THEME".toList typedSource = some "\x7b b: '\x7d' /* \x7d */ \x7d".toList ∧
      "\x7b b: '\x7d' /* \x7d */ \x7d".toList <:+: typedSource := by
  have name : isIdentifier "THEME" = true := by decide
  have first : ¬ ExportsConst "let a = '\x7b';\n".toList := not_exportsConst (by decide +kernel)
  have balanced : Bracketed '{' "\x7b b: '\x7d' /* \x7d */ \x7d".toList :=
    ⟨rfl, by decide +kernel⟩
  have typed : ∀ t, some "Record<string, string>".toList = some t →
      t ≠ [] ∧ ∀ c ∈ t, annotationEnd c = false := by
    intro t same
    rw [← Option.some.inj same]
    have plain : ("Record<string, string>".toList.all fun c => !annotationEnd c) = true := by
      decide +kernel
    refine ⟨by decide +kernel, fun c there => ?_⟩
    simpa using List.all_eq_true.mp plain c there
  have located : locate "THEME".toList typedSource = some "\x7b b: '\x7d' /* \x7d */ \x7d".toList :=
    locate_exact.1 "THEME" _ _ _ _ name first typed balanced
  exact ⟨name, first, balanced, located, (locate_exact.2 _ _ _ located).1⟩

end ThemeSheet.Literal
