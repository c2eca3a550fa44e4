import ThemeSheet.Proofs.Extracted

namespace ThemeSheet.Literal

open Text

/-! Where a search finds its answer. -/

section search

variable {α : Type} {found : Option Char → List Char → Option α}

theorem getLast?_cons_or (c : Char) (start : List Char) (before : Option Char) :
    (c :: start).getLast?.or before = start.getLast?.or (some c) := by
  cases start with
  | nil => rfl
  | cons d start => simp [List.getLast?_eq_some_getLast]

/-- The places of a text come before those of what follows it. -/
theorem search_append (before : Option Char) (start text : List Char) :
    search found before (start ++ text) =
      (search (fun c rest => found c (rest ++ text)) before start).or
        (search found (start.getLast?.or before) text) := by
  induction start generalizing before with
  | nil => rfl
  | cons c start ih =>
    rw [List.cons_append, search, ih, getLast?_cons_or, search, Option.or_assoc]
    rfl

/-- An answer is found at a place, with the character before it. -/
theorem search_eq_some {before : Option Char} {text : List Char} {answer : α}
    (h : search found before text = some answer) : ∃ front back, text = front ++ back ∧
      back ≠ [] ∧ found (front.getLast?.or before) back = some answer := by
  induction text generalizing before with
  | nil => cases h
  | cons c rest ih =>
    rcases Option.or_eq_some_iff.mp h with here | ⟨-, later⟩
    · exact ⟨[], c :: rest, rfl, List.cons_ne_nil c rest, here⟩
    · obtain ⟨front, back, rfl, some, answered⟩ := ih later
      exact ⟨c :: front, back, rfl, some, by rw [getLast?_cons_or]; exact answered⟩

theorem search_eq_none {before : Option Char} {text : List Char}
    (h : ∀ front back, text = front ++ back → back ≠ [] →
      found (front.getLast?.or before) back = none) : search found before text = none := by
  cases answer : search found before text with
  | none => rfl
  | some a =>
    obtain ⟨front, back, split, some, answered⟩ := search_eq_some answer
    rw [h front back split some] at answered
    cases answered

end search

/-! What stands between a name and its initializer. -/

/-- An optional type annotation: nothing, or a colon and one or more characters. None of them ends
it, but any of them may be a line feed. -/
inductive Annotation : List Char → Prop
  | absent {spaces} (all : Spaces spaces) : Annotation spaces
  | typed {spaces type} (all : Spaces spaces) (some : type ≠ [])
    (inner : ∀ c ∈ type, annotationEnd c = false) : Annotation (spaces ++ ':' :: type)

theorem fromBrace?_eq_some_iff {text found : List Char} : fromBrace? text = some found ↔
    ∃ gap, Spaces gap ∧ text = gap ++ found ∧ found.head? = some '{' := by
  constructor
  · intro h
    obtain ⟨eq, brace⟩ := Option.filter_eq_some_iff.mp h
    obtain rfl := Option.some.inj eq
    exact ⟨text.takeWhile isSpace, List.all_eq_true.mp List.all_takeWhile,
      List.takeWhile_append_dropWhile.symm, eq_of_beq brace⟩
  · rintro ⟨gap, all, rfl, brace⟩
    obtain ⟨rest, rfl⟩ := List.head?_eq_some_iff.mp brace
    rw [fromBrace?, trimLeft_spaces all, trimLeft_cons (by decide)]
    rfl

theorem fromAssigned?_eq_some {text found : List Char} (h : fromAssigned? text = some found) :
    ∃ gap, Spaces gap ∧ text = '=' :: (gap ++ found) ∧ found.head? = some '{' := by
  unfold fromAssigned? at h
  split at h
  · obtain ⟨gap, all, rfl, brace⟩ := fromBrace?_eq_some_iff.mp h
    exact ⟨gap, all, rfl, brace⟩
  · cases h

theorem fromInitializer?_eq_some {text found : List Char} (h : fromInitializer? text = some found) :
    ∃ typing gap, Annotation typing ∧ Spaces gap ∧
      text = typing ++ '=' :: (gap ++ found) ∧ found.head? = some '{' := by
  have spaces : Spaces (text.takeWhile isSpace) := List.all_eq_true.mp List.all_takeWhile
  have split : text = text.takeWhile isSpace ++ trimLeft text :=
    List.takeWhile_append_dropWhile.symm
  unfold fromInitializer? at h
  split at h
  · rename_i rest colon
    dsimp only at h
    split at h
    · cases h
    · rename_i shorter
      obtain ⟨gap, all, after, brace⟩ := fromAssigned?_eq_some h
      have typed : rest = rest.takeWhile (!annotationEnd ·) ++ '=' :: (gap ++ found) := by
        rw [← after, List.takeWhile_append_dropWhile]
      have annotated :
          Annotation (text.takeWhile isSpace ++ ':' :: rest.takeWhile (!annotationEnd ·)) := by
        refine .typed spaces (fun none => shorter ?_) fun c mem => ?_
        · rw [none, List.nil_append] at typed
          rw [after, ← typed]
        · simpa using List.all_eq_true.mp List.all_takeWhile c mem
      refine ⟨_, gap, annotated, all, ?_, brace⟩
      rw [List.append_assoc, List.cons_append, ← typed, ← colon]
      exact split
  · obtain ⟨gap, all, after, brace⟩ := fromAssigned?_eq_some h
    exact ⟨_, gap, .absent spaces, all, by rw [← after]; exact split, brace⟩

theorem fromInitializer?_annotation {typing gap found : List Char} (h : Annotation typing)
    (all : Spaces gap) (brace : found.head? = some '{') :
    fromInitializer? (typing ++ '=' :: (gap ++ found)) = some found := by
  have assigned : fromAssigned? ('=' :: (gap ++ found)) = some found :=
    fromBrace?_eq_some_iff.mpr ⟨gap, all, rfl, brace⟩
  cases h with
  | absent spaces =>
    rw [fromInitializer?, trimLeft_spaces spaces, trimLeft_cons (by decide)]
    exact assigned
  | @typed spaces type all' some inner =>
    have after : (type ++ '=' :: (gap ++ found)).dropWhile (!annotationEnd ·) =
        '=' :: (gap ++ found) := by
      rw [List.dropWhile_append_of_pos (fun c hc => by simp [inner c hc])]
      rfl
    have long := List.length_pos_iff.mpr some
    rw [List.append_assoc, List.cons_append, fromInitializer?, trimLeft_spaces all',
      trimLeft_cons (by decide)]
    simp only [after]
    rw [if_neg (by simp; omega)]
    exact assigned

/-- A declaration of a name, up to its initializer. -/
inductive Declares (name : List Char) : List Char → Prop
  | mk {keyword spaces typing gap} (word : keyword ∈ ["const", "let", "var"])
    (some : spaces ≠ []) (all : Spaces spaces) (typed : Annotation typing) (all' : Spaces gap) :
    Declares name (keyword.toList ++ (spaces ++ (name ++ (typing ++ '=' :: gap))))

/-- A declaration is bound to an initializer that begins here. -/
def BoundTo (name text found : List Char) : Prop :=
  ∃ binding, Declares name binding ∧ text = binding ++ found ∧ found.head? = some '{'

theorem boundTo_of_binding? {name text found spaces : List Char} (keyword : String)
    (word : keyword ∈ ["const", "let", "var"]) (some : spaces ≠ []) (all : Spaces spaces)
    (h : binding? name text = .some found) :
    BoundTo name (keyword.toList ++ (spaces ++ text)) found := by
  obtain ⟨rest, named, assigned⟩ := Option.bind_eq_some_iff.mp h
  obtain ⟨prefixed, -⟩ := Option.filter_eq_some_iff.mp named
  obtain rfl := isPrefixOf?_append prefixed
  obtain ⟨typing, gap, typed, all', rfl, brace⟩ := fromInitializer?_eq_some assigned
  exact ⟨_, .mk word some all typed all', by simp only [List.append_assoc, List.cons_append], brace⟩

theorem boundTo_of_declaration? {name text found : List Char} {before : Option Char}
    (h : declaration? name before text = some found) :
    before.any joinsName = false ∧ BoundTo name text found := by
  unfold declaration? at h
  split at h
  · cases h
  · rename_i joins
    obtain ⟨tail, mem, bound⟩ := List.exists_of_findSome?_eq_some h
    obtain ⟨keyword, word, mem⟩ := List.mem_flatMap.mp mem
    obtain ⟨spaces, some, all, rfl⟩ := mem_afterWord.mp mem
    exact ⟨Bool.eq_false_iff.mpr joins, boundTo_of_binding? keyword word some all bound⟩

theorem boundTo_of_exportConst? {name text found : List Char} {before : Option Char}
    (h : exportConst? name before text = some found) : ∃ spaces rest, spaces ≠ [] ∧ Spaces spaces ∧
      text = "export".toList ++ (spaces ++ rest) ∧ BoundTo name rest found := by
  obtain ⟨rest, mem, constant⟩ := List.exists_of_findSome?_eq_some h
  obtain ⟨tail, mem', bound⟩ := List.exists_of_findSome?_eq_some constant
  obtain ⟨spaces, some, all, rfl⟩ := mem_afterWord.mp mem
  obtain ⟨spaces', some', all', rfl⟩ := mem_afterWord.mp mem'
  exact ⟨spaces, _, some, all, rfl,
    boundTo_of_binding? "const" (by decide) some' all' bound⟩

theorem search_isSome {α : Type} {found : Option Char → List Char → Option α} {before : Option Char}
    {front back : List Char} (some : back ≠ [])
    (h : (found (front.getLast?.or before) back).isSome = true) :
    (search found before (front ++ back)).isSome = true := by
  obtain ⟨answer, here⟩ := Option.isSome_iff_exists.mp h
  rw [search_append, search_here some here, Option.isSome_or, Option.isSome_some, Bool.or_true]

/-- No name goes on into an annotation. -/
theorem endsName_annotation {typing text : List Char} (h : Annotation typing)
    (ends : EndsName text) : EndsName (typing ++ text) := by
  cases h with
  | absent all => exact endsName_spaces all ends
  | @typed spaces type all =>
    rw [List.append_assoc]
    refine endsName_spaces all ?_
    rintro c ⟨⟩
    rfl

/-- Where no longer name ends before it, a declaration is found. -/
theorem declaration?_isSome {name binding found : List Char} {before : Option Char}
    (joins : before.any joinsName = false) (h : Declares name binding)
    (brace : found.head? = some '{') :
    (declaration? name before (binding ++ found)).isSome = true := by
  cases h with
  | @mk keyword spaces typing gap word some all typed all' =>
    have ends : (typing ++ '=' :: (gap ++ found)).head?.any isNamePart = false := by
      have equals : EndsName ('=' :: (gap ++ found)) := by
        rintro c ⟨⟩
        rfl
      simpa [EndsName] using endsName_annotation typed equals
    have bound : binding? name (name ++ (typing ++ '=' :: (gap ++ found))) = .some found := by
      rw [binding?, afterName?, Token.isPrefixOf?_self]
      simp only [Option.filter, ends, Bool.not_false, if_true, Option.bind_some]
      exact fromInitializer?_annotation typed all' brace
    rw [declaration?, if_neg (by simp [joins]), List.findSome?_isSome_iff]
    refine ⟨name ++ (typing ++ '=' :: (gap ++ found)), ?_, by rw [bound]; rfl⟩
    refine List.mem_flatMap.mpr ⟨keyword, word, mem_afterWord.mpr ⟨spaces, some, all, ?_⟩⟩
    simp

/-- The two searches for a declaration find one that is bound to the literal. -/
theorem boundTo_of_located {name source literal : List Char}
    (h : locateExportConst name source = some literal ∨
      locateDeclaration name source = some literal) :
    ∃ front text found, source = front ++ text ∧ front.getLast?.any joinsName = false ∧
      BoundTo name text found ∧ balanced? found = some literal := by
  rcases h with h | h
  · obtain ⟨front, back, rfl, -, here⟩ := search_eq_some h
    obtain ⟨found, constant, closed⟩ := Option.bind_eq_some_iff.mp here
    obtain ⟨spaces, rest, some, all, rfl, bound⟩ := boundTo_of_exportConst? constant
    refine ⟨front ++ ("export".toList ++ spaces), rest, found, by simp only [List.append_assoc], ?_,
      bound, closed⟩
    rw [← List.append_assoc, List.getLast?_append_of_ne_nil _ some,
      List.getLast?_eq_some_getLast some, Option.any_some]
    have space := all _ (List.getLast_mem some)
    rw [joinsName, not_isNamePart_of_isSpace space, Bool.false_or, beq_eq_false_iff_ne]
    rintro dot
    rw [dot] at space
    cases space
  · obtain ⟨front, back, rfl, -, here⟩ := search_eq_some h
    obtain ⟨found, declared, closed⟩ := Option.bind_eq_some_iff.mp here
    rw [Option.or_none] at declared
    obtain ⟨joins, bound⟩ := boundTo_of_declaration? declared
    exact ⟨front, back, found, rfl, joins, bound, closed⟩

/-! A text with one brace before which everything stands. -/

theorem not_mem_of_spaces {spaces : List Char} (all : Spaces spaces) {c : Char}
    (h : isSpace c = false) : c ∉ spaces := by
  intro mem
  rw [all c mem] at h
  cases h

theorem not_mem_of_annotation {typing : List Char} (h : Annotation typing) {c : Char}
    (ends : annotationEnd c = true) : c ∉ typing := by
  have apart : isSpace c = false ∧ c ≠ ':' := by
    simp only [annotationEnd, Bool.or_eq_true, beq_iff_eq] at ends
    rcases ends with (rfl | rfl) | rfl <;> decide
  cases h with
  | absent all => exact not_mem_of_spaces all apart.1
  | typed all some inner =>
    intro mem
    rcases List.mem_append.mp mem with mem | mem
    · exact not_mem_of_spaces all apart.1 mem
    · rcases List.mem_cons.mp mem with colon | mem
      · exact apart.2 colon
      · rw [inner c mem] at ends
        cases ends

/-- A declaration holds no character that ends an annotation but its equals sign. -/
theorem not_mem_of_declares {name binding : List Char} (h : Declares name binding) {c : Char}
    (ends : c = ';' ∨ c = '{') (apart : c ∉ name) : c ∉ binding := by
  obtain ⟨word, -, all, typed, all'⟩ := h
  have space : isSpace c = false := by rcases ends with rfl | rfl <;> decide
  have annotated : annotationEnd c = true := by rcases ends with rfl | rfl <;> rfl
  have equals : c ≠ '=' := by rcases ends with rfl | rfl <;> decide
  have plain : ∀ keyword ∈ ["const", "let", "var"], c ∉ keyword.toList := by
    rcases ends with rfl | rfl <;> decide
  simp [plain _ word, not_mem_of_spaces all space, apart, not_mem_of_annotation typed annotated,
    equals, not_mem_of_spaces all' space]

theorem infix_of_declares {name binding : List Char} (h : Declares name binding) :
    name <:+: binding := by
  cases h with
  | @mk keyword spaces typing gap =>
    exact ⟨keyword.toList ++ spaces, typing ++ '=' :: gap, by simp⟩

/-- Where the first brace of a text opens the literal, a declaration of a name that does not occur
in the literal is bound to it. -/
theorem boundTo_first_brace {name before literal front text found : List Char}
    (plain : '{' ∉ before) (apart : '{' ∉ name) (brace : literal.head? = some '{')
    (absent : ¬ name <:+: literal) (split : before ++ literal = front ++ text)
    (bound : BoundTo name text found) :
    found = literal ∧ ∃ binding, Declares name binding ∧ before = front ++ binding := by
  obtain ⟨binding, declares, rfl, brace'⟩ := bound
  have inner : '{' ∉ binding := not_mem_of_declares declares (.inr rfl) apart
  rw [← List.append_assoc] at split
  rcases List.append_eq_append_iff.mp split with ⟨middle, eq, rfl⟩ | ⟨middle, rfl, rfl⟩
  · cases middle with
    | nil => exact ⟨rfl, binding, declares, by rw [eq, List.append_nil]⟩
    | cons c middle =>
      obtain rfl := Option.some.inj brace
      rcases List.append_eq_append_iff.mp eq with ⟨rest, -, held⟩ | ⟨rest, -, held⟩
      · exact absurd (by rw [held]; simp) inner
      · refine absurd ((infix_of_declares declares).trans ⟨rest, found, ?_⟩) absent
        rw [held]
  · cases middle with
    | nil => exact ⟨rfl, binding, declares, by rw [List.append_nil]⟩
    | cons c middle =>
      obtain rfl := Option.some.inj brace'
      exact absurd (by simp) plain

theorem infix_of_member? {name text found : List Char} {before : Option Char}
    (h : member? name before text = some found) : name <:+: text := by
  unfold member? at h
  split at h
  · cases h
  · obtain ⟨rest, named, -⟩ := Option.bind_eq_some_iff.mp h
    obtain ⟨prefixed, -⟩ := Option.filter_eq_some_iff.mp named
    exact ⟨[], rest, (isPrefixOf?_append prefixed).symm⟩

/-- A member is taken where its name stands in the object. -/
theorem infix_of_memberLiteral? {name object literal : List Char}
    (h : memberLiteral? name object = some literal) : name <:+: object := by
  obtain ⟨after, -, inside⟩ := Option.bind_eq_some_iff.mp h
  obtain ⟨rest, searched, -⟩ := Option.bind_eq_some_iff.mp inside
  obtain ⟨front, back, split, -, member⟩ := search_eq_some searched
  have within : back <:+: object := by
    refine List.IsInfix.trans ⟨front, [], ?_⟩
      ((List.take_prefix (object.length - after.length - 2) (object.drop 1)).isInfix.trans
        (List.drop_suffix 1 object).isInfix)
    rw [split, List.append_nil]
  exact (infix_of_member? member).trans within

theorem exportObject?_eq_some {text object : List Char} (h : exportObject? text = some object) :
    object <:+ text ∧ object.head? = some '{' := by
  have braced {text object : List Char} (h : fromBrace? text = some object) :
      object <:+ text ∧ object.head? = some '{' := by
    obtain ⟨gap, -, rfl, brace⟩ := fromBrace?_eq_some_iff.mp h
    exact ⟨List.suffix_append gap object, brace⟩
  unfold exportObject? at h
  split at h
  · cases h
  · rename_i rest prefixed
    have after : rest <:+ text := ⟨"export".toList, (isPrefixOf?_append prefixed).symm⟩
    rcases Option.or_eq_some_iff.mp h with default | ⟨-, plain⟩
    · split at default
      · cases default
      · obtain ⟨tail, first, default⟩ := Option.bind_eq_some_iff.mp default
        obtain ⟨spaces, -, -, split⟩ := mem_afterWord.mp (List.mem_of_head? first)
        have inner : tail <:+ trimLeft rest :=
          ⟨"default".toList ++ spaces, by rw [split, List.append_assoc]⟩
        obtain ⟨suffix, brace⟩ := braced default
        exact ⟨((suffix.trans inner).trans (List.dropWhile_suffix _)).trans after, brace⟩
    · obtain ⟨suffix, brace⟩ := braced plain
      exact ⟨suffix.trans after, brace⟩

/-- An object that begins at a brace of such a text lies in the literal. -/
theorem locateExportMember_first_brace {name before literal : List Char} (plain : '{' ∉ before)
    (absent : ¬ name <:+: literal) : locateExportMember name (before ++ literal) = none := by
  refine search_eq_none fun front back split _ => ?_
  cases exported : exportObject? back with
  | none => rfl
  | some object =>
    obtain ⟨suffix, brace⟩ := exportObject?_eq_some exported
    obtain ⟨start, whole⟩ : object <:+ before ++ literal := suffix.trans ⟨front, split.symm⟩
    have within : object <:+ literal := by
      rcases List.append_eq_append_iff.mp whole with ⟨rest, rfl, rfl⟩ | ⟨rest, -, held⟩
      · cases rest with
        | nil => exact List.suffix_rfl
        | cons c rest =>
          obtain rfl := Option.some.inj brace
          exact absurd (by simp) plain
      · exact ⟨rest, held.symm⟩
    apply Option.eq_none_iff_forall_ne_some.mpr
    intro literal' found
    exact absent ((infix_of_memberLiteral? found).trans within.isInfix)

/-- What is located in such a text is the literal, and a declaration leads to it. -/
theorem eq_of_locate_first_brace {name before literal found : List Char} (plain : '{' ∉ before)
    (apart : '{' ∉ name) (brace : literal.head? = some '{')
    (closed : balanced? literal = some literal) (absent : ¬ name <:+: literal)
    (h : locate name (before ++ literal) = some found) :
    found = literal ∧ ∃ front binding, before = front ++ binding ∧
      front.getLast?.any joinsName = false ∧ Declares name binding := by
  have located : locateExportConst name (before ++ literal) = some found ∨
      locateDeclaration name (before ++ literal) = some found := by
    have member := locateExportMember_first_brace plain absent
    obtain ⟨find, mem, found⟩ := List.exists_of_findSome?_eq_some h
    rcases List.mem_cons.mp mem with rfl | mem
    · exact .inl found
    rcases List.mem_cons.mp mem with rfl | mem
    · rw [member] at found
      cases found
    · rw [List.mem_singleton.mp mem] at found
      exact .inr found
  obtain ⟨front, text, initializer, split, joins, bound, balanced⟩ := boundTo_of_located located
  obtain ⟨rfl, binding, declares, whole⟩ := boundTo_first_brace plain apart brace absent split bound
  rw [closed] at balanced
  exact ⟨(Option.some.inj balanced).symm, front, binding, whole, joins, declares⟩

/-- In such a text the literal is located when a declaration leads to it, and else nothing is. -/
theorem locate_first_brace {name before literal : List Char} (plain : '{' ∉ before)
    (apart : '{' ∉ name) (brace : literal.head? = some '{')
    (closed : balanced? literal = some literal) (absent : ¬ name <:+: literal) :
    (locate name (before ++ literal) = some literal ∨ locate name (before ++ literal) = none) ∧
      (locate name (before ++ literal) = some literal ↔
        ∃ front binding, before = front ++ binding ∧ front.getLast?.any joinsName = false ∧
          Declares name binding) := by
  have only {found : List Char} (h : locate name (before ++ literal) = some found) :=
    eq_of_locate_first_brace plain apart brace closed absent h
  refine ⟨?_, fun h => (only h).2, ?_⟩
  · cases found : locate name (before ++ literal) with
    | none => exact .inr rfl
    | some => exact .inl (by rw [(only found).1])
  · rintro ⟨front, binding, rfl, joins, declares⟩
    obtain ⟨found, declared⟩ := Option.isSome_iff_exists.mp
      (declaration?_isSome joins declares brace)
    have alone : binding ++ literal = [] ++ (binding ++ literal) := rfl
    have plain' : '{' ∉ binding := fun mem => plain (List.mem_append_right front mem)
    obtain ⟨rfl, -⟩ :=
      boundTo_first_brace plain' apart brace absent alone (boundTo_of_declaration? declared).2
    have some : binding ++ found ≠ [] := by
      intro none
      rw [(List.append_eq_nil_iff.mp none).2] at brace
      cases brace
    have here : (locateDeclaration name (front ++ (binding ++ found))).isSome = true := by
      refine search_isSome some ?_
      rw [Option.or_none, declared, Option.bind_some, closed, Option.isSome_some]
    obtain ⟨answer, eq⟩ : ∃ answer, locate name (front ++ binding ++ found) = .some answer := by
      rw [List.append_assoc, ← Option.isSome_iff_exists, locate, List.findSome?_isSome_iff]
      exact ⟨locateDeclaration, by simp [bindings], here⟩
    rw [eq, (only eq).1]

/-! A constant without an initializer before another one. -/

theorem isNamePart_of_isIdentifierPart {c : Char} (h : isIdentifierPart c = true) :
    isNamePart c = true := by
  have starts_or_digit : isNameStart c = true ∨ c.isDigit = true := by
    simp only [isIdentifierPart, Char.isAlphanum, Bool.or_eq_true, beq_iff_eq] at h
    simp only [isNameStart, Bool.or_eq_true, beq_iff_eq]
    tauto
  rcases starts_or_digit with starts | digit
  · exact isNamePart_of_isNameStart starts
  · have small : c.toNat < 128 := by
      simp only [Char.isDigit, Bool.and_eq_true, decide_eq_true_eq] at digit
      exact Nat.lt_of_le_of_lt (UInt32.le_iff_toNat_le.mp digit.2) (by decide)
    simp [isNamePart, isWord, small, Char.isAlphanum, digit]

/-- An identifier is a name, and a line feed may follow it. -/
theorem identifier_split {name : String} (h : isIdentifier name = true) :
    ∃ stem tail, name.toList = stem ++ tail ∧ IsName stem ∧ (tail = [] ∨ tail = ['\n']) := by
  unfold isIdentifier at h
  split at h
  · cases h
  · rename_i c rest eq
    simp only [Bool.and_eq_true, Bool.or_eq_true, beq_iff_eq] at h
    obtain ⟨starts, ends⟩ := h
    refine ⟨c :: rest.takeWhile isIdentifierPart, rest.dropWhile isIdentifierPart, ?_, ⟨?_, ?_⟩,
      ends⟩
    · rw [eq, List.cons_append, List.takeWhile_append_dropWhile]
    · simpa [startsName] using starts
    · intro d mem
      rcases List.mem_cons.mp mem with rfl | mem
      · exact isNamePart_of_isNameStart starts
      · exact isNamePart_of_isIdentifierPart (List.all_eq_true.mp List.all_takeWhile d mem)

/-- No character of a statement's punctuation stands in an identifier. -/
theorem not_mem_identifier {name : String} (h : isIdentifier name = true) {c : Char}
    (other : isNamePart c = false) (feed : c ≠ '\n') : c ∉ name.toList := by
  obtain ⟨stem, tail, split, ⟨-, all⟩, ends⟩ := identifier_split h
  rw [split, List.mem_append]
  rintro (mem | mem)
  · rw [all c mem] at other
    cases other
  · rcases ends with rfl | rfl
    · cases mem
    · exact feed (List.mem_singleton.mp mem)

theorem forall_eq_false_of_any {p : Char → Bool} {text : List Char} (h : text.any p = false) :
    ∀ c ∈ text, p c = false := by
  simpa using h

/-- A declaration of a name with a type and no initializer, then one of another constant, up to
that one's initializer. -/
def declaredBefore (name type stop other : List Char) : List Char :=
  "let ".toList ++ (name ++ (": ".toList ++ (type ++ (stop ++ ("\nconst ".toList ++
    (other ++ " = ".toList))))))

theorem declares_declaredBefore {name type other : List Char}
    (inner : ∀ c ∈ type ++ other, annotationEnd c = false) :
    Declares name (declaredBefore name type [] other) := by
  have typed : Annotation
      ([] ++ ':' :: (' ' :: (type ++ ("\nconst ".toList ++ (other ++ [' ']))))) := by
    refine .typed spaces_nil (List.cons_ne_nil _ _) ?_
    have fixed : ∀ c ∈ "\nconst ".toList, annotationEnd c = false :=
      forall_eq_false_of_any (by decide +kernel)
    have space : annotationEnd ' ' = false := rfl
    simp only [List.forall_mem_append, List.forall_mem_cons] at inner ⊢
    exact ⟨space, inner.1, fixed, inner.2, space, by simp⟩
  have eq : declaredBefore name type [] other = "let".toList ++ ([' '] ++ (name ++ (([] ++ ':' ::
      (' ' :: (type ++ ("\nconst ".toList ++ (other ++ [' ']))))) ++ '=' :: [' ']))) := by
    simp [declaredBefore]
  rw [eq]
  exact .mk (by decide) (List.cons_ne_nil ' ' []) (by decide) typed (by decide)

theorem suffix_behind {α : Type} {c : α} {front back start rest : List α}
    (h : front ++ c :: back = start ++ rest) (apart : c ∉ rest) : rest <:+ back := by
  rcases List.append_eq_append_iff.mp h with ⟨middle, -, eq⟩ | ⟨middle, -, eq⟩
  · cases middle with
    | nil => exact absurd (by rw [← show c :: back = rest from eq]; simp) apart
    | cons d middle =>
      obtain ⟨-, rfl⟩ := List.cons.inj eq
      exact List.suffix_append middle rest
  · exact absurd (by rw [eq]; simp) apart

/-- No name stands behind a space where a name and spaces are all there is. -/
theorem not_name_behind {stem tail front spaces rest : List Char} {c : Char}
    (all : ∀ c ∈ stem, isNamePart c = true) (trail : Spaces tail) (some : spaces ≠ [])
    (gap : Spaces spaces) (starts : isNameStart c = true) :
    stem ++ tail ≠ front ++ (spaces ++ c :: rest) := by
  intro h
  have inner : c ∉ tail := fun mem => by
    have := trail c mem
    rw [(apart_of_isNameStart starts).1] at this
    cases this
  rcases List.append_eq_append_iff.mp h with ⟨middle, -, rfl⟩ | ⟨middle, rfl, eq⟩
  · exact inner (by simp)
  · obtain ⟨d, spaces, rfl⟩ := List.exists_cons_of_ne_nil some
    cases middle with
    | nil =>
      rw [List.nil_append] at eq
      exact inner (by rw [← eq]; simp)
    | cons e middle =>
      obtain ⟨rfl, -⟩ := List.cons.inj eq
      have name := all d (by simp)
      rw [not_isNamePart_of_isSpace (gap d List.mem_cons_self)] at name
      cases name

/-- After the keyword of a constant stands its own name. -/
theorem name_behind_const {front spaces stem tail rest : List Char} {keyword : String} {c : Char}
    (word : keyword ∈ ["const", "let", "var"]) (some : spaces ≠ []) (all : Spaces spaces)
    (named : IsName stem) (trail : Spaces tail) (starts : isNameStart c = true)
    (h : "\nconst".toList ++ ' ' :: (stem ++ tail) =
      (front ++ keyword.toList) ++ (spaces ++ c :: rest)) : c :: rest = stem ++ tail := by
  have adjacent (same : spaces ++ c :: rest = ' ' :: (stem ++ tail)) :
      c :: rest = stem ++ tail := by
    obtain ⟨d, spaces, rfl⟩ := List.exists_cons_of_ne_nil some
    obtain ⟨-, same⟩ := List.cons.inj same
    cases spaces with
    | nil => exact same
    | cons e spaces =>
      obtain ⟨s, stem, rfl, starts'⟩ := named.head
      obtain ⟨rfl, -⟩ := List.cons.inj same
      have space := all e (by simp)
      rw [(apart_of_isNameStart starts').1] at space
      cases space
  rcases List.append_eq_append_iff.mp h with ⟨middle, -, eq⟩ | ⟨middle, eq, held⟩
  · cases middle with
    | nil => exact adjacent eq.symm
    | cons d middle =>
      obtain ⟨-, eq⟩ := List.cons.inj eq
      exact absurd eq (not_name_behind named.2 trail some all starts)
  · cases middle with
    | nil => exact adjacent held
    | cons d middle =>
      -- the space would stand within the word that follows the line feed
      obtain ⟨e, spaces, rfl⟩ := List.exists_cons_of_ne_nil some
      obtain ⟨rfl, -⟩ := List.cons.inj held
      have inside : e ∈ "const".toList := by
        cases whole : front ++ keyword.toList with
        | nil =>
          have long : ∀ keyword ∈ ["const", "let", "var"], keyword.toList ≠ [] := by decide
          exact absurd (List.append_eq_nil_iff.mp whole).2 (long keyword word)
        | cons f more =>
          rw [whole] at eq
          have behind := congrArg List.tail eq
          change "const".toList = more ++ e :: middle at behind
          rw [behind]
          simp
      have none : ∀ d ∈ "const".toList, isSpace d = false :=
        forall_eq_false_of_any (by decide +kernel)
      have space := all e List.mem_cons_self
      rw [none e inside] at space
      cases space

/-- A text that begins with an identifier and an annotation, and with another identifier and a space,
begins with the same one: but for a line feed that may belong to it or to the annotation. -/
theorem identifier_append_annotation {name other : String} (h : isIdentifier name = true)
    (h' : isIdentifier other = true) {typing : List Char} (typed : Annotation typing)
    (same : name.toList ++ typing = other.toList ++ [' ']) :
    other = name ∨ other.toList = name.toList ++ ['\n'] := by
  obtain ⟨stem, tail, whole, named, ends⟩ := identifier_split h
  obtain ⟨stem', tail', whole', named', ends'⟩ := identifier_split h'
  have nothing : EndsName [] := by
    rintro c ⟨⟩
  have ends_name : EndsName (tail ++ typing) := by
    have feed : Spaces tail := by rcases ends with rfl | rfl <;> decide
    have := endsName_annotation typed nothing
    rw [List.append_nil] at this
    exact endsName_spaces feed this
  have ends_other : EndsName (tail' ++ [' ']) := by
    have feed : Spaces tail' := by rcases ends' with rfl | rfl <;> decide
    have blank : Spaces [' '] := by decide
    rw [← List.append_nil (tail' ++ [' '])]
    exact endsName_spaces (List.forall_mem_append.mpr ⟨feed, blank⟩) nothing
  rw [whole, whole', List.append_assoc, List.append_assoc] at same
  obtain rfl : stem = stem' := by
    rw [← (name_append named.2 ends_name).1, same, (name_append named'.2 ends_other).1]
  have left := List.append_cancel_left same
  rcases ends with rfl | rfl <;> rcases ends' with rfl | rfl
  · exact .inl (String.toList_inj.mp (whole'.trans whole.symm))
  · exact .inr (by rw [whole', whole, List.append_nil])
  · cases left
  · exact .inl (String.toList_inj.mp (whole'.trans whole.symm))

/-- A semicolon ends the declaration before it, so that no other one's initializer is reached. -/
theorem not_declares_declaredBefore {name other : String} {type front binding : List Char}
    (h : isIdentifier name = true) (h' : isIdentifier other = true) (apart : other ≠ name)
    (unfed : other.toList ≠ name.toList ++ ['\n'])
    (split : declaredBefore name.toList type [';'] other.toList = front ++ binding) :
    ¬ Declares name.toList binding := by
  intro declares
  have semicolon : ';' ∉ binding :=
    not_mem_of_declares declares (.inl rfl) (not_mem_identifier h rfl (by decide))
  have statement : declaredBefore name.toList type [';'] other.toList =
      ("let ".toList ++ (name.toList ++ (": ".toList ++ type))) ++
        ';' :: ("\nconst ".toList ++ (other.toList ++ " = ".toList)) := by
    simp [declaredBefore]
  rw [statement] at split
  obtain ⟨start, eq⟩ := suffix_behind split semicolon
  obtain ⟨stem, tail, whole, named, -⟩ := identifier_split h
  obtain ⟨stem', tail', whole', named', ends'⟩ := identifier_split h'
  cases declares with
  | @mk keyword spaces typing gap word some all typed all' =>
    have assigned : ("\nconst".toList ++ ' ' :: (other.toList ++ [' '])) ++ '=' :: [' '] =
        ((start ++ keyword.toList) ++ (spaces ++ (name.toList ++ typing))) ++ '=' :: gap := by
      simpa using eq.symm
    have equals : '=' ∉ "\nconst".toList ++ ' ' :: (other.toList ++ [' ']) := by
      have := not_mem_identifier h' (c := '=') rfl (by decide)
      simp [this]
    obtain ⟨constant, -, -⟩ :=
      (List.append_cons_inj_of_notMem equals (by decide)).mp assigned
    obtain ⟨c, rest, begins, starts⟩ := named.head
    have follows : name.toList ++ typing = other.toList ++ [' '] := by
      have feed : Spaces tail' := by rcases ends' with rfl | rfl <;> decide
      have blank : Spaces [' '] := by decide
      have trail : Spaces (tail' ++ [' ']) := List.forall_mem_append.mpr ⟨feed, blank⟩
      rw [whole, begins, whole'] at constant
      have named_const : "\nconst".toList ++ ' ' :: (stem' ++ (tail' ++ [' '])) =
          (start ++ keyword.toList) ++ (spaces ++ c :: (rest ++ (tail ++ typing))) := by
        simpa using constant
      rw [whole, begins, whole']
      simpa using name_behind_const word some all named' trail starts named_const
    rcases identifier_append_annotation h h' typed follows with same | fed
    · exact apart same
    · exact unfed fed

/-- What is located as a declaration is the initializer that a declaration of the name leads to. But
its annotation may run over the end of the line: a constant that has a type, no initializer and no
semicolon is given the initializer of the next one. With the semicolon it has none. -/
theorem locate_declared {name : String} (h : isIdentifier name = true) :
    (∀ source literal, (locateExportConst name.toList source = some literal ∨
        locateDeclaration name.toList source = some literal) →
      ∃ front text found, source = front ++ text ∧ front.getLast?.any joinsName = false ∧
        BoundTo name.toList text found ∧ balanced? found = some literal) ∧
    ∀ (other : String) (type literal : List Char), isIdentifier other = true → other ≠ name →
      (∀ c ∈ type, annotationEnd c = false) → literal.head? = some '{' →
      balanced? literal = some literal → ¬ name.toList <:+: literal →
      locate name.toList (declaredBefore name.toList type [] other.toList ++ literal) =
          some literal ∧
        (other.toList ≠ name.toList ++ ['\n'] →
          locate name.toList (declaredBefore name.toList type [';'] other.toList ++ literal) =
            none) := by
  refine ⟨fun source literal => boundTo_of_located, ?_⟩
  intro other type literal h' apart inner brace closed absent
  have inner_other : ∀ c ∈ other.toList, annotationEnd c = false := by
    intro c mem
    apply Bool.eq_false_iff.mpr
    intro ends
    simp only [annotationEnd, Bool.or_eq_true, beq_iff_eq] at ends
    rcases ends with (rfl | rfl) | rfl <;> exact not_mem_identifier h' rfl (by decide) mem
  have apart_name : '{' ∉ name.toList := not_mem_identifier h rfl (by decide)
  have plain (stop : List Char) (stops : '{' ∉ stop) :
      '{' ∉ declaredBefore name.toList type stop other.toList := by
    have apart_type : '{' ∉ type := fun mem => by cases inner '{' mem
    have apart_other : '{' ∉ other.toList := not_mem_identifier h' rfl (by decide)
    simp [declaredBefore, apart_name, apart_type, apart_other, stops]
  constructor
  · refine (locate_first_brace (plain [] (by decide)) apart_name brace closed absent).2.mpr
      ⟨[], _, rfl, rfl, ?_⟩
    exact declares_declaredBefore (List.forall_mem_append.mpr ⟨inner, inner_other⟩)
  · intro unfed
    obtain ⟨found | none, declared⟩ :=
      locate_first_brace (plain [';'] (by decide)) apart_name brace closed absent
    · obtain ⟨front, binding, split, -, declares⟩ := declared.mp found
      exact absurd declares (not_declares_declaredBefore h h' apart unfed split)
    · exact none

theorem locate_declared_theme :
    isIdentifier "N" = true ∧ isIdentifier "M" = true ∧ balanced? "\x7b a: 1 \x7d".toList =
        some "\x7b a: 1 \x7d".toList ∧
      locate "N".toList (declaredBefore "N".toList "T".toList [] "M".toList ++
        "\x7b a: 1 \x7d".toList) = some "\x7b a: 1 \x7d".toList ∧
      locate "N".toList (declaredBefore "N".toList "T".toList [';'] "M".toList ++
        "\x7b a: 1 \x7d".toList) = none := by
  have name : isIdentifier "N" = true := by decide
  have other : isIdentifier "M" = true := by decide
  have closed : balanced? "\x7b a: 1 \x7d".toList = some "\x7b a: 1 \x7d".toList := by
    decide +kernel
  obtain ⟨reached, ended⟩ := (locate_declared name).2 "M" "T".toList "\x7b a: 1 \x7d".toList other
    (by decide) (forall_eq_false_of_any (by decide +kernel)) rfl closed (by decide +kernel)
  exact ⟨name, other, closed, reached, ended (by decide)⟩

/-- Not every literal that is located is bound to the name. -/
theorem locate_other_initializer :
    ¬ ∀ (name other : String) (type literal : List Char), isIdentifier name = true →
      isIdentifier other = true → other ≠ name →
      (∀ c ∈ type, annotationEnd c = false) → ¬ name.toList <:+: type →
      balanced? literal = some literal → ¬ name.toList <:+: literal →
      locate name.toList (("let " ++ name ++ ": ").toList ++ (type ++
        (("\nconst " ++ other ++ " = ").toList ++ literal))) = none := by
  intro claim
  have none := claim "N" "M" "T".toList "\x7b a: 1 \x7d".toList (by decide) (by decide) (by decide)
    (forall_eq_false_of_any (by decide +kernel)) (by decide +kernel) (by decide +kernel)
    (by decide +kernel)
  have found : locate "N".toList (("let " ++ "N" ++ ": ").toList ++ ("T".toList ++
      (("\nconst " ++ "M" ++ " = ").toList ++ "\x7b a: 1 \x7d".toList))) =
      some "\x7b a: 1 \x7d".toList := by decide +kernel
  rw [found] at none
  cases none

end ThemeSheet.Literal
