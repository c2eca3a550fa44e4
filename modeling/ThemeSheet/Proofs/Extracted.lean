import ThemeSheet.Extraction
import ThemeSheet.Identifier
import ThemeSheet.Proofs.ReadBack

namespace ThemeSheet

open Text

namespace Literal

theorem mem_spaceTails {text tail : List Char} : tail ∈ spaceTails text ↔
    ∃ spaces, spaces ≠ [] ∧ Spaces spaces ∧ text = spaces ++ tail := by
  induction text with
  | nil =>
    constructor
    · intro mem
      cases mem
    · rintro ⟨spaces, some, -, eq⟩
      exact absurd (List.append_eq_nil_iff.mp eq.symm).1 some
  | cons c rest ih =>
    by_cases space : isSpace c = true
    · rw [spaceTails, if_pos space, List.mem_append, List.mem_singleton, ih]
      constructor
      · rintro (⟨spaces, some, all, rfl⟩ | rfl)
        · exact ⟨c :: spaces, by simp, List.forall_mem_cons.mpr ⟨space, all⟩, rfl⟩
        · exact ⟨[c], by simp, by simpa [Spaces] using space, rfl⟩
      · rintro ⟨spaces, some, all, eq⟩
        obtain ⟨d, spaces, rfl⟩ := List.exists_cons_of_ne_nil some
        obtain ⟨rfl, rfl⟩ := List.cons.inj eq
        by_cases none : spaces = []
        · exact .inr (by rw [none]; rfl)
        · exact .inl ⟨spaces, none, fun d hd => all d (List.mem_cons_of_mem c hd), rfl⟩
    · rw [spaceTails, if_neg space]
      constructor
      · intro mem
        cases mem
      · rintro ⟨spaces, some, all, eq⟩
        obtain ⟨d, spaces, rfl⟩ := List.exists_cons_of_ne_nil some
        obtain ⟨rfl, -⟩ := List.cons.inj eq
        exact absurd (all c List.mem_cons_self) space

theorem mem_afterWord {word : String} {text tail : List Char} : tail ∈ afterWord word text ↔
    ∃ spaces, spaces ≠ [] ∧ Spaces spaces ∧ text = word.toList ++ (spaces ++ tail) := by
  unfold afterWord
  cases found : word.toList.isPrefixOf? text with
  | none =>
    constructor
    · intro mem
      cases mem
    · rintro ⟨spaces, -, -, rfl⟩
      rw [Token.isPrefixOf?_self] at found
      cases found
  | some rest =>
    obtain rfl := isPrefixOf?_append found
    change tail ∈ spaceTails rest ↔ _
    rw [mem_spaceTails]
    constructor
    · rintro ⟨spaces, some, all, rfl⟩
      exact ⟨spaces, some, all, rfl⟩
    · rintro ⟨spaces, some, all, eq⟩
      exact ⟨spaces, some, all, List.append_cancel_left eq⟩

/-- A text in which a constant may be exported. Without the word `export` it is none. -/
def ExportsConst (text : List Char) : Prop :=
  ∃ front spaces rest, spaces ≠ [] ∧ Spaces spaces ∧
    text = front ++ ("export".toList ++ (spaces ++ ("const".toList ++ rest)))

theorem not_exportsConst {text : List Char} (h : ¬ "export".toList <:+: text) :
    ¬ ExportsConst text := by
  rintro ⟨front, spaces, rest, -, -, rfl⟩
  exact h ⟨front, spaces ++ ("const".toList ++ rest), by rw [List.append_assoc]⟩

theorem exportsConst_of_exportConst? {name text : List Char} {before : Option Char}
    (h : exportConst? name before text ≠ none) : ∃ spaces rest, spaces ≠ [] ∧ Spaces spaces ∧
      text = "export".toList ++ (spaces ++ ("const".toList ++ rest)) := by
  obtain ⟨found, eq⟩ := Option.ne_none_iff_exists'.mp h
  obtain ⟨tail, mem, eq⟩ := List.exists_of_findSome?_eq_some eq
  obtain ⟨last, mem', -⟩ := List.exists_of_findSome?_eq_some eq
  obtain ⟨spaces, some, all, rfl⟩ := mem_afterWord.mp mem
  obtain ⟨spaces', -, -, rfl⟩ := mem_afterWord.mp mem'
  exact ⟨spaces, _, some, all, rfl⟩

/-- A constant that is exported where a text ends and another begins with `e` is exported in the
first: there is no second `e` up to the end of `const`. -/
theorem exportsConst_of_append {text more spaces rest : List Char} (some : text ≠ [])
    (some' : spaces ≠ []) (all : Spaces spaces)
    (h : text ++ 'e' :: more = "export".toList ++ (spaces ++ ("const".toList ++ rest))) :
    ExportsConst text := by
  have joined : text ++ 'e' :: more = ("export".toList ++ (spaces ++ "const".toList)) ++ rest := by
    rw [h, List.append_assoc, List.append_assoc]
  rcases List.append_eq_append_iff.mp joined with ⟨left, whole, eq⟩ | ⟨left, eq, -⟩
  · cases left with
    | nil =>
      refine ⟨[], spaces, [], some', all, ?_⟩
      rw [List.append_nil] at whole
      rw [← whole, List.append_nil, List.nil_append]
    | cons c left =>
      obtain ⟨rfl, -⟩ := List.cons.inj eq
      obtain ⟨first, text, rfl⟩ := List.exists_cons_of_ne_nil some
      have mem : 'e' ∈ "xport".toList ++ (spaces ++ "const".toList) := by
        have behind := congrArg List.tail whole
        change "xport".toList ++ (spaces ++ "const".toList) = text ++ 'e' :: left at behind
        rw [behind]
        simp
      rcases List.mem_append.mp mem with mem | mem
      · exact absurd mem (by decide)
      · rcases List.mem_append.mp mem with mem | mem
        · exact absurd (all _ mem) (by decide)
        · exact absurd mem (by decide)
  · refine ⟨[], spaces, left, some', all, ?_⟩
    rw [eq, List.append_assoc, List.append_assoc]
    rfl

theorem search_skip {α : Type} {found : Option Char → List Char → Option α}
    {start text : List Char}
    (h : ∀ front back, start = front ++ back → back ≠ [] → ∀ before, found before (back ++ text) = none)
    (before : Option Char) :
    ∃ last, search found before (start ++ text) = search found last text := by
  induction start generalizing before with
  | nil => exact ⟨before, rfl⟩
  | cons c start ih =>
    obtain ⟨last, eq⟩ := ih
      (fun front back eq some => h (c :: front) back (by rw [eq]; rfl) some) (some c)
    refine ⟨last, ?_⟩
    have none := h [] (c :: start) rfl (by simp) before
    rw [List.cons_append, search]
    rw [List.cons_append] at none
    rw [none, Option.none_or, eq]

theorem search_here {α : Type} {found : Option Char → List Char → Option α} {before : Option Char}
    {text : List Char} {answer : α} (some : text ≠ []) (h : found before text = .some answer) :
    search found before text = .some answer := by
  cases text with
  | nil => exact absurd rfl some
  | cons c rest => rw [search, h, Option.some_or]

/-- An exported constant that is bound to a literal, with what follows. -/
def bindingText (name : String) (written : WrittenLiteral) (after : List Char) : List Char :=
  "export const ".toList ++ (name.toList ++ (" = ".toList ++ (written.text ++ after)))

theorem spaceTails_one {text : List Char} (h : text.head?.any isSpace = false) :
    spaceTails (' ' :: text) = [text] := by
  have none : spaceTails text = [] := by
    cases text with
    | nil => rfl
    | cons c rest => exact if_neg (Bool.eq_false_iff.mp h)
  rw [spaceTails, if_pos (by decide), none, List.nil_append]

/-- No identifier begins with a space. -/
theorem head_identifier {name : String} (h : isIdentifier name = true) (rest : List Char) :
    (name.toList ++ rest).head?.any isSpace = false := by
  unfold isIdentifier at h
  split at h
  · cases h
  · rename_i c tail eq
    rw [eq]
    exact (apart_of_isNameStart (Bool.and_eq_true_iff.mp h).1).1

theorem binding?_written (name : List Char) (written : WrittenLiteral) (after : List Char) :
    binding? name (name ++ (" = ".toList ++ (written.text ++ after))) =
      some (written.text ++ after) := by
  have named : afterName? name (name ++ (" = ".toList ++ (written.text ++ after))) =
      some (" = ".toList ++ (written.text ++ after)) := by
    rw [afterName?, Token.isPrefixOf?_self]
    rfl
  rw [binding?, named]
  rfl

theorem exportConst?_bindingText {name : String} (h : isIdentifier name = true)
    (written : WrittenLiteral) (after : List Char) (before : Option Char) :
    exportConst? name.toList before (bindingText name written after) =
      some (written.text ++ after) := by
  have first := spaceTails_one (head_identifier h (" = ".toList ++ (written.text ++ after)))
  have exported : afterWord "export" (bindingText name written after) =
      ["const ".toList ++ (name.toList ++ (" = ".toList ++ (written.text ++ after)))] :=
    spaceTails_one rfl
  have constant : afterWord "const"
      ("const ".toList ++ (name.toList ++ (" = ".toList ++ (written.text ++ after)))) =
      [name.toList ++ (" = ".toList ++ (written.text ++ after))] := first
  rw [exportConst?, exported, List.findSome?_singleton, constant, List.findSome?_singleton,
    binding?_written]

/-- Behind a text in which no constant is exported, the first one is found. -/
theorem locate_exportConst {name before text literal more : List Char}
    (first : ¬ ExportsConst before) (begins : text = 'e' :: more)
    (here : ∀ c, (exportConst? name c text).bind balanced? = some literal) :
    locate name (before ++ text) = some literal := by
  let literalAt (c : Option Char) (text : List Char) : Option (List Char) :=
    (exportConst? name c text).bind balanced?
  have skips : ∀ front back, before = front ++ back → back ≠ [] → ∀ c,
      literalAt c (back ++ text) = none := by
    rintro front back rfl some c
    by_contra found
    have bound : exportConst? name c (back ++ text) ≠ none := by
      intro none
      exact found (by simp only [literalAt, none, Option.bind_none])
    obtain ⟨spaces, rest, some', all, eq⟩ := exportsConst_of_exportConst? bound
    rw [begins] at eq
    obtain ⟨front', spaces, rest, some', all, rfl⟩ := exportsConst_of_append some some' all eq
    exact first ⟨front ++ front', spaces, rest, some', all, by rw [List.append_assoc]⟩
  have found : locateExportConst name (before ++ text) = some literal := by
    obtain ⟨last, eq⟩ := search_skip skips none
    exact eq.trans (search_here (begins ▸ List.cons_ne_nil 'e' more) (here last))
  rw [locate, bindings, List.findSome?_cons, found]

/-- The first constant of that name that is exported is found, and its literal is taken whole. -/
theorem locate_bindingText {name : String} (h : isIdentifier name = true) {before : List Char}
    (first : ¬ ExportsConst before) (written : WrittenLiteral) (after : List Char) :
    locate name.toList (before ++ bindingText name written after) = some written.text := by
  refine locate_exportConst first rfl fun c => ?_
  rw [exportConst?_bindingText h, Option.bind_some, balanced?_text]

end Literal

namespace Extraction

open Literal

/-- A literal of texts and keywords is extracted as it is written, whatever its quotes, gaps and
comments: each key once where it first stands, with its last value, and no warning. -/
theorem extract_written {name : String} (h : isIdentifier name = true) {before : List Char}
    (first : ¬ ExportsConst before) {written : WrittenLiteral}
    (plain : ¬ ['$', '{'] <:+: written.text) (after : List Char) (path : Option String) :
    ∃ records entries,
      extract (String.ofList (before ++ bindingText name written after)) name path =
        (records, .ok entries) ∧
      (∀ record ∈ records, record.level = .debug) ∧
      entries.map Prod.fst = firstKeys written.entries ∧
      ∀ key, entries.lookup key = lastValue? written.entries key := by
  have found : locate name.toList (String.ofList (before ++ bindingText name written after)).toList =
      some written.text := by
    rw [String.toList_ofList]
    exact locate_bindingText h first written after
  have result : (extract (String.ofList (before ++ bindingText name written after)) name path) =
      ([⟨.debug, logger, s!"Normalized {name}: {String.ofList (normalize written.text)}"⟩],
        .ok (merge written.entries)) := by
    simp only [extract, found, evaluate_normalize plain]
    rfl
  refine ⟨_, _, result, ?_, keys_merge written.entries, lookup_merge written.entries⟩
  intro record mem
  rw [List.mem_singleton.mp mem]

/-- A literal with a key that is written twice, once bare, and with braces, quotes and commas in its
texts and comments. -/
def themeLiteral : WrittenLiteral :=
  .filled
    ⟨[.block " \x7b ".toList (by decide)],
      .bare "primary".toList ⟨rfl, List.all_eq_true.mp (by decide)⟩ [] rfl,
      [.blank ' ' rfl], .text '\'' rfl "it's, \x7d".toList, []⟩
    [⟨[.line " 'dark': 1,".toList (by decide)],
      .quoted '\'' isKeyQuote_single "dark mode".toList (.inr ⟨'d', by decide, by decide⟩)
        [.block " : ".toList (by decide)],
      [], .text backtick rfl "\"a\\\n".toList, [.lineFeed]⟩,
     ⟨[], .quoted '"' isKeyQuote_double "primary".toList (.inr ⟨'p', by decide, by decide⟩) [],
      [], .word .null rfl, []⟩]
    (some [.blank ' ' rfl, .line " end".toList (by decide)])

def themeSource : String :=
  String.ofList ("// theme\n".toList ++ bindingText "THEME" themeLiteral ";\n".toList)

theorem extract_themeSource :
    isIdentifier "THEME" = true ∧ ¬ ExportsConst "// theme\n".toList ∧
      ¬ ['$', '{'] <:+: themeLiteral.text ∧
      ∃ records entries, extract themeSource "THEME" none = (records, .ok entries) ∧
        (∀ record ∈ records, record.level = .debug) ∧
        entries.map Prod.fst = ["primary", "dark mode"] ∧
        entries.lookup "primary" = some "null" ∧ entries.lookup "dark mode" = some "\"a\\\n" := by
  have name : isIdentifier "THEME" = true := by decide
  have first : ¬ ExportsConst "// theme\n".toList := not_exportsConst (by decide +kernel)
  have plain : ¬ ['$', '{'] <:+: themeLiteral.text := by decide +kernel
  have written : themeLiteral.entries =
      [("primary", "it's, \x7d"), ("dark mode", "\"a\\\n"), ("primary", "null")] := rfl
  obtain ⟨records, entries, result, level, keys, values⟩ :=
    extract_written name first plain ";\n".toList none
  rw [written] at keys values
  exact ⟨name, first, plain, records, entries, result, level, keys.trans (by decide),
    (values "primary").trans (by decide), (values "dark mode").trans (by decide)⟩

end Extraction
end ThemeSheet
