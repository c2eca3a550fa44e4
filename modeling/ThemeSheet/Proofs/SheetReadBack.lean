import ThemeSheet.Extraction
import ThemeSheet.Proofs.LowerCase
import ThemeSheet.Proofs.SheetReading
import ThemeSheet.Stylesheet

namespace ThemeSheet

open Literal (Mapping isBlank)
open PropertyName (hyphenate kebab kebabCase ofKey)
open Text

/-! What is read of the stylesheet of a mapping. Values and names are written into it as they are,
so that it says what it should exactly if each of them is contained. -/

namespace Css

open Place

theorem after_of_outside {place : Place} (h : place.outside = true) {c : Char}
    (hc : c = ':' ∨ c = ' ') : place.after c = start := by
  obtain ⟨mode, brackets⟩ := place
  simp only [outside, Bool.and_eq_true, Bool.or_eq_true, beq_iff_eq, List.isEmpty_iff] at h
  obtain ⟨rfl | rfl, rfl⟩ := h <;> obtain rfl | rfl := hc <;> rfl

/-- A text that leads nowhere can be left off at the front. -/
theorem contained_append_iff {marks front : List Char} (leads : start.through front = start)
    (free : start.meets marks front = false) (text : List Char) :
    Contained marks (front ++ text) ↔ Contained marks text := by
  rw [contained_iff, contained_iff, meets_append, through_append, free, leads, Bool.false_or]

theorem contained_declaration_iff {marks name : List Char}
    (named : (start.through name).outside = true) (colon : ':' ∉ marks) (blank : ' ' ∉ marks)
    (value : List Char) :
    Contained marks (name ++ ':' :: ' ' :: value) ↔
      start.meets marks name = false ∧ Contained marks value := by
  have leads : (start.through name).through (':' :: ' ' :: value) = start.through value :=
    congrArg (fun place : Place => (place.after ' ').through value)
      (after_of_outside named (.inl rfl))
  have free : (start.through name).meets marks (':' :: ' ' :: value) = start.meets marks value := by
    have next : start.after ' ' = start := rfl
    simp [meets, colon, blank, after_of_outside named (.inl rfl), next]
  rw [contained_iff, contained_iff, meets_append, through_append, leads, free,
    Bool.or_eq_false_iff, and_assoc]

/-- A name and a value that can be written into the rules of a property. -/
structure Embeds (name value : List Char) : Prop where
  name : Contained [':', ';', '{', '}'] name
  value : Contained [';', '}'] value

instance (name value : List Char) : Decidable (Embeds name value) :=
  decidable_of_iff (Contained [':', ';', '{', '}'] name ∧ Contained [';', '}'] value)
    ⟨fun ⟨name, value⟩ => ⟨name, value⟩, fun h => ⟨h.name, h.value⟩⟩

/-- What the places of a name and of a value ask of them together. -/
theorem embeds_iff {name value : List Char} :
    (Contained ['{', ';'] ("@property ".toList ++ name ++ [' ']) ∧
      Contained [';', '}'] ("initial-value: ".toList ++ value)) ∧
      Contained [':'] name ∧ Contained [';', '}'] (name ++ ':' :: ' ' :: value) ↔
    Embeds name value := by
  have property : start.through "@property ".toList = start := by decide
  have initial : start.through "initial-value: ".toList = start := by decide
  constructor
  · rintro ⟨⟨prelude, -⟩, named, whole⟩
    rw [List.append_assoc, contained_append_iff property (by decide)] at prelude
    rw [contained_declaration_iff named.complete (by decide) (by decide)] at whole
    have braces := prelude.unbroken
    rw [meets_append, Bool.or_eq_false_iff] at braces
    refine ⟨⟨meets_eq_false_iff.mpr ?_, named.complete⟩, whole.2⟩
    have semicolons := meets_eq_false_iff.mp whole.1
    intro mark mem
    simp only [List.mem_cons, List.not_mem_nil, or_false] at mem
    rcases mem with rfl | rfl | rfl | rfl
    · exact named.unbroken
    · exact semicolons ';' (by simp)
    · exact meets_eq_false_iff.mp braces.1 '{' (by simp)
    · exact semicolons '}' (by simp)
  · rintro ⟨⟨unbroken, complete⟩, value⟩
    have fewer {marks : List Char} (among : ∀ mark ∈ marks, mark ∈ [':', ';', '{', '}']) :
        start.meets marks name = false :=
      meets_eq_false_iff.mpr fun mark mem => meets_eq_false_iff.mp unbroken mark (among mark mem)
    have blank : (start.through name).through [' '] = start :=
      after_of_outside complete (.inr rfl)
    have free : (start.through name).meets ['{', ';'] [' '] = false := by simp [meets]
    refine ⟨⟨?_, ?_⟩, ⟨fewer (by simp), complete⟩, ?_⟩
    · rw [List.append_assoc, contained_append_iff property (by decide), contained_iff,
        meets_append, through_append, fewer (by simp), blank, free]
      exact ⟨rfl, rfl⟩
    · rwa [contained_append_iff initial (by decide)]
    · rw [contained_declaration_iff complete (by decide) (by decide)]
      exact ⟨fewer (by simp), value⟩

end Css

open Css

/-- The rule that registers a property. -/
def Property.rule (p : Property) : Rule :=
  ⟨("@property " ++ p.name ++ " ").toList,
    [⟨"syntax".toList, (" '" ++ p.type ++ "'").toList⟩,
      ⟨"inherits".toList, " false".toList⟩,
      ⟨"initial-value".toList, (" " ++ p.value).toList⟩]⟩

/-- The rule that gives each property its value. -/
def rootRule (properties : List Property) : Rule :=
  ⟨":root ".toList, properties.map fun p => ⟨p.name.toList, (" " ++ p.value).toList⟩⟩

/-! The text of a stylesheet as the texts of its rules. -/

theorem toList_block (p : Property) : p.block.toList = p.rule.text := by
  simp [Property.block, Property.indent, Property.rule, Rule.text, blockText, Declaration.text]

theorem intercalate_cons (separator first : List Char) (items : List (List Char)) :
    separator.intercalate (first :: items) = first ++ items.flatMap (separator ++ ·) := by
  induction items generalizing first with
  | nil => simp
  | cons item items ih => simp [List.intercalate_cons_cons, ih]

theorem toList_rootBlock (ps : List Property) :
    (Stylesheet.rootBlock ps).toList = (rootRule ps).text := by
  have line (p : Property) : "\n".toList ++ (Property.indent ++ p.declaration).toList =
      "\n  ".toList ++ (Declaration.text ⟨p.name.toList, (" " ++ p.value).toList⟩ ++ [';']) := by
    simp [Property.indent, Property.declaration, Declaration.text]
  have prelude : (rootRule ps).prelude = ":root ".toList := rfl
  have declarations : (rootRule ps).declarations =
      ps.map fun p => ⟨p.name.toList, (" " ++ p.value).toList⟩ := rfl
  rw [Stylesheet.rootBlock, String.toList_intercalate, List.cons_append, List.map_cons,
    intercalate_cons, List.map_append, List.flatMap_append, List.flatMap_map, List.flatMap_map,
    Rule.text, prelude, declarations, blockText]
  simp only [line]
  simp [List.flatMap_map]

theorem toList_ofProperties (ps : List Property) : (Stylesheet.ofProperties ps).toList =
    Stylesheet.banner.toList ++
      (((ps.map Property.rule ++ [rootRule ps]).flatMap fun rule => "\n\n".toList ++ rule.text) ++
        ['\n']) := by
  rw [Stylesheet.ofProperties, String.toList_append, String.toList_intercalate, List.cons_append,
    List.map_cons, intercalate_cons]
  simp [List.flatMap_map, toList_block, toList_rootBlock]

/-! What is read of it. -/

theorem rules_banner (text : List Char) : rules (Stylesheet.banner.toList ++ text) = rules text :=
  rules_gap (by simp [Stylesheet.banner, skipGap])

/-- The fixed parts of a registration are read as they are. -/
theorem reads_registered_type (type : ValueType) :
    Declaration.Reads ⟨"syntax".toList, (" '" ++ type.text ++ "'").toList⟩ := by
  cases type <;> exact ⟨by decide, by decide⟩

theorem reads_inherits : Declaration.Reads ⟨"inherits".toList, " false".toList⟩ :=
  ⟨by decide, by decide⟩

namespace Property

variable {p : Property}

theorem proper_rule (p : Property) : p.rule.Proper := by
  refine ⟨by simp [rule, isLead, isBlank], ?_⟩
  simp only [rule, List.mem_cons, List.not_mem_nil, or_false, forall_eq_or_imp, forall_eq]
  exact ⟨⟨rfl, by simp⟩, ⟨rfl, by simp⟩, ⟨rfl, by simp⟩⟩

theorem reads_rule_iff (typed : ∃ type : ValueType, p.type = type.text) :
    p.rule.Reads ↔ Contained ['{', ';'] ("@property ".toList ++ p.name.toList ++ [' ']) ∧
      Contained [';', '}'] ("initial-value: ".toList ++ p.value.toList) := by
  obtain ⟨type, typed⟩ := typed
  have prelude : p.rule.prelude = "@property ".toList ++ p.name.toList ++ [' '] := by
    simp [rule]
  have marks : preludeMarks p.rule.prelude = ['{', ';'] := by
    rw [prelude]
    rfl
  have value : Declaration.text ⟨"initial-value".toList, (" " ++ p.value).toList⟩ =
      "initial-value: ".toList ++ p.value.toList := by
    simp [Declaration.text]
  constructor
  · rintro ⟨begins, reads⟩
    rw [marks, prelude] at begins
    have last := (reads ⟨"initial-value".toList, (" " ++ p.value).toList⟩ (by simp [rule])).whole
    exact ⟨begins, value ▸ last⟩
  · rintro ⟨begins, last⟩
    refine ⟨by rwa [marks, prelude], ?_⟩
    simp only [rule, typed, List.mem_cons, List.not_mem_nil, or_false, forall_eq_or_imp, forall_eq]
    have name : Contained [':'] "initial-value".toList := by decide
    exact ⟨reads_registered_type type, reads_inherits, name, value ▸ last⟩

end Property

theorem proper_rootRule {ps : List Property} (named : ∀ p ∈ ps, isLead p.name.toList = true) :
    (rootRule ps).Proper := by
  refine ⟨rfl, fun d mem => ?_⟩
  obtain ⟨p, of, rfl⟩ := List.mem_map.mp mem
  exact ⟨named p of, by simp⟩

theorem reads_rootRule_iff {ps : List Property} :
    (rootRule ps).Reads ↔ ∀ p ∈ ps, Contained [':'] p.name.toList ∧
      Contained [';', '}'] (p.name.toList ++ ':' :: ' ' :: p.value.toList) := by
  have text (p : Property) : Declaration.text ⟨p.name.toList, (" " ++ p.value).toList⟩ =
      p.name.toList ++ ':' :: ' ' :: p.value.toList := by
    simp [Declaration.text]
  constructor
  · rintro ⟨-, reads⟩ p mem
    obtain ⟨name, whole⟩ := reads _ (List.mem_map_of_mem mem)
    exact ⟨name, text p ▸ whole⟩
  · intro reads
    have prelude : Contained (preludeMarks ":root ".toList) ":root ".toList := by decide
    refine ⟨prelude, fun d mem => ?_⟩
    obtain ⟨p, of, rfl⟩ := List.mem_map.mp mem
    exact ⟨(reads p of).1, text p ▸ (reads p of).2⟩

/-- A stylesheet says what it should exactly if each name and each value can be embedded. -/
theorem rules_ofProperties_iff {ps : List Property}
    (named : ∀ p ∈ ps, isLead p.name.toList = true)
    (typed : ∀ p ∈ ps, ∃ type : ValueType, p.type = type.text) :
    rules (Stylesheet.ofProperties ps).toList = ps.map Property.rule ++ [rootRule ps] ↔
      ∀ p ∈ ps, Embeds p.name.toList p.value.toList := by
  have proper : ∀ rule ∈ ps.map Property.rule ++ [rootRule ps], rule.Proper := by
    intro rule mem
    rcases List.mem_append.mp mem with mem | mem
    · obtain ⟨p, -, rfl⟩ := List.mem_map.mp mem
      exact p.proper_rule
    · rw [List.mem_singleton.mp mem]
      exact proper_rootRule named
  rw [toList_ofProperties, rules_banner, rules_iff proper]
  simp only [List.mem_append, List.mem_map, List.mem_singleton, or_imp, forall_and, forall_eq,
    forall_exists_index, and_imp, forall_apply_eq_imp_iff₂]
  rw [reads_rootRule_iff]
  constructor
  · rintro ⟨registered, root⟩ p mem
    exact embeds_iff.mp ⟨(p.reads_rule_iff (typed p mem)).mp (registered p mem), root p mem⟩
  · intro embeds
    exact ⟨fun p mem => (p.reads_rule_iff (typed p mem)).mpr (embeds_iff.mpr (embeds p mem)).1,
      fun p mem => (embeds_iff.mpr (embeds p mem)).2⟩

/-! A key can be embedded exactly if its property name can. -/

theorem isPlain_of_isLetter {c : Char} (h : isLetter c = true) : isPlain c = true := by
  by_cases small : c.toNat < 128
  · have := of_ascii (fun c => !isLetter c || isPlain c) small (by decide)
    simpa [h] using this
  · have apart (d : Char) (hd : d.toNat < 128) : c ≠ d := by
      rintro rfl
      exact small hd
    simp [isPlain, isNewline, apart]

theorem isPlain_of_isAlphanum {c : Char} (h : c.isAlphanum = true) : isPlain c = true := by
  by_cases small : c.toNat < 128
  · have := of_ascii (fun c => !c.isAlphanum || isPlain c) small (by decide)
    simpa [h] using this
  · exact isPlain_of_isLetter (by simp [isLetter]; omega)

theorem respelled_hyphenate (before : Option Char) (key : List Char) :
    Respelled key (hyphenate before key) := by
  induction key generalizing before with
  | nil => exact .nil
  | cons c key ih =>
    rw [hyphenate]
    split
    · next here =>
      simp only [Bool.and_eq_true] at here
      have plain := isPlain_of_isLetter (isLetter_of_isUpper here.1)
      have word : ∀ d ∈ ['-', c], isPlain d = true := by
        simpa [plain] using (by decide : isPlain '-' = true)
      exact .plain plain (by simp) word (ih (some c))
    · exact .same c (ih (some c))

theorem respelled_lowerAfter (before text : List Char) :
    Respelled text (lowerAfter before text) := by
  induction text generalizing before with
  | nil => exact .nil
  | cons c text ih =>
    cases letter : isLetter c with
    | false =>
      rw [lowerAfter_cons_of_not_isLetter letter]
      exact .same c (ih _)
    | true =>
      obtain ⟨lowered, some, letters, eq⟩ := lowerAfter_cons_of_isLetter before text letter
      rw [eq]
      exact .plain (isPlain_of_isLetter letter) some
        (fun d mem => isPlain_of_isLetter (letters d mem)) (ih _)

theorem contained_kebab_iff {marks : List Char} (special : ∀ mark ∈ marks, isPlain mark = false)
    (key : List Char) : Contained marks (kebab key) ↔ Contained marks key := by
  rw [kebab, lower, ← (respelled_lowerAfter [] _).contained_iff special,
    ← (respelled_hyphenate none key).contained_iff special]

theorem toList_ofKey {space : String} (plain : ∀ c ∈ space.toList, isPlain c = true)
    (key : String) : ∃ front, front ≠ [] ∧ (∀ c ∈ front, isPlain c = true) ∧
      (ofKey key space).toList = front ++ kebab key.toList := by
  have hyphen : isPlain '-' = true := by decide
  unfold ofKey kebabCase
  split
  · exact ⟨['-', '-'], by simp, by simp [hyphen], by simp⟩
  · refine ⟨'-' :: '-' :: space.toList ++ ['-'], by simp, fun c mem => ?_, by simp⟩
    simp only [List.cons_append, List.mem_cons, List.mem_append, List.not_mem_nil, or_false] at mem
    rcases mem with rfl | rfl | mem | rfl
    · exact hyphen
    · exact hyphen
    · exact plain c mem
    · exact hyphen

theorem embeds_ofKey_iff {space : String} (plain : ∀ c ∈ space.toList, isPlain c = true)
    (key : String) (value : List Char) :
    Embeds (ofKey key space).toList value ↔ Embeds key.toList value := by
  obtain ⟨front, some, passed, eq⟩ := toList_ofKey plain key
  have special : ∀ mark ∈ [':', ';', '{', '}'], isPlain mark = false := by simp [isPlain]
  have leads : Place.start.through front = Place.start :=
    through_of_isPlain Place.start some passed
  have free := meets_of_isPlain special passed Place.start
  have name : Contained [':', ';', '{', '}'] (ofKey key space).toList ↔
      Contained [':', ';', '{', '}'] key.toList := by
    rw [eq, contained_append_iff leads free, contained_kebab_iff special]
  exact ⟨fun h => ⟨name.mp h.name, h.value⟩, fun h => ⟨name.mpr h.name, h.value⟩⟩

theorem isLead_ofKey (key space : String) : isLead (ofKey key space).toList = true := by
  unfold ofKey
  split <;> simp [isLead, isBlank]

namespace Stylesheet

/-- The property of a key, with the type that its value looks like. -/
def guessed (space : String) (entry : String × String) : Property :=
  ⟨ofKey entry.1 space, entry.2, (ValueType.guess entry.2).text⟩

theorem properties_guessClassifier (space : String) (mapping : Mapping) :
    properties space guessClassifier mapping = .ok (mapping.map (guessed space)) := by
  have classified (key value : String) : guessClassifier.classify key value =
      .ok (ValueType.guess value).text := by
    simp only [Classifier.classify, guessClassifier]
    cases ValueType.guess value <;> rfl
  induction mapping with
  | nil => rfl
  | cons entry rest ih =>
    obtain ⟨key, value⟩ := entry
    simp only [properties, classified, ih]
    rfl

theorem rules_guessed_iff (space : String) (mapping : Mapping) :
    rules (ofProperties (mapping.map (guessed space))).toList =
        (mapping.map (guessed space)).map Property.rule ++
          [rootRule (mapping.map (guessed space))] ↔
      ∀ entry ∈ mapping, Embeds (ofKey entry.1 space).toList entry.2.toList := by
  have named : ∀ p ∈ mapping.map (guessed space), isLead p.name.toList = true :=
    List.forall_mem_map.mpr fun entry _ => isLead_ofKey entry.1 space
  have typed : ∀ p ∈ mapping.map (guessed space), ∃ type : ValueType, p.type = type.text :=
    List.forall_mem_map.mpr fun entry _ => ⟨ValueType.guess entry.2, rfl⟩
  rw [rules_ofProperties_iff named typed]
  exact List.forall_mem_map

/-- For the properties of every mapping a stylesheet is written. What is read of it is a
registration for each entry, in order, and one rule for the root that declares each of them, with
their names and values as they are, exactly if each key and each value can be embedded. -/
theorem rules_render_iff {space : String}
    (plain : ∀ c ∈ space.toList, c.isAlphanum = true ∨ c = '-') (mapping : Mapping) :
    ∃ sheet, render mapping space guessClassifier = .ok sheet ∧
      (rules sheet.toList = (mapping.map (guessed space)).map Property.rule ++
          [rootRule (mapping.map (guessed space))] ↔
        ∀ entry ∈ mapping, Embeds entry.1.toList entry.2.toList) := by
  have passed : ∀ c ∈ space.toList, isPlain c = true := by
    intro c mem
    rcases plain c mem with word | rfl
    · exact isPlain_of_isAlphanum word
    · decide
  refine ⟨_, by rw [render, properties_guessClassifier]; rfl, ?_⟩
  rw [rules_guessed_iff]
  simp only [embeds_ofKey_iff passed]

theorem rules_render_quoted_semicolon :
    ∃ sheet, render [("labelText", "'a;b'"), ("gap", "4px")] "app" guessClassifier = .ok sheet ∧
      rules sheet.toList =
        [Property.rule ⟨"--app-label-text", "'a;b'", "*"⟩,
          Property.rule ⟨"--app-gap", "4px", "<length>"⟩,
          rootRule [⟨"--app-label-text", "'a;b'", "*"⟩, ⟨"--app-gap", "4px", "<length>"⟩]] := by
  have properties : [("labelText", "'a;b'"), ("gap", "4px")].map (guessed "app") =
      [⟨"--app-label-text", "'a;b'", "*"⟩, ⟨"--app-gap", "4px", "<length>"⟩] := by
    decide +kernel
  have embeds : ∀ entry ∈ [("labelText", "'a;b'"), ("gap", "4px")],
      Embeds entry.1.toList entry.2.toList := by
    simp only [List.mem_cons, List.not_mem_nil, or_false, forall_eq_or_imp, forall_eq]
    decide
  have space : ∀ c ∈ "app".toList, c.isAlphanum = true ∨ c = '-' := by simp
  obtain ⟨sheet, written, read⟩ := rules_render_iff space _
  refine ⟨sheet, written, ?_⟩
  rw [read.mpr embeds, properties]
  rfl

/-- A semicolon outside quotes ends the declaration that a value stands in. -/
theorem not_rules_render_of_extract :
    ¬ ∀ (source name : String) (path : Option String) (mapping : Mapping) (space : String),
      (Extraction.extract source name path).2 = .ok mapping →
      (∀ c ∈ space.toList, c.isAlphanum = true ∨ c = '-') →
        ∃ sheet, render mapping space guessClassifier = .ok sheet ∧
          rules sheet.toList = (mapping.map (guessed space)).map Property.rule ++
            [rootRule (mapping.map (guessed space))] := by
  intro always
  have extracted : (Extraction.extract
      "export const THEME = \x7b a: '1; --b: 2' \x7d;\n" "THEME" none).2 =
        .ok [("a", "1; --b: 2")] := by
    decide +kernel
  obtain ⟨sheet, written, read⟩ := always _ _ _ _ "" extracted (by simp)
  rw [render, properties_guessClassifier] at written
  cases written
  have embeds := (rules_guessed_iff "" _).mp read ("a", "1; --b: 2") List.mem_cons_self
  exact absurd embeds.value (by decide)

end Stylesheet
end ThemeSheet
