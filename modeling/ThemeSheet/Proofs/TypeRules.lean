import Mathlib
import ThemeSheet.Proofs.KebabCase
import ThemeSheet.Proofs.TypePatterns

/-! The rules for types do not overlap, but for whole numbers, which are numbers too. A value of any
other type than a color begins like a number, and what stands behind the number tells its type. So
the order in which the rules are tried makes no difference, as long as whole numbers are looked for
before numbers. -/

namespace ThemeSheet

open Text

namespace Text

open NumberLiteral (begins ne_of_begins)

theorem decimalZeros_apart : (decimalZeros.all fun first => caseRuns.all fun run =>
    Nat.blt run.last first || Nat.blt (first + 9) run.first) = true := by
  decide +kernel

/-- No digit has another lower case. -/
theorem isLower_of_begins {c : Char} (h : begins c = true) : IsLower c := by
  by_cases small : c.toNat < 128
  · have same := of_ascii (fun c => !begins c || lowerChar c == [c] && c != 'Σ') small (by decide)
    simpa [h, IsLower] using same
  · have decimal : isDecimal c = true := by
      simp only [begins, Bool.or_eq_true, beq_iff_eq] at h
      rcases h with ((rfl | rfl) | rfl) | decimal
      · exact absurd (by decide) small
      · exact absurd (by decide) small
      · exact absurd (by decide) small
      · exact decimal
    refine isLower_of_not_covers ?_ (ne_of_begins h (by decide)) fun run mem => ?_
    · refine Bool.eq_false_iff.mpr fun upper => ?_
      have := toNat_of_isUpper upper
      omega
    · obtain ⟨value, found⟩ := Option.isSome_iff_exists.mp decimal
      obtain ⟨first, found, -⟩ := Option.map_eq_some_iff.mp found
      have near := List.find?_some found
      have apart := List.all_eq_true.mp (List.all_eq_true.mp decimalZeros_apart first
        (List.mem_of_find?_eq_some found)) run mem
      refine Bool.eq_false_iff.mpr fun covers => ?_
      obtain ⟨low, high, -⟩ := CaseRun.covers_iff.mp covers
      simp only [Bool.and_eq_true, decide_eq_true_eq] at near
      simp only [Bool.or_eq_true, Nat.blt_eq] at apart
      omega

theorem mem_lowerAfter_of_isLower {c : Char} (lower : IsLower c) {before text : List Char}
    (mem : c ∈ text) : c ∈ lowerAfter before text := by
  induction text generalizing before with
  | nil => cases mem
  | cons d rest ih =>
    rw [lowerAfter]
    rcases List.mem_cons.mp mem with rfl | mem
    · rw [if_neg (by simpa using lower.2), lower.1]
      exact List.mem_append_left _ (List.mem_singleton_self c)
    · exact List.mem_append_right _ (ih mem)

/-- No white space is left at the end. -/
theorem getLast?_trim (text : List Char) {c : Char} (space : isSpace c = true) :
    (trim text).getLast? ≠ some c := by
  intro last
  rw [trim, List.getLast?_reverse] at last
  obtain ⟨rest, first⟩ := List.head?_eq_some_iff.mp last
  exact absurd (space.symm.trans (head_trimLeft first)) (by decide)

end Text

namespace ValueType

open Literal.Pattern (line line_of_not_broken mem_anyOf isColorFunction_iff mem_integer_iff
  mem_number_iff_isNumber number_of_integer)
open NumberLiteral (begins)

/-- A test and the type of the texts it holds for. -/
abbrev Rule := (List Char → Bool) × ValueType

variable {text : List Char} {type : ValueType} {order order' : List Rule}

/-- The types of the rules that hold, in the order of the rules. -/
def held (order : List Rule) (text : List Char) : List ValueType :=
  (order.filter fun rule => rule.1 text).map (·.2)

/-- The type of the first rule that holds. -/
def firstType (order : List Rule) (text : List Char) : ValueType :=
  ((order.find? fun rule => rule.1 text).map (·.2)).getD any

/-- That whole numbers come before numbers. -/
def IntegerFirst (types : List ValueType) : Prop :=
  types.Pairwise fun type later => type = number → later ≠ integer

instance (types : List ValueType) : Decidable (IntegerFirst types) :=
  inferInstanceAs (Decidable (List.Pairwise _ _))

/-- Of one type, unless they are of whole numbers and of numbers. -/
def Alone (types : List ValueType) : Prop :=
  ∀ type ∈ types, ∀ other ∈ types,
    type = other ∨ (type = integer ∧ other = number) ∨ (type = number ∧ other = integer)

theorem mem_held : type ∈ held order text ↔ ∃ holds, (holds, type) ∈ order ∧ holds text = true := by
  simp [held]

theorem firstType_eq : firstType order text = (held order text).head?.getD any := by
  rw [firstType, held, List.head?_map, List.head?_filter]

theorem held_perm (perm : order.Perm order') : (held order text).Perm (held order' text) :=
  (perm.filter _).map _

/-! One type at most. -/

/-- What stands behind the number of a value, in lower case. -/
def suffixes : List (String × ValueType) :=
  lengthUnits.map (·, length) ++ timeUnits.map (·, time) ++ angleUnits.map (·, angle) ++
    [("%", percentage), ("", number)]

/-- A number, with the suffix of a type behind it. -/
def Measures (type : ValueType) (text : List Char) : Prop :=
  ∃ rest name, afterNumber? text = some rest ∧ name.toList = rest.map foldCase ∧
    (name, type) ∈ suffixes

/-- Whole numbers are numbers. -/
def broad : ValueType → ValueType
  | integer => number
  | type => type

/-- No two types share a suffix. -/
theorem suffixes_nodup : (suffixes.map Prod.fst).Nodup := by
  decide

theorem Measures.unique {other : ValueType} (h : Measures type text) (h' : Measures other text) :
    type = other := by
  obtain ⟨rest, name, read, same, listed⟩ := h
  obtain ⟨rest', name', read', same', listed'⟩ := h'
  obtain rfl : rest = rest' := Option.some_inj.mp (read.symm.trans read')
  obtain rfl : name = name' := String.toList_injective (same.trans same'.symm)
  exact congrArg Prod.snd (List.inj_on_of_nodup_map suffixes_nodup listed listed' rfl)

theorem measures_of_hasUnit {units : List String}
    (all : (units.all fun name => suffixes.contains (name, type)) = true)
    (found : hasUnit units text = true) : Measures type text := by
  obtain ⟨rest, read, unit⟩ := (Option.any_eq_true _ _).mp found
  obtain ⟨name, named, same⟩ := List.any_eq_true.mp unit
  exact ⟨rest, name, read, eq_of_beq same,
    List.contains_iff_mem.mp (List.all_eq_true.mp all name named)⟩

theorem measures_of_isNumber (found : isNumber text = true) : Measures number text :=
  ⟨[], "", eq_of_beq found, rfl, by decide⟩

theorem isNumber_of_isInteger (found : isInteger text = true) : isNumber text = true :=
  mem_number_iff_isNumber.mp (number_of_integer (mem_integer_iff.mpr found))

/-- No color begins like a number. -/
theorem afterNumber?_of_color {holds : List Char → Bool} (mem : (holds, color) ∈ rules)
    (found : holds text = true) : afterNumber? text = none := by
  by_contra some
  obtain ⟨rest, read⟩ := Option.ne_none_iff_exists'.mp some
  obtain ⟨front, numeral, rfl⟩ := NumberLiteral.exists_of_afterNumber? read
  obtain ⟨c, front, rfl, first⟩ := numeral.begins
  simp only [rules, List.mem_cons, Prod.mk.injEq, List.not_mem_nil, or_false, and_true, and_false,
    reduceCtorEq] at mem
  rcases mem with rfl | rfl | rfl
  · obtain ⟨name, named, same⟩ := List.any_eq_true.mp found
    have letters : (namedColors.all (·.toList.all (!begins ·))) = true := by decide
    have inside : c ∈ name.toList := by
      rw [eq_of_beq same]
      exact mem_lowerAfter_of_isLower (isLower_of_begins first) List.mem_cons_self
    have letter := List.all_eq_true.mp (List.all_eq_true.mp letters name named) c inside
    rw [first] at letter
    cases letter
  · rw [List.cons_append] at found
    unfold isHexColor at found
    split at found
    · next same =>
      obtain ⟨rfl, -⟩ := List.cons.inj same
      exact absurd first (by decide)
    · cases found
  · obtain ⟨name, arguments, split, -, named, -⟩ := isColorFunction_iff.mp found
    obtain ⟨function, known, same⟩ := List.any_eq_true.mp (mem_anyOf.mp named)
    have letters : (colorFunctions.all (·.toList.head?.any (!begins ·))) = true := by decide
    have letter := List.all_eq_true.mp letters function known
    rw [eq_of_beq same] at letter
    cases name with
    | nil => cases letter
    | cons d name =>
      obtain rfl : c = d := (List.cons.inj split).1
      rw [List.map_cons, List.head?_cons, Option.any_some, foldCase_of_begins first,
        first] at letter
      cases letter

/-- What stands behind the number tells the type. -/
theorem measures_of_held (mem : type ∈ held rules text) (other : type ≠ color) :
    Measures type.broad text := by
  obtain ⟨holds, mem, found⟩ := mem_held.mp mem
  simp only [rules, List.mem_cons, Prod.mk.injEq, List.not_mem_nil, or_false] at mem
  rcases mem with ⟨-, rfl⟩ | ⟨-, rfl⟩ | ⟨-, rfl⟩ | ⟨rfl, rfl⟩ | ⟨rfl, rfl⟩ | ⟨rfl, rfl⟩ |
    ⟨rfl, rfl⟩ | ⟨rfl, rfl⟩ | ⟨rfl, rfl⟩
  · exact absurd rfl other
  · exact absurd rfl other
  · exact absurd rfl other
  · exact measures_of_hasUnit (by decide) found
  · exact ⟨['%'], "%", eq_of_beq found, by decide, by decide⟩
  · exact measures_of_hasUnit (by decide) found
  · exact measures_of_hasUnit (by decide) found
  · exact measures_of_isNumber (isNumber_of_isInteger found)
  · exact measures_of_isNumber found

theorem alone_held_rules (text : List Char) : Alone (held rules text) := by
  have apart {type : ValueType} (colored : color ∈ held rules text) (mem : type ∈ held rules text) :
      type = color := by
    by_contra other
    obtain ⟨holds, rule, found⟩ := mem_held.mp colored
    obtain ⟨rest, -, read, -⟩ := measures_of_held mem other
    rw [afterNumber?_of_color rule found] at read
    cases read
  intro type mem other mem'
  by_cases colored : type = color
  · subst colored
    exact .inl (apart mem mem').symm
  by_cases colored' : other = color
  · subst colored'
    exact .inl (apart mem' mem)
  have same := (measures_of_held mem colored).unique (measures_of_held mem' colored')
  cases type <;> cases other <;> simp [broad] at same ⊢

/-! The patterns. -/

/-- What is tried on a value: whether it names a color, and the patterns. -/
def tests : List Rule :=
  (isNamedColor, color) :: patterns.map fun (pattern, type) => (pattern.matchesLine, type)

theorem held_cons (holds : List Char → Bool) (type : ValueType) :
    held ((holds, type) :: order) text =
      (if holds text then [type] else []) ++ held order text := by
  rw [held, List.filter_cons]
  split <;> rfl

theorem held_congr {text' : List Char} (each : List.Forall₂ (fun rule rule' =>
    rule.2 = rule'.2 ∧ rule.1 text = rule'.1 text') order order') :
    held order text = held order' text' := by
  induction each with
  | nil => rfl
  | cons same _ ih => rw [held_cons, held_cons, same.1, same.2, ih]

/-- The patterns go by the text without a line break at its end. -/
theorem held_tests (text : List Char) : held tests text =
    (if isNamedColor text then [color] else []) ++ held rules.tail (line text) := by
  have patterned : held (patterns.map fun (pattern, type) => (pattern.matchesLine, type)) text =
      held rules.tail (line text) :=
    held_congr (List.forall₂_map_left_iff.mpr
      (patterns_rules.imp fun _ _ same => ⟨same.1, same.2 text⟩))
  rw [tests, held_cons, patterned]

theorem held_rules (text : List Char) : held rules text =
    (if isNamedColor text then [color] else []) ++ held rules.tail text :=
  held_cons isNamedColor color

/-- No name has a line break. -/
theorem line_of_isNamedColor (named : isNamedColor text = true) : line text = text := by
  refine line_of_not_broken fun last => ?_
  obtain ⟨name, mem, same⟩ := List.any_eq_true.mp named
  have inside : '\n' ∈ name.toList := by
    rw [eq_of_beq same]
    exact (mem_lowerAfter_iff (by decide) text).mpr (List.mem_of_getLast? last)
  have letters : (namedColors.all (!·.toList.contains '\n')) = true := by decide
  have letter := List.all_eq_true.mp letters name mem
  rw [List.contains_iff_mem.mpr inside] at letter
  cases letter

theorem held_tests_of_not_broken (unbroken : text.getLast? ≠ some '\n') :
    held tests text = held rules text := by
  rw [held_tests, held_rules, line_of_not_broken unbroken]

theorem held_tests_subset (text : List Char) : held tests text ⊆ held rules (line text) := by
  rw [held_tests, held_rules]
  cases named : isNamedColor text with
  | false => exact List.subset_append_right _ _
  | true =>
    rw [line_of_isNamedColor named, named]
    exact List.Subset.refl _

theorem alone_held_tests (text : List Char) : Alone (held tests text) :=
  fun type mem other mem' => alone_held_rules (line text) type (held_tests_subset text mem) other
    (held_tests_subset text mem')

theorem number_mem_held_tests (mem : integer ∈ held tests text) : number ∈ held tests text := by
  rw [held_tests] at mem ⊢
  refine List.mem_append_right _ ?_
  have mem : integer ∈ held rules.tail (line text) :=
    (List.mem_append.mp mem).resolve_left fun colored => by
      split at colored <;> simp at colored
  obtain ⟨holds, rule, whole⟩ := mem_held.mp mem
  obtain rfl : holds = isInteger := by simpa [rules] using rule
  exact mem_held.mpr ⟨isNumber, by simp [rules], isNumber_of_isInteger whole⟩

/-! The order of the rules. -/

/-- The patterns or the rules, in another order. -/
def Reordered (order : List Rule) : Prop :=
  order.Perm tests ∨ order.Perm rules

/-- Of two orders that put whole numbers before numbers, both begin with the same type. -/
theorem head?_of_alone {types types' : List ValueType} (alone : Alone types)
    (perm : types.Perm types') (first : IntegerFirst types) (first' : IntegerFirst types') :
    types.head? = types'.head? := by
  cases types with
  | nil => rw [perm.symm.eq_nil]
  | cons type types =>
    cases types' with
    | nil => exact absurd perm.eq_nil (List.cons_ne_nil _ _)
    | cons type' types' =>
      have mem : type ∈ type' :: types' := perm.subset List.mem_cons_self
      have mem' : type' ∈ type :: types := perm.symm.subset List.mem_cons_self
      rcases alone type List.mem_cons_self type' mem' with rfl | ⟨rfl, rfl⟩ | ⟨rfl, rfl⟩
      · rfl
      · have later := (List.mem_cons.mp mem).resolve_left (by decide)
        exact absurd rfl (List.rel_of_pairwise_cons first' later rfl)
      · have later := (List.mem_cons.mp mem').resolve_left (by decide)
        exact absurd rfl (List.rel_of_pairwise_cons first later rfl)

theorem IntegerFirst.held (first : IntegerFirst (order.map (·.2))) (text : List Char) :
    IntegerFirst (held order text) :=
  first.sublist (List.filter_sublist.map _)

theorem Reordered.held (reordered : Reordered order) (unbroken : text.getLast? ≠ some '\n') :
    (held order text).Perm (held rules text) := by
  rcases reordered with perm | perm
  · rw [← held_tests_of_not_broken unbroken]
    exact held_perm perm
  · exact held_perm perm

theorem firstType_of_integerFirst (reordered : Reordered order)
    (first : IntegerFirst (order.map (·.2))) (unbroken : text.getLast? ≠ some '\n') :
    firstType order text = firstType rules text := by
  have perm := reordered.held unbroken
  have first' : IntegerFirst (rules.map (·.2)) := by decide
  rw [firstType_eq, firstType_eq,
    head?_of_alone (alone_held_rules text) perm.symm (first'.held text) (first.held text)]

/-- A zero is a whole number and a number, and nothing else. -/
theorem held_zero : held rules ['0'] = [integer, number] := by
  decide +kernel

theorem Reordered.zero (reordered : Reordered order) :
    ∀ rule ∈ order, rule.2 = number ∨ rule.2 = integer → rule.1 ['0'] = true := by
  have all : ∀ order ∈ [tests, rules], (order.all fun rule =>
      !(rule.2 == number || rule.2 == integer) || rule.1 ['0']) = true := by decide +kernel
  intro rule mem kind
  obtain ⟨order', known, perm⟩ : ∃ order' ∈ [tests, rules], order.Perm order' := by
    simpa [Reordered] using reordered
  have each := List.all_eq_true.mp (all order' known) rule (perm.subset mem)
  rcases kind with kind | kind <;> simpa [kind] using each

theorem integerFirst_of_firstType (reordered : Reordered order)
    (whole : firstType order ['0'] = integer) : IntegerFirst (order.map (·.2)) := by
  have perm : (held order ['0']).Perm (held rules ['0']) := reordered.held (by decide)
  rw [held_zero] at perm
  rw [firstType_eq] at whole
  have sorted : held order ['0'] = [integer, number] := by
    cases types : held order ['0'] with
    | nil =>
      rw [types] at whole
      cases whole
    | cons type rest =>
      rw [types] at whole perm
      obtain rfl : type = integer := whole
      rw [List.perm_singleton.mp ((List.perm_cons _).mp perm)]
  have holding : IntegerFirst (held order ['0']) := by
    rw [sorted]
    decide
  rw [IntegerFirst, held, List.pairwise_map, List.pairwise_filter] at holding
  exact List.pairwise_map.mpr (holding.imp_of_mem fun mem mem' related first later =>
    related (reordered.zero _ mem (.inl first)) (reordered.zero _ mem' (.inr later)) first later)

/-- For every text, the tests that hold are of one type, but for whole numbers, which are numbers
too. So the type of a value does not depend on their order, as long as whole numbers are looked for
before numbers; and otherwise it does. -/
theorem tests_disjoint :
    (∀ text, Alone (held tests text) ∧ (integer ∈ held tests text → number ∈ held tests text)) ∧
    (∀ text, text.getLast? ≠ some '\n' → held tests text = held rules text) ∧
    ∀ order, Reordered order →
      ((∀ value, firstType order (trim value.toList) = guess value) ↔
        IntegerFirst (order.map (·.2))) := by
  refine ⟨fun text => ⟨alone_held_tests text, number_mem_held_tests⟩,
    fun text => held_tests_of_not_broken,
    fun order reordered => ⟨fun same => ?_, fun first value => ?_⟩⟩
  · have zero : trim "0".toList = ['0'] := by decide
    have whole : guess "0" = integer := by decide +kernel
    exact integerFirst_of_firstType reordered (by rw [← zero, same, whole])
  · exact firstType_of_integerFirst reordered first (getLast?_trim value.toList (by decide))

/-- The patterns may take turns, but the rules may not be tried from the last to the first. -/
theorem tests_disjoint_turned :
    (∀ value, firstType (tests.rotate 7) (trim value.toList) = guess value) ∧
      ¬ ∀ value, firstType rules.reverse (trim value.toList) = guess value := by
  refine ⟨(tests_disjoint.2.2 _ (.inl (List.rotate_perm _ _))).mpr (by decide), fun same => ?_⟩
  have first := (tests_disjoint.2.2 _ (.inr (List.reverse_perm _))).mp same
  exact absurd first (by decide)

end ValueType

end ThemeSheet
