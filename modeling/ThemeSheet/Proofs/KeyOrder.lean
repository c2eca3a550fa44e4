import Mathlib.Data.List.TakeWhile
import ThemeSheet.Proofs.Skipped
import ThemeSheet.Source

namespace ThemeSheet

open Text

namespace Literal

/-- A key that looks like an array index and is no number: one of its digits is not decimal, or it
has more digits than a number may have. -/
structure Unordered (key : String) : Prop where
  digits : looksLikeIndex key.toList = true
  no_number : key.toList.all isDecimal = false ∨ maxDigits < key.toList.length

theorem length_decimalValues (text : List Char) :
    ((text.takeWhile isDecimal).filterMap decimalValue?).length =
      (text.takeWhile isDecimal).length := by
  induction text with
  | nil => rfl
  | cons c rest ih =>
    cases value : decimalValue? c with
    | none => simp [isDecimal, value]
    | some d =>
      have decimal : isDecimal c = true := by simp [isDecimal, value]
      rw [List.takeWhile_cons_of_pos decimal, List.filterMap_cons_some value, List.length_cons, ih,
        List.length_cons]

theorem length_takeWhile_lt (holds : Char → Bool) (text : List Char) :
    (text.takeWhile holds).length < text.length ↔ text.all holds = false := by
  have front := List.takeWhile_prefix (l := text) holds
  constructor
  · intro shorter
    apply Bool.eq_false_iff.mpr
    intro all
    rw [List.takeWhile_eq_self_iff.mpr (List.all_eq_true.mp all)] at shorter
    exact Nat.lt_irrefl _ shorter
  · intro other
    refine Nat.lt_of_le_of_ne front.length_le fun same => ?_
    have whole := List.takeWhile_eq_self_iff.mp (front.eq_of_length same)
    rw [List.all_eq_true.mpr whole] at other
    cases other

/-- Only such keys have no place in the order of an object. -/
theorem index?_error_iff {key : String} :
    (∃ fault, index? key = .error fault) ↔ Unordered key := by
  by_cases digits : looksLikeIndex key.toList = true
  · have shorter := length_takeWhile_lt isDecimal key.toList
    have bound := (List.takeWhile_prefix (l := key.toList) isDecimal).length_le
    simp only [index?, if_pos digits, length_decimalValues]
    split
    · rename_i many
      exact ⟨fun _ => ⟨digits, .inr (Nat.lt_of_lt_of_le many bound)⟩, fun _ => ⟨_, rfl⟩⟩
    · rename_i few
      split
      · rename_i other
        exact ⟨fun _ => ⟨digits, .inl (shorter.mp other)⟩, fun _ => ⟨_, rfl⟩⟩
      · rename_i whole
        constructor
        · rintro ⟨fault, ok⟩
          cases ok
        · rintro ⟨-, other | many⟩
          · exact absurd (shorter.mpr other) whole
          · omega
  · constructor
    · rintro ⟨fault, h⟩
      rw [index?, if_neg digits] at h
      cases h
    · rintro ⟨digits', -⟩
      exact absurd digits' digits

theorem index?_ok_iff {key : String} : (∃ index, index? key = .ok index) ↔ ¬ Unordered key := by
  rw [← index?_error_iff]
  cases index? key <;> simp

/-- Members can be put in the order of an object unless one of their keys has no place in it. -/
theorem ownKeys_error_iff {members : List (String × Reading)} :
    (∃ fault, ownKeys members = .error fault) ↔ ∃ key ∈ members.map Prod.fst, Unordered key := by
  constructor
  · rintro ⟨fault, refused⟩
    by_contra none
    have indexed : ∀ key ∈ members.map Prod.fst, ∃ index, index? key = .ok index :=
      fun key hk => index?_ok_iff.mpr fun unordered => none ⟨key, hk, unordered⟩
    rw [ownKeys_eq indexed] at refused
    cases refused
  · rintro ⟨key, hk, unordered⟩
    cases own : ownKeys members with
    | error fault => exact ⟨fault, rfl⟩
    | ok _ => exact absurd unordered (index?_ok_iff.mp (index_of_ownKeys own key hk))

/-- A literal that is read to its end and has a key without a place. -/
def HasUnordered (text : List Char) : Prop :=
  ∃ nodes members, parse (maskFunctions text) = .ok nodes ∧ readMembers 2 nodes = .ok members ∧
    ∃ key ∈ members.map Prod.fst, Unordered key

theorem members_keyOrder_iff {text : List Char} :
    (∃ fault, Literal.members text = .error (.keyOrder fault)) ↔ HasUnordered text := by
  constructor
  · rintro ⟨fault, refused⟩
    have result := members_case text
    rw [refused] at result
    cases result with
    | unordered parsed read order =>
      exact ⟨_, _, parsed, read, ownKeys_error_iff.mp ⟨fault, order⟩⟩
  · rintro ⟨nodes, found, parsed, read, unordered⟩
    obtain ⟨fault, own⟩ := ownKeys_error_iff.mpr unordered
    exact ⟨fault, by simp [Literal.members, parsed, read, own, Except.mapError, bind, Except.bind]⟩

theorem evaluate_keyOrder_iff (name : String) (text : List Char) :
    (∃ fault, (evaluate name text).2 = .error (.keyOrder fault)) ↔ HasUnordered text := by
  rw [← members_keyOrder_iff]
  unfold evaluate
  cases Literal.members text with
  | error => simp
  | ok =>
    dsimp only
    split <;> simp

end Literal

namespace Extraction

open Literal

/-- Extraction answers with a mapping, with a constant that is not there or with a literal that is
wrong, except where a key of the literal has no place in the order of keys: that fault is none of
these. -/
theorem extract_expected_iff (source name : String) (path : Option String) :
    ((∃ mapping, (extract source name path).2 = .ok mapping) ∨
        (extract source name path).2 = .error (.notFound name path) ∨
        (∃ fault, (extract source name path).2 = .error (.evaluation (.literal fault))) ↔
      ¬ ∃ raw, locate name.toList source.toList = some raw ∧ HasUnordered (normalize raw)) ∧
    ((∃ raw, locate name.toList source.toList = some raw ∧ HasUnordered (normalize raw)) →
      ∃ fault, (extract source name path).2 = .error (.evaluation (.keyOrder fault)) ∧
        (ExtractionFault.evaluation (.keyOrder fault)).isUnexpected = true) := by
  cases located : locate name.toList source.toList with
  | none => simp [extract, located]
  | some raw =>
    have order := evaluate_keyOrder_iff name (normalize raw)
    have result : (extract source name path).2 =
        (evaluate name (normalize raw)).2.mapError .evaluation := by
      simp only [extract, located]
    rw [result]
    simp only [Option.some.injEq, exists_eq_left', ← order]
    cases (evaluate name (normalize raw)).2 with
    | ok mapping => simp [Except.mapError]
    | error fault => cases fault <;> simp [Except.mapError, ExtractionFault.isUnexpected]

/-- The superscript two is a digit, but no decimal one. -/
def superscriptSource : String :=
  "export const THEME = \x7b \"\u00b2\": 1 \x7d;\n"

/-- Not every fault of extraction is one that a bad text should lead to. -/
theorem extract_superscriptSource :
    ¬ ∀ (source name : String) (path : Option String) (fault : ExtractionFault),
      isIdentifier name = true → (extract source name path).2 = .error fault →
        fault.isUnexpected = false := by
  intro claim
  have refused : (extract superscriptSource "THEME" none).2 =
      .error (.evaluation (.keyOrder (.notDecimal "\u00b2"))) := by decide +kernel
  have expected := claim superscriptSource "THEME" none _ (by decide) refused
  cases expected

end Extraction
end ThemeSheet
