import Mathlib
import ThemeSheet.Proofs.KeyOrder
import ThemeSheet.Proofs.WholeNumbers

/-! Keys that are array indices. A key of ASCII digits is taken for the index that it is written as.
Digits of other scripts are read as numbers too, though no index is written with them. -/

namespace ThemeSheet.Literal

open Text

/-- The number that digits of any script write. -/
def numeral (text : List Char) : ℕ :=
  ofDigits 10 (text.filterMap decimalValue?)

/-- That a key is an array index, written as numbers are printed. -/
def IsArrayIndex (key : String) (n : ℕ) : Prop :=
  key = toString n ∧ n ≤ 2 ^ 32 - 2

/-- That a key is taken for the array index that it is, and for none if it is none. -/
def TakenAsWritten (key : String) : Prop :=
  (∃ index, index? key = .ok index) ∧ ∀ n, index? key = .ok (some n) ↔ IsArrayIndex key n

/-- A key of digits that is no number, or one of an index in digits that are not all ASCII. -/
def Mistaken (key : String) : Prop :=
  looksLikeIndex key.toList = true ∧
    (key.toList.all isDecimal = false ∨ maxDigits < key.toList.length ∨
      key.toList.all Char.isDigit = false ∧ numeral key.toList ≤ 2 ^ 32 - 2)

instance (key : String) : Decidable (Mistaken key) :=
  inferInstanceAs (Decidable (_ ∧ _))

/-! What is taken for an index. -/

section Taken

variable {key : String} {n : ℕ}

theorem index?_of_not_digits (other : ¬ looksLikeIndex key.toList = true) :
    index? key = .ok none := by
  rw [index?, if_neg other]

theorem index?_of_decimal (digits : looksLikeIndex key.toList = true)
    (decimal : key.toList.all isDecimal = true) (short : key.toList.length ≤ maxDigits) :
    index? key =
      .ok (if numeral key.toList ≤ maxIndex then some (numeral key.toList) else none) := by
  have whole : key.toList.takeWhile isDecimal = key.toList :=
    List.takeWhile_eq_self_iff.mpr (List.all_eq_true.mp decimal)
  have values := length_decimalValues key.toList
  rw [whole] at values
  simp only [index?, if_pos digits, whole]
  rw [if_neg (by omega), if_neg (by omega)]
  rfl

theorem index?_some_iff :
    index? key = .ok (some n) ↔
      looksLikeIndex key.toList = true ∧ key.toList.all isDecimal = true ∧
        key.toList.length ≤ maxDigits ∧ numeral key.toList = n ∧ n ≤ maxIndex := by
  constructor
  · intro index
    have digits : looksLikeIndex key.toList = true := by
      by_contra other
      rw [index?_of_not_digits other] at index
      cases index
    have ordered := index?_ok_iff.mp ⟨_, index⟩
    have decimal : key.toList.all isDecimal = true := by
      by_contra other
      exact ordered ⟨digits, .inl (Bool.eq_false_iff.mpr other)⟩
    have short : key.toList.length ≤ maxDigits := by
      by_contra long
      exact ordered ⟨digits, .inr (Nat.not_le.mp long)⟩
    rw [index?_of_decimal digits decimal short] at index
    split at index
    · cases index
      exact ⟨digits, decimal, short, rfl, ‹_›⟩
    · cases index
  · rintro ⟨digits, decimal, short, rfl, small⟩
    rw [index?_of_decimal digits decimal short, if_pos small]

end Taken

/-! How numbers are printed. -/

theorem looksLikeIndex_iff {text : List Char} :
    looksLikeIndex text = true ↔
      text ≠ [] ∧ (∀ c ∈ text, Text.isDigit c = true) ∧
        (text.head? = some '0' → text.length = 1) := by
  cases text with
  | nil => simp [looksLikeIndex]
  | cons c rest =>
    simp only [looksLikeIndex, List.isEmpty_cons, Bool.not_false, Bool.true_and, Bool.and_eq_true,
      List.all_eq_true, Bool.not_eq_true', ne_eq, reduceCtorEq, not_false_eq_true, true_and]
    refine and_congr_right fun _ => ?_
    by_cases zero : c = '0' <;> simp [zero]

section Printed

variable {c : Char} (digit : c.isDigit = true)

include digit

theorem toNat_of_isDigit : c.toNat < 128 := by
  simp only [Char.isDigit, Bool.and_eq_true, decide_eq_true_eq, ge_iff_le,
    UInt32.le_iff_toNat_le] at digit
  exact Nat.lt_of_le_of_lt digit.2 (by decide)

theorem decimalValue?_of_isDigit : decimalValue? c = some (c.toNat - '0'.toNat) := by
  simpa [digit] using of_ascii
    (fun c => !c.isDigit || decimalValue? c == some (c.toNat - '0'.toNat))
    (toNat_of_isDigit digit) (by decide)

theorem isDecimal_of_isDigit : isDecimal c = true := by
  rw [isDecimal, decimalValue?_of_isDigit digit]
  rfl

theorem toDigits_of_isDigit : Nat.toDigits 10 (c.toNat - '0'.toNat) = [c] := by
  simpa [digit] using of_ascii
    (fun c => !c.isDigit || Nat.toDigits 10 (c.toNat - '0'.toNat) == [c])
    (toNat_of_isDigit digit) (by decide)

theorem numeral_concat (text : List Char) :
    numeral (text ++ [c]) = 10 * numeral text + (c.toNat - '0'.toNat) := by
  rw [numeral, List.filterMap_append, List.filterMap_cons_some (decimalValue?_of_isDigit digit),
    List.filterMap_nil, ofDigits_append_singleton, Nat.mul_comm]
  rfl

end Printed

/-- Digits without a zero in front are those of the number that they write. -/
theorem toDigits_numeral {text : List Char} (nonempty : text ≠ [])
    (digits : ∀ c ∈ text, c.isDigit = true) (lead : text.head? = some '0' → text.length = 1) :
    Nat.toDigits 10 (numeral text) = text := by
  induction text using List.reverseRecOn with
  | nil => exact absurd rfl nonempty
  | append_singleton text c ih =>
    have digit := digits c (by simp)
    have front : ∀ d ∈ text, d.isDigit = true := fun d mem => digits d (by simp [mem])
    rw [numeral_concat digit]
    by_cases first : text = []
    · subst first
      rw [List.nil_append, ← toDigits_of_isDigit digit]
      exact congrArg _ (Nat.zero_add _)
    · have other : text.head? ≠ some '0' := fun zero => by
        have one := lead (by rw [List.head?_append_of_ne_nil _ first, zero])
        simp [first] at one
      have same := ih first front fun zero => absurd zero other
      have positive : 0 < numeral text := by
        refine Nat.pos_of_ne_zero fun zero => other ?_
        rw [← same, zero]
        rfl
      have value : c.toNat - '0'.toNat < 10 := decimalValue?_lt (decimalValue?_of_isDigit digit)
      rw [← Nat.toDigits_append_toDigits (by decide) positive value, same,
        toDigits_of_isDigit digit]

theorem filterMap_of_digits {value? : Char → Option ℕ} {digits : List ℕ} {text : List Char}
    (run : NumberLiteral.Digits value? digits text) : text.filterMap value? = digits := by
  have same := congrArg (List.filterMap id) run
  rwa [List.filterMap_map, List.filterMap_map, Function.id_comp, Function.id_comp,
    List.filterMap_some] at same

/-- A number is printed in digits that write it, and with a zero in front only if it is zero. -/
theorem looksLikeIndex_toDigits (n : ℕ) :
    looksLikeIndex (Nat.toDigits 10 n) = true ∧ numeral (Nat.toDigits 10 n) = n := by
  obtain ⟨digits, run, number, lead⟩ := digits_of_toDigits n
  have values := filterMap_of_digits run
  refine ⟨looksLikeIndex_iff.mpr ⟨Nat.toDigits_ne_nil, fun c mem => ?_, fun zero => ?_⟩, ?_⟩
  · have digit := Nat.isDigit_of_mem_toDigits (b := 10) (by decide) (by decide) mem
    rw [Text.isDigit, isDecimal_of_isDigit digit, Bool.true_or]
  · by_contra long
    have positive : 0 < n := Nat.pos_of_ne_zero fun none => long (by rw [none]; rfl)
    obtain ⟨rest, text⟩ := List.head?_eq_some_iff.mp zero
    rw [text, List.filterMap_cons_some (decimalValue?_of_isDigit (by decide))] at values
    exact lead positive 0 (by rw [← values]; rfl) rfl
  · rw [numeral, values, number]

/-! Indices as they are written. -/

section Written

variable {key : String} {n : ℕ}

theorem IsArrayIndex.toList_eq (h : IsArrayIndex key n) : key.toList = Nat.toDigits 10 n := by
  rw [h.1, Nat.toString_eq_ofList_toDigits, String.toList_ofList]

theorem IsArrayIndex.isDigit (h : IsArrayIndex key n) : key.toList.all Char.isDigit = true := by
  rw [h.toList_eq, List.all_eq_true]
  exact fun c mem => Nat.isDigit_of_mem_toDigits (by decide) (by decide) mem

theorem index?_of_isArrayIndex (h : IsArrayIndex key n) : index? key = .ok (some n) := by
  have digits := h.isDigit
  obtain ⟨looks, number⟩ := looksLikeIndex_toDigits n
  have bound : n < 10 ^ 10 := Nat.lt_of_le_of_lt h.2 (by decide)
  have short := (Nat.length_toDigits_le_iff (b := 10) (by decide) (by decide)).mpr bound
  rw [← h.toList_eq] at looks number short
  refine index?_some_iff.mpr ⟨looks, ?_, short.trans (by decide), number, h.2⟩
  rw [List.all_eq_true] at digits ⊢
  exact fun c mem => isDecimal_of_isDigit (digits c mem)

theorem isArrayIndex_of_index? (index : index? key = .ok (some n))
    (ascii : key.toList.all Char.isDigit = true) : IsArrayIndex key n := by
  obtain ⟨looks, -, -, number, small⟩ := index?_some_iff.mp index
  obtain ⟨nonempty, -, lead⟩ := looksLikeIndex_iff.mp looks
  have printed := toDigits_numeral nonempty (List.all_eq_true.mp ascii) lead
  refine ⟨?_, small⟩
  rw [Nat.toString_eq_ofList_toDigits, ← number, printed, String.ofList_toList]

/-- A key is taken for what it is written as, but for digits that are no number and for indices in
digits of other scripts. -/
theorem takenAsWritten_iff : TakenAsWritten key ↔ ¬ Mistaken key := by
  constructor
  · rintro ⟨ordered, written⟩ ⟨looks, mistake⟩
    have ordered := index?_ok_iff.mp ordered
    have decimal : key.toList.all isDecimal = true := by
      by_contra other
      exact ordered ⟨looks, .inl (Bool.eq_false_iff.mpr other)⟩
    have short : key.toList.length ≤ maxDigits := by
      by_contra long
      exact ordered ⟨looks, .inr (Nat.not_le.mp long)⟩
    obtain ⟨foreign, small⟩ :
        key.toList.all Char.isDigit = false ∧ numeral key.toList ≤ 2 ^ 32 - 2 := by
      simpa [decimal, Nat.not_lt.mpr short] using mistake
    have index := (written _).mp (index?_some_iff.mpr ⟨looks, decimal, short, rfl, small⟩)
    exact Bool.false_ne_true (foreign.symm.trans index.isDigit)
  · intro right
    refine ⟨index?_ok_iff.mpr fun unordered => right ⟨unordered.digits, ?_⟩,
      fun n => ⟨fun index => isArrayIndex_of_index? index ?_, index?_of_isArrayIndex⟩⟩
    · rcases unordered.no_number with other | long
      · exact .inl other
      · exact .inr (.inl long)
    · obtain ⟨looks, -, -, rfl, small⟩ := index?_some_iff.mp index
      by_contra foreign
      exact right ⟨looks, .inr (.inr ⟨Bool.eq_false_iff.mpr foreign, small⟩)⟩

theorem isArrayIndex_iff (h : TakenAsWritten key) :
    IsArrayIndex key n ↔ indexValue? key = some n := by
  obtain ⟨⟨index, found⟩, written⟩ := h
  rw [← written, indexValue?_eq found, found, Except.ok.injEq]

end Written

/-! What goes to the front. -/

section Order

variable {α : Type}

/-- An order of the keys of an object: its array indices by size, then the others as they came. -/
def IndicesFirst (members : List (String × α)) (order : List String) : Prop :=
  order.Perm (firstKeys members) ∧ ∃ indices names, order = indices ++ names ∧
    (∀ key ∈ indices, ∃ n, IsArrayIndex key n) ∧
    (indices.Pairwise fun a b => ∀ m n, IsArrayIndex a m → IsArrayIndex b n → m < n) ∧
    (∀ key ∈ names, ∀ n, ¬ IsArrayIndex key n) ∧ names.Sublist (firstKeys members)

theorem indicesFirst_ownMembers {members : List (String × α)}
    (written : ∀ key ∈ members.map Prod.fst, TakenAsWritten key) :
    IndicesFirst members ((ownMembers members).map Prod.fst) := by
  obtain ⟨distinct, complete, indices, names, order, index, sorted, rest⟩ :=
    ownOrder_ownMembers members
  have found {key : String} (mem : key ∈ indices ++ names) {n : ℕ} :
      IsArrayIndex key n ↔ indexValue? key = some n :=
    isArrayIndex_iff (written key ((complete key).mp (order ▸ mem)))
  rw [order] at distinct complete ⊢
  refine ⟨?_, indices, names, rfl, fun key mem => ?_, ?_, fun key mem n same => ?_, ?_⟩
  · refine (List.perm_ext_iff_of_nodup distinct (nodup_firstKeys members)).mpr fun key => ?_
    rw [complete, mem_firstKeys]
  · obtain ⟨n, value⟩ := Option.isSome_iff_exists.mp (index key mem)
    exact ⟨n, (found (List.mem_append_left _ mem)).mpr value⟩
  · -- The numbers only do not decrease, but different keys are different numbers.
    have apart := (List.nodup_append.mp distinct).1
    refine (List.Pairwise.and apart (List.pairwise_map.mp sorted)).imp_of_mem ?_
    intro a b ha hb ⟨other, le⟩ m n hm hn
    rw [(found (List.mem_append_left _ ha)).mp hm, (found (List.mem_append_left _ hb)).mp hn] at le
    refine Nat.lt_of_le_of_ne le fun same => other ?_
    rw [hm.1, hn.1]
    exact congrArg toString same
  · have value := (found (List.mem_append_right _ mem)).mp same
    rw [rest] at mem
    have none := (List.mem_filter.mp mem).2
    rw [value] at none
    cases none
  · rw [rest]
    exact List.filter_sublist

/-- A key is an array index for the order of an object exactly if it is written as one, unless its
digits are no number or are an index in another script. Without such keys the indices alone go to
the front. -/
theorem indices_first (members : List (String × α)) :
    (∀ key, TakenAsWritten key ↔ ¬ Mistaken key) ∧
      ((∀ key ∈ members.map Prod.fst, ¬ Mistaken key) →
        ∃ own, ownKeys members = .ok own ∧ IndicesFirst members (own.map Prod.fst)) := by
  refine ⟨fun _ => takenAsWritten_iff, fun right => ?_⟩
  have written : ∀ key ∈ members.map Prod.fst, TakenAsWritten key :=
    fun key mem => takenAsWritten_iff.mpr (right key mem)
  exact ⟨_, ownKeys_eq fun key mem => (written key mem).1, indicesFirst_ownMembers written⟩

/-- The greatest index and the number after it, a zero in front, and a digit of another script
beside a letter. -/
theorem indices_first_greatest :
    (∀ key ∈ ["b", "4294967295", "4294967294", "07", "\u0663x", "0"], ¬ Mistaken key) ∧
      ∃ own, ownKeys [("b", 1), ("4294967295", 2), ("4294967294", 3), ("07", 4), ("\u0663x", 5),
        ("0", 6)] = .ok own ∧
        IndicesFirst [("b", 1), ("4294967295", 2), ("4294967294", 3), ("07", 4), ("\u0663x", 5),
          ("0", 6)] (own.map Prod.fst) := by
  have right : ∀ key ∈ ["b", "4294967295", "4294967294", "07", "\u0663x", "0"], ¬ Mistaken key := by
    decide +kernel
  exact ⟨right, (indices_first _).2 right⟩

end Order

/-- The Arabic digit three is taken for the index three, which is not written so. -/
theorem not_takenAsWritten_arabicThree : ¬ ∀ key, TakenAsWritten key := by
  intro always
  have index : index? "\u0663" = .ok (some 3) := by decide +kernel
  have written := ((always "\u0663").2 3).mp index
  exact absurd written.1 (by decide)

end ThemeSheet.Literal
