import ThemeSheet.Proofs.PropertyNames

/-! Names in kebab case. Such a name is left as it is: none of its letters has another lower case,
and no capital is left to put a hyphen before. -/

namespace ThemeSheet

namespace Text

/-- A character that is its own lower case, whatever surrounds it. -/
def IsLower (c : Char) : Prop :=
  lowerChar c = [c] ∧ c ≠ 'Σ'

namespace CaseRun

/-- The lower case of a letter of the run. -/
def lower (run : CaseRun) (n : Nat) : Nat :=
  (n + run.shift).toNat

/-- Whether the lower case of a letter of one run may be a letter of another. In runs that overlap,
every second number is a letter, and the two take turns. -/
def leadsInto (run other : CaseRun) : Bool :=
  Nat.ble other.first (run.lower run.last) && Nat.ble (run.lower run.first) other.last &&
    !(other.step == 2 && (run.step == 2 || run.first == run.last) &&
      (run.lower run.first - other.first) % 2 == 1)

end CaseRun

theorem caseRuns_end :
    (caseRuns.all fun run => caseRuns.all fun other => !run.leadsInto other) = true := by
  decide +kernel

theorem caseRuns_apart : ∀ run ∈ caseRuns,
    run.lower run.last < 'İ'.toNat ∨ 'İ'.toNat < run.lower run.first := by
  decide +kernel

theorem CaseRun.lower_between {run : CaseRun} {n : Nat} (covers : run.covers n = true) :
    run.lower run.first ≤ run.lower n ∧ run.lower n ≤ run.lower run.last := by
  obtain ⟨low, high, -⟩ := covers_iff.mp covers
  unfold lower
  omega

section Covered

variable {run : CaseRun} {n : Nat} (mem : run ∈ caseRuns) (covers : run.covers n = true)

include mem covers

theorem lower_eq : (run.lower n : Int) = n + run.shift := by
  obtain ⟨low, -, -⟩ := CaseRun.covers_iff.mp covers
  have far := caseRuns_leave_ascii run mem
  have k : 'k'.toNat = 107 := rfl
  exact Int.toNat_of_nonneg (by omega)

theorem lower_far : run.lower n = 107 ∨ 128 ≤ run.lower n := by
  obtain ⟨low, high, -⟩ := CaseRun.covers_iff.mp covers
  have far := caseRuns_leave_ascii run mem
  have k : 'k'.toNat = 107 := rfl
  have same := lower_eq mem covers
  omega

theorem toNat_lower : (Char.ofNat (run.lower n)).toNat = run.lower n := by
  obtain ⟨low, high, -⟩ := CaseRun.covers_iff.mp covers
  have far := caseRuns_leave_ascii run mem
  have k : 'k'.toNat = 107 := rfl
  have same := lower_eq mem covers
  have valid : (run.lower n).isValidChar := by
    unfold Nat.isValidChar
    omega
  rw [Char.ofNat, dif_pos valid]
  rfl

/-- The lower case of a letter has no other. -/
theorem not_covers_lower {other : CaseRun} (mem' : other ∈ caseRuns) :
    other.covers (run.lower n) = false := by
  refine Bool.eq_false_iff.mpr fun again => ?_
  obtain ⟨low, high, turn⟩ := CaseRun.covers_iff.mp covers
  obtain ⟨low', high', turn'⟩ := CaseRun.covers_iff.mp again
  obtain ⟨least, most⟩ := CaseRun.lower_between covers
  have end_ := List.all_eq_true.mp (List.all_eq_true.mp caseRuns_end run mem) other mem'
  simp only [CaseRun.leadsInto, Nat.ble_eq_true_of_le (low'.trans most),
    Nat.ble_eq_true_of_le (least.trans high'), Bool.true_and, Bool.not_not, Bool.and_eq_true,
    Bool.or_eq_true, beq_iff_eq] at end_
  obtain ⟨⟨two, alternate⟩, odd⟩ := end_
  have same := lower_eq mem covers
  have far := caseRuns_leave_ascii run mem
  have k : 'k'.toNat = 107 := rfl
  have first : (run.lower run.first : Int) = run.first + run.shift :=
    Int.toNat_of_nonneg (by omega)
  rw [two] at turn'
  rcases alternate with twice | single
  · rw [twice] at turn
    omega
  · omega

end Covered

theorem toNat_of_isUpper {c : Char} (h : c.isUpper = true) : 65 ≤ c.toNat ∧ c.toNat ≤ 90 := by
  obtain ⟨low, high⟩ : c.val ≥ 'A'.val ∧ c.val ≤ 'Z'.val := of_decide_eq_true h
  exact ⟨low, high⟩

/-- A character that is no capital of ASCII nor in the table is its own lower case. -/
theorem isLower_of_not_covers {c : Char} (small : c.isUpper = false) (dotted : c ≠ 'İ')
    (other : ∀ run ∈ caseRuns, run.covers c.toNat = false) : IsLower c := by
  constructor
  · have uncovered : caseRuns.find? (·.covers c.toNat) = none :=
      List.find?_eq_none.mpr fun run mem => by simp [other run mem]
    rw [lowerChar]
    split
    · next ascii =>
      have same := of_ascii (fun c => c.isUpper || c.toLower == c) ascii (by decide)
      simpa [small] using same
    · rw [if_neg (by simpa using dotted), uncovered]
  · rintro rfl
    have sigma : (caseRuns.any (·.covers 'Σ'.toNat)) = true := by decide
    obtain ⟨run, mem, covers⟩ := List.any_eq_true.mp sigma
    exact Bool.false_ne_true ((other run mem).symm.trans covers)

theorem not_isUpper_of_isLower {c : Char} (h : IsLower c) : c.isUpper = false := by
  by_contra upper
  have upper := Bool.of_not_eq_false upper
  have small : c.toNat < 128 := Nat.lt_of_le_of_lt (toNat_of_isUpper upper).2 (by decide)
  have same := h.1
  rw [lowerChar, if_pos small, List.singleton_inj] at same
  have other := of_ascii (fun c => !c.isUpper || c.toLower != c) small (by decide)
  simp [upper, same] at other

/-- What a dotted capital I and a capital sigma become. -/
theorem isLower_special {c : Char} (mem : c ∈ ['i', '\u0307', 'σ', 'ς']) : IsLower c := by
  have each : ['i', '\u0307', 'σ', 'ς'].all (fun c => lowerChar c == [c] && c != 'Σ') = true := by
    decide +kernel
  simpa [IsLower] using List.all_eq_true.mp each c mem

theorem isLower_of_mem_lowerChar {c d : Char} (h : d ∈ lowerChar c) : IsLower d := by
  rw [lowerChar] at h
  split at h
  · next small =>
    rw [List.mem_singleton.mp h]
    have lower := of_ascii (fun c => lowerChar c.toLower == [c.toLower] && c.toLower != 'Σ') small
      (by decide)
    simpa [IsLower] using lower
  next wide =>
  split at h
  · simp only [List.mem_cons, List.not_mem_nil, or_false] at h
    rcases h with rfl | rfl <;> exact isLower_special (by simp)
  next dotted =>
  split at h
  · next run found =>
    have mem := List.mem_of_find?_eq_some found
    have covers : run.covers c.toNat = true := by simpa using List.find?_some found
    have number := toNat_lower mem covers
    have between := CaseRun.lower_between covers
    rw [List.mem_singleton.mp h]
    change IsLower (Char.ofNat (run.lower c.toNat))
    refine isLower_of_not_covers ?_ (fun same => ?_) fun other mem' => ?_
    · have far := lower_far mem covers
      rw [← number] at far
      refine Bool.eq_false_iff.mpr fun upper => ?_
      have := toNat_of_isUpper upper
      omega
    · have apart := caseRuns_apart run mem
      rw [same] at number
      omega
    · have := not_covers_lower mem covers mem'
      rwa [← number] at this
  · next none =>
    rw [List.mem_singleton.mp h]
    refine isLower_of_not_covers ?_ (by simpa using dotted) fun run mem => ?_
    · refine Bool.eq_false_iff.mpr fun upper => ?_
      have := toNat_of_isUpper upper
      omega
    · simpa using List.find?_eq_none.mp none run mem

theorem isLower_of_mem_lowerAfter {before text : List Char} {d : Char}
    (h : d ∈ lowerAfter before text) : IsLower d := by
  induction text generalizing before with
  | nil => cases h
  | cons c rest ih =>
    rw [lowerAfter] at h
    rcases List.mem_append.mp h with here | there
    · split at here
      · rw [List.mem_singleton] at here
        subst here
        split <;> exact isLower_special (by simp)
      · exact isLower_of_mem_lowerChar here
    · exact ih there

theorem lowerAfter_of_isLower {text : List Char} (h : ∀ c ∈ text, IsLower c) (before : List Char) :
    lowerAfter before text = text := by
  induction text generalizing before with
  | nil => rfl
  | cons c rest ih =>
    simp only [List.mem_cons, forall_eq_or_imp] at h
    rw [lowerAfter, if_neg (by simpa using h.1.2), h.1.1, ih h.2]
    rfl

theorem lower_lower (text : List Char) : lower (lower text) = lower text :=
  lowerAfter_of_isLower (fun _ => isLower_of_mem_lowerAfter) []

end Text

namespace PropertyName

open Text

/-! A second time, nothing changes. -/

theorem hyphenate_of_no_capital {text : List Char} (h : ∀ c ∈ text, c.isUpper = false)
    (before : Option Char) : hyphenate before text = text := by
  induction text generalizing before with
  | nil => rfl
  | cons c rest ih =>
    simp only [List.mem_cons, forall_eq_or_imp] at h
    rw [hyphenate_cons, h.1, Bool.false_and, if_neg Bool.false_ne_true, ih h.2]

theorem isLower_of_mem_kebab {name : List Char} {c : Char} (h : c ∈ kebab name) : IsLower c :=
  isLower_of_mem_lowerAfter h

theorem kebab_kebab (name : List Char) : kebab (kebab name) = kebab name := by
  rw [kebab, hyphenate_of_no_capital fun c mem => not_isUpper_of_isLower (isLower_of_mem_kebab mem)]
  exact lower_lower _

/-! The hyphens that are put in. -/

/-- Where a text has a capital of ASCII behind a character other than a hyphen. -/
def innerCapitals (text : List Char) : List Nat :=
  (List.range text.length).filter fun place =>
    text[place]?.any Char.isUpper && (text.take place).getLast?.any (· != '-')

/-- Where the hyphens before these capitals are in the result, behind those put in earlier. -/
def insertions (text : List Char) : List Nat :=
  (innerCapitals text).zipIdx.map fun (place, earlier) => place + earlier

/-- A text whose first character is at a place, without the characters at some places. -/
def withoutFrom (first : Nat) (places : List Nat) (text : List Char) : List Char :=
  ((text.zipIdx first).filter fun (_, place) => !places.contains place).map Prod.fst

def without (places : List Nat) (text : List Char) : List Char :=
  withoutFrom 0 places text

/-- The capitals that `hyphenate` meets from a place on. -/
def capitalsFrom (place : Nat) : (before : Option Char) → List Char → List Nat
  | _, [] => []
  | before, c :: rest =>
    if c.isUpper && before.any (· != '-') then place :: capitalsFrom (place + 1) (some c) rest
    else capitalsFrom (place + 1) (some c) rest

theorem capitalsFrom_eq (front rest : List Char) :
    capitalsFrom front.length front.getLast? rest =
      (List.range' front.length rest.length).filter fun place =>
        (front ++ rest)[place]?.any Char.isUpper &&
          ((front ++ rest).take place).getLast?.any (· != '-') := by
  induction rest generalizing front with
  | nil => rfl
  | cons c rest ih =>
    have further := ih (front ++ [c])
    rw [List.length_append, List.length_singleton, List.getLast?_concat, List.append_assoc,
      List.singleton_append] at further
    have here : (front ++ c :: rest)[front.length]? = some c := by simp
    rw [capitalsFrom, further, List.length_cons, List.range'_succ, List.filter_cons, here,
      List.take_left' rfl, Option.any_some]

theorem innerCapitals_eq (text : List Char) : innerCapitals text = capitalsFrom 0 none text := by
  rw [innerCapitals, List.range_eq_range']
  exact (capitalsFrom_eq [] text).symm

/-- The places of the hyphens that `hyphenate` puts in, with some put in before. -/
def insertionsFrom (place earlier : Nat) (before : Option Char) (text : List Char) : List Nat :=
  ((capitalsFrom place before text).zipIdx earlier).map fun (place, earlier) => place + earlier

theorem insertionsFrom_cons (place earlier : Nat) (before : Option Char) (c : Char)
    (rest : List Char) :
    insertionsFrom place earlier before (c :: rest) =
      if c.isUpper && before.any (· != '-') then
        (place + earlier) :: insertionsFrom (place + 1) (earlier + 1) (some c) rest
      else insertionsFrom (place + 1) earlier (some c) rest := by
  rw [insertionsFrom, capitalsFrom]
  split <;> rfl

theorem le_of_mem_insertionsFrom {place earlier inserted : Nat} {before : Option Char}
    {text : List Char} (h : inserted ∈ insertionsFrom place earlier before text) :
    place + earlier ≤ inserted := by
  induction text generalizing place earlier before with
  | nil => cases h
  | cons c rest ih =>
    rw [insertionsFrom_cons] at h
    split at h
    · rcases List.mem_cons.mp h with rfl | h
      · exact Nat.le_refl _
      · have := ih h
        omega
    · have := ih h
      omega

theorem withoutFrom_cons_of_mem {first : Nat} {places : List Nat} (mem : first ∈ places) (c : Char)
    (rest : List Char) :
    withoutFrom first places (c :: rest) = withoutFrom (first + 1) places rest := by
  rw [withoutFrom, List.zipIdx_cons, List.filter_cons_of_neg (by simpa using mem)]
  rfl

theorem withoutFrom_cons_of_not_mem {first : Nat} {places : List Nat} (other : first ∉ places)
    (c : Char) (rest : List Char) :
    withoutFrom first places (c :: rest) = c :: withoutFrom (first + 1) places rest := by
  rw [withoutFrom, List.zipIdx_cons, List.filter_cons_of_pos (by simpa using other)]
  rfl

/-- A place that the text has behind it makes no difference. -/
theorem withoutFrom_cons_place {first place : Nat} (behind : place < first) (places : List Nat)
    (text : List Char) :
    withoutFrom first (place :: places) text = withoutFrom first places text := by
  refine congrArg _ (List.filter_congr fun entry mem => ?_)
  have from_first := List.le_snd_of_mem_zipIdx mem
  have other : entry.2 ≠ place := by omega
  simp [other]

/-- Where the hyphens that were put in go, the text is left. -/
theorem withoutFrom_hyphenate (place earlier : Nat) (before : Option Char) (text : List Char) :
    withoutFrom (place + earlier) (insertionsFrom place earlier before text)
      (hyphenate before text) = text := by
  induction text generalizing place earlier before with
  | nil => rfl
  | cons c rest ih =>
    rw [insertionsFrom_cons, hyphenate_cons]
    split
    · have later : place + earlier + 1 ∉ insertionsFrom (place + 1) (earlier + 1) (some c) rest :=
        fun mem => by
          have := le_of_mem_insertionsFrom mem
          omega
      have next : place + earlier + 1 + 1 = place + 1 + (earlier + 1) := by omega
      rw [withoutFrom_cons_of_mem List.mem_cons_self,
        withoutFrom_cons_place (Nat.lt_succ_self _), withoutFrom_cons_of_not_mem later, next, ih]
    · have later : place + earlier ∉ insertionsFrom (place + 1) earlier (some c) rest :=
        fun mem => by
          have := le_of_mem_insertionsFrom mem
          omega
      rw [withoutFrom_cons_of_not_mem later, Nat.add_right_comm, ih]

/-- Hyphens are put in there, and nothing else. -/
theorem hyphen_of_mem_insertionsFrom {place earlier inserted : Nat} {before : Option Char}
    {text : List Char} (h : inserted ∈ insertionsFrom place earlier before text) :
    ('-', inserted) ∈ (hyphenate before text).zipIdx (place + earlier) := by
  induction text generalizing place earlier before with
  | nil => cases h
  | cons c rest ih =>
    rw [insertionsFrom_cons] at h
    rw [hyphenate_cons]
    split at h
    · next capital =>
      rw [if_pos capital, List.zipIdx_cons, List.zipIdx_cons]
      rcases List.mem_cons.mp h with rfl | h
      · exact List.mem_cons_self
      · have next : place + earlier + 1 + 1 = place + 1 + (earlier + 1) := by omega
        rw [next]
        exact List.mem_cons_of_mem _ (List.mem_cons_of_mem _ (ih h))
    · next other =>
      rw [if_neg other, List.zipIdx_cons, Nat.add_right_comm]
      exact List.mem_cons_of_mem _ (ih h)

theorem insertions_eq (text : List Char) : insertions text = insertionsFrom 0 0 none text := by
  rw [insertions, innerCapitals_eq]
  rfl

theorem ascii_hyphenate {text : List Char} (ascii : ∀ c ∈ text, c.toNat < 128)
    (before : Option Char) : ∀ c ∈ hyphenate before text, c.toNat < 128 := by
  induction text generalizing before with
  | nil => simp [hyphenate]
  | cons c rest ih =>
    simp only [List.mem_cons, forall_eq_or_imp] at ascii
    have further := ih ascii.2 (some c)
    rw [hyphenate_cons]
    split
    · simpa only [List.mem_cons, forall_eq_or_imp] using ⟨by decide, ascii.1, further⟩
    · simpa only [List.mem_cons, forall_eq_or_imp] using ⟨ascii.1, further⟩

theorem withoutFrom_map (first : Nat) (places : List Nat) (f : Char → Char) (text : List Char) :
    withoutFrom first places (text.map f) = (withoutFrom first places text).map f := by
  rw [withoutFrom, List.zipIdx_map, List.filter_map, List.map_map, withoutFrom, List.map_map]
  rfl

/-- Kebab case is left as it is and has no capital. In ASCII, it is the lower case of the name
once the hyphens before the capitals within are taken out again. -/
theorem kebabCase_settled (name : String) :
    kebabCase (kebabCase name) = kebabCase name ∧
      (∀ c ∈ (kebabCase name).toList, c.isUpper = false) ∧
      ((∀ c ∈ name.toList, c.toNat < 128) →
        (∀ place ∈ insertions name.toList, (kebabCase name).toList[place]? = some '-') ∧
          without (insertions name.toList) (kebabCase name).toList = lower name.toList) := by
  simp only [kebabCase, String.toList_ofList]
  refine ⟨congrArg _ (kebab_kebab _),
    fun c mem => not_isUpper_of_isLower (isLower_of_mem_kebab mem), fun ascii => ?_⟩
  have lowered : kebab name.toList = (hyphenate none name.toList).map Char.toLower :=
    lower_of_ascii (ascii_hyphenate ascii none)
  rw [lowered, insertions_eq, lower_of_ascii ascii]
  constructor
  · intro place mem
    have hyphen := List.mem_zipIdx_iff_getElem?.mp (hyphen_of_mem_insertionsFrom mem)
    rw [List.getElem?_map, hyphen]
    rfl
  · rw [without, withoutFrom_map]
    exact congrArg _ (withoutFrom_hyphenate 0 0 none name.toList)

/-- A capital behind a hyphen, one behind a digit and two in a row. -/
theorem kebabCase_settled_capitals :
    insertions "-Row-gapX2YY".toList = [8, 11, 13] ∧ kebabCase "-Row-gapX2YY" = "-row-gap-x2-y-y" ∧
      (∀ place ∈ [8, 11, 13], "-row-gap-x2-y-y".toList[place]? = some '-') ∧
      without [8, 11, 13] "-row-gap-x2-y-y".toList = "-row-gapx2yy".toList := by
  have places : insertions "-Row-gapX2YY".toList = [8, 11, 13] := by decide
  have kebab : kebabCase "-Row-gapX2YY" = "-row-gap-x2-y-y" := rfl
  have lowered : lower "-Row-gapX2YY".toList = "-row-gapx2yy".toList := rfl
  obtain ⟨-, -, taken_out⟩ := kebabCase_settled "-Row-gapX2YY"
  have taken_out := taken_out (by simp)
  rw [places, kebab, lowered] at taken_out
  exact ⟨places, kebab, taken_out⟩

end PropertyName
end ThemeSheet
