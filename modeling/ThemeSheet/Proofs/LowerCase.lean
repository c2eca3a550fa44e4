import ThemeSheet.Proofs.Masking
import ThemeSheet.Text.Lowercase

namespace ThemeSheet.Text

/-! Lower-casing changes letters into letters and leaves everything else in ASCII where it is. -/

/-- An ASCII letter, or anything outside ASCII. -/
def isLetter (c : Char) : Bool :=
  c.isAlpha || 128 ≤ c.toNat

theorem toNat_lt_of_not_isLetter {c : Char} (h : isLetter c = false) : c.toNat < 128 := by
  simp [isLetter] at h
  omega

theorem toLower_of_not_isLetter {c : Char} (h : isLetter c = false) : c.toLower = c := by
  have small := toNat_lt_of_not_isLetter h
  have := of_ascii (fun c => isLetter c || c.toLower == c) small (by decide)
  simpa [h] using this

theorem isLetter_of_isUpper {c : Char} (h : c.isUpper = true) : isLetter c = true := by
  by_cases small : c.toNat < 128
  · have := of_ascii (fun c => !c.isUpper || isLetter c) small (by decide)
    simpa [h] using this
  · simp [isLetter]
    omega

theorem isLetter_toLower {c : Char} (h : isLetter c = true) (small : c.toNat < 128) :
    isLetter c.toLower = true := by
  have := of_ascii (fun c => !isLetter c || isLetter c.toLower) small (by decide)
  simpa [h] using this

/-- The table leads out of ASCII, but for the Kelvin sign, whose lower case is the letter k. -/
theorem caseRuns_leave_ascii : ∀ run ∈ caseRuns,
    run.first + run.shift = 'k'.toNat ∧ run.last = run.first ∨
      128 ≤ run.first + run.shift ∧
        (run.last + run.shift < 0xD800 ∨
          0xDFFF < run.first + run.shift ∧ run.last + run.shift < 0x110000) := by
  decide +kernel

theorem isLetter_ofNat {n : Nat} (valid : n.isValidChar) (h : n = 'k'.toNat ∨ 128 ≤ n) :
    isLetter (Char.ofNat n) = true := by
  rcases h with rfl | wide
  · decide
  · have same : (Char.ofNat n).toNat = n := by
      rw [Char.ofNat, dif_pos valid]
      rfl
    simp [isLetter, same, wide]

theorem CaseRun.covers_iff {run : CaseRun} {n : Nat} :
    run.covers n = true ↔ run.first ≤ n ∧ n ≤ run.last ∧ (n - run.first) % run.step = 0 := by
  simp [CaseRun.covers, and_assoc]

theorem isLetter_of_caseRun {run : CaseRun} {n : Nat} (mem : run ∈ caseRuns)
    (covers : run.covers n = true) : isLetter (Char.ofNat (n + run.shift).toNat) = true := by
  obtain ⟨low, high, -⟩ := CaseRun.covers_iff.mp covers
  have far := caseRuns_leave_ascii run mem
  have k : 'k'.toNat = 107 := rfl
  refine isLetter_ofNat ?_ ?_
  · unfold Nat.isValidChar
    omega
  · omega

theorem lowerChar_of_not_isLetter {c : Char} (h : isLetter c = false) : lowerChar c = [c] := by
  rw [lowerChar, if_pos (toNat_lt_of_not_isLetter h), toLower_of_not_isLetter h]

theorem lowerChar_of_isLetter {c : Char} (h : isLetter c = true) :
    lowerChar c ≠ [] ∧ ∀ d ∈ lowerChar c, isLetter d = true := by
  rw [lowerChar]
  split
  · next small => simpa using isLetter_toLower h small
  split
  · simp [isLetter]
  split
  · next run found =>
    have covers : run.covers c.toNat = true := by simpa using List.find?_some found
    simpa using isLetter_of_caseRun (List.mem_of_find?_eq_some found) covers
  · simpa using h

variable {before rest : List Char} {c : Char}

/-- The one letter whose lower case hangs on what surrounds it is not in ASCII. -/
theorem ne_sigma_of_ascii (small : c.toNat < 128) : (c == 'Σ') = false := by
  apply beq_false_of_ne
  rintro rfl
  exact absurd small (by decide)

theorem lowerAfter_cons_of_not_isLetter (h : isLetter c = false) :
    lowerAfter before (c :: rest) = c :: lowerAfter (c :: before) rest := by
  simp [lowerAfter, ne_sigma_of_ascii (toNat_lt_of_not_isLetter h), lowerChar_of_not_isLetter h]

theorem lowerAfter_cons_of_isLetter (before rest : List Char) (h : isLetter c = true) :
    ∃ lowered, lowered ≠ [] ∧ (∀ d ∈ lowered, isLetter d = true) ∧
      lowerAfter before (c :: rest) = lowered ++ lowerAfter (c :: before) rest := by
  rw [lowerAfter]
  refine ⟨_, ?_, ?_, rfl⟩ <;> split
  · simp
  · exact (lowerChar_of_isLetter h).1
  · simp only [List.mem_singleton, forall_eq]
    split <;> decide
  · exact (lowerChar_of_isLetter h).2

theorem lower_of_ascii {text : List Char} (ascii : ∀ c ∈ text, c.toNat < 128) :
    lower text = text.map Char.toLower := by
  have each : ∀ before, lowerAfter before text = text.map Char.toLower := by
    induction text with
    | nil => exact fun _ => rfl
    | cons c text ih =>
      intro before
      simp only [List.mem_cons, forall_eq_or_imp] at ascii
      simp [lowerAfter, ne_sigma_of_ascii ascii.1, lowerChar, ascii.1, ih ascii.2]
  exact each []

/-- Lower-casing neither makes nor removes what is not a letter. -/
theorem mem_lowerAfter_iff (h : isLetter c = false) (text : List Char) :
    c ∈ lowerAfter before text ↔ c ∈ text := by
  induction text generalizing before with
  | nil => rfl
  | cons d rest ih =>
    cases letter : isLetter d with
    | false => rw [lowerAfter_cons_of_not_isLetter letter, List.mem_cons, List.mem_cons, ih]
    | true =>
      obtain ⟨lowered, -, letters, eq⟩ := lowerAfter_cons_of_isLetter before rest letter
      have here : c ∉ lowered := fun mem => by simp [letters c mem] at h
      have there : c ≠ d := fun same => by simp [same, letter] at h
      rw [eq, List.mem_append, List.mem_cons, ih, or_iff_right here, or_iff_right there]

/-! A hyphen ends a word: no letter looks past it. -/

theorem meetsCased_append_hyphen (text rest : List Char) :
    meetsCased (text ++ '-' :: rest) = meetsCased text := by
  have hyphen : isCaseIgnorable '-' = false := by simp [isCaseIgnorable]
  induction text with
  | nil => simp [meetsCased, hyphen, isCased]
  | cons c text ih =>
    cases skip : isCaseIgnorable c with
    | false => simp [meetsCased, skip]
    | true =>
      rw [meetsCased, meetsCased, List.cons_append, List.dropWhile_cons_of_pos skip,
        List.dropWhile_cons_of_pos skip]
      exact ih

theorem lowerAfter_before_hyphen (text : List Char) :
    lowerAfter (before ++ '-' :: rest) text = lowerAfter before text := by
  induction text generalizing before with
  | nil => rfl
  | cons c text ih =>
    rw [lowerAfter, lowerAfter, meetsCased_append_hyphen, ← List.cons_append, ih]

theorem lowerAfter_append_hyphen (text rest : List Char) :
    lowerAfter before (text ++ '-' :: rest) = lowerAfter before text ++ '-' :: lower rest := by
  induction text generalizing before with
  | nil =>
    rw [List.nil_append, lowerAfter_cons_of_not_isLetter (by decide)]
    exact congrArg ('-' :: ·) (@lowerAfter_before_hyphen [] before rest)
  | cons c text ih =>
    rw [List.cons_append, lowerAfter, lowerAfter, meetsCased_append_hyphen, ih, List.append_assoc]

theorem lower_append_hyphen (text rest : List Char) :
    lower (text ++ '-' :: rest) = lower text ++ '-' :: lower rest :=
  lowerAfter_append_hyphen text rest

end ThemeSheet.Text
