import Mathlib.Data.List.TakeWhile
import ThemeSheet.Proofs.Requoted

/-! A string is read part by part, where no escape reaches from one into the next. -/

namespace ThemeSheet.Literal

open Text

/-- A run in front ends with it, if what follows does not go on. -/
theorem run_before {α : Type} {p : α → Bool} {tail : List α}
    (ends : ∀ a ∈ tail.head?, p a = false) (front : List α) :
    (front ++ tail).dropWhile p = front.dropWhile p ++ tail ∧
      (front ++ tail).takeWhile p = front.takeWhile p := by
  induction front with
  | nil =>
    cases tail with
    | nil => exact ⟨rfl, rfl⟩
    | cons a tail => simp [ends a rfl]
  | cons a front ih =>
    cases goes : p a with
    | true => simp [goes, ih.1, ih.2]
    | false => simp [goes]

/-! Backslashes at the end. -/

def isBackslash (c : Char) : Bool :=
  c == '\\'

/-- How many backslashes end a text. -/
def backslashes (text : List Char) : Nat :=
  (text.reverse.takeWhile isBackslash).length

/-- A text whose last backslash escapes what follows. -/
def escapesNext (text : List Char) : Bool :=
  backslashes text % 2 == 1

theorem backslashes_append (a b : List Char) :
    backslashes (a ++ b) =
      if b.all isBackslash then backslashes a + b.length else backslashes b := by
  rw [backslashes, List.reverse_append, List.takeWhile_append]
  by_cases all : b.all isBackslash = true
  · have whole : b.reverse.takeWhile isBackslash = b.reverse :=
      List.takeWhile_eq_self_iff.mpr fun c mem =>
        List.all_eq_true.mp all c (List.mem_reverse.mp mem)
    rw [if_pos all, whole, if_pos rfl, List.length_append, List.length_reverse, backslashes,
      Nat.add_comm]
  · rw [if_neg all, if_neg]
    · rfl
    · intro whole
      refine all (List.all_eq_true.mpr fun c mem => ?_)
      have same := List.takeWhile_sublist (l := b.reverse) isBackslash |>.eq_of_length whole
      exact List.takeWhile_eq_self_iff.mp same c (List.mem_reverse.mpr mem)

theorem backslashes_all {b : List Char} (all : b.all isBackslash = true) :
    backslashes b = b.length := by
  have whole := backslashes_append [] b
  rw [if_pos all] at whole
  exact whole.trans (Nat.zero_add _)

/-- Two more characters in front, the first a backslash, change nothing about the end. -/
theorem escapesNext_escaped (c : Char) (rest : List Char) :
    escapesNext ('\\' :: c :: rest) = escapesNext rest := by
  have whole := backslashes_append ['\\', c] rest
  change backslashes ('\\' :: c :: rest) = _ at whole
  rw [escapesNext, escapesNext, whole]
  split
  · rename_i all
    have pair : backslashes ['\\', c] % 2 = 0 := by
      by_cases slash : c = '\\'
      · subst slash
        rfl
      · simp [backslashes, isBackslash, slash]
    rw [backslashes_all all, Nat.add_mod, pair, Nat.zero_add, Nat.mod_mod]
  · rfl

theorem escapesNext_plain {c : Char} (slash : c ≠ '\\') (rest : List Char) :
    escapesNext (c :: rest) = escapesNext rest := by
  have whole := backslashes_append [c] rest
  change backslashes (c :: rest) = _ at whole
  rw [escapesNext, escapesNext, whole]
  split
  · rename_i all
    have none : backslashes [c] = 0 := by simp [backslashes, isBackslash, slash]
    rw [backslashes_all all, none, Nat.zero_add]
  · rfl

theorem escapesNext_behind {front : List Char} (none : '\\' ∉ front) (rest : List Char) :
    escapesNext (front ++ rest) = escapesNext rest := by
  induction front with
  | nil => rfl
  | cons c front ih =>
    have slash : c ≠ '\\' := fun same => none (same ▸ List.mem_cons_self)
    rw [List.cons_append, escapesNext_plain slash, ih fun mem => none (List.mem_cons_of_mem c mem)]

/-- A backslash that escapes what follows is the last character. -/
theorem escapesNext_concat (text : List Char) :
    escapesNext (text ++ ['\\']) = !escapesNext text := by
  have whole := backslashes_append text ['\\']
  rw [if_pos (by decide)] at whole
  rw [escapesNext, escapesNext, whole, List.length_singleton]
  rcases Nat.mod_two_eq_zero_or_one (backslashes text) with even | odd
  · simp [even, Nat.add_mod]
  · simp [odd, Nat.add_mod]

theorem concat_of_escapesNext {text : List Char} (h : escapesNext text = true) :
    ∃ front, text = front ++ ['\\'] ∧ escapesNext front = false := by
  rcases List.eq_nil_or_concat text with rfl | ⟨front, c, rfl⟩
  · cases h
  · rw [List.concat_eq_append] at h ⊢
    have last := backslashes_append front [c]
    by_cases slash : c = '\\'
    · subst slash
      rw [escapesNext_concat] at h
      exact ⟨front, rfl, by simpa using h⟩
    · have none : backslashes [c] = 0 := by simp [backslashes, isBackslash, slash]
      rw [if_neg (by simp [isBackslash, slash]), none] at last
      rw [escapesNext, last] at h
      cases h

/-! Escapes that are over. -/

section Behind

variable {more : List Char} (dark : ∀ c ∈ more.head?, guides c = false)

include dark

theorem not_isHex_behind : ∀ c ∈ more.head?, isHex c = false := by
  intro c first
  have := dark c first
  simp only [guides, Bool.or_eq_false_iff] at this
  exact this.1.1

theorem bracedEscape?_append (text : List Char) :
    bracedEscape? (text ++ more) =
      (bracedEscape? text).map fun (n, after) => (n, after ++ more) := by
  obtain ⟨dropped, taken⟩ := run_before (not_isHex_behind dark) text
  unfold bracedEscape?
  rw [dropped, taken]
  cases text.dropWhile isHex with
  | nil =>
    cases more with
    | nil => rfl
    | cons c more =>
      have := dark c rfl
      simp only [guides, Bool.or_eq_false_iff, beq_eq_false_iff_ne] at this
      simp [this.2]
  | cons c rest =>
    by_cases brace : c = '}'
    · subst brace
      cases none : (text.takeWhile isHex).isEmpty <;> simp [none]
    · simp [brace]

theorem fixedEscape?_append (width : Nat) (text : List Char) :
    fixedEscape? width (text ++ more) =
      (fixedEscape? width text).map fun (n, after) => (n, after ++ more) := by
  obtain ⟨dropped, taken⟩ := run_before (not_isHex_behind dark) text
  rw [fixedEscape?_eq, fixedEscape?_eq, dropped, taken]
  split
  · simp
  · rfl

theorem escape_append (c : Char) (text : List Char) :
    escape c (text ++ more) = ((escape c text).1, (escape c text).2 ++ more) := by
  have numeric : numericEscape? c (text ++ more) =
      (numericEscape? c text).map fun (n, after) => (n, after ++ more) := by
    unfold numericEscape?
    split
    · cases text with
      | nil =>
        have fixed := fixedEscape?_append dark 4 []
        rw [List.nil_append] at fixed ⊢
        cases more with
        | nil => exact fixed
        | cons d more =>
          have := dark d rfl
          simp only [guides, Bool.or_eq_false_iff, beq_eq_false_iff_ne] at this
          simpa [this.1.2] using fixed
      | cons first text =>
        by_cases brace : first = '{'
        · subst brace
          exact bracedEscape?_append dark text
        · have fixed := fixedEscape?_append dark 4 (first :: text)
          rw [List.cons_append] at fixed ⊢
          simpa [brace] using fixed
    · split
      · exact fixedEscape?_append dark 2 text
      · rfl
  rw [escape_eq, escape_eq, numeric]
  cases numericEscape? c text <;> rfl

end Behind

/-- An escape takes no backslash away. -/
theorem escape_takes (c : Char) (text : List Char) :
    ∃ taken, text = taken ++ (escape c text).2 ∧ '\\' ∉ taken := by
  have fixed {width n : Nat} {after : List Char} (h : fixedEscape? width text = some (n, after)) :
      ∃ taken, text = taken ++ after ∧ '\\' ∉ taken := by
    unfold fixedEscape? at h
    dsimp only at h
    split at h
    · rename_i whole
      cases h
      refine ⟨text.take width, (List.take_append_drop width text).symm, fun mem => ?_⟩
      exact absurd (List.all_eq_true.mp whole.2 _ mem) (by decide)
    · cases h
  have numeric {n : Nat} {after : List Char} (h : numericEscape? c text = some (n, after)) :
      ∃ taken, text = taken ++ after ∧ '\\' ∉ taken := by
    unfold numericEscape? at h
    split at h
    · split at h
      · rename_i inner
        have split := List.takeWhile_append_dropWhile (p := isHex) (l := inner)
        unfold bracedEscape? at h
        dsimp only at h
        split at h
        · rename_i after' brace
          split at h
          · cases h
          · cases h
            refine ⟨'{' :: (inner.takeWhile isHex ++ ['}']), ?_, fun mem => ?_⟩
            · rw [brace] at split
              conv_lhs => rw [← split]
              simp
            · simp only [List.mem_cons, List.mem_append, List.not_mem_nil, or_false] at mem
              rcases mem with mem | mem | mem
              · cases mem
              · exact absurd (List.all_eq_true.mp List.all_takeWhile _ mem) (by decide)
              · cases mem
        · cases h
      · exact fixed h
    · split at h
      · exact fixed h
      · cases h
  rw [escape_eq]
  cases found : numericEscape? c text with
  | none => exact ⟨[], rfl, by simp⟩
  | some result => exact numeric found

/-- Behind what ends no escape and begins none, code points follow as they would alone. -/
theorem codePoints_append {text more : List Char} (done : escapesNext text = false)
    (dark : ∀ c ∈ more.head?, guides c = false) :
    codePoints (text ++ more) = codePoints text ++ codePoints more := by
  fun_induction codePoints text with
  | case1 => rfl
  | case2 c rest _ ih =>
    obtain ⟨taken, eq, none⟩ := escape_takes c rest
    rw [escapesNext_escaped, eq, escapesNext_behind none] at done
    rw [List.cons_append, List.cons_append, codePoints, escape_append dark, ih done,
      List.append_assoc]
  | case3 c rest pair ih =>
    have slash : c ≠ '\\' := by
      rintro rfl
      cases rest with
      | nil => cases done
      | cons d rest => exact pair d rest rfl rfl
    rw [escapesNext_plain slash] at done
    have plain := means_plain slash (rest ++ more)
    rw [ih done] at plain
    exact plain

/-! The values of parts. -/

theorem joinSurrogates_append {points more : List Nat}
    (apart : ∀ n ∈ more.head?, isLowSurrogate n = false) :
    joinSurrogates (points ++ more) = joinSurrogates points ++ joinSurrogates more := by
  fun_induction joinSurrogates points with
  | case1 => rfl
  | case2 n =>
    cases more with
    | nil => rfl
    | cons m more => simp [joinSurrogates, apart m rfl]
  | case3 n m rest joined ih => simpa [joinSurrogates, joined] using ih
  | case4 n m rest apart' ih => simpa [joinSurrogates, apart'] using ih

/-- The string of some code points, or the fault of the first that is none. -/
def readPoints (site : Site) (points : List Nat) : Except Fault String :=
  match points.find? (maxCodePoint < ·) with
  | some point =>
    .error (.noValue site (if point < 0x80000000 then .noCodePoint else .hugeCodePoint))
  | none => .ok (String.ofList (joinSurrogates points))

theorem readString_points (site : Site) (body : List Char) :
    readString site body = readPoints site (codePoints body) := rfl

theorem readPoints_append {points more : List Nat}
    (apart : ∀ n ∈ more.head?, isLowSurrogate n = false) (site : Site) :
    readPoints site (points ++ more) = do
      return (← readPoints site points) ++ (← readPoints site more) := by
  unfold readPoints
  rw [List.find?_append, joinSurrogates_append apart]
  cases points.find? (maxCodePoint < ·) with
  | some => rfl
  | none =>
    cases more.find? (maxCodePoint < ·) with
    | some => rfl
    | none => simp [pure, Except.pure, bind, Except.bind]

/-- Characters in front stand for themselves. -/
theorem readPoints_chars (site : Site) (text : List Char) (points : List Nat) :
    readPoints site (text.map Char.toNat ++ points) = do
      return String.ofList text ++ (← readPoints site points) := by
  have none : (text.map Char.toNat).find? (maxCodePoint < ·) = none := by
    refine List.find?_eq_none.mpr fun n mem => ?_
    obtain ⟨c, -, rfl⟩ := List.mem_map.mp mem
    have valid : c.toNat < 0xD800 ∨ 0xDFFF < c.toNat ∧ c.toNat < 0x110000 := c.valid
    have small : c.toNat ≤ maxCodePoint := by
      simp only [maxCodePoint]
      omega
    simpa using small
  have joined : joinSurrogates (text.map Char.toNat ++ points) =
      text ++ joinSurrogates points := by
    clear none
    induction text with
    | nil => rfl
    | cons c text ih =>
      rw [List.map_cons, List.cons_append, joinSurrogates_char, ih]
      rfl
  unfold readPoints
  rw [List.find?_append, none, joined, Option.none_or]
  cases points.find? (maxCodePoint < ·) with
  | some => rfl
  | none => simp [pure, Except.pure, bind, Except.bind]

theorem codePoints_plain {text : List Char} (none : '\\' ∉ text) (rest : List Char) :
    codePoints (text ++ rest) = text.map Char.toNat ++ codePoints rest := by
  induction text with
  | nil => rfl
  | cons c text ih =>
    have slash : c ≠ '\\' := fun same => none (same ▸ List.mem_cons_self)
    have plain := means_plain slash (text ++ rest)
    rw [ih fun mem => none (List.mem_cons_of_mem c mem)] at plain
    exact plain

/-- A string without escapes is read as it is. -/
theorem readString_plain (site : Site) {text : List Char} (none : '\\' ∉ text) :
    readString site text = .ok (String.ofList text) := by
  have points := codePoints_plain none []
  rw [List.append_nil, codePoints] at points
  rw [readString_points, points, readPoints_chars]
  simp [readPoints, joinSurrogates, pure, Except.pure, bind, Except.bind]

end ThemeSheet.Literal
