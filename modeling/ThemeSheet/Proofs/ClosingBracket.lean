import Mathlib.Data.List.Infix
import Mathlib.Order.Bounds.Basic
import ThemeSheet.Proofs.Brackets

/-! The bracket that closes another, found by counting in the code alone: what stands in strings and
comments is skipped. -/

namespace ThemeSheet.Literal

/-- The code of a text whose first character stands at `place`: each character with its place, but
for those of strings and comments. -/
def codeFrom (place : Nat) (text : List Char) : List (Nat × Char) :=
  match h : afterOpaque? text with
  | some rest =>
    have : rest.length < text.length := afterOpaque?_length_lt h
    codeFrom (place + (text.length - rest.length)) rest
  | none =>
    match text with
    | [] => []
    | c :: rest => (place, c) :: codeFrom (place + 1) rest
termination_by text.length

/-- The places of code from an index on. -/
def codePlaces (text : List Char) (index : Nat) : List Nat :=
  (codeFrom index (text.drop index)).map Prod.fst

/-- How often a character stands in the code from `index` up to `place`, that place included. -/
def codeCount (text : List Char) (index place : Nat) (c : Char) : Nat :=
  ((codePlaces text index).filter (· ≤ place)).countP (text[·]? == some c)

/-- A place of code up to which as many brackets are closed as are opened. -/
def EvenAt (opening closing : Char) (text : List Char) (index place : Nat) : Prop :=
  place ∈ codePlaces text index ∧
    codeCount text index place closing = codeCount text index place opening

/-! Code is read from left to right, and from each of its places on as if the text began there. -/

theorem codeFrom_of_afterOpaque? {place : Nat} {text rest : List Char}
    (h : afterOpaque? text = some rest) :
    codeFrom place text = codeFrom (place + (text.length - rest.length)) rest := by
  rw [codeFrom]
  split
  · rename_i found
    rw [h] at found
    cases found
    rfl
  · rename_i none
    rw [h] at none
    cases none

theorem codeFrom_cons {place : Nat} {c : Char} {rest : List Char}
    (h : afterOpaque? (c :: rest) = none) :
    codeFrom place (c :: rest) = (place, c) :: codeFrom (place + 1) rest := by
  rw [codeFrom]
  split
  · rename_i found
    rw [h] at found
    cases found
  · rfl

@[simp] theorem codeFrom_nil (place : Nat) : codeFrom place [] = [] := by
  rw [codeFrom]
  rfl

theorem afterString_suffix (quote : Char) (text : List Char) : afterString quote text <:+ text := by
  fun_induction afterString quote text with
  | case1 | case2 => exact List.nil_suffix
  | case3 c rest ih => exact ih.trans (List.suffix_append ['\\', c] rest)
  | case4 rest => exact List.suffix_cons quote rest
  | case5 => exact List.suffix_rfl
  | case6 c rest _ _ _ _ ih => exact ih.trans (List.suffix_cons c rest)

theorem afterBlockComment_suffix (text : List Char) : afterBlockComment text <:+ text := by
  fun_induction afterBlockComment text with
  | case1 => exact List.nil_suffix
  | case2 rest => exact List.suffix_append ['*', '/'] rest
  | case3 c rest _ ih => exact ih.trans (List.suffix_cons c rest)

/-- What follows a string or a comment is the end of the text it stands in. -/
theorem afterOpaque?_suffix {text rest : List Char} (h : afterOpaque? text = some rest) :
    rest <:+ text := by
  unfold afterOpaque? at h
  split at h
  · rename_i tail
    cases h
    exact (List.dropWhile_suffix _).trans (List.suffix_append ['/', '/'] tail)
  · rename_i tail
    cases h
    exact (afterBlockComment_suffix tail).trans (List.suffix_append ['/', '*'] tail)
  · rename_i c tail _ _
    split at h
    · cases h
      exact (afterString_suffix c tail).trans (List.suffix_cons c tail)
    · cases h
  · cases h

/-- Code is read again in the same way from each of its places. -/
theorem codeFrom_drop {place : Nat} {text : List Char} {front back : List (Nat × Char)} {k : Nat}
    {c : Char} (h : codeFrom place text = front ++ (k, c) :: back) :
    place ≤ k ∧ ∃ rest, text.drop (k - place) = c :: rest ∧ back = codeFrom (k + 1) rest ∧
      afterOpaque? (c :: rest) = none := by
  fun_induction codeFrom place text generalizing front with
  | case1 place text rest found shorter ih =>
    obtain ⟨after, tail, dropped, again⟩ := ih h
    refine ⟨by omega, tail, ?_, again⟩
    have skipped := List.suffix_iff_eq_drop.mp (afterOpaque?_suffix found)
    rw [← dropped, skipped, List.drop_drop]
    congr 1
    simp only [List.length_drop]
    omega
  | case2 => simp at h
  | case3 place first rest code ih =>
    cases front with
    | nil =>
      simp only [List.nil_append, List.cons.injEq, Prod.mk.injEq] at h
      obtain ⟨⟨rfl, rfl⟩, rfl⟩ := h
      exact ⟨le_rfl, rest, by simp, rfl, code⟩
    | cons entry front =>
      simp only [List.cons_append, List.cons.injEq] at h
      obtain ⟨after, tail, dropped, again⟩ := ih h.2
      refine ⟨by omega, tail, ?_, again⟩
      rw [← dropped, show k - place = (k - (place + 1)) + 1 by omega, List.drop_succ_cons]

/-- The places of code come one after the other. -/
theorem pairwise_codeFrom (place : Nat) (text : List Char) :
    (codeFrom place text).Pairwise (fun a b => a.1 < b.1) ∧
      ∀ entry ∈ codeFrom place text, place ≤ entry.1 := by
  fun_induction codeFrom place text with
  | case1 place text rest found shorter ih =>
    exact ⟨ih.1, fun entry mem => by have := ih.2 entry mem; omega⟩
  | case2 => simp
  | case3 place first rest code ih =>
    refine ⟨List.pairwise_cons.mpr ⟨fun entry mem => ?_, ih.1⟩, fun entry mem => ?_⟩
    · have := ih.2 entry mem
      simp only
      omega
    · rcases List.mem_cons.mp mem with rfl | mem
      · exact le_rfl
      · have := ih.2 entry mem
        omega

/-! The scan as a scan of the code. -/

/-- How often a character stands in some code. -/
def occurrences (c : Char) (code : List (Nat × Char)) : Nat :=
  code.countP (·.2 == c)

@[simp] theorem occurrences_nil (c : Char) : occurrences c [] = 0 := rfl

@[simp] theorem occurrences_cons (c : Char) (entry : Nat × Char) (code : List (Nat × Char)) :
    occurrences c (entry :: code) = occurrences c code + if entry.2 = c then 1 else 0 := by
  simp [occurrences, List.countP_cons]

@[simp] theorem occurrences_append (c : Char) (a b : List (Nat × Char)) :
    occurrences c (a ++ b) = occurrences c a + occurrences c b :=
  List.countP_append

/-- More brackets are open than closed in all of a stretch of code that `depth` open ones precede. -/
def StaysOpen (opening closing : Char) (depth : Nat) (code : List (Nat × Char)) : Prop :=
  ∀ front, front <+: code → occurrences closing front < occurrences opening front + depth

/-- The place where a stretch of code closes the last of `depth` open brackets. -/
def ClosesAt (opening closing : Char) (depth : Nat) (code : List (Nat × Char)) (place : Nat) :
    Prop :=
  ∃ front back, code = front ++ (place, closing) :: back ∧ StaysOpen opening closing depth front ∧
    occurrences closing front + 1 = occurrences opening front + depth

variable {opening closing : Char} {depth : Nat}

theorem StaysOpen.cons {entry : Nat × Char} {code : List (Nat × Char)} {later : Nat}
    (some : 0 < depth)
    (step : later + (if entry.2 = closing then 1 else 0) =
      depth + if entry.2 = opening then 1 else 0)
    (h : StaysOpen opening closing later code) : StaysOpen opening closing depth (entry :: code) := by
  intro front pre
  cases front with
  | nil => simpa using some
  | cons first front =>
    obtain ⟨rfl, inner⟩ := List.cons_prefix_cons.mp pre
    have := h front inner
    simp only [occurrences_cons]
    omega

theorem ClosesAt.cons {entry : Nat × Char} {code : List (Nat × Char)} {later place : Nat}
    (some : 0 < depth)
    (step : later + (if entry.2 = closing then 1 else 0) =
      depth + if entry.2 = opening then 1 else 0)
    (h : ClosesAt opening closing later code place) :
    ClosesAt opening closing depth (entry :: code) place := by
  obtain ⟨front, back, rfl, opens, last⟩ := h
  refine ⟨entry :: front, back, rfl, opens.cons some step, ?_⟩
  simp only [occurrences_cons]
  omega

/-- What a scan may answer for a text at `place`: what follows the place where its code closes its
brackets, or nothing because it never does. -/
def Answers (opening closing : Char) (depth place : Nat) (text : List Char) :
    Option (List Char) → Prop
  | some rest => ClosesAt opening closing depth (codeFrom place text)
      (place + (text.length - rest.length - 1))
  | none => StaysOpen opening closing depth (codeFrom place text)

theorem Answers.cons {place later : Nat} {c : Char} {rest : List Char} (inner : 0 < depth)
    (code : afterOpaque? (c :: rest) = none)
    (step : later + (if c = closing then 1 else 0) = depth + if c = opening then 1 else 0)
    (h : Answers opening closing later (place + 1) rest (afterClose? opening closing later rest)) :
    Answers opening closing depth place (c :: rest) (afterClose? opening closing later rest) := by
  unfold Answers at h ⊢
  rw [codeFrom_cons code]
  split at h
  · rename_i after closed
    have shorter := afterClose?_length_lt closed
    have same : place + 1 + (rest.length - after.length - 1) =
        place + ((c :: rest).length - after.length - 1) := by
      simp only [List.length_cons]
      omega
    rw [same] at h
    exact h.cons inner step
  · exact h.cons inner step

theorem answers_afterClose? (apart : opening ≠ closing) (inner : 0 < depth) (place : Nat)
    (text : List Char) :
    Answers opening closing depth place text (afterClose? opening closing depth text) := by
  fun_induction afterClose? opening closing depth text generalizing place with
  | case1 depth text after found shorter ih =>
    have further := ih inner (place + (text.length - after.length))
    unfold Answers at further ⊢
    rw [codeFrom_of_afterOpaque? found]
    split at further
    · rename_i rest closed
      have := afterClose?_length_lt closed
      have same : place + (text.length - after.length) + (after.length - rest.length - 1) =
          place + (text.length - rest.length - 1) := by omega
      rwa [same] at further
    · exact further
  | case2 depth code =>
    intro front pre
    rw [codeFrom_nil, List.prefix_nil] at pre
    simpa [pre] using inner
  | case3 depth rest code ih =>
    exact (ih (by omega) (place + 1)).cons inner code (by simp [apart])
  | case4 depth rest last code other =>
    refine ⟨[], codeFrom (place + 1) rest, ?_, ?_, ?_⟩
    · rw [codeFrom_cons code]
      simp
    · intro front pre
      simpa [List.prefix_nil.mp pre] using inner
    · simp only [occurrences_nil]
      omega
  | case5 depth rest other code many ih =>
    exact (ih (by omega) (place + 1)).cons inner code (by simp [apart.symm]; omega)
  | case6 depth c rest code opens closes ih =>
    exact (ih inner (place + 1)).cons inner code (by simp [opens, closes])

/-! Counting up to a place. -/

variable {text : List Char} {index place : Nat}

theorem closing_ne {opening closing : Char} (pair : closing? opening = some closing) :
    opening ≠ closing := by
  unfold closing? at pair
  split at pair <;> cases pair <;> decide

theorem drop_of_getElem? {c : Char} (h : text[index]? = some c) :
    text.drop index = c :: text.drop (index + 1) := by
  obtain ⟨bound, rfl⟩ := List.getElem?_eq_some_iff.mp h
  exact List.drop_eq_getElem_cons bound

theorem codeFrom_bracket (h : text[index]? = some opening) (pair : closing? opening = some closing) :
    codeFrom index (text.drop index) =
      (index, opening) :: codeFrom (index + 1) (text.drop (index + 1)) := by
  rw [drop_of_getElem? h]
  exact codeFrom_cons (afterOpaque?_bracket pair (.inl rfl) _)

theorem getElem?_of_mem_code {c : Char} (h : (place, c) ∈ codeFrom index (text.drop index)) :
    text[place]? = some c := by
  obtain ⟨front, back, split⟩ := List.append_of_mem h
  obtain ⟨after, rest, dropped, -⟩ := codeFrom_drop split
  rw [List.drop_drop, Nat.add_sub_cancel' after] at dropped
  simpa using congrArg List.head? dropped

/-- Up to a place all of the code before it is counted, and the character that stands there. -/
theorem codeCount_eq {front back : List (Nat × Char)} {d : Char}
    (split : codeFrom index (text.drop index) = front ++ (place, d) :: back) (c : Char) :
    codeCount text index place c = occurrences c front + if d = c then 1 else 0 := by
  have ordered := (pairwise_codeFrom index (text.drop index)).1
  rw [split, List.pairwise_append] at ordered
  obtain ⟨-, later, before⟩ := ordered
  have kept : (front ++ (place, d) :: back).filter (·.1 ≤ place) = front ++ [(place, d)] := by
    have first : front.filter (·.1 ≤ place) = front := by
      apply List.filter_eq_self.mpr
      intro entry mem
      have := before entry mem (place, d) List.mem_cons_self
      simp only [decide_eq_true_eq]
      omega
    have rest : back.filter (·.1 ≤ place) = [] := by
      apply List.filter_eq_nil_iff.mpr
      intro entry mem
      have := (List.pairwise_cons.mp later).1 entry mem
      simp only [decide_eq_true_eq]
      omega
    simp [List.filter_append, first, rest]
  have counted : codeCount text index place c =
      (front ++ [(place, d)]).countP (fun entry => text[entry.1]? == some c) := by
    rw [codeCount, codePlaces, split, List.filter_map, List.countP_map, ← kept]
    rfl
  have same : (front ++ [(place, d)]).countP (fun entry => text[entry.1]? == some c) =
      occurrences c (front ++ [(place, d)]) := by
    apply List.countP_congr
    rintro ⟨k, e⟩ mem
    have there : (k, e) ∈ codeFrom index (text.drop index) := by
      rw [split]
      simp only [List.mem_append, List.mem_cons, List.not_mem_nil, or_false] at mem ⊢
      tauto
    simp [getElem?_of_mem_code there]
  simp [counted, same]

theorem closingIndex_eq (h : text[index]? = some opening) (pair : closing? opening = some closing) :
    closingIndex text index = .ok ((afterClose? opening closing 1 (text.drop (index + 1))).map
      fun rest => index + 1 + ((text.drop (index + 1)).length - rest.length - 1)) := by
  have inside : index < text.length := (List.getElem?_eq_some_iff.mp h).1
  unfold closingIndex
  rw [drop_of_getElem? h]
  simp only [pair]
  congr 1
  cases closed : afterClose? opening closing 1 (text.drop (index + 1)) with
  | none => rfl
  | some rest =>
    have shorter := afterClose?_length_lt closed
    simp only [List.length_drop] at shorter
    simp only [Option.map_some, List.length_drop, Option.some.injEq]
    omega

/-- Before an opening bracket is closed, more of its kind are open than closed. -/
theorem StaysOpen.uneven {code front : List (Nat × Char)} (apart : opening ≠ closing)
    (h : StaysOpen opening closing 1 code) (pre : front <+: (index, opening) :: code)
    (some : front ≠ []) : occurrences closing front < occurrences opening front := by
  obtain ⟨first, front, rfl⟩ := List.exists_cons_of_ne_nil some
  obtain ⟨rfl, inner⟩ := List.cons_prefix_cons.mp pre
  have := h front inner
  simp only [occurrences_cons, if_true, if_neg apart]
  omega

theorem StaysOpen.not_evenAt (apart : opening ≠ closing) {stretch rest : List (Nat × Char)}
    (h : StaysOpen opening closing 1 stretch)
    (split : codeFrom index (text.drop index) = (index, opening) :: stretch ++ rest)
    {d : Char} (mem : (place, d) ∈ (index, opening) :: stretch) :
    ¬ EvenAt opening closing text index place := by
  rintro ⟨-, even⟩
  obtain ⟨front, back, eq⟩ := List.append_of_mem mem
  have whole : codeFrom index (text.drop index) = front ++ (place, d) :: (back ++ rest) := by
    rw [split, eq, List.append_assoc]
    rfl
  have pre : front ++ [(place, d)] <+: (index, opening) :: stretch := ⟨back, by rw [eq]; simp⟩
  have uneven := h.uneven apart pre (by simp)
  rw [codeCount_eq whole, codeCount_eq whole] at even
  simp only [occurrences_append, occurrences_cons, occurrences_nil] at uneven
  omega

/-- Where the code behind a bracket closes it, as many are closed as opened, and nowhere before. -/
theorem ClosesAt.isLeast (h : text[index]? = some opening) (pair : closing? opening = some closing)
    (found : ClosesAt opening closing 1 (codeFrom (index + 1) (text.drop (index + 1))) place) :
    IsLeast {p | EvenAt opening closing text index p} place := by
  obtain ⟨stretch, rest, split, opens, last⟩ := found
  have apart := closing_ne pair
  have whole : codeFrom index (text.drop index) =
      (index, opening) :: stretch ++ (place, closing) :: rest := by
    rw [codeFrom_bracket h pair, split]
    rfl
  have ordered := (pairwise_codeFrom index (text.drop index)).1
  rw [whole, List.pairwise_append] at ordered
  constructor
  · refine ⟨List.mem_map.mpr ⟨(place, closing), by simp [whole], rfl⟩, ?_⟩
    rw [codeCount_eq whole, codeCount_eq whole]
    simp only [occurrences_cons, if_true, if_neg apart, if_neg apart.symm]
    omega
  · intro other even
    obtain ⟨⟨k, d⟩, mem, rfl⟩ := List.mem_map.mp even.1
    rw [whole, List.mem_append] at mem
    rcases mem with mem | mem
    · exact absurd even (opens.not_evenAt apart whole mem)
    · rcases List.mem_cons.mp mem with same | mem
      · rw [same]
      · have := (List.pairwise_cons.mp ordered.2.1).1 _ mem
        simp only at this ⊢
        omega

/-- What stands between an opening bracket and a place of the code behind it. -/
theorem mem_between (h : text[index]? = some opening) (pair : closing? opening = some closing)
    {stretch rest : List (Nat × Char)} {c d : Char}
    (split : codeFrom (index + 1) (text.drop (index + 1)) = stretch ++ (place, c) :: rest)
    {k : Nat} (code : k ∈ codePlaces text index) (after : index < k) (before : k < place)
    (inner : text[k]? = some d) : (k, d) ∈ stretch := by
  have ordered := (pairwise_codeFrom (index + 1) (text.drop (index + 1))).1
  rw [split, List.pairwise_append] at ordered
  obtain ⟨⟨k, e⟩, mem, rfl⟩ := List.mem_map.mp code
  obtain rfl : e = d := Option.some.inj ((getElem?_of_mem_code mem).symm.trans inner)
  rw [codeFrom_bracket h pair, split, ← List.cons_append, List.mem_append] at mem
  rcases mem with mem | mem
  · rcases List.mem_cons.mp mem with same | mem
    · cases same
      omega
    · exact mem
  · rcases List.mem_cons.mp mem with same | mem
    · cases same
      omega
    · have := (List.pairwise_cons.mp ordered.2.1).1 _ mem
      simp only at this
      omega

/-- Code that closes more brackets than it opens closes the one that precedes it. -/
theorem ClosesAt.mem {front back : List (Nat × Char)}
    (found : ClosesAt opening closing 1 (front ++ back) place)
    (more : occurrences opening front < occurrences closing front) :
    (place, closing) ∈ front := by
  obtain ⟨stretch, others, split, opens, -⟩ := found
  have long (tail : List (Nat × Char)) : stretch ≠ front ++ tail := by
    intro eq
    have := opens front ⟨tail, eq.symm⟩
    omega
  rcases List.append_eq_append_iff.mp split with ⟨tail, eq, -⟩ | ⟨tail, rfl, eq⟩
  · exact absurd eq (long tail)
  · cases tail with
    | nil => exact absurd (by simp) (long [])
    | cons entry tail =>
      obtain ⟨rfl, -⟩ := List.cons.inj eq
      simp

/-- A bracket of the same kind that opens in between is closed before. -/
theorem ClosesAt.nested (h : text[index]? = some opening) (pair : closing? opening = some closing)
    (found : ClosesAt opening closing 1 (codeFrom (index + 1) (text.drop (index + 1))) place)
    {k : Nat} (code : k ∈ codePlaces text index) (after : index < k) (before : k < place)
    (inner : text[k]? = some opening) :
    ∃ m, closingIndex text k = .ok (some m) ∧ k < m ∧ m < place := by
  obtain ⟨stretch, rest, split, opens, last⟩ := found
  have apart := closing_ne pair
  have ordered := (pairwise_codeFrom (index + 1) (text.drop (index + 1))).1
  rw [split, List.pairwise_append] at ordered
  obtain ⟨front, back, rfl⟩ := List.append_of_mem (mem_between h pair split code after before inner)
  have again : codeFrom (k + 1) (text.drop (k + 1)) = back ++ (place, closing) :: rest := by
    rw [List.append_assoc, List.cons_append] at split
    obtain ⟨-, tail, dropped, eq, -⟩ := codeFrom_drop split
    rw [List.drop_drop, show index + 1 + (k - (index + 1)) = k by omega,
      drop_of_getElem? inner] at dropped
    rw [eq, (List.cons.inj dropped).2]
  -- What is open before the inner bracket is still open where it is closed.
  have more : occurrences opening back < occurrences closing back := by
    have outer := opens front ⟨_, rfl⟩
    simp only [occurrences_append, occurrences_cons, if_true, if_neg apart] at last
    omega
  have result := answers_afterClose? apart Nat.one_pos (k + 1) (text.drop (k + 1))
  unfold Answers at result
  rw [again] at result
  rw [closingIndex_eq inner pair]
  split at result
  · rename_i tail closed
    rw [closed, Option.map_some]
    refine ⟨_, rfl, by omega, ?_⟩
    have closes := List.mem_append_right front (List.mem_cons_of_mem (k, opening) (result.mem more))
    exact ordered.2.2 _ closes _ List.mem_cons_self
  · have := result back ⟨_, rfl⟩
    omega

/-- The bracket that closes another stands at the first place of code up to which as many of its kind
are closed as opened; if there is no such place, the bracket is never closed. One of the same kind
that opens between the two is closed between them. -/
theorem closingIndex_isLeast (h : text[index]? = some opening)
    (pair : closing? opening = some closing) :
    ∃ result, closingIndex text index = .ok result ∧
      (∀ j, result = some j ↔ IsLeast {p | EvenAt opening closing text index p} j) ∧
      (result = none ↔ ∀ p, ¬ EvenAt opening closing text index p) ∧
      ∀ j k, result = some j → k ∈ codePlaces text index → index < k → k < j →
        text[k]? = some opening → ∃ m, closingIndex text k = .ok (some m) ∧ k < m ∧ m < j := by
  refine ⟨_, closingIndex_eq h pair, ?_⟩
  have apart := closing_ne pair
  have result := answers_afterClose? apart Nat.one_pos (index + 1) (text.drop (index + 1))
  unfold Answers at result
  split at result
  · rename_i rest closed
    have least := result.isLeast h pair
    rw [closed]
    refine ⟨fun j => ⟨?_, fun other => ?_⟩, ⟨by simp, fun none => absurd least.1 (none _)⟩, ?_⟩
    · rintro ⟨⟩
      exact least
    · exact congrArg some (least.unique other)
    · rintro j k ⟨⟩ code after before inner
      exact result.nested h pair code after before inner
  · rename_i open_
    have never (p : Nat) : ¬ EvenAt opening closing text index p := by
      intro even
      have whole : codeFrom index (text.drop index) =
          (index, opening) :: codeFrom (index + 1) (text.drop (index + 1)) ++ [] := by
        rw [List.append_nil, codeFrom_bracket h pair]
      obtain ⟨⟨p, d⟩, mem, rfl⟩ := List.mem_map.mp even.1
      rw [codeFrom_bracket h pair] at mem
      exact result.not_evenAt apart whole mem even
    rw [open_]
    refine ⟨fun j => ⟨by simp, fun least => absurd least.1 (never j)⟩, ⟨fun _ => never, ?_⟩, ?_⟩
    · simp
    · simp

/-- Braces in a string, in both kinds of comment and in a block of its own. -/
def nestedBlocks : List Char :=
  "(\x7b '\x7d' /* \x7b */ \x7b b \x7d // \x7b\n \x7d)".toList

theorem closingIndex_nestedBlocks :
    nestedBlocks[1]? = some '{' ∧ closing? '{' = some '}' ∧
      closingIndex nestedBlocks 1 = .ok (some 27) ∧
      IsLeast {p | EvenAt '{' '}' nestedBlocks 1 p} 27 ∧
      ∃ m, closingIndex nestedBlocks 15 = .ok (some m) ∧ 15 < m ∧ m < 27 := by
  have opens : nestedBlocks[1]? = some '{' := rfl
  have closes : closingIndex nestedBlocks 1 = .ok (some 27) := by decide +kernel
  have places : codePlaces nestedBlocks 1 =
      [1, 2, 6, 14, 15, 16, 17, 18, 19, 20, 25, 26, 27, 28] := by decide +kernel
  obtain ⟨result, found, least, -, nested⟩ := closingIndex_isLeast opens rfl
  obtain rfl : result = some 27 := Except.ok.inj (found.symm.trans closes)
  have inner : 15 ∈ codePlaces nestedBlocks 1 := by rw [places]; decide
  exact ⟨opens, rfl, closes, (least 27).mp rfl,
    nested 27 15 rfl inner (by decide) (by decide) rfl⟩

end ThemeSheet.Literal
