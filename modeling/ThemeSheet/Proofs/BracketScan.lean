import ThemeSheet.Proofs.ClosingBracket

/-! What the scan for a closing bracket passes over on its way. -/

namespace ThemeSheet.Literal

/-- From where to where strings and comments reach in a text at `place`, closed or not. -/
def passed (place : Nat) (text : List Char) : List (Nat × Nat) :=
  match h : afterOpaque? text with
  | some rest =>
    have : rest.length < text.length := afterOpaque?_length_lt h
    let stop := place + (text.length - rest.length)
    (place, stop) :: passed stop rest
  | none =>
    match text with
    | [] => []
    | _ :: rest => passed (place + 1) rest
termination_by text.length

/-- The scan for the bracket that closes the last of `depth` open ones: the strings and comments
it passes over, and where it finds the bracket. -/
def closeScan (opening closing : Char) (depth place : Nat) (text : List Char) :
    List (Nat × Nat) × Option Nat :=
  match h : afterOpaque? text with
  | some rest =>
    have : rest.length < text.length := afterOpaque?_length_lt h
    let stop := place + (text.length - rest.length)
    let further := closeScan opening closing depth stop rest
    ((place, stop) :: further.1, further.2)
  | none =>
    match text with
    | [] => ([], none)
    | c :: rest =>
      if c = opening then closeScan opening closing (depth + 1) (place + 1) rest
      else if c = closing then
        if depth ≤ 1 then ([], some place)
        else closeScan opening closing (depth - 1) (place + 1) rest
      else closeScan opening closing depth (place + 1) rest
termination_by text.length

/-- The scan from an opening bracket on. -/
def bracketScan (opening closing : Char) (text : List Char) (index : Nat) :
    List (Nat × Nat) × Option Nat :=
  closeScan opening closing 1 (index + 1) (text.drop (index + 1))

/-! The scan passes over what stands before the bracket it finds. -/

section Passed

variable {opening closing : Char} {depth place index : Nat} {text rest : List Char}

theorem passed_of_afterOpaque? (h : afterOpaque? text = some rest) :
    passed place text = (place, place + (text.length - rest.length)) ::
      passed (place + (text.length - rest.length)) rest := by
  rw [passed]
  split
  · rename_i found
    rw [h] at found
    cases found
    rfl
  · rename_i none
    rw [h] at none
    cases none

theorem passed_cons {c : Char} (h : afterOpaque? (c :: rest) = none) :
    passed place (c :: rest) = passed (place + 1) rest := by
  rw [passed]
  split
  · rename_i found
    rw [h] at found
    cases found
  · rfl

@[simp] theorem passed_nil (place : Nat) : passed place [] = [] := by
  rw [passed]
  rfl

theorem closeScan_of_afterOpaque? (h : afterOpaque? text = some rest) :
    closeScan opening closing depth place text =
      ((place, place + (text.length - rest.length)) ::
        (closeScan opening closing depth (place + (text.length - rest.length)) rest).1,
        (closeScan opening closing depth (place + (text.length - rest.length)) rest).2) := by
  rw [closeScan]
  split
  · rename_i found
    rw [h] at found
    cases found
    rfl
  · rename_i none
    rw [h] at none
    cases none

theorem le_of_mem_passed {span : Nat × Nat} (h : span ∈ passed place text) : place ≤ span.1 := by
  fun_induction passed place text with
  | case1 place text rest found shorter stop ih =>
    rcases List.mem_cons.mp h with rfl | later
    · exact le_rfl
    · exact (Nat.le_add_right _ _).trans (ih later)
  | case2 => cases h
  | case3 place c rest code ih => exact (Nat.le_succ place).trans (ih h)

/-- Nothing that is passed over from a place on begins before it. -/
theorem filter_passed (before : index < place) :
    (passed place text).filter (index < ·.1) = passed place text :=
  List.filter_eq_self.mpr fun _ mem => decide_eq_true (before.trans_le (le_of_mem_passed mem))

theorem map_afterClose? {gap : Nat} (long : text.length = gap + rest.length) :
    ((afterClose? opening closing depth rest).map fun after =>
        place + gap + (rest.length - after.length - 1)) =
      (afterClose? opening closing depth rest).map fun after =>
        place + (text.length - after.length - 1) := by
  refine Option.map_congr fun after closed => ?_
  have := afterClose?_length_lt closed
  omega

/-- The scan finds the bracket that the search for what follows it finds. -/
theorem closeScan_found (opening closing : Char) (depth place : Nat) (text : List Char) :
    (closeScan opening closing depth place text).2 =
      (afterClose? opening closing depth text).map fun rest =>
        place + (text.length - rest.length - 1) := by
  fun_induction closeScan opening closing depth place text with
  | case1 depth place text rest found shorter stop further ih =>
    rw [afterClose?_of_afterOpaque? found]
    exact ih.trans (map_afterClose? (by omega))
  | case2 depth place code =>
    rw [afterClose?]
    rfl
  | case3 depth place rest code ih =>
    rw [afterClose?_code code, if_pos rfl]
    exact ih.trans (map_afterClose? (Nat.add_comm _ _))
  | case4 depth place rest last code other =>
    rw [afterClose?_code code, if_neg other, if_pos rfl, if_pos last]
    simp
  | case5 depth place rest other code many ih =>
    rw [afterClose?_code code, if_neg other, if_pos rfl, if_neg many]
    exact ih.trans (map_afterClose? (Nat.add_comm _ _))
  | case6 depth place c rest code opens closes ih =>
    rw [afterClose?_code code, if_neg opens, if_neg closes]
    exact ih.trans (map_afterClose? (Nat.add_comm _ _))

theorem le_of_found {found : Nat}
    (h : (closeScan opening closing depth place text).2 = some found) : place ≤ found := by
  rw [closeScan_found] at h
  obtain ⟨rest, -, rfl⟩ := Option.map_eq_some_iff.mp h
  exact Nat.le_add_right _ _

/-- Up to the bracket it finds, the scan passes over every string and comment. -/
theorem closeScan_passed (opening closing : Char) (depth place : Nat) (text : List Char) :
    (closeScan opening closing depth place text).1 = (passed place text).filter fun span =>
      (closeScan opening closing depth place text).2.all (span.1 < ·) := by
  fun_induction closeScan opening closing depth place text with
  | case1 depth place text rest found shorter stop further ih =>
    have before : further.2.all (place < ·) = true := by
      refine (Option.all_eq_true _ _).mpr fun close there => ?_
      have := le_of_found there
      simp only [decide_eq_true_eq]
      omega
    rw [passed_of_afterOpaque? found, List.filter_cons, if_pos before]
    exact congrArg ((place, stop) :: ·) ih
  | case2 depth place code => rw [passed_nil, List.filter_nil]
  | case3 depth place rest code ih =>
    rw [passed_cons code]
    exact ih
  | case4 depth place rest last code other =>
    rw [passed_cons code]
    refine (List.filter_eq_nil_iff.mpr fun span mem => ?_).symm
    have := le_of_mem_passed mem
    simp only [Option.all_some, decide_eq_true_eq]
    omega
  | case5 depth place rest other code many ih =>
    rw [passed_cons code]
    exact ih
  | case6 depth place c rest code opens closes ih =>
    rw [passed_cons code]
    exact ih

/-- What is passed over behind a place of code is what is passed over from there on. -/
theorem passed_behind {c : Char} (h : (index, c) ∈ codeFrom place text) :
    (passed place text).filter (index < ·.1) =
      passed (index + 1) (text.drop (index + 1 - place)) := by
  fun_induction codeFrom place text with
  | case1 place text rest found shorter ih =>
    have after := (pairwise_codeFrom _ rest).2 _ h
    have dropped : text.drop (index + 1 - place) =
        rest.drop (index + 1 - (place + (text.length - rest.length))) := by
      obtain ⟨front, rfl⟩ := afterOpaque?_suffix found
      rw [List.length_append, Nat.add_sub_cancel] at after ⊢
      have : index + 1 - place = front.length + (index + 1 - (place + front.length)) := by
        simp only at after
        omega
      rw [this, List.drop_length_add_append]
    have first : ¬ index < place := by
      simp only at after
      omega
    rw [passed_of_afterOpaque? found, List.filter_cons, if_neg (by simpa using first), ih h, dropped]
  | case2 => cases h
  | case3 place first rest code ih =>
    rw [passed_cons code]
    rcases List.mem_cons.mp h with same | later
    · cases same
      rw [filter_passed (Nat.lt_succ_self _), Nat.add_sub_cancel_left, List.drop_one, List.tail_cons]
    · have after := (pairwise_codeFrom _ rest).2 _ later
      have : index + 1 - place = (index + 1 - (place + 1)) + 1 := by
        simp only at after
        omega
      rw [ih later, this, List.drop_succ_cons]

end Passed

theorem bracketScan_found {opening closing : Char} {text : List Char} {index : Nat}
    (opens : text[index]? = some opening) (pair : closing? opening = some closing) :
    closingIndex text index = .ok (bracketScan opening closing text index).2 := by
  rw [closingIndex_eq opens pair, bracketScan, closeScan_found]

end ThemeSheet.Literal
