import Mathlib.Data.List.Basic
import Mathlib.Data.List.Infix
import ThemeSheet.Files.Tree

/-! The path of a file to which no link leads: it is read back from its text, and it is where it
leads. -/

namespace ThemeSheet

namespace Path

/-- A name that a file can have. -/
structure IsName (part : String) : Prop where
  ne_empty : part ≠ ""
  ne_here : part ≠ "."
  ne_above : part ≠ ".."
  no_slash : '/' ∉ part.toList
  no_nul : '\x00' ∉ part.toList

/-- An absolute path of names. -/
structure Proper (path : Path) : Prop where
  slashes : path.slashes = 1
  names : ∀ part ∈ path.parts, IsName part

theorem splitSlash_append {part : List Char} (no_slash : '/' ∉ part) (rest : List Char) :
    splitSlash (part ++ '/' :: rest) = part :: splitSlash rest := by
  induction part with
  | nil => rw [List.nil_append, splitSlash, if_pos rfl]
  | cons c part ih =>
    simp only [List.mem_cons, not_or] at no_slash
    rw [List.cons_append, splitSlash, if_neg (Ne.symm no_slash.1), ih no_slash.2]

theorem splitSlash_of_no_slash {part : List Char} (no_slash : '/' ∉ part) :
    splitSlash part = [part] := by
  induction part with
  | nil => rfl
  | cons c part ih =>
    simp only [List.mem_cons, not_or] at no_slash
    rw [splitSlash, if_neg (Ne.symm no_slash.1), ih no_slash.2]

/-- Parts joined by slashes are found again; of none there remains one that is empty. -/
theorem splitSlash_intercalate {parts : List (List Char)} (no_slash : ∀ part ∈ parts, '/' ∉ part) :
    splitSlash (['/'].intercalate parts) = if parts = [] then [[]] else parts := by
  induction parts with
  | nil => rfl
  | cons part rest ih =>
    simp only [List.mem_cons, or_imp, forall_and, forall_eq] at no_slash
    cases rest with
    | nil => simpa [List.intercalate] using splitSlash_of_no_slash no_slash.1
    | cons next rest =>
      have joined : ['/'].intercalate (part :: next :: rest) =
          part ++ '/' :: ['/'].intercalate (next :: rest) := by
        simp [List.intercalate]
      rw [joined, splitSlash_append no_slash.1, ih no_slash.2]
      simp

/-- A path that can be written down is read back as it is. -/
theorem ofString_text {path : Path} (proper : path.Proper) : ofString path.text = path := by
  obtain ⟨slashes, parts⟩ := path
  obtain ⟨rfl, names⟩ := proper
  have text : (Path.mk 1 parts).text.toList = '/' :: ['/'].intercalate (parts.map String.toList) := by
    simp [Path.text, List.replicate]
  have leading : ((Path.mk 1 parts).text.toList.takeWhile (· == '/')).length = 1 := by
    rw [text]
    cases parts with
    | nil => rfl
    | cons part rest =>
      have first := names part List.mem_cons_self
      obtain ⟨c, cs, chars⟩ : ∃ c cs, part.toList = c :: cs :=
        List.exists_cons_of_ne_nil (mt String.toList_eq_nil_iff.mp first.ne_empty)
      have other : c ≠ '/' := by
        intro slash
        exact first.no_slash (by simp [chars, slash])
      cases rest with
      | nil => simp [List.intercalate, chars, other]
      | cons next rest => simp [List.intercalate, chars, other]
  have parts_eq : ((splitSlash (Path.mk 1 parts).text.toList).map String.ofList).filter
      (fun part => part != "" && part != ".") = parts := by
    rw [text, splitSlash, if_pos rfl, splitSlash_intercalate]
    · have kept : ∀ part ∈ parts, (part != "" && part != ".") = true := by
        intro part there
        simp [(names part there).ne_empty, (names part there).ne_here]
      split
      · simp_all
      · simpa [Function.comp_def] using kept
    · intro part there
      obtain ⟨name, named, rfl⟩ := List.mem_map.mp there
      exact (names name named).no_slash
  simp only [ofString, leading, parts_eq]
  rfl

end Path

namespace Files

/-- No link stands anywhere on the way to a place. -/
def Unlinked (fs : Files) (parts : List String) : Prop :=
  ∀ front, front <+: parts → ∀ target, fs.find? front ≠ some (.link target)

/-- A step on the way, after which the way goes on. -/
theorem Unlinked.step {fs : Files} {here rest : List String} {part : String}
    (unlinked : fs.Unlinked (here ++ part :: rest)) :
    (∀ target, fs.find? (here ++ [part]) ≠ some (.link target)) ∧
      fs.Unlinked (here ++ [part] ++ rest) := by
  rw [List.append_cons] at unlinked
  exact ⟨unlinked _ (List.prefix_append _ _), unlinked⟩

theorem settle_of_unlinked {fs : Files} {free : List Spot} {here : Spot} {parts : List String}
    (straight : ".." ∉ parts) (unlinked : fs.Unlinked (here.parts ++ parts)) :
    fs.settle free here parts = .ok { here with parts := here.parts ++ parts } := by
  induction parts generalizing here with
  | nil => rw [settle, List.append_nil]
  | cons part rest ih =>
    obtain ⟨named, later⟩ := not_or.mp (mt List.mem_cons.mpr straight)
    obtain ⟨no_link, unlinked⟩ := unlinked.step
    rw [settle]
    · split
      · rename_i target linked
        exact absurd linked (no_link target)
      · rw [ih later unlinked]
        simp [Spot.child]
    · exact Ne.symm named

theorem walk_of_unlinked {fs : Files} {links : Nat} {here parts : List String}
    (straight : ".." ∉ parts) (unlinked : fs.Unlinked (here ++ parts)) :
    fs.walk true links here parts ≠ .error .tooManyLinks := by
  induction parts generalizing here with
  | nil => simp [walk]
  | cons part rest ih =>
    obtain ⟨named, later⟩ := not_or.mp (mt List.mem_cons.mpr straight)
    obtain ⟨no_link, unlinked⟩ := unlinked.step
    have further := ih later unlinked
    rw [walk]
    · split
      · simp
      · dsimp only
        split
        · split <;> simp
        · rename_i target linked
          exact absurd linked (no_link target)
        · exact further
        · split <;> simp
    · exact Ne.symm named

/-- A path without links on the way is where it leads. -/
theorem resolve_of_unlinked {fs : Files} {path : Path} (proper : path.Proper)
    (unlinked : fs.Unlinked path.parts) (cwd : List String) : fs.resolve cwd path = .ok path := by
  obtain ⟨slashes, parts⟩ := path
  obtain ⟨rfl, names⟩ := proper
  have straight : ".." ∉ parts := fun there => (names ".." there).ne_above rfl
  have no_nul : (Path.mk 1 parts).holdsNul = false := by
    simpa [Path.holdsNul] using fun part there => (names part there).no_nul
  have settled : fs.settle fs.linkSpots ⟨true, []⟩ parts = .ok ⟨true, parts⟩ :=
    settle_of_unlinked straight unlinked
  have placed : fs.place true [] (.absolute parts) ≠ .error .tooManyLinks := by
    rw [place]
    split
    · simp
    · exact walk_of_unlinked straight unlinked
  have start : (Spot.mk false cwd).startOf (Path.mk 1 parts) = ⟨true, []⟩ := rfl
  rw [resolve, no_nul, start, if_neg Bool.false_ne_true]
  dsimp only
  rw [settled]
  split
  · rename_i looped
    exact absurd looped placed
  · rfl

end Files
end ThemeSheet
