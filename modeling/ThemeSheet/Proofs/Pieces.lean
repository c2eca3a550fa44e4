import ThemeSheet.Literal.Normalize
import ThemeSheet.Proofs.Brackets

namespace ThemeSheet.Literal

open Text

/-- A string or comment that ends by itself. -/
def Piece.Closed (piece : Piece) : Prop :=
  ∀ more, opaque? (piece.text ++ more) = some (piece, more)

/-- Pieces that the text they make is cut into again. Their code holds no braces. -/
inductive Tidy : List Piece → Prop
  | nil : Tidy []
  | code {c rest} (slash : c ≠ '/') (quote : isQuote c = false) (brace : c ≠ '{' ∧ c ≠ '}')
    (tail : Tidy rest) : Tidy (.code c :: rest)
  | closed {piece rest} (closed : piece.Closed) (tail : Tidy rest) : Tidy (piece :: rest)
  | line {body rest} (closed : '\n' ∉ body) (tail : Tidy rest) :
    Tidy (.lineComment body :: .code '\n' :: rest)

theorem Tidy.append {a b : List Piece} (ha : Tidy a) (hb : Tidy b) : Tidy (a ++ b) := by
  induction ha with
  | nil => exact hb
  | code slash quote brace _ ih => exact .code slash quote brace ih
  | closed closed _ ih => exact .closed closed ih
  | line closed _ ih => exact .line closed ih

theorem tidy_flatMap {α : Type} {f : α → List Piece} (h : ∀ a, Tidy (f a)) (l : List α) :
    Tidy (l.flatMap f) := by
  induction l with
  | nil => exact .nil
  | cons a l ih => exact (h a).append ih

def textOf (ps : List Piece) : List Char :=
  ps.flatMap Piece.text

theorem textOf_append (a b : List Piece) : textOf (a ++ b) = textOf a ++ textOf b :=
  List.flatMap_append

theorem textOf_cons (piece : Piece) (rest : List Piece) :
    textOf (piece :: rest) = piece.text ++ textOf rest :=
  List.flatMap_cons

/-- What copies each character of code copies code. -/
theorem flatMap_chars {f : Piece → List Char} (copies : ∀ c, f (.code c) = [c])
    (text : List Char) : (text.map Piece.code).flatMap f = text := by
  induction text with
  | nil => rfl
  | cons c text ih =>
    rw [List.map_cons, List.flatMap_cons, copies, ih]
    rfl

theorem textOf_code (text : List Char) : textOf (text.map .code) = text :=
  flatMap_chars (fun _ => rfl) text

theorem splitBlockComment?_closed {body : List Char} (h : ¬ ['*', '/'] <:+: body)
    (after : List Char) : splitBlockComment? (body ++ '*' :: '/' :: after) = some (body, after) := by
  induction body with
  | nil => rfl
  | cons c body ih =>
    have inner : ¬ ['*', '/'] <:+: body := fun found => h (List.infix_cons found)
    rw [List.cons_append, splitBlockComment?, ih inner]
    · rfl
    · intro rest star same
      cases body with
      | nil => cases same
      | cons d body =>
        obtain ⟨rfl, -⟩ := List.cons.inj same
        exact h (star ▸ ⟨[], body, rfl⟩)

/-- What is closed ends at the same place for a scan that does not ask whether it is. -/
theorem afterOpaque?_of_opaque? {text rest : List Char} {piece : Piece}
    (h : opaque? text = some (piece, rest)) : afterOpaque? text = some rest := by
  have block {text body after : List Char} (h : splitBlockComment? text = some (body, after)) :
      afterBlockComment text = after := by
    fun_induction splitBlockComment? text generalizing body with
    | case1 => cases h
    | case2 =>
      cases h
      rfl
    | case3 c rest pair ih =>
      obtain ⟨⟨body', after'⟩, found, eq⟩ := Option.map_eq_some_iff.mp h
      cases eq
      rw [afterBlockComment]
      · exact ih found
      · exact pair
  unfold opaque? at h
  split at h
  · cases h
    rfl
  · obtain ⟨⟨body, after⟩, found, eq⟩ := Option.map_eq_some_iff.mp h
    cases eq
    exact congrArg some (block found)
  · split at h
    · rename_i quoted
      obtain ⟨⟨body, after⟩, found, eq⟩ := Option.map_eq_some_iff.mp h
      cases eq
      rw [afterOpaque?_quote quoted, afterString_of_splitString? found]
    · cases h
  · cases h

theorem opaque?_quote {quote : Char} (quoted : isQuote quote = true) (text : List Char) :
    opaque? (quote :: text) =
      (splitString? quote text).map fun (body, after) => (.quoted quote body, after) := by
  have apart : quote ≠ '/' := by
    rintro rfl
    cases quoted
  unfold opaque?
  split
  · rename_i eq
    exact absurd (List.cons.inj eq).1 apart
  · rename_i eq
    exact absurd (List.cons.inj eq).1 apart
  · rename_i eq
    obtain ⟨rfl, rfl⟩ := List.cons.inj eq
    rw [if_pos quoted]
  · rename_i eq
    cases eq

theorem opaque?_quoted {quote : Char} (quoted : isQuote quote = true) {text body after : List Char}
    (closed : splitString? quote text = some (body, after)) :
    opaque? (quote :: text) = some (.quoted quote body, after) := by
  rw [opaque?_quote quoted, closed]
  rfl

theorem opaque?_code {c : Char} (slash : c ≠ '/') (quote : isQuote c = false) (rest : List Char) :
    opaque? (c :: rest) = none := by
  unfold opaque?
  split
  · rename_i eq
    exact absurd (List.cons.inj eq).1 slash
  · rename_i eq
    exact absurd (List.cons.inj eq).1 slash
  · rename_i eq
    rw [← (List.cons.inj eq).1, quote]
    rfl
  · rfl

theorem pieces_nil : pieces [] = [] := by
  rw [pieces]
  rfl

theorem pieces_of_opaque? {text rest : List Char} {piece : Piece}
    (h : opaque? text = some (piece, rest)) : pieces text = piece :: pieces rest := by
  rw [pieces]
  split
  · rename_i found
    rw [h] at found
    cases found
    rfl
  · rename_i none
    rw [h] at none
    cases none

theorem pieces_code {c : Char} {rest : List Char} (h : opaque? (c :: rest) = none) :
    pieces (c :: rest) = .code c :: pieces rest := by
  rw [pieces]
  split
  · rename_i found
    rw [h] at found
    cases found
  · rfl

theorem closed_quoted {quote : Char} (quoted : isQuote quote = true) {body : List Char}
    (h : ∀ more, splitString? quote (body ++ quote :: more) = some (body, more)) :
    (Piece.quoted quote body).Closed := by
  intro more
  change opaque? (quote :: (body ++ [quote] ++ more)) = _
  rw [← List.append_cons]
  exact opaque?_quoted quoted (h more)

theorem closed_block {body : List Char} (h : ¬ ['*', '/'] <:+: body) :
    (Piece.blockComment body).Closed := by
  intro more
  change opaque? ('/' :: '*' :: (body ++ ['*', '/'] ++ more)) = _
  rw [List.append_assoc]
  change opaque? ('/' :: '*' :: (body ++ '*' :: '/' :: more)) = _
  rw [opaque?, splitBlockComment?_closed h]
  rfl

/-- A line comment ends with its line. -/
theorem opaque?_line {body : List Char} (h : '\n' ∉ body) (rest : List Char) :
    opaque? ('/' :: '/' :: (body ++ '\n' :: rest)) = some (.lineComment body, '\n' :: rest) := by
  have all : ∀ c ∈ body, (c != '\n') = true := by
    intro c hc
    simp only [bne_iff_ne, ne_eq]
    rintro rfl
    exact h hc
  rw [opaque?, List.takeWhile_append_of_pos all, List.dropWhile_append_of_pos all]
  simp

/-- Tidy pieces are found again in front of any text. -/
theorem pieces_tidy {ps : List Piece} (h : Tidy ps) (more : List Char) :
    pieces (textOf ps ++ more) = ps ++ pieces more := by
  induction h with
  | nil => rfl
  | @code c rest slash quote _ _ ih =>
    rw [textOf_cons, List.append_assoc]
    change pieces (c :: (textOf rest ++ more)) = _
    rw [pieces_code (opaque?_code slash quote _), ih]
    rfl
  | closed closed _ ih =>
    rw [textOf_cons, List.append_assoc, pieces_of_opaque? (closed _), ih]
    rfl
  | @line body rest closed _ ih =>
    rw [textOf_cons, textOf_cons, List.append_assoc]
    change pieces ('/' :: '/' :: (body ++ '\n' :: (textOf rest ++ more))) = _
    rw [pieces_of_opaque? (opaque?_line closed _), pieces_code (opaque?_code (by decide) rfl _), ih]
    rfl

/-- No brace in tidy pieces is seen by the scan for the closing one. -/
theorem afterClose?_tidy {ps : List Piece} (h : Tidy ps) (depth : Nat) (more : List Char) :
    afterClose? '{' '}' depth (textOf ps ++ more) = afterClose? '{' '}' depth more := by
  have code {c : Char} (slash : c ≠ '/') (quote : isQuote c = false) (brace : c ≠ '{' ∧ c ≠ '}')
      (rest : List Char) :
      afterClose? '{' '}' depth (c :: rest) = afterClose? '{' '}' depth rest := by
    rw [afterClose?_code (afterOpaque?_code slash quote rest), if_neg brace.1, if_neg brace.2]
  induction h with
  | nil => rfl
  | @code c rest slash quote brace _ ih =>
    rw [textOf_cons, List.append_assoc]
    change afterClose? '{' '}' depth (c :: (textOf rest ++ more)) = _
    rw [code slash quote brace, ih]
  | closed closed _ ih =>
    rw [textOf_cons, List.append_assoc,
      afterClose?_of_afterOpaque? (afterOpaque?_of_opaque? (closed _)), ih]
  | @line body rest closed _ ih =>
    have found := opaque?_line closed (textOf rest ++ more)
    rw [textOf_cons, textOf_cons, List.append_assoc]
    change afterClose? '{' '}' depth ('/' :: '/' :: (body ++ '\n' :: (textOf rest ++ more))) = _
    rw [afterClose?_of_afterOpaque? (afterOpaque?_of_opaque? found), code (by decide) rfl (by decide), ih]

end ThemeSheet.Literal
