import ThemeSheet.Text.Space

namespace ThemeSheet.Literal

def backtick : Char := '\x60'

def isQuote (c : Char) : Bool :=
  c == '"' || c == '\'' || c == backtick

/-- What follows a string, given the text after its opening quote. A string that is not closed on
its line ends before the line feed, except in backticks; at the end of the text it ends there. -/
def afterString (quote : Char) : List Char → List Char
  | [] => []
  | ['\\'] => []
  | '\\' :: _ :: rest => afterString quote rest
  | c :: rest =>
    if c = quote then rest
    else if c = '\n' ∧ quote ≠ backtick then c :: rest
    else afterString quote rest

theorem afterString_length_le (quote : Char) (text : List Char) :
    (afterString quote text).length ≤ text.length := by
  fun_induction afterString quote text <;> simp_all <;> omega

/-- What follows a block comment, given the text after its opening. -/
def afterBlockComment : List Char → List Char
  | [] => []
  | '*' :: '/' :: rest => rest
  | _ :: rest => afterBlockComment rest

theorem afterBlockComment_length_le (text : List Char) :
    (afterBlockComment text).length ≤ text.length := by
  fun_induction afterBlockComment text <;> simp_all <;> omega

/-- What follows the string or comment at the front, if one opens there. A comment or string that
is never closed reaches to the end. -/
def afterOpaque? : List Char → Option (List Char)
  | '/' :: '/' :: rest => some (rest.dropWhile (· != '\n'))
  | '/' :: '*' :: rest => some (afterBlockComment rest)
  | c :: rest => if isQuote c then some (afterString c rest) else none
  | [] => none

theorem afterOpaque?_length_lt {text rest : List Char} (h : afterOpaque? text = some rest) :
    rest.length < text.length := by
  unfold afterOpaque? at h
  split at h
  · rename_i tail
    cases h
    have : (tail.dropWhile (· != '\n')).length ≤ tail.length := (List.dropWhile_suffix _).length_le
    simp only [List.length_cons]
    omega
  · cases h
    exact Nat.lt_of_le_of_lt (afterBlockComment_length_le _) (by simp only [List.length_cons]; omega)
  · split at h
    · cases h
      exact Nat.lt_of_le_of_lt (afterString_length_le _ _) (by simp)
    · cases h
  · cases h

end ThemeSheet.Literal
