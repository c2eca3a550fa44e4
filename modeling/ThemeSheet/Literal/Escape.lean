import ThemeSheet.Text.Hex
import ThemeSheet.Text.Utf16

namespace ThemeSheet.Literal

open Text

/-- The code points of a one-character escape. An escaped line feed is no character. -/
def plainEscape (c : Char) : List Nat :=
  if c = 'n' then [10]
  else if c = 't' then [9]
  else if c = 'r' then [13]
  else if c = 'b' then [8]
  else if c = 'f' then [12]
  else if c = 'v' then [11]
  else if c = '0' then [0]
  else if c = '\n' then []
  else [c.toNat]

/-- A code point in braces, after `\u{`. -/
def bracedEscape? (text : List Char) : Option (Nat × List Char) :=
  let digits := text.takeWhile isHex
  match text.dropWhile isHex with
  | '}' :: rest => if digits.isEmpty then none else some (ofHex digits, rest)
  | _ => none

/-- Exactly `width` hexadecimal digits. -/
def fixedEscape? (width : Nat) (text : List Char) : Option (Nat × List Char) :=
  let digits := text.take width
  if digits.length = width ∧ digits.all isHex then some (ofHex digits, text.drop width) else none

/-- The escape after a backslash. One that is not completed stands for its first character. -/
def escape (c : Char) (rest : List Char) : List Nat × List Char :=
  let numeric :=
    if c = 'u' then
      match rest with
      | '{' :: inner => bracedEscape? inner
      | _ => fixedEscape? 4 rest
    else if c = 'x' then fixedEscape? 2 rest
    else none
  match numeric with
  | some (n, rest) => ([n], rest)
  | none => (plainEscape c, rest)

theorem bracedEscape?_length_le {text rest : List Char} {n : Nat}
    (h : bracedEscape? text = some (n, rest)) : rest.length ≤ text.length := by
  unfold bracedEscape? at h
  dsimp only at h
  split at h
  · rename_i after eq
    split at h
    · cases h
    · cases h
      have := (List.dropWhile_suffix (l := text) isHex).length_le
      rw [eq, List.length_cons] at this
      omega
  · cases h

theorem fixedEscape?_length_le {width : Nat} {text rest : List Char} {n : Nat}
    (h : fixedEscape? width text = some (n, rest)) : rest.length ≤ text.length := by
  unfold fixedEscape? at h
  dsimp only at h
  split at h
  · cases h
    simp
  · cases h

theorem escape_length_le (c : Char) (rest : List Char) :
    (escape c rest).2.length ≤ rest.length := by
  unfold escape
  dsimp only
  split
  · rename_i n rest' h
    split at h
    · split at h
      · exact Nat.le_succ_of_le (bracedEscape?_length_le h)
      · exact fixedEscape?_length_le h
    · split at h
      · exact fixedEscape?_length_le h
      · cases h
  · exact Nat.le_refl _

/-- The code points that a string body denotes. Surrogates are left as they are written. -/
def codePoints (body : List Char) : List Nat :=
  match body with
  | [] => []
  | '\\' :: c :: rest =>
    have := escape_length_le c rest
    (escape c rest).1 ++ codePoints (escape c rest).2
  | c :: rest => c.toNat :: codePoints rest
termination_by body.length

def maxCodePoint : Nat := 0x10FFFF

/-- The first code point that is none, if there is one. -/
def firstBadPoint? (body : List Char) : Option Nat :=
  (codePoints body).find? (maxCodePoint < ·)

/-- The text that a string body denotes. -/
def unescape (body : List Char) : String :=
  String.ofList (joinSurrogates (codePoints body))

end ThemeSheet.Literal
