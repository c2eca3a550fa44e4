import ThemeSheet.Text.Ranges

namespace ThemeSheet.Text

/-- White space as Unicode sees it, and the four ASCII information separators.
The zero width space and the byte order mark are not in it. -/
def spaceRanges : Ranges :=
  [(0x9, 0xd), (0x1c, 0x20), (0x85, 0x85), (0xa0, 0xa0), (0x1680, 0x1680), (0x2000, 0x200a),
   (0x2028, 0x2029), (0x202f, 0x202f), (0x205f, 0x205f), (0x3000, 0x3000)]

def isSpace (c : Char) : Bool :=
  spaceRanges.covers c

def trimLeft (text : List Char) : List Char :=
  text.dropWhile isSpace

/-- Drops the white space at both ends. -/
def trim (text : List Char) : List Char :=
  (trimLeft (trimLeft text).reverse).reverse

theorem trimLeft_length_le (text : List Char) : (trimLeft text).length ≤ text.length :=
  (List.dropWhile_suffix _).length_le

/-- After the leading white space is gone, none leads. -/
theorem head_trimLeft {text : List Char} {c : Char} {rest : List Char}
    (h : trimLeft text = c :: rest) : isSpace c = false := by
  induction text with
  | nil => simp [trimLeft] at h
  | cons d tail ih =>
    cases hd : isSpace d with
    | true => exact ih (by simpa [trimLeft, hd] using h)
    | false =>
      simp only [trimLeft, List.dropWhile_cons, hd] at h
      obtain ⟨rfl, -⟩ := List.cons.inj h
      exact hd

end ThemeSheet.Text
