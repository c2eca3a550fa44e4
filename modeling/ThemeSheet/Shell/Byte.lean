import ThemeSheet.Files.Path
import ThemeSheet.Text.Utf8

namespace ThemeSheet.Shell

open Text

/-- Within a script a byte is the character of that number. -/
def charsOf (bytes : List UInt8) : List Char :=
  bytes.map fun b => Char.ofNat b.toNat

def bytesOf (chars : List Char) : List UInt8 :=
  chars.map fun c => UInt8.ofNat c.toNat

theorem toNat_ofNat_byte (b : UInt8) : (Char.ofNat b.toNat).toNat = b.toNat := by
  have valid : b.toNat.isValidChar := .inl (Nat.lt_trans b.toNat_lt (by decide))
  unfold Char.ofNat
  rw [dif_pos valid]
  rfl

theorem bytesOf_charsOf (bytes : List UInt8) : bytesOf (charsOf bytes) = bytes := by
  induction bytes with
  | nil => rfl
  | cons b rest ih =>
    show UInt8.ofNat (Char.ofNat b.toNat).toNat :: bytesOf (charsOf rest) = b :: rest
    rw [ih, toNat_ofNat_byte, UInt8.ofNat_toNat]

def ofText (text : String) : List Char :=
  charsOf (encodeUtf8 text.toList)

/-- The text of bytes, one character for each where they are not UTF-8. -/
def textOf (bytes : List UInt8) : List Char :=
  match decodeUtf8 bytes with
  | .ok text => text
  | .error _ => charsOf bytes

def pathOf (chars : List Char) : Path :=
  .ofString (String.ofList (textOf (bytesOf chars)))

end ThemeSheet.Shell
