import ThemeSheet.Text.Hex
import ThemeSheet.Text.Utf16

namespace ThemeSheet.Text

inductive Utf8Fault
  | badStart
  | badContinuation
  | cutShort
deriving DecidableEq, Repr

/-- The first bytes of a file that are not UTF-8. `length` counts the bytes that could have begun
a character. -/
structure Utf8Error where
  first : UInt8
  position : Nat
  length : Nat
  fault : Utf8Fault
deriving DecidableEq, Repr

def Utf8Fault.message : Utf8Fault → String
  | badStart => "invalid start byte"
  | badContinuation => "invalid continuation byte"
  | cutShort => "unexpected end of data"

def Utf8Error.message (e : Utf8Error) : String :=
  let place :=
    if e.length ≤ 1 then
      s!"byte 0x{String.ofList (hexDigits 2 e.first.toNat)} in position {e.position}"
    else s!"bytes in position {e.position}-{e.position + e.length - 1}"
  "'utf-8' codec can't decode " ++ place ++ ": " ++ e.fault.message

/-- What a first byte promises: its payload, how many bytes follow, and the range of the second. -/
structure LeadByte where
  payload : Nat
  following : Nat
  low : Nat
  high : Nat

def leadByte? (b : Nat) : Option LeadByte :=
  if b < 0x80 then some ⟨b, 0, 0x80, 0xBF⟩
  else if b < 0xC2 then none
  else if b < 0xE0 then some ⟨b - 0xC0, 1, 0x80, 0xBF⟩
  else if b = 0xE0 then some ⟨0, 2, 0xA0, 0xBF⟩
  else if b = 0xED then some ⟨0xD, 2, 0x80, 0x9F⟩
  else if b < 0xF0 then some ⟨b - 0xE0, 2, 0x80, 0xBF⟩
  else if b = 0xF0 then some ⟨0, 3, 0x90, 0xBF⟩
  else if b < 0xF4 then some ⟨b - 0xF0, 3, 0x80, 0xBF⟩
  else if b = 0xF4 then some ⟨4, 3, 0x80, 0x8F⟩
  else none

/-- Reads the bytes after a first byte. `taken` counts the bytes of the character read so far. -/
def continuation (low high : Nat) :
    (following taken value : Nat) → List UInt8 → Except (Nat × Utf8Fault) (Nat × List UInt8)
  | 0, _, value, rest => .ok (value, rest)
  | _ + 1, taken, _, [] => .error (taken, .cutShort)
  | following + 1, taken, value, b :: rest =>
    if low ≤ b.toNat ∧ b.toNat ≤ high then
      continuation 0x80 0xBF following (taken + 1) (value * 64 + b.toNat % 64) rest
    else .error (taken, .badContinuation)

theorem continuation_length_le {low high following taken value : Nat} {bytes : List UInt8}
    {result : Nat × List UInt8}
    (h : continuation low high following taken value bytes = .ok result) :
    result.2.length ≤ bytes.length := by
  induction following generalizing low high taken value bytes with
  | zero => cases h; exact Nat.le_refl _
  | succ following ih =>
    cases bytes with
    | nil => cases h
    | cons b rest =>
      rw [continuation] at h
      split at h
      · exact Nat.le_succ_of_le (ih h)
      · cases h

/-- Decodes bytes that stand at `position`. -/
def decodeUtf8At (position : Nat) : List UInt8 → Except Utf8Error (List Char)
  | [] => .ok []
  | b :: rest =>
    match leadByte? b.toNat with
    | none => .error ⟨b, position, 1, .badStart⟩
    | some lead =>
      match h : continuation lead.low lead.high lead.following 1 lead.payload rest with
      | .error (length, fault) => .error ⟨b, position, length, fault⟩
      | .ok (value, rest') =>
        have : rest'.length ≤ rest.length := continuation_length_le h
        (decodeUtf8At (position + 1 + lead.following) rest').map (Char.ofNat value :: ·)
termination_by bytes => bytes.length

def decodeUtf8 (bytes : List UInt8) : Except Utf8Error (List Char) :=
  decodeUtf8At 0 bytes

def encodeUtf8 (text : List Char) : List UInt8 :=
  text.flatMap String.utf8EncodeChar

/-- What a text in memory is made of: characters, and surrogates that stand for nothing. -/
abbrev CodePoint := Fin 0x110000

def codePoint (c : Char) : CodePoint :=
  ⟨c.toNat, by
    have := c.valid
    simp only [UInt32.isValidChar, Nat.isValidChar, Char.toNat] at this ⊢
    omega⟩

def CodePoint.isSurrogate (point : CodePoint) : Bool :=
  isHighSurrogate point || isLowSurrogate point

/-- The first surrogates of a text, for which there are no bytes. -/
structure EncodeError where
  first : CodePoint
  position : Nat
  length : Nat
deriving DecidableEq, Repr

def EncodeError.message (e : EncodeError) : String :=
  let place :=
    if e.length ≤ 1 then
      "character '\\u" ++ String.ofList (hexDigits 4 e.first) ++ s!"' in position {e.position}"
    else s!"characters in position {e.position}-{e.position + e.length - 1}"
  "'utf-8' codec can't encode " ++ place ++ ": surrogates not allowed"

/-- Encodes code points that stand at `position`. -/
def encodePointsAt (position : Nat) : List CodePoint → Except EncodeError (List UInt8)
  | [] => .ok []
  | point :: rest =>
    if point.isSurrogate then
      .error ⟨point, position, 1 + (rest.takeWhile CodePoint.isSurrogate).length⟩
    else
      (encodePointsAt (position + 1) rest).map (String.utf8EncodeChar (Char.ofNat point) ++ ·)

def encodePoints (text : List CodePoint) : Except EncodeError (List UInt8) :=
  encodePointsAt 0 text

/-- Line ends as texts are read: a carriage return, alone or before a line feed, is a line feed. -/
def unifyNewlines : List Char → List Char
  | [] => []
  | '\r' :: '\n' :: rest => '\n' :: unifyNewlines rest
  | c :: rest => (if c = '\r' then '\n' else c) :: unifyNewlines rest

end ThemeSheet.Text
