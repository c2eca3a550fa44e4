import ThemeSheet.Literal.Bracket

namespace ThemeSheet.Literal

/-- The last `count` characters and then the whole text again: what is read by a scan that begins
before the first index. -/
def readAround (text : List Char) (count : Nat) : List Char :=
  if count ≤ text.length then text.drop (text.length - count) ++ text else []

/-- The index at which a rest of such a reading begins. -/
def indexOf (text rest : List Char) : Int := text.length - rest.length

/-- The index after the string that opens at an index. One below zero counts from the end, and the
string it opens runs on into the whole text. -/
def stringEndAt? (text : List Char) : (index : Int) → Option Int
  | .ofNat index => (stringEnd? text index).map fun stop => (stop : Int)
  | .negSucc before =>
    match readAround text (before + 1) with
    | [] => none
    | c :: rest => some (indexOf text (afterString c rest))

/-- What follows the comment that opens in `ahead`, the part that is read before the whole text. A
comment ends in the text it opens in and does not run on. -/
def afterComment? (text ahead : List Char) : Option (List Char) :=
  match ahead with
  | '/' :: '/' :: rest => some (rest.dropWhile (· != '\n'))
  | ['/', '*'] => some (afterBlockComment text)
  | '/' :: '*' :: rest => some (afterBlockComment rest)
  | _ => none

/-- `afterClose?` for a reading that runs on into the whole text. -/
def afterCloseAround? (text : List Char) (opening closing : Char) (depth : Nat)
    (rest : List Char) : Option (List Char) :=
  match afterComment? text (rest.take (rest.length - text.length)) with
  | some rest => afterClose? opening closing depth rest
  | none =>
    match rest with
    | [] => none
    | c :: rest =>
      if (c :: rest).length ≤ text.length then afterClose? opening closing depth (c :: rest)
      else if isQuote c then
        afterCloseAround? text opening closing depth (afterString c rest)
      else if c = opening then afterCloseAround? text opening closing (depth + 1) rest
      else if c = closing then
        if depth ≤ 1 then some rest else afterCloseAround? text opening closing (depth - 1) rest
      else afterCloseAround? text opening closing depth rest
termination_by rest.length
decreasing_by
  · exact Nat.lt_succ_of_le (afterString_length_le c rest)
  · exact Nat.lt_succ_self rest.length
  · exact Nat.lt_succ_self rest.length
  · exact Nat.lt_succ_self rest.length

/-- The index of the bracket that closes the one at an index, which may count from the end. -/
def closingIndexAt (text : List Char) : (index : Int) → Except BracketFault (Option Int)
  | .ofNat index => (closingIndex text index).map (·.map fun found => (found : Int))
  | .negSucc before =>
    match readAround text (before + 1) with
    | [] => .error .outOfRange
    | c :: rest =>
      match closing? c with
      | none => .error (.notOpening c)
      | some closing =>
        .ok ((afterCloseAround? text c closing 1 rest).map fun after => indexOf text after - 1)

end ThemeSheet.Literal
