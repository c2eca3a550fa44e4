import ThemeSheet.Literal.Normalize

namespace ThemeSheet.Literal

open Text

/-- A place in a text: the character before it, and what follows. -/
structure Cursor where
  before : Option Char
  rest : List Char
deriving DecidableEq, Repr

def Cursor.ofIndex (text : List Char) (index : Nat) : Cursor :=
  ⟨(text.take index).getLast?, text.drop index⟩

/-- A regular expression over characters. -/
inductive Pattern
  /-- One character of a class. -/
  | one (holds : Char → Bool)
  | seq (first second : Pattern)
  /-- The second is tried only where the first leads nowhere. -/
  | either (first second : Pattern)
  /-- Any number of times: as often as can be if greedy, else as seldom. -/
  | many (greedy : Bool) (inner : Pattern)
  /-- Nothing, unless a character of the class stands before. -/
  | notAfter (holds : Char → Bool)

namespace Pattern

/-- Where repetitions end, no more of them than `most`. Each takes at least one character. -/
def repeated (greedy : Bool) (once : Cursor → List Cursor) : (most : Nat) → Cursor → List Cursor
  | 0, here => [here]
  | most + 1, here =>
    let shorter := (once here).filter fun there => there.rest.length < here.rest.length
    let further := shorter.flatMap (repeated greedy once most)
    if greedy then further ++ [here] else here :: further

/-- Where matches that begin at a place end, in the order in which they are tried. -/
def ends : Pattern → Cursor → List Cursor
  | one holds, here =>
    match here.rest with
    | [] => []
    | c :: rest => if holds c then [⟨some c, rest⟩] else []
  | seq first second, here => (first.ends here).flatMap second.ends
  | either first second, here => first.ends here ++ second.ends here
  | many greedy inner, here => repeated greedy inner.ends here.rest.length here
  | notAfter holds, here => if here.before.any holds then [] else [here]

/-- The index behind the match that begins at an index, if there is one. -/
def end? (p : Pattern) (text : List Char) (index : Nat) : Option Nat :=
  (p.ends (.ofIndex text index)).head?.map fun there => text.length - there.rest.length

def char (c : Char) : Pattern :=
  one (· == c)

def anything : Pattern :=
  one fun _ => true

/-- A character that stands for itself between quotes. -/
def isPlainIn (quote c : Char) : Bool :=
  c != quote && c != '\\' && (c != '\n' || quote == backtick)

def stringPart (quote : Char) : Pattern :=
  either (seq (char '\\') anything) (one (isPlainIn quote))

def string (quote : Char) : Pattern :=
  seq (char quote) (seq (many true (stringPart quote)) (char quote))

def anyString : Pattern :=
  either (string '"') (either (string '\'') (string backtick))

def lineComment : Pattern :=
  seq (char '/') (seq (char '/') (many true (one (· != '\n'))))

def blockComment : Pattern :=
  seq (char '/') (seq (char '*') (seq (many false anything) (seq (char '*') (char '/'))))

def comment : Pattern :=
  either lineComment blockComment

/-- What most steps leave alone. -/
def opaqueText : Pattern :=
  either lineComment (either blockComment anyString)

def spaces : Pattern :=
  many true (one isSpace)

def key : Pattern :=
  either (seq (one isNameStart) (many true (one isNamePart)))
    (seq (one isDecimal) (many true (one isDecimal)))

end Pattern

/-- One of the alternatives of a step: its parts in order, whether it is there for strings or
comments, and what is written for the texts of its parts. -/
structure Rule where
  parts : List Pattern
  isOpaque : Bool
  write : List (List Char) → List Char

namespace Rule

/-- A string or comment, as it is. -/
def copy (p : Pattern) : Rule :=
  ⟨[p], true, List.flatten⟩

/-- Where the parts can end one after the other, with the text of each. -/
def partEnds : List Pattern → Cursor → List (List (List Char) × Cursor)
  | [], here => [([], here)]
  | p :: others, here =>
    (p.ends here).flatMap fun there =>
      (partEnds others there).map fun (texts, reached) =>
        (here.rest.take (here.rest.length - there.rest.length) :: texts, reached)

end Rule

/-- A match: its rule, the texts of the rule's parts, and where it ends. -/
structure Match where
  rule : Rule
  texts : List (List Char)
  reached : Cursor

/-- The match at a place, by the first rule that has one. -/
def match? (rules : List Rule) (here : Cursor) : Option Match :=
  (rules.findSome? fun rule =>
    (Rule.partEnds rule.parts here).head?.map fun (texts, reached) => ⟨rule, texts, reached⟩).filter
      fun found => found.reached.rest.length < here.rest.length

theorem match?_length_lt {rules : List Rule} {here : Cursor} {found : Match}
    (h : match? rules here = some found) : found.reached.rest.length < here.rest.length := by
  simpa using (Option.filter_eq_some_iff.mp h).2

/-- What a search from left to right makes of a text: matches, and characters outside them. -/
inductive Stretch
  | kept (c : Char)
  | matched (start stop : Nat) (found : Match)

/-- Searches a text that stands at `place`. -/
def stretches (rules : List Rule) (place : Nat) (here : Cursor) : List Stretch :=
  match h : match? rules here with
  | some found =>
    have := match?_length_lt h
    let stop := place + (here.rest.length - found.reached.rest.length)
    .matched place stop found :: stretches rules stop found.reached
  | none =>
    match here with
    | ⟨_, []⟩ => []
    | ⟨_, c :: rest⟩ => .kept c :: stretches rules (place + 1) ⟨some c, rest⟩
termination_by here.rest.length

namespace Stretch

def write : Stretch → List Char
  | kept c => [c]
  | matched _ _ found => found.rule.write found.texts

/-- From where to where a string or comment reaches. -/
def span? : Stretch → Option (Nat × Nat)
  | kept _ => none
  | matched start stop found => if found.rule.isOpaque then some (start, stop) else none

end Stretch

/-- Writes a text anew, match by match. -/
def rewriteBy (rules : List Rule) (text : List Char) : List Char :=
  (stretches rules 0 ⟨none, text⟩).flatMap Stretch.write

/-- The strings and comments that a search meets. -/
def spansBy (rules : List Rule) (text : List Char) : List (Nat × Nat) :=
  (stretches rules 0 ⟨none, text⟩).filterMap Stretch.span?

namespace Rule

open Pattern

def quoteKey : List (List Char) → List Char
  | [_, key, space, colon] => '"' :: key ++ '"' :: space ++ colon
  | texts => texts.flatten

/-- A bare key with the colon behind it. -/
def bareKey : Rule :=
  ⟨[notAfter joinsName, key, spaces, char ':'], false, quoteKey⟩

/-- A string in other quotes. -/
def requoted (quote : Char) : Rule :=
  ⟨[string quote], true, fun texts => '"' :: requote quote texts.flatten.tail.dropLast ++ ['"']⟩

/-- A comma and the closing bracket behind it. -/
def trailingComma : Rule :=
  ⟨[char ',', spaces, one closesContainer], false, fun texts => texts.getD 2 []⟩

def forKeys : List Rule :=
  [copy opaqueText, bareKey]

def forQuotes : List Rule :=
  [copy comment, copy (string '"'), requoted '\'', requoted backtick]

def forCommas : List Rule :=
  [copy opaqueText, trailingComma]

def forComments : List Rule :=
  [copy anyString, ⟨[comment], true, fun _ => []⟩]

end Rule
end ThemeSheet.Literal
