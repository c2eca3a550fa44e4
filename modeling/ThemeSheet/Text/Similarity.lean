namespace ThemeSheet.Text

/-- How many characters two texts start with in common. -/
def commonStart : List Char → List Char → Nat
  | a :: s, b :: t => if a = b then commonStart s t + 1 else 0
  | _, _ => 0

/-- A run of characters that stands in two texts. -/
structure CommonRun where
  first : Nat
  second : Nat
  length : Nat
deriving DecidableEq, Repr

/-- The longest common run, the one that starts first in `s` and then in `t` among equals. -/
def longestRun (s t : List Char) : CommonRun :=
  let runs := (List.range s.length).flatMap fun i =>
    (List.range t.length).map fun j => ⟨i, j, commonStart (s.drop i) (t.drop j)⟩
  runs.foldl (fun best run => if best.length < run.length then run else best) ⟨0, 0, 0⟩

/-- Characters in the longest common run, and in those found the same way before and after it. Every
run takes a character, so the length of a text is fuel enough. -/
def matchedCount : (fuel : Nat) → List Char → List Char → Nat
  | 0, _, _ => 0
  | fuel + 1, s, t =>
    let run := longestRun s t
    if run.length = 0 then 0
    else
      run.length + matchedCount fuel (s.take run.first) (t.take run.second) +
        matchedCount fuel (s.drop (run.first + run.length)) (t.drop (run.second + run.length))

/-- How much of two texts is common, from 0 to 1. -/
def similarity (s t : List Char) : Rat :=
  mkRat (2 * matchedCount s.length s t) (s.length + t.length)

/-- Texts that differ more are not suggested for one another. -/
def leastSimilarity : Rat := mkRat 3 5

/-- At most three of the texts that are close to a word, in the order of the alphabet. -/
def closeTexts (word : String) (texts : List String) : List String :=
  let scored := texts.map fun text => (similarity text.toList word.toList, text)
  let close := scored.filter fun entry => leastSimilarity ≤ entry.1
  let best := close.mergeSort fun a b => b.1 < a.1 || (b.1 == a.1 && b.2 ≤ a.2)
  ((best.take 3).map (·.2)).mergeSort fun a b => a ≤ b

end ThemeSheet.Text
