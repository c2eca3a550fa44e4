import Mathlib.Computability.Language
import ThemeSheet.Literal.Pattern

/-! The language of a pattern: the texts it matches, however they are split among its parts. A
pattern that does not look back ends where it is behind one of these. -/

namespace ThemeSheet.Literal.Pattern

open Computability

/-- The texts that are matched where no look back fails. -/
def language : Pattern → Language Char
  | one holds => {text | ∃ c, text = [c] ∧ holds c = true}
  | seq first second => first.language * second.language
  | either first second => first.language + second.language
  | many _ inner => inner.language∗
  | notAfter _ => 1

def looksBack : Pattern → Bool
  | one _ => false
  | seq first second | either first second => first.looksBack || second.looksBack
  | many _ inner => inner.looksBack
  | notAfter _ => true

/-- The characters that a pattern may take. -/
def takes : Pattern → Char → Bool
  | one holds, c => holds c
  | seq first second, c | either first second, c => first.takes c || second.takes c
  | many _ inner, c => inner.takes c
  | notAfter _, _ => false

variable {p q : Pattern} {text : List Char} {holds : Char → Bool} {greedy : Bool}

theorem mem_one : text ∈ (one holds).language ↔ ∃ c, text = [c] ∧ holds c = true := Iff.rfl

theorem mem_seq : text ∈ (seq p q).language ↔
    ∃ front ∈ p.language, ∃ back ∈ q.language, front ++ back = text := Language.mem_mul

theorem mem_either : text ∈ (either p q).language ↔ text ∈ p.language ∨ text ∈ q.language :=
  Language.mem_add _ _ _

theorem mem_many : text ∈ (many greedy p).language ↔
    ∃ parts : List (List Char), text = parts.flatten ∧
      ∀ part ∈ parts, part ∈ p.language ∧ part ≠ [] :=
  Language.mem_kstar_iff_exists_nonempty

/-! Where a match ends, as many ways as there are to split it. -/

theorem mem_repeated_succ {once : Cursor → List Cursor} {most : Nat} {here there : Cursor} :
    there ∈ repeated greedy once (most + 1) here ↔
      there = here ∨ ∃ next ∈ once here, next.rest.length < here.rest.length ∧
        there ∈ repeated greedy once most next := by
  rw [repeated]
  cases greedy
  · simp [List.mem_flatMap, and_assoc]
  · simp [List.mem_flatMap, and_assoc, or_comm]

/-- Repetitions go on by the texts that one of them goes on by. -/
theorem exists_parts_of_mem_repeated {once : Cursor → List Cursor} {taken : Language Char}
    (step : ∀ {here there}, there ∈ once here → ∃ front ∈ taken, here.rest = front ++ there.rest)
    {most : Nat} {here there : Cursor} (mem : there ∈ repeated greedy once most here) :
    ∃ parts : List (List Char), here.rest = parts.flatten ++ there.rest ∧
      ∀ part ∈ parts, part ∈ taken ∧ part ≠ [] := by
  induction most generalizing here with
  | zero =>
    obtain rfl := List.mem_singleton.mp mem
    exact ⟨[], rfl, by simp⟩
  | succ most ih =>
    rcases mem_repeated_succ.mp mem with rfl | ⟨next, reached, shorter, mem⟩
    · exact ⟨[], rfl, by simp⟩
    · obtain ⟨part, matched, split⟩ := step reached
      obtain ⟨parts, split', each⟩ := ih mem
      have some : part ≠ [] := by
        rintro rfl
        rw [split] at shorter
        exact absurd shorter (Nat.lt_irrefl _)
      refine ⟨part :: parts, ?_, List.forall_mem_cons.mpr ⟨⟨matched, some⟩, each⟩⟩
      rw [split, split', List.flatten_cons, List.append_assoc]

/-- One after the other the parts are taken, of which there are no more than characters. -/
theorem exists_mem_repeated {once : Cursor → List Cursor} {parts : List (List Char)}
    (step : ∀ part ∈ parts, part ≠ [] ∧ ∀ before rest,
      ∃ there ∈ once ⟨before, part ++ rest⟩, there.rest = rest)
    (before : Option Char) (rest : List Char) {most : Nat} (enough : parts.flatten.length ≤ most) :
    ∃ there ∈ repeated greedy once most ⟨before, parts.flatten ++ rest⟩, there.rest = rest := by
  induction parts generalizing before most with
  | nil =>
    cases most with
    | zero => exact ⟨_, List.mem_singleton_self _, rfl⟩
    | succ most => exact ⟨_, mem_repeated_succ.mpr (.inl rfl), rfl⟩
  | cons part parts ih =>
    obtain ⟨⟨some, step⟩, further⟩ := List.forall_mem_cons.mp step
    have long := List.length_pos_iff.mpr some
    rw [List.flatten_cons, List.length_append] at enough
    obtain ⟨most, rfl⟩ : ∃ n, most = n + 1 := ⟨most - 1, by omega⟩
    obtain ⟨⟨before', rest'⟩, reached, rfl⟩ := step before (parts.flatten ++ rest)
    obtain ⟨there, mem, same⟩ := ih further before' (by omega : parts.flatten.length ≤ most)
    rw [List.flatten_cons, List.append_assoc]
    refine ⟨there, mem_repeated_succ.mpr (.inr ⟨_, reached, ?_, mem⟩), same⟩
    simp only [List.length_append]
    omega

/-- What stands between a place and the end of a match is in the language. -/
theorem exists_front_of_mem_ends {here there : Cursor} (mem : there ∈ p.ends here) :
    ∃ front ∈ p.language, here.rest = front ++ there.rest := by
  induction p generalizing here there with
  | one holds =>
    obtain ⟨before, _ | ⟨c, rest⟩⟩ := here
    · cases mem
    · rw [ends] at mem
      dsimp only at mem
      split at mem
      · obtain rfl := List.mem_singleton.mp mem
        exact ⟨[c], ⟨c, rfl, ‹_›⟩, rfl⟩
      · cases mem
  | seq p q ih ih' =>
    obtain ⟨next, reached, mem⟩ := List.mem_flatMap.mp mem
    obtain ⟨front, matched, split⟩ := ih reached
    obtain ⟨back, matched', split'⟩ := ih' mem
    refine ⟨front ++ back, mem_seq.mpr ⟨front, matched, back, matched', rfl⟩, ?_⟩
    rw [split, split', List.append_assoc]
  | either p q ih ih' =>
    rcases List.mem_append.mp mem with mem | mem
    · obtain ⟨front, matched, split⟩ := ih mem
      exact ⟨front, mem_either.mpr (.inl matched), split⟩
    · obtain ⟨front, matched, split⟩ := ih' mem
      exact ⟨front, mem_either.mpr (.inr matched), split⟩
  | many greedy p ih =>
    obtain ⟨parts, split, each⟩ := exists_parts_of_mem_repeated (fun reached => ih reached) mem
    exact ⟨parts.flatten, mem_many.mpr ⟨parts, rfl, each⟩, split⟩
  | notAfter holds =>
    rw [ends] at mem
    split at mem
    · cases mem
    · obtain rfl := List.mem_singleton.mp mem
      exact ⟨[], rfl, rfl⟩

/-- A text of the language is matched wherever it stands, by a pattern that does not look back. -/
theorem exists_mem_ends (forward : p.looksBack = false) {front : List Char}
    (mem : front ∈ p.language) (before : Option Char) (rest : List Char) :
    ∃ there ∈ p.ends ⟨before, front ++ rest⟩, there.rest = rest := by
  induction p generalizing front before rest with
  | one holds =>
    obtain ⟨c, rfl, taken⟩ := mem
    refine ⟨⟨some c, rest⟩, ?_, rfl⟩
    change _ ∈ if holds c then _ else _
    rw [if_pos taken]
    exact List.mem_singleton_self _
  | seq p q ih ih' =>
    obtain ⟨forward, forward'⟩ := Bool.or_eq_false_iff.mp forward
    obtain ⟨front, matched, back, matched', rfl⟩ := mem_seq.mp mem
    obtain ⟨⟨before', rest'⟩, reached, rfl⟩ := ih forward matched before (back ++ rest)
    obtain ⟨there, reached', same⟩ := ih' forward' matched' before' rest
    rw [List.append_assoc]
    exact ⟨there, List.mem_flatMap.mpr ⟨_, reached, reached'⟩, same⟩
  | either p q ih ih' =>
    obtain ⟨forward, forward'⟩ := Bool.or_eq_false_iff.mp forward
    rcases mem_either.mp mem with mem | mem
    · obtain ⟨there, reached, same⟩ := ih forward mem before rest
      exact ⟨there, List.mem_append_left _ reached, same⟩
    · obtain ⟨there, reached, same⟩ := ih' forward' mem before rest
      exact ⟨there, List.mem_append_right _ reached, same⟩
  | many greedy p ih =>
    obtain ⟨parts, rfl, each⟩ := mem_many.mp mem
    refine exists_mem_repeated (fun part mem => ?_) before rest (by simp)
    exact ⟨(each part mem).2, fun before rest => ih forward (each part mem).1 before rest⟩
  | notAfter holds => cases forward

theorem takes_of_mem (mem : text ∈ p.language) : ∀ c ∈ text, p.takes c = true := by
  induction p generalizing text with
  | one holds =>
    obtain ⟨c, rfl, taken⟩ := mem
    exact List.forall_mem_singleton.mpr taken
  | seq p q ih ih' =>
    obtain ⟨front, matched, back, matched', rfl⟩ := mem_seq.mp mem
    intro c there
    rcases List.mem_append.mp there with there | there
    · exact Bool.or_eq_true_iff.mpr (.inl (ih matched c there))
    · exact Bool.or_eq_true_iff.mpr (.inr (ih' matched' c there))
  | either p q ih ih' =>
    intro c there
    rcases mem_either.mp mem with mem | mem
    · exact Bool.or_eq_true_iff.mpr (.inl (ih mem c there))
    · exact Bool.or_eq_true_iff.mpr (.inr (ih' mem c there))
  | many greedy p ih =>
    obtain ⟨parts, rfl, each⟩ := mem_many.mp mem
    intro c there
    obtain ⟨part, mem, there⟩ := List.mem_flatten.mp there
    exact ih (each part mem).1 c there
  | notAfter holds =>
    obtain rfl : text = [] := mem
    simp

/-! Whole lines. -/

/-- Whether a match goes to the end of the text, or to a line break that ends it. -/
def matchesLine (p : Pattern) (text : List Char) : Bool :=
  (p.ends ⟨none, text⟩).any fun there => there.rest == [] || there.rest == ['\n']

/-- The text without a line break at its end. -/
def line (text : List Char) : List Char :=
  if text.getLast? = some '\n' then text.dropLast else text

theorem line_of_not_broken (unbroken : text.getLast? ≠ some '\n') : line text = text :=
  if_neg unbroken

theorem line_concat (text : List Char) : line (text ++ ['\n']) = text := by
  simp [line]

theorem line_cases (text : List Char) : text = line text ∨ text = line text ++ ['\n'] := by
  rw [line]
  split
  · next broken => exact .inr (List.dropLast_append_getLast? '\n' broken).symm
  · exact .inl rfl

/-- A pattern without line breaks matches the same with or without one at the end. -/
theorem matchesLine_iff (forward : p.looksBack = false) (within : p.takes '\n' = false) :
    p.matchesLine text = true ↔ line text ∈ p.language := by
  have unbroken {front : List Char} (mem : front ∈ p.language) : front.getLast? ≠ some '\n' := by
    intro last
    have taken := takes_of_mem mem '\n' (List.mem_of_getLast? last)
    exact absurd (taken.symm.trans within) (by decide)
  rw [matchesLine, List.any_eq_true]
  constructor
  · rintro ⟨there, reached, ended⟩
    obtain ⟨front, mem, split⟩ := exists_front_of_mem_ends reached
    change text = front ++ there.rest at split
    rw [Bool.or_eq_true, beq_iff_eq, beq_iff_eq] at ended
    rcases ended with ended | ended
    · rw [ended, List.append_nil] at split
      rwa [split, line_of_not_broken (unbroken mem)]
    · rw [ended] at split
      rwa [split, line_concat]
  · intro mem
    rcases line_cases text with same | same
    · obtain ⟨there, reached, ended⟩ := exists_mem_ends forward mem none []
      rw [List.append_nil, ← same] at reached
      exact ⟨there, reached, by simp [ended]⟩
    · obtain ⟨there, reached, ended⟩ := exists_mem_ends forward mem none ['\n']
      rw [← same] at reached
      exact ⟨there, reached, by simp [ended]⟩

/-! Patterns that are written with these. -/

/-- The empty text. -/
def nothing : Pattern :=
  many true (one fun _ => false)

def optional (p : Pattern) : Pattern :=
  either p nothing

/-- Once or more often. -/
def oneOrMore (p : Pattern) : Pattern :=
  seq p (many true p)

def times (p : Pattern) : Nat → Pattern
  | 0 => nothing
  | n + 1 => seq p (times p n)

theorem mem_run : text ∈ (many greedy (one holds)).language ↔ ∀ c ∈ text, holds c = true := by
  rw [mem_many]
  constructor
  · rintro ⟨parts, rfl, each⟩ c mem
    obtain ⟨part, there, mem⟩ := List.mem_flatten.mp mem
    obtain ⟨d, rfl, taken⟩ := (each part there).1
    rwa [List.mem_singleton.mp mem]
  · intro each
    refine ⟨text.map fun c => [c], ?_, ?_⟩
    · simp [← List.flatMap_def]
    · simpa [mem_one] using each

theorem mem_nothing : text ∈ nothing.language ↔ text = [] := by
  simp [nothing, mem_run, List.eq_nil_iff_forall_not_mem]

theorem mem_optional : text ∈ (optional p).language ↔ text ∈ p.language ∨ text = [] := by
  rw [optional, mem_either, mem_nothing]

theorem mem_char {c : Char} : text ∈ (char c).language ↔ text = [c] := by
  simp [char, mem_one]

theorem mem_seq_one : text ∈ (seq (one holds) p).language ↔
    ∃ c rest, text = c :: rest ∧ holds c = true ∧ rest ∈ p.language := by
  rw [mem_seq]
  constructor
  · rintro ⟨front, ⟨c, rfl, taken⟩, rest, mem, rfl⟩
    exact ⟨c, rest, rfl, taken, mem⟩
  · rintro ⟨c, rest, rfl, taken, mem⟩
    exact ⟨[c], ⟨c, rfl, taken⟩, rest, mem, rfl⟩

theorem mem_oneOrMore : text ∈ (oneOrMore (one holds)).language ↔
    text ≠ [] ∧ ∀ c ∈ text, holds c = true := by
  rw [oneOrMore, mem_seq_one]
  constructor
  · rintro ⟨c, rest, rfl, taken, mem⟩
    exact ⟨by simp, List.forall_mem_cons.mpr ⟨taken, mem_run.mp mem⟩⟩
  · rintro ⟨nonempty, each⟩
    obtain ⟨c, rest, rfl⟩ := List.exists_cons_of_ne_nil nonempty
    obtain ⟨taken, each⟩ := List.forall_mem_cons.mp each
    exact ⟨c, rest, rfl, taken, mem_run.mpr each⟩

theorem mem_times {n : Nat} : text ∈ (times (one holds) n).language ↔
    text.length = n ∧ ∀ c ∈ text, holds c = true := by
  induction n generalizing text with
  | zero =>
    rw [times, mem_nothing, List.length_eq_zero_iff]
    exact ⟨by rintro rfl; simp, And.left⟩
  | succ n ih =>
    rw [times, mem_seq_one]
    constructor
    · rintro ⟨c, rest, rfl, taken, mem⟩
      obtain ⟨long, each⟩ := ih.mp mem
      exact ⟨congrArg (· + 1) long, List.forall_mem_cons.mpr ⟨taken, each⟩⟩
    · rintro ⟨long, each⟩
      obtain ⟨c, rest, rfl⟩ := List.exists_cons_of_length_eq_add_one long
      obtain ⟨taken, each⟩ := List.forall_mem_cons.mp each
      exact ⟨c, rest, rfl, taken, ih.mpr ⟨by simpa using long, each⟩⟩

theorem mem_times_optional {n : Nat} :
    text ∈ (seq (times (one holds) n) (optional (one holds))).language ↔
      (text.length = n ∨ text.length = n + 1) ∧ ∀ c ∈ text, holds c = true := by
  rw [mem_seq]
  simp only [mem_times, mem_optional, mem_one]
  constructor
  · rintro ⟨front, ⟨rfl, each⟩, _, ⟨c, rfl, taken⟩ | rfl, rfl⟩
    · exact ⟨.inr (by simp), List.forall_mem_append.mpr
        ⟨each, List.forall_mem_singleton.mpr taken⟩⟩
    · rw [List.append_nil]
      exact ⟨.inl rfl, each⟩
  · rintro ⟨long | longer, each⟩
    · exact ⟨text, ⟨long, each⟩, [], .inr rfl, List.append_nil text⟩
    · rcases List.eq_nil_or_concat' text with rfl | ⟨front, c, rfl⟩
      · cases longer
      · obtain ⟨each, taken⟩ := List.forall_mem_append.mp each
        exact ⟨front, ⟨by simpa using longer, each⟩, [c],
          .inl ⟨c, rfl, taken c (by simp)⟩, rfl⟩

end ThemeSheet.Literal.Pattern
