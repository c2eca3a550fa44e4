import ThemeSheet.Proofs.Interpolation
import ThemeSheet.Proofs.Normalized

/-! The steps towards a normal literal, taken on the pieces of a whole text. -/

namespace ThemeSheet.Text

/-- Decimal digits of every script are word characters. -/
theorem isNamePart_of_isDecimal {c : Char} (h : isDecimal c = true) : isNamePart c = true := by
  obtain ⟨d, hd⟩ := Option.isSome_iff_exists.mp h
  obtain ⟨first, found, -⟩ := Option.map_eq_some_iff.mp hd
  have near := List.find?_some found
  simp only [Bool.and_eq_true, decide_eq_true_eq] at near
  have mem := List.mem_of_find?_eq_some found
  by_cases small : c.toNat < 128
  · have := of_ascii (fun c => !isDecimal c || isNamePart c) small (by decide +kernel)
    simpa [h] using this
  · -- As a test of numbers this is evaluated much faster than as a decidable proposition.
    have words : decimalZeros.all (fun n => Nat.beq n 48 ||
        wordRanges.any fun word => Nat.ble word.1 n && Nat.ble (n + 9) word.2) = true := by
      decide +kernel
    have word := List.all_eq_true.mp words first mem
    simp only [Bool.or_eq_true, Nat.beq_eq, List.any_eq_true, Bool.and_eq_true, Nat.ble_eq] at word
    rcases word with rfl | ⟨word, mem, low, high⟩
    · omega
    · have covers : wordRanges.covers c = true :=
        Ranges.covers_iff.mpr ⟨word, mem, by omega, by omega⟩
      simp [isNamePart, isWord, small, covers]

end ThemeSheet.Text

namespace ThemeSheet.Literal

open Text

/-! Classes of pieces. -/

section Classes

variable {p q : Char → Bool} {piece : Piece}

theorem Piece.isCode_of (h : ∀ c, p c = true → q c = true) (part : piece.isCode p = true) :
    piece.isCode q = true := by
  cases piece with
  | code c => exact h c part
  | lineComment => cases part
  | blockComment => cases part
  | quoted => cases part

theorem Piece.not_isCode (h : ∀ c, p c = true → q c = false) (part : piece.isCode p = true) :
    piece.isCode q = false := by
  cases piece with
  | code c => exact h c part
  | lineComment => rfl
  | blockComment => rfl
  | quoted => rfl

end Classes

theorem codes_of_all {part : Char → Bool} {ps : List Piece}
    (h : ∀ piece ∈ ps, piece.isCode part = true) :
    ∃ chars : List Char, ps = chars.map .code ∧ ∀ c ∈ chars, part c = true := by
  induction ps with
  | nil => exact ⟨[], rfl, fun c mem => by cases mem⟩
  | cons piece ps ih =>
    obtain ⟨chars, rfl, all⟩ := ih fun p mem => h p (List.mem_cons_of_mem piece mem)
    have first := h piece List.mem_cons_self
    cases piece with
    | code c => exact ⟨c :: chars, rfl, List.forall_mem_cons.mpr ⟨first, all⟩⟩
    | lineComment => cases first
    | blockComment => cases first
    | quoted => cases first

theorem isCode_codes {p : Char → Bool} {chars : List Char} (h : ∀ c ∈ chars, p c = true) :
    ∀ piece ∈ chars.map Piece.code, piece.isCode p = true := by
  intro piece mem
  obtain ⟨c, found, rfl⟩ := List.mem_map.mp mem
  exact h c found

/-! The last piece of a class. -/

/-- A piece that is no space. -/
def Piece.isDark (piece : Piece) : Bool :=
  !piece.isCode isSpace

/-- A piece that is no comment. -/
def Piece.isSeen (piece : Piece) : Bool :=
  !piece.isComment

/-- A piece that belongs to a token. -/
def Piece.isSolid (piece : Piece) : Bool :=
  piece.isDark && piece.isSeen

def lastOf (p : Piece → Bool) (ps : List Piece) : Option Piece :=
  (ps.filter p).getLast?

section LastOf

variable {p : Piece → Bool}

theorem lastOf_append (a b : List Piece) : lastOf p (a ++ b) = (lastOf p b).or (lastOf p a) := by
  rw [lastOf, List.filter_append, List.getLast?_append]
  rfl

theorem lastOf_concat {piece : Piece} (holds : p piece = true) (front : List Piece) :
    lastOf p (front ++ [piece]) = some piece := by
  rw [lastOf_append]
  simp [lastOf, holds]

theorem lastOf_none {ps : List Piece} (h : ∀ piece ∈ ps, p piece = false) : lastOf p ps = none := by
  rw [lastOf, List.getLast?_eq_none_iff]
  exact List.filter_eq_nil_iff.mpr fun piece mem => by simp [h piece mem]

/-- Behind a piece of the class, what is before it does not matter. -/
theorem lastOf_behind {piece : Piece} {ps : List Piece} (holds : p piece = true)
    (mem : piece ∈ ps) (front : List Piece) : lastOf p (front ++ ps) = lastOf p ps := by
  rw [lastOf_append]
  cases found : lastOf p ps with
  | some => rfl
  | none =>
    have empty := List.getLast?_eq_none_iff.mp found
    have := List.filter_eq_nil_iff.mp empty piece mem
    exact absurd holds this

theorem lastOf_map {f : Piece → Piece} (same : ∀ piece, p (f piece) = p piece) (ps : List Piece) :
    lastOf p (ps.map f) = (lastOf p ps).map f := by
  rw [lastOf, List.filter_map, List.getLast?_map, lastOf]
  simp only [Function.comp_def, same]

end LastOf

theorem lastOf_spaces {ps : List Piece} (h : ∀ piece ∈ ps, piece.isCode isSpace = true) :
    lastOf Piece.isDark ps = none :=
  lastOf_none fun piece mem => by rw [Piece.isDark, h piece mem]; rfl

/-! Bare keys. -/

/-- What a bare key goes on with that begins with a character. -/
def keyPart (c : Char) : Char → Bool :=
  if isNameStart c then isNamePart else isDecimal

theorem isNamePart_of_keyPart {c d : Char} (h : keyPart c d = true) : isNamePart d = true := by
  unfold keyPart at h
  split at h
  · exact h
  · exact isNamePart_of_isDecimal h

/-- The first piece that is no space. -/
def firstPart (ps : List Piece) : Option Piece :=
  (ps.dropWhile (Piece.isCode isSpace)).head?

theorem firstPart_append (a b : List Piece) :
    firstPart (a ++ b) = (firstPart a).or (firstPart b) := by
  unfold firstPart
  rw [List.dropWhile_append]
  split
  · rename_i none
    rw [List.isEmpty_iff.mp none]
    rfl
  · rename_i some
    obtain ⟨piece, rest, eq⟩ := List.exists_cons_of_ne_nil (mt List.isEmpty_iff.mpr some)
    rw [eq]
    rfl

/-- Whether the next piece behind spaces is a colon. -/
def colonNext (rest : List Piece) : Bool :=
  firstPart rest == some (.code ':')

theorem firstPart_space {piece : Piece} (space : piece.isCode isSpace = true)
    (rest : List Piece) : firstPart (piece :: rest) = firstPart rest := by
  rw [firstPart, List.dropWhile_cons, if_pos space]
  rfl

theorem firstPart_dark {piece : Piece} (dark : piece.isCode isSpace = false)
    (rest : List Piece) : firstPart (piece :: rest) = some piece := by
  rw [firstPart, List.dropWhile_cons, dark]
  rfl

theorem keyLength_code (before : Option Char) (c : Char) (rest : List Piece) :
    keyLength before (.code c :: rest) =
      if before.any joinsName then 0
      else if colonNext ((.code c :: rest).dropWhile (Piece.isCode (keyPart c))) then
        ((.code c :: rest).takeWhile (Piece.isCode (keyPart c))).length
      else 0 := by
  unfold keyLength colonNext firstPart keyPart
  dsimp only
  split
  · rfl
  · split
    · rename_i colon
      simp [colon]
    · rename_i other
      rw [if_neg]
      intro colon
      obtain ⟨more, eq⟩ := List.head?_eq_some_iff.mp (eq_of_beq colon)
      exact other more eq

/-- A bare key and what follows it. -/
theorem key_of_length {before : Option Char} {ps : List Piece} (some : keyLength before ps ≠ 0) :
    ∃ (name : List Char) (rest : List Piece), ps = name.map .code ++ rest ∧
      name.length = keyLength before ps ∧ (∀ c ∈ name, isNamePart c = true) ∧
      colonNext rest = true := by
  rcases ps with - | ⟨piece, rest⟩
  · exact absurd rfl some
  · cases piece with
    | code c =>
      rw [keyLength_code] at some ⊢
      split at some
      · exact absurd rfl some
      · rename_i apart
        split at some
        · rename_i colon
          obtain ⟨name, eq, parts⟩ := codes_of_all (List.all_eq_true.mp
            (List.all_takeWhile (p := Piece.isCode (keyPart c)) (l := .code c :: rest)))
          refine ⟨name, _, ?_, ?_, fun d mem => isNamePart_of_keyPart (parts d mem), colon⟩
          · rw [← eq, List.takeWhile_append_dropWhile]
          · rw [if_neg apart, if_pos colon, eq, List.length_map]
        · exact absurd rfl some
    | lineComment => exact absurd rfl some
    | blockComment => exact absurd rfl some
    | quoted => exact absurd rfl some

/-- The pieces with each bare key between double quotes, as one string. -/
def keyed (before : Option Char) (ps : List Piece) : List Piece :=
  match ps with
  | [] => []
  | piece :: rest =>
    match keyLength before (piece :: rest) with
    | 0 => piece :: keyed piece.text.getLast? rest
    | n + 1 =>
      .quoted '"' (textOf ((piece :: rest).take (n + 1))) ::
        keyed (lastChar before ((piece :: rest).take (n + 1))) (rest.drop n)
termination_by ps.length

theorem keyed_nil (before : Option Char) : keyed before [] = [] := by
  rw [keyed]

theorem keyed_copy {before : Option Char} {piece : Piece} {rest : List Piece}
    (none : keyLength before (piece :: rest) = 0) :
    keyed before (piece :: rest) = piece :: keyed piece.text.getLast? rest := by
  rw [keyed, none]

theorem keyed_key {before : Option Char} {name : List Char} {rest : List Piece} (some : name ≠ [])
    (length : keyLength before (name.map .code ++ rest) = name.length) :
    keyed before (name.map .code ++ rest) =
      .quoted '"' name :: keyed (lastChar before (name.map .code)) rest := by
  obtain ⟨c, name, rfl⟩ := List.exists_cons_of_ne_nil some
  have taken : (Piece.code c :: (name.map Piece.code ++ rest)).take (name.length + 1) =
      (c :: name).map .code := by
    simp
  rw [List.map_cons, List.cons_append] at length ⊢
  rw [keyed, length, List.length_cons]
  dsimp only
  rw [taken, textOf_code]
  simp

/-- A text is copied up to a key, and then from behind it. -/
@[elab_as_elim]
theorem keyed_induction {motive : Option Char → List Piece → Prop}
    (nil : ∀ before, motive before [])
    (copy : ∀ before piece rest, keyLength before (piece :: rest) = 0 →
      motive piece.text.getLast? rest → motive before (piece :: rest))
    (key : ∀ before (name : List Char) rest, name ≠ [] →
      keyLength before (name.map .code ++ rest) = name.length →
      (∀ c ∈ name, isNamePart c = true) → colonNext rest = true →
      motive (lastChar before (name.map .code)) rest → motive before (name.map .code ++ rest))
    (before : Option Char) (ps : List Piece) : motive before ps := by
  induction size : ps.length using Nat.strong_induction_on generalizing before ps with
  | _ n ih =>
    subst size
    cases ps with
    | nil => exact nil before
    | cons piece rest =>
      by_cases none : keyLength before (piece :: rest) = 0
      · exact copy before piece rest none (ih _ (by simp) _ rest rfl)
      · obtain ⟨name, behind, eq, length, parts, colon⟩ := key_of_length none
        have some : name ≠ [] := by
          rintro rfl
          exact none length.symm
        have shorter : behind.length < (piece :: rest).length := by
          have := List.length_pos_iff.mpr some
          rw [eq, List.length_append, List.length_map]
          omega
        rw [eq] at length ⊢
        exact key before name behind some length.symm parts colon (ih _ shorter _ behind rfl)

theorem quoteKeysFrom_eq (before : Option Char) (ps : List Piece) :
    quoteKeysFrom 0 before ps = textOf (keyed before ps) := by
  induction before, ps using keyed_induction with
  | nil before =>
    rw [keyed_nil, quoteKeysFrom]
    rfl
  | copy before piece rest none ih =>
    rw [keyed_copy none, quoteKeysFrom_none none, textOf_cons, ih]
  | key before name rest some length _ _ ih =>
    have begins := quoteKeysFrom_begin length fun none => some (List.length_eq_zero_iff.mp none)
    rw [begins, quoteKeysFrom_left some, keyed_key some length, textOf_cons, ih]
    simp [Piece.text]

/-- What begins a text with keys begins the text without, or is a key. -/
theorem head_keyed (before : Option Char) (ps : List Piece) :
    (keyed before ps).head? = ps.head? ∨
      ∃ name, (keyed before ps).head? = some (.quoted '"' name) := by
  induction before, ps using keyed_induction with
  | nil before =>
    rw [keyed_nil]
    exact .inl rfl
  | copy before piece rest none _ =>
    rw [keyed_copy none]
    exact .inl rfl
  | key before name rest some length _ _ _ =>
    rw [keyed_key some length]
    exact .inr ⟨name, rfl⟩

theorem keyed_idle {piece : Piece} (idle : piece.isIdle = true) (before : Option Char)
    (rest : List Piece) :
    keyed before (piece :: rest) = piece :: keyed piece.text.getLast? rest :=
  keyed_copy (keyLength_idle idle before rest)

/-- A name needs no escapes. -/
theorem quotedBody_name {name : List Char} (h : ∀ c ∈ name, isNamePart c = true) :
    QuotedBody '"' name := by
  refine quotedBody_plain fun c mem => ?_
  have part := h c mem
  refine ⟨?_, ?_, ?_⟩ <;> rintro rfl <;> exact absurd part (by decide)

theorem Whole.keyed {ps : List Piece} (h : Whole ps) (before : Option Char) :
    Whole (keyed before ps) := by
  induction before, ps using keyed_induction with
  | nil before =>
    rw [keyed_nil]
    exact .nil
  | copy before piece rest none ih =>
    rw [keyed_copy none]
    cases h with
    | code quote slash tail =>
      refine .code quote (fun same piece first => ?_) (ih tail)
      rcases head_keyed _ rest with eq | ⟨name, eq⟩
      · exact slash same piece (eq ▸ first)
      · rw [eq] at first
        cases first
        rfl
    | quoted quoted inner tail => exact .quoted quoted inner (ih tail)
    | block closed tail => exact .block closed (ih tail)
    | line one ends tail =>
      refine .line one ?_ (ih tail)
      rcases ends with rfl | first
      · exact .inl (keyed_nil _)
      · obtain ⟨more, rfl⟩ := List.head?_eq_some_iff.mp first
        rw [keyed_idle (by decide)]
        exact .inr rfl
  | key before name rest some length parts _ ih =>
    rw [keyed_key some length]
    exact .quoted rfl (quotedBody_name parts) (ih h.right)

/-- What is before a text matters only if a name could go on from there. -/
theorem keyed_before {before before' : Option Char} {ps : List Piece}
    (h : ∀ piece ∈ ps.head?, before.any joinsName = before'.any joinsName ∨ piece.isIdle = true) :
    keyed before ps = keyed before' ps := by
  cases ps with
  | nil => rw [keyed_nil, keyed_nil]
  | cons piece rest =>
    have same : keyLength before (piece :: rest) = keyLength before' (piece :: rest) := by
      rcases h piece rfl with joins | idle
      · cases piece with
        | code c => rw [keyLength_code, keyLength_code, joins]
        | lineComment => rfl
        | blockComment => rfl
        | quoted => rfl
      · rw [keyLength_idle idle, keyLength_idle idle]
    rw [keyed, keyed, same]
    rfl

theorem firstPart_spaces {ps : List Piece} (h : ∀ piece ∈ ps, piece.isCode isSpace = true) :
    firstPart ps = none := by
  rw [firstPart, List.dropWhile_eq_nil_iff.mpr h]
  rfl

theorem spaces_of_firstPart {ps : List Piece} (h : firstPart ps = none) :
    ∀ piece ∈ ps, piece.isCode isSpace = true :=
  List.dropWhile_eq_nil_iff.mp (List.head?_eq_none_iff.mp h)

/-- Whether the last piece that is no space is a word character. -/
def endsInWord (front : List Piece) : Bool :=
  (lastOf Piece.isDark front).any (Piece.isCode isNamePart)

theorem endsInWord_behind {a b : List Piece} (h : endsInWord (a ++ b) = false) :
    endsInWord b = false := by
  rw [endsInWord, lastOf_append] at h
  unfold endsInWord
  cases found : lastOf Piece.isDark b with
  | none => rfl
  | some piece =>
    rw [found] at h
    exact h

/-- A text that does not complete a key keeps those before it as they are. -/
theorem keyLength_append {front tail : List Piece} (some : front ≠ [])
    (ends : ∀ piece ∈ tail.head?, piece.isCode isNamePart = false)
    (colon : colonNext tail = true → endsInWord front = false) (before : Option Char) :
    keyLength before (front ++ tail) = keyLength before front := by
  obtain ⟨piece, rest, rfl⟩ := List.exists_cons_of_ne_nil some
  cases piece with
  | code c =>
    have stops : ∀ piece ∈ tail.head?, piece.isCode (keyPart c) = false := by
      intro piece first
      refine Bool.eq_false_iff.mpr fun part => ?_
      have other := ends piece first
      rw [Piece.isCode_of (fun _ => isNamePart_of_keyPart) part] at other
      cases other
    obtain ⟨dropped, taken⟩ := run_before stops (.code c :: rest)
    rw [List.cons_append] at dropped taken ⊢
    rw [keyLength_code, keyLength_code, dropped, taken]
    split
    · rfl
    · generalize runs : (Piece.code c :: rest).takeWhile (Piece.isCode (keyPart c)) = run
      generalize left : (Piece.code c :: rest).dropWhile (Piece.isCode (keyPart c)) = more
      have whole : run ++ more = .code c :: rest := by
        rw [← runs, ← left, List.takeWhile_append_dropWhile]
      by_cases none : run = []
      · simp [none]
      · have same : colonNext (more ++ tail) = colonNext more := by
          unfold colonNext
          rw [firstPart_append]
          cases found : firstPart more with
          | some => rfl
          | none =>
            -- Nothing but spaces stands between the word and what follows.
            have word : endsInWord (.code c :: rest) = true := by
              obtain ⟨front, last, rfl⟩ := (List.eq_nil_or_concat run).resolve_left none
              have part : last.isCode isNamePart = true := by
                have mem : last ∈ (Piece.code c :: rest).takeWhile (Piece.isCode (keyPart c)) := by
                  rw [runs]
                  simp
                exact Piece.isCode_of (fun _ => isNamePart_of_keyPart)
                  (List.all_eq_true.mp List.all_takeWhile last mem)
              have dark : last.isDark = true := by
                rw [Piece.isDark, Piece.not_isCode (fun _ => not_isSpace_of_isNamePart) part]
                rfl
              rw [← whole, endsInWord, lastOf_append, lastOf_spaces (spaces_of_firstPart found),
                Option.none_or, List.concat_eq_append, lastOf_concat dark]
              exact part
            refine Bool.eq_false_iff.mpr fun found => ?_
            rw [colon found] at word
            cases word
        rw [same]
  | lineComment => rfl
  | blockComment => rfl
  | quoted => rfl

/-- Keys are found alike in front of a text that completes none. -/
theorem keyed_append {front tail : List Piece}
    (ends : ∀ piece ∈ tail.head?, piece.isCode isNamePart = false)
    (colon : colonNext tail = true → endsInWord front = false) (before : Option Char) :
    keyed before (front ++ tail) = keyed before front ++ keyed (lastChar before front) tail := by
  induction before, front using keyed_induction with
  | nil before =>
    rw [keyed_nil]
    rfl
  | copy before piece rest none ih =>
    have same := keyLength_append (List.cons_ne_nil piece rest) ends colon before
    rw [none] at same
    rw [List.cons_append] at same ⊢
    rw [keyed_copy same, keyed_copy none,
      ih fun found => endsInWord_behind (a := [piece]) (colon found)]
    rfl
  | key before name rest some length _ _ ih =>
    have nonempty : name.map Piece.code ++ rest ≠ [] := by simp [some]
    have same := keyLength_append nonempty ends colon before
    rw [length, List.append_assoc] at same
    rw [List.append_assoc, keyed_key some same, keyed_key some length,
      ih fun found => endsInWord_behind (colon found), lastChar_append]
    rfl

theorem idle_of_isSpace {piece : Piece} (space : piece.isCode isSpace = true) :
    piece.isIdle = true := by
  have name := Piece.not_isCode (fun _ => not_isNamePart_of_isSpace) space
  cases piece with
  | code c =>
    simp only [Piece.isIdle, Bool.and_eq_true, Bool.not_eq_true']
    refine ⟨Bool.eq_false_iff.mpr fun starts => ?_, Bool.eq_false_iff.mpr fun digit => ?_⟩
    · rw [Piece.isCode, isNamePart_of_isNameStart starts] at name
      cases name
    · rw [Piece.isCode, isNamePart_of_isDecimal digit] at name
      cases name
  | lineComment => rfl
  | blockComment => rfl
  | quoted => rfl

theorem keyed_spaces {spaces : List Piece} (h : ∀ piece ∈ spaces, piece.isCode isSpace = true)
    (before : Option Char) (rest : List Piece) :
    keyed before (spaces ++ rest) = spaces ++ keyed (lastChar before spaces) rest := by
  induction spaces generalizing before with
  | nil => rfl
  | cons piece spaces ih =>
    rw [List.cons_append, keyed_idle (idle_of_isSpace (h piece List.mem_cons_self)),
      ih fun p mem => h p (List.mem_cons_of_mem piece mem)]
    rfl

theorem lastOf_keyed {p : Piece → Bool} (colon : p (.code ':') = true) (before : Option Char)
    (ps : List Piece) : lastOf p (keyed before ps) = lastOf p ps := by
  induction before, ps using keyed_induction with
  | nil before => rw [keyed_nil]
  | copy before piece rest none ih =>
    have whole := lastOf_append (p := p) [piece] rest
    have whole' := lastOf_append (p := p) [piece] (keyed piece.text.getLast? rest)
    rw [ih, ← whole] at whole'
    rw [keyed_copy none]
    exact whole'
  | key before name rest some length _ next ih =>
    obtain ⟨more, eq⟩ := List.head?_eq_some_iff.mp (eq_of_beq next)
    have mem : Piece.code ':' ∈ rest := (List.dropWhile_suffix _).subset (eq ▸ List.mem_cons_self)
    have still : lastOf p (keyed (lastChar before (name.map .code)) rest) ≠ none := by
      rw [ih]
      intro none
      exact List.filter_eq_nil_iff.mp (List.getLast?_eq_none_iff.mp none) _ mem colon
    have whole := lastOf_append (p := p) [.quoted '"' name]
      (keyed (lastChar before (name.map .code)) rest)
    rw [keyed_key some length, lastOf_behind colon mem, ← ih]
    obtain ⟨last, found⟩ := Option.ne_none_iff_exists'.mp still
    rw [found, Option.some_or] at whole
    rw [found]
    exact whole

/-! Double quotes. -/

/-- A string between double quotes. -/
def Piece.doubled : Piece → Piece
  | quoted quote body => .quoted '"' (if quote = '"' then body else requote quote body)
  | piece => piece

theorem text_doubled (piece : Piece) : piece.doubled.text = piece.doubleQuoted := by
  cases piece with
  | quoted quote body =>
    change '"' :: (if quote = '"' then body else requote quote body) ++ ['"'] =
      if quote = '"' then _ else _
    split <;> rfl
  | lineComment => rfl
  | blockComment => rfl
  | code => rfl

theorem textOf_doubled (ps : List Piece) :
    textOf (ps.map Piece.doubled) = ps.flatMap Piece.doubleQuoted := by
  rw [textOf, List.flatMap_map]
  exact List.flatMap_congr fun piece _ => text_doubled piece

theorem StringBody.quoted {body : List Char} (h : StringBody body) : QuotedBody '"' body := by
  induction h with
  | nil => exact .nil
  | escaped _ ih => exact .escaped ih
  | plain quote slash line _ ih => exact .plain quote slash (absurd · line) ih

theorem QuotedBody.string {body : List Char} (h : QuotedBody '"' body) : StringBody body := by
  induction h with
  | nil => exact .nil
  | escaped _ ih => exact .escaped ih
  | plain other slash line _ ih =>
    exact .plain other slash (fun feed => absurd (line feed) (by decide)) ih

theorem quotedBody_doubled {quote : Char} {body : List Char} (quoted : isQuote quote = true)
    (h : QuotedBody quote body) :
    QuotedBody '"' (if quote = '"' then body else requote quote body) := by
  split
  · rename_i same
    exact same ▸ h
  · rename_i other
    have replaced : IsReplaced quote := by
      simp only [isQuote, Bool.or_eq_true, beq_iff_eq] at quoted
      exact quoted.elim (·.elim (absurd · other) .inl) .inr
    exact (stringBody_requote replaced h).quoted

theorem map_doubled_codes (chars : List Char) :
    (chars.map Piece.code).map Piece.doubled = chars.map .code := by
  rw [List.map_map]
  rfl

theorem Whole.doubled {ps : List Piece} (h : Whole ps) : Whole (ps.map Piece.doubled) :=
  h.map (fun _ => rfl)
    (fun _ _ quoted inner => ⟨'"', _, rfl, rfl, quotedBody_doubled quoted inner⟩)
    (fun body closed => ⟨body, rfl, closed⟩) (fun body one => ⟨body, rfl, one⟩)

/-! Trailing commas. -/

theorem closesNext_spaces {spaces : List Piece}
    (all : ∀ piece ∈ spaces, piece.isCode isSpace = true) {c : Char}
    (closes : closesContainer c = true) (rest : List Piece) :
    closesNext (spaces ++ .code c :: rest) = true := by
  have dark : (Piece.code c).isCode isSpace = false := not_isSpace_of_closes closes
  rw [closesNext, List.dropWhile_append_of_pos all]
  exact (closesNext_dark dark rest).trans closes

/-- A comma is dropped with the spaces behind it, up to the closing bracket. -/
theorem dropCommas_trailing {spaces : List Piece}
    (all : ∀ piece ∈ spaces, piece.isCode isSpace = true) {c : Char}
    (closes : closesContainer c = true) (rest : List Piece) :
    dropCommas (.code ',' :: (spaces ++ .code c :: rest)) = .code c :: dropCommas rest := by
  have plain : ∀ piece ∈ spaces, piece ≠ .code ',' := by
    rintro piece mem rfl
    exact absurd (all _ mem) (by decide)
  have dark : (Piece.code c).isCode isSpace = false := not_isSpace_of_closes closes
  have other : Piece.code c ≠ .code ',' := by
    intro same
    obtain rfl := Piece.code.inj same
    cases closes
  rw [dropCommas_drop (closesNext_spaces all closes rest), dropCommas_plain plain,
    List.dropWhile_append_of_pos all, dropCommas, if_neg fun comma => other comma.1, List.dropWhile_cons, dark]
  rfl

theorem dropCommas_copy {piece : Piece} {rest : List Piece}
    (h : piece = .code ',' → closesNext rest = false) :
    dropCommas (piece :: rest) = piece :: dropCommas rest := by
  rw [dropCommas, if_neg]
  rintro ⟨comma, closes⟩
  change closesNext rest = true at closes
  rw [h comma] at closes
  cases closes

theorem closing_of_closesNext {rest : List Piece} (h : closesNext rest = true) :
    ∃ spaces c more, rest = spaces ++ .code c :: more ∧
      (∀ piece ∈ spaces, piece.isCode isSpace = true) ∧ closesContainer c = true := by
  rw [closesNext] at h
  cases eq : rest.dropWhile (Piece.isCode isSpace) with
  | nil =>
    rw [eq] at h
    cases h
  | cons piece more =>
    rw [eq] at h
    cases piece with
    | code c =>
      refine ⟨rest.takeWhile (Piece.isCode isSpace), c, more, ?_,
        List.all_eq_true.mp List.all_takeWhile, h⟩
      rw [← eq, List.takeWhile_append_dropWhile]
    | lineComment => cases h
    | blockComment => cases h
    | quoted => cases h

/-- A text is copied up to a trailing comma, and then from behind the closing bracket. -/
@[elab_as_elim]
theorem dropCommas_induction {motive : List Piece → Prop} (nil : motive [])
    (copy : ∀ piece rest, (piece = .code ',' → closesNext rest = false) → motive rest →
      motive (piece :: rest))
    (drop : ∀ spaces c rest, (∀ piece ∈ spaces, piece.isCode isSpace = true) →
      closesContainer c = true → motive rest →
      motive (.code ',' :: (spaces ++ .code c :: rest)))
    (ps : List Piece) : motive ps := by
  induction size : ps.length using Nat.strong_induction_on generalizing ps with
  | _ n ih =>
    subst size
    cases ps with
    | nil => exact nil
    | cons piece rest =>
      by_cases trailing : piece = .code ',' ∧ closesNext rest = true
      · obtain ⟨rfl, closes⟩ := trailing
        obtain ⟨spaces, c, more, rfl, all, closes⟩ := closing_of_closesNext closes
        exact drop spaces c more all closes (ih _ (by simp; omega) more rfl)
      · refine copy piece rest (fun comma => ?_) (ih _ (by simp) rest rfl)
        exact Bool.eq_false_iff.mpr fun closes => trailing ⟨comma, closes⟩

/-- Nothing is dropped across a border with no comma before it or no closing bracket behind it. -/
theorem dropCommas_append {front tail : List Piece}
    (h : closesNext tail = true → lastOf Piece.isDark front ≠ some (.code ',')) :
    dropCommas (front ++ tail) = dropCommas front ++ dropCommas tail := by
  have behind {a b : List Piece}
      (h : closesNext tail = true → lastOf Piece.isDark (a ++ b) ≠ some (.code ',')) :
      closesNext tail = true → lastOf Piece.isDark b ≠ some (.code ',') := by
    intro closes comma
    refine h closes ?_
    rw [lastOf_append, comma, Option.some_or]
  induction front using dropCommas_induction with
  | nil => rfl
  | copy piece rest kept ih =>
    have still : piece = .code ',' → closesNext (rest ++ tail) = false := by
      rintro rfl
      have here := kept rfl
      change (firstPart rest).any _ = false at here
      change (firstPart (rest ++ tail)).any _ = false
      rw [firstPart_append]
      cases found : firstPart rest with
      | none =>
        refine Bool.eq_false_iff.mpr fun closes => h closes ?_
        have whole := lastOf_append (p := Piece.isDark) [.code ','] rest
        rw [lastOf_spaces (spaces_of_firstPart found), Option.none_or] at whole
        exact whole.trans rfl
      | some part =>
        rw [found] at here
        exact here
    rw [List.cons_append, dropCommas_copy still, dropCommas_copy kept,
      ih (behind (a := [piece]) h)]
    rfl
  | drop spaces c rest all closes ih =>
    have last := behind (a := .code ',' :: (spaces ++ [.code c])) (b := rest) (by simpa using h)
    rw [dropCommas_trailing all closes, List.cons_append, List.append_assoc, List.cons_append,
      dropCommas_trailing all closes, ih last]
    rfl

theorem Whole.left {a b : List Piece} (h : Whole (a ++ b)) : Whole a := by
  induction a with
  | nil => exact .nil
  | cons piece a ih =>
    have tail := ih h.tail
    cases h with
    | code quote slash =>
      refine .code quote (fun same piece first => slash same piece ?_) tail
      change (a ++ b).head? = some piece
      rw [List.head?_append, Option.mem_def.mp first]
      rfl
    | quoted quoted inner => exact .quoted quoted inner tail
    | block closed => exact .block closed tail
    | line one ends =>
      refine .line one ?_ tail
      cases a with
      | nil => exact .inl rfl
      | cons next a => exact .inr (ends.resolve_left (by simp))

/-- A piece may stand in the place of another that ends no line. -/
theorem Whole.exchange {front back : List Piece} {piece piece' : Piece}
    (h : Whole (front ++ piece :: back)) (feed : piece ≠ .code '\n')
    (follows : piece'.followsSlash = true) (stands : Whole (piece' :: back)) :
    Whole (front ++ piece' :: back) := by
  induction front with
  | nil => exact stands
  | cons first front ih =>
    have tail := ih h.tail
    cases h with
    | code quote slash =>
      refine .code quote (fun same next here => ?_) tail
      cases front with
      | nil =>
        cases here
        exact follows
      | cons => exact slash same next here
    | quoted quoted inner => exact .quoted quoted inner tail
    | block closed => exact .block closed tail
    | line one ends =>
      refine .line one ?_ tail
      cases front with
      | nil => exact absurd (Option.some.inj (ends.resolve_left (by simp))) feed
      | cons => exact .inr (ends.resolve_left (by simp))

theorem infix_exchange {α : Type} {a b c : α} {front back : List α}
    (h : [a, b] <:+: front ++ c :: back) (first : c ≠ a) (second : c ≠ b) (c' : α) :
    [a, b] <:+: front ++ c' :: back := by
  induction front with
  | nil =>
    rcases infix_cons_iff.mp h with ⟨same, -⟩ | found
    · exact absurd same first
    · exact List.infix_cons found
  | cons d front ih =>
    rcases infix_cons_iff.mp h with ⟨same, next⟩ | found
    · refine infix_cons_iff.mpr (.inl ⟨same, ?_⟩)
      cases front with
      | nil => exact absurd (Option.some.inj next) second
      | cons => exact next
    · exact List.infix_cons (ih found)

theorem Settled.exchange {front back : List Piece} {piece piece' : Piece}
    (h : Settled (front ++ piece :: back)) (dollar : piece' ≠ .code '$')
    (brace : piece' ≠ .code '{') (comment : ∀ body, piece' ≠ .lineComment body) :
    Settled (front ++ piece' :: back) := by
  refine ⟨fun found => h.code (infix_exchange found dollar brace piece), fun body mem => ?_⟩
  refine h.line body ?_
  simp only [List.mem_append, List.mem_cons] at mem ⊢
  rcases mem with mem | mem | mem
  · exact .inl mem
  · exact absurd mem.symm (comment body)
  · exact .inr (.inr mem)

/-- A text begins alike without its trailing commas, or with a closing bracket. -/
theorem head_dropCommas (ps : List Piece) : (dropCommas ps).head? = ps.head? ∨
    ∃ c, closesContainer c = true ∧ (dropCommas ps).head? = some (.code c) := by
  induction ps using dropCommas_induction with
  | nil => exact .inl rfl
  | copy piece rest kept _ =>
    rw [dropCommas_copy kept]
    exact .inl rfl
  | drop spaces c rest all closes _ =>
    rw [dropCommas_trailing all closes]
    exact .inr ⟨c, closes, rfl⟩

theorem code_closes {c : Char} (h : closesContainer c = true) :
    isQuote c = false ∧ c ≠ '/' ∧ (Piece.code c).followsSlash = true := by
  simp only [closesContainer, Bool.or_eq_true, beq_iff_eq] at h
  rcases h with rfl | rfl <;> exact ⟨rfl, by decide, rfl⟩

theorem Whole.dropCommas {ps : List Piece} (h : Whole ps) : Whole (dropCommas ps) := by
  induction ps using dropCommas_induction with
  | nil => exact .nil
  | copy piece rest kept ih =>
    have tail := ih h.tail
    rw [dropCommas_copy kept]
    cases h with
    | code quote slash _ =>
      refine .code quote (fun same piece first => ?_) tail
      rcases head_dropCommas rest with eq | ⟨c, closes, eq⟩
      · exact slash same piece (eq ▸ first)
      · rw [eq] at first
        cases first
        exact (code_closes closes).2.2
    | quoted quoted inner _ => exact .quoted quoted inner tail
    | block closed _ => exact .block closed tail
    | line one ends _ =>
      refine .line one ?_ tail
      rcases ends with rfl | first
      · exact .inl rfl
      · obtain ⟨more, rfl⟩ := List.head?_eq_some_iff.mp first
        rw [dropCommas_copy fun comma => absurd (Piece.code.inj comma) (by decide)]
        exact .inr rfl
  | drop spaces c rest all closes ih =>
    have tail := ih h.tail.right.tail
    obtain ⟨quote, slash, -⟩ := code_closes closes
    rw [dropCommas_trailing all closes]
    exact .code quote (absurd · slash) tail

theorem lastOf_dropCommas {p : Piece → Bool}
    (closer : ∀ c, closesContainer c = true → p (.code c) = true) (ps : List Piece) :
    lastOf p (dropCommas ps) = lastOf p ps := by
  have cons (piece : Piece) {a b : List Piece} (h : lastOf p a = lastOf p b) :
      lastOf p (piece :: a) = lastOf p (piece :: b) := by
    have first := lastOf_append (p := p) [piece] a
    have second := lastOf_append (p := p) [piece] b
    rw [h, ← second] at first
    exact first
  induction ps using dropCommas_induction with
  | nil => rfl
  | copy piece rest kept ih =>
    rw [dropCommas_copy kept]
    exact cons piece ih
  | drop spaces c rest all closes ih =>
    have behind := lastOf_behind (closer c closes) (List.mem_cons_self (l := rest))
      (.code ',' :: spaces)
    rw [dropCommas_trailing all closes]
    exact (cons (.code c) ih).trans behind.symm

/-! What is left without comments. -/

/-- The pieces without comments. -/
def visible (ps : List Piece) : List Piece :=
  ps.filter Piece.isSeen

theorem visible_append (a b : List Piece) : visible (a ++ b) = visible a ++ visible b :=
  List.filter_append ..

theorem visible_codes (chars : List Char) (rest : List Piece) :
    visible (chars.map .code ++ rest) = chars.map .code ++ visible rest := by
  have all : ∀ piece ∈ chars.map Piece.code, piece.isSeen = true := by
    intro piece mem
    obtain ⟨c, -, rfl⟩ := List.mem_map.mp mem
    rfl
  rw [visible, List.filter_append, List.filter_eq_self.mpr all]
  rfl

/-- A slash stands before no comment, so it stands before what it stood before. -/
theorem Whole.visible {ps : List Piece} (h : Whole ps) : Whole (visible ps) := by
  induction h with
  | nil => exact .nil
  | @code c rest quote slash tail ih =>
    refine .code quote (fun same piece first => ?_) ih
    cases tail with
    | nil => cases first
    | code => exact slash same piece first
    | quoted => exact slash same piece first
    | block => cases slash same _ rfl
    | line => cases slash same _ rfl
  | quoted quoted inner _ ih => exact .quoted quoted inner ih
  | block _ _ ih => exact ih
  | line _ _ _ ih => exact ih

/-! All steps. -/

/-- The normal form of pieces that stand behind a character: keys and strings in double quotes, no
trailing commas and no comments. -/
def normalFrom (before : Option Char) (ps : List Piece) : List Piece :=
  visible (dropCommas ((keyed before ps).map Piece.doubled))

/-- What the steps after the interpolations make of a whole text. -/
theorem steps_textOf {ps : List Piece} (whole : Whole ps) :
    stripComments (stripTrailingCommas (convertQuotes (quoteKeys (textOf ps)))) =
      textOf (normalFrom none ps) := by
  have named := whole.keyed none
  have double := named.doubled
  rw [quoteKeys, pieces_whole whole, quoteKeysFrom_eq, convertQuotes, pieces_whole named,
    ← textOf_doubled, stripTrailingCommas, pieces_whole double]
  change stripComments (textOf (dropCommas _)) = _
  rw [stripComments, pieces_whole double.dropCommas]
  rfl

theorem normalize_textOf {ps : List Piece} (whole : Whole ps) (settled : Settled ps) :
    normalize (textOf ps) = textOf (normalFrom none (ps.map Piece.resolved)) := by
  rw [normalize_steps, resolve_textOf whole settled, steps_textOf whole.resolved]

end ThemeSheet.Literal
