import ThemeSheet.Proofs.PatternSteps

/-! Each step but the first writes what a search by its rules writes. -/

namespace ThemeSheet.Literal

open Text Pattern

variable {rules : List Rule} {here : Cursor}

/-! Searches. -/

/-- What is written of the rest of a text, told from match to match. -/
structure Rewrites (rules : List Rule) (written : Cursor → List Char) : Prop where
  found {here : Cursor} {found : Match} (h : match? rules here = some found) :
    written here = found.rule.write found.texts ++ written found.reached
  kept {before : Option Char} {c : Char} {rest : List Char}
    (h : match? rules ⟨before, c :: rest⟩ = none) :
    written ⟨before, c :: rest⟩ = c :: written ⟨some c, rest⟩
  done (before : Option Char) : written ⟨before, []⟩ = []

/-- A search writes just that. -/
theorem Rewrites.eq {written : Cursor → List Char} (h : Rewrites rules written) (place : Nat)
    (here : Cursor) : (stretches rules place here).flatMap Stretch.write = written here := by
  fun_induction stretches rules place here with
  | case1 place here found matched shorter stop ih =>
    rw [List.flatMap_cons, ih]
    exact (h.found matched).symm
  | case2 place before none => exact (h.done before).symm
  | case3 place before c rest none ih =>
    rw [List.flatMap_cons, ih]
    exact (h.kept none).symm

theorem Rewrites.rewriteBy_eq {written : Cursor → List Char} (h : Rewrites rules written)
    (text : List Char) : rewriteBy rules text = written ⟨none, text⟩ :=
  h.eq 0 ⟨none, text⟩

/-- A step that finds nothing but strings and comments rewrites piece by piece. -/
theorem rewrites_pieces {rewritten : Piece → List Char} (uniform : Uniform rules rewritten)
    (alone : ∀ {here : Cursor}, opaque? here.rest = none → match? rules here = none)
    (copies : ∀ c, rewritten (.code c) = [c]) :
    Rewrites rules fun here => (pieces here.rest).flatMap rewritten where
  found {here found} h := by
    cases first : opaque? here.rest with
    | none =>
      rw [alone first] at h
      cases h
    | some found =>
      obtain ⟨-, written, reached⟩ := uniform.eq_found first h
      rw [pieces_of_opaque? first, List.flatMap_cons, written, reached]
      rfl
  kept h := by
    rw [pieces_code (uniform.nothing h), List.flatMap_cons, copies]
    rfl
  done before := by
    rw [pieces_nil]
    rfl

theorem convertQuotes_rules (text : List Char) : convertQuotes text = rewriteBy Rule.forQuotes text :=
  ((rewrites_pieces uniform_forQuotes match?_forQuotes fun _ => rfl).rewriteBy_eq text).symm

theorem stripComments_rules (text : List Char) :
    stripComments text = rewriteBy Rule.forComments text := by
  rw [(rewrites_pieces uniform_forComments match?_forComments fun _ => rfl).rewriteBy_eq]
  exact stripComments_eq text

/-! Runs among the parts of a rule. -/

variable {holds : Char → Bool} {parts : List Pattern}

/-- A rule that can go on from no place within a run. -/
def StuckWithin (holds : Char → Bool) (parts : List Pattern) : Prop :=
  ∀ before c rest, holds c = true → Rule.partEnds parts ⟨before, c :: rest⟩ = []

theorem take_skip (holds : Char → Bool) (here : Cursor) :
    here.rest.take (here.rest.length - (here.skip holds).rest.length) =
      here.rest.takeWhile holds := by
  have split := List.takeWhile_append_dropWhile (p := holds) (l := here.rest)
  have long : here.rest.length - (here.rest.dropWhile holds).length =
      (here.rest.takeWhile holds).length := by
    have := congrArg List.length split
    rw [List.length_append] at this
    omega
  rw [Cursor.skip, Cursor.past, long]
  exact (congrArg (List.take _) split.symm).trans (List.take_left' rfl)

theorem partEnds_run (stuck : StuckWithin holds parts) (here : Cursor) :
    Rule.partEnds (many true (one holds) :: parts) here =
      (Rule.partEnds parts (here.skip holds)).map fun (texts, reached) =>
        (here.rest.takeWhile holds :: texts, reached) := by
  rw [Rule.partEnds, ends, flatMap_ends_run _ _ (Nat.le_refl _), take_skip]
  intro before c rest held
  rw [stuck before c rest held, List.map_nil]

/-- A run with at least one character. -/
theorem partEnds_word {first : Char → Bool} (within : ∀ c, first c = true → holds c = true)
    (stuck : StuckWithin holds parts) (before : Option Char) (c : Char) (rest : List Char) :
    Rule.partEnds (seq (one first) (many true (one holds)) :: parts) ⟨before, c :: rest⟩ =
      if first c then
        (Rule.partEnds parts (Cursor.skip holds ⟨before, c :: rest⟩)).map fun (texts, reached) =>
          ((c :: rest).takeWhile holds :: texts, reached)
      else [] := by
  rw [Rule.partEnds, ends, ends_one]
  split
  · rename_i begins
    rw [List.flatMap_singleton, ends, flatMap_ends_run _ _ (Nat.le_refl _),
      ← skip_of_holds (within c begins) before, take_skip]
    intro before d tail held
    rw [stuck before d tail held, List.map_nil]
  · rfl

theorem partEnds_char (c : Char) (here : Cursor) : Rule.partEnds [char c] here =
    if here.rest.head? = some c then [([[c]], ⟨some c, here.rest.tail⟩)] else [] := by
  obtain ⟨before, _ | ⟨d, rest⟩⟩ := here
  · rfl
  · by_cases same : d = c
    · subst same
      simp [Rule.partEnds, ends_char_self]
    · simp [Rule.partEnds, ends_char_other same, same]

/-! Bare keys. -/

theorem stuck_space : StuckWithin isSpace [char ':'] := by
  intro before c rest space
  have other : c ≠ ':' := by
    rintro rfl
    exact absurd space (by decide)
  rw [partEnds_char, if_neg (by simpa using other)]

/-- Spaces and the colon behind a key. -/
theorem partEnds_colon (here : Cursor) : Rule.partEnds [spaces, char ':'] here =
    if (here.rest.dropWhile isSpace).head? = some ':' then
      [([here.rest.takeWhile isSpace, [':']], ⟨some ':', (here.rest.dropWhile isSpace).tail⟩)]
    else [] := by
  rw [spaces, partEnds_run stuck_space, partEnds_char]
  change List.map _ (if (here.rest.dropWhile isSpace).head? = some ':' then _ else _) = _
  split <;> rfl

theorem stuck_part {holds : Char → Bool} (name : ∀ c, holds c = true → isNamePart c = true) :
    StuckWithin holds [spaces, char ':'] := by
  intro before c rest held
  have part := name c held
  have dark : isSpace c = false := not_isSpace_of_isNamePart part
  have other : c ≠ ':' := by
    rintro rfl
    exact absurd part (by decide)
  rw [partEnds_colon]
  simp [dark, other]

theorem partEnds_key (before : Option Char) (c : Char) (rest : List Char) :
    Rule.partEnds [key, spaces, char ':'] ⟨before, c :: rest⟩ =
      if keyPart c c then
        (Rule.partEnds [spaces, char ':'] (Cursor.skip (keyPart c) ⟨before, c :: rest⟩)).map
          fun (texts, reached) => ((c :: rest).takeWhile (keyPart c) :: texts, reached)
      else [] := by
  have split : Rule.partEnds [key, spaces, char ':'] ⟨before, c :: rest⟩ =
      Rule.partEnds [seq (one isNameStart) (many true (one isNamePart)), spaces, char ':']
          ⟨before, c :: rest⟩ ++
        Rule.partEnds [seq (one isDecimal) (many true (one isDecimal)), spaces, char ':']
          ⟨before, c :: rest⟩ := by
    rw [Rule.partEnds, key, ends, List.flatMap_append]
    rfl
  rw [split, partEnds_word (fun _ => isNamePart_of_isNameStart) (stuck_part fun _ => id),
    partEnds_word (fun _ => id) (stuck_part fun _ => isNamePart_of_isDecimal)]
  unfold keyPart
  cases start : isNameStart c with
  | true =>
    have digit : isDecimal c = false := by
      refine Bool.eq_false_iff.mpr fun digit => ?_
      rw [not_isNameStart_of_isDecimal digit] at start
      cases start
    simp [digit, isNamePart_of_isNameStart start]
  | false => simp

theorem partEnds_notAfter (here : Cursor) :
    Rule.partEnds (notAfter holds :: parts) here =
      if here.before.any holds then []
      else (Rule.partEnds parts here).map fun (texts, reached) => ([] :: texts, reached) := by
  rw [Rule.partEnds, ends]
  split <;> simp

/-- Whether a colon follows after spaces. -/
def colonAhead (text : List Char) : Bool :=
  (text.dropWhile isSpace).head? == some ':'

/-- Whether a bare key begins with a character. -/
def beginsKey (before : Option Char) (c : Char) (rest : List Char) : Bool :=
  !before.any joinsName && keyPart c c && colonAhead ((c :: rest).dropWhile (keyPart c))

theorem match?_forKeys (before : Option Char) {c : Char} {rest after : List Char}
    (nothing : opaque? (c :: rest) = none) (left : (c :: rest).dropWhile (keyPart c) = after) :
    match? Rule.forKeys ⟨before, c :: rest⟩ =
      if beginsKey before c rest then
        some ⟨Rule.bareKey, [[], (c :: rest).takeWhile (keyPart c), after.takeWhile isSpace, [':']],
          ⟨some ':', (after.dropWhile isSpace).tail⟩⟩
      else none := by
  have others : match? Rule.forKeys ⟨before, c :: rest⟩ =
      match? [Rule.bareKey] ⟨before, c :: rest⟩ :=
    finds_opaqueText.next (by simp [nothing])
  have found : Rule.partEnds Rule.bareKey.parts ⟨before, c :: rest⟩ =
      if beginsKey before c rest then
        [([[], (c :: rest).takeWhile (keyPart c), after.takeWhile isSpace, [':']],
          ⟨some ':', (after.dropWhile isSpace).tail⟩)]
      else [] := by
    rw [Rule.bareKey, partEnds_notAfter, partEnds_key, partEnds_colon, beginsKey]
    simp only [Cursor.skip, Cursor.past, left, colonAhead]
    cases before.any joinsName <;> cases keyPart c c <;>
      cases h : (after.dropWhile isSpace).head? == some ':' <;> simp_all
  rw [others]
  split
  · rename_i begins
    rw [if_pos begins] at found
    refine match?_first (congrArg List.head? found) ?_
    have first : keyPart c c = true := by
      simp only [beginsKey, Bool.and_eq_true] at begins
      exact begins.1.2
    have dropped := (List.dropWhile_suffix (l := rest) (keyPart c)).length_le
    have spaces := (List.dropWhile_suffix (l := after) isSpace).length_le
    rw [List.dropWhile_cons, if_pos first] at left
    simp only [List.length_tail, List.length_cons]
    rw [left] at dropped
    omega
  · rename_i no
    rw [if_neg no] at found
    rw [match?_next (congrArg List.head? found), match?_nil]

theorem any_keyPart (c : Char) : ['/', '"', '\'', backtick].any (keyPart c) = false := by
  unfold keyPart
  split <;> decide +kernel

/-- The first piece is code of a class exactly if the first character is. -/
theorem head?_pieces (holds : Char → Bool)
    (none : ['/', '"', '\'', backtick].any holds = false) (text : List Char) :
    (pieces text).head?.any (Piece.isCode holds) = text.head?.any holds := by
  have first {α : Type} (p : α → Bool) (l : List α) : l.head?.any p = !(l.takeWhile p).isEmpty := by
    cases l with
    | nil => rfl
    | cons a l => cases h : p a <;> simp [h]
  rw [first, first, (pieces_run holds none text).1, List.isEmpty_map]

theorem colonNext_pieces (text : List Char) : colonNext (pieces text) = colonAhead text := by
  have colon (first? : Option Piece) :
      (first? == some (.code ':')) = first?.any (Piece.isCode (· == ':')) := by
    cases first? with
    | none => rfl
    | some piece => rw [Bool.eq_iff_iff]; cases piece <;> simp [Piece.isCode]
  rw [colonNext, firstPart, (pieces_run isSpace (by decide) text).2, colon,
    head?_pieces _ (by decide), colonAhead]
  cases (text.dropWhile isSpace).head? <;> rfl

/-- The same, told from the pieces. -/
theorem keyLength_pieces (before : Option Char) {c : Char} {rest : List Char}
    (nothing : opaque? (c :: rest) = none) :
    keyLength before (pieces (c :: rest)) =
      if beginsKey before c rest then ((c :: rest).takeWhile (keyPart c)).length else 0 := by
  have run := pieces_run (keyPart c) (any_keyPart c) (c :: rest)
  rw [pieces_code nothing] at run ⊢
  rw [keyLength_code, run.1, run.2, colonNext_pieces, List.length_map, beginsKey]
  cases before.any joinsName with
  | true => rfl
  | false =>
    cases begins : keyPart c c with
    | true => rfl
    | false =>
      have none : (c :: rest).takeWhile (keyPart c) = [] := by simp [begins]
      rw [none]
      simp

/-- A text at which a bare key begins. -/
theorem key_cut {before : Option Char} {c : Char} {rest : List Char}
    (begins : beginsKey before c rest = true) :
    ∃ name space tail, c :: rest = name ++ (space ++ ':' :: tail) ∧ name ≠ [] ∧
      (c :: rest).takeWhile (keyPart c) = name ∧
      (c :: rest).dropWhile (keyPart c) = space ++ ':' :: tail ∧
      (∀ d ∈ name, keyPart c d = true) ∧ ∀ d ∈ space, isSpace d = true := by
  simp only [beginsKey, Bool.and_eq_true] at begins
  obtain ⟨⟨-, first⟩, colon⟩ := begins
  obtain ⟨tail, left⟩ := List.head?_eq_some_iff.mp (eq_of_beq colon)
  have after : (c :: rest).dropWhile (keyPart c) =
      ((c :: rest).dropWhile (keyPart c)).takeWhile isSpace ++ ':' :: tail := by
    rw [← left, List.takeWhile_append_dropWhile]
  refine ⟨_, _, tail, ?_, ?_, rfl, after, List.all_eq_true.mp List.all_takeWhile,
    List.all_eq_true.mp List.all_takeWhile⟩
  · rw [← after, List.takeWhile_append_dropWhile]
  · simp [first]

/-- The quoting of one bare key and what is behind it. -/
theorem quoteKeysFrom_cut {before : Option Char} {name space : List Char} {rest : List Piece}
    (some : name ≠ []) (spaces : ∀ c ∈ space, isSpace c = true)
    (length : keyLength before (name.map .code ++ ((space ++ [':']).map .code ++ rest)) =
      name.length) :
    quoteKeysFrom 0 before (name.map .code ++ ((space ++ [':']).map .code ++ rest)) =
      '"' :: name ++ '"' :: space ++ [':'] ++ quoteKeysFrom 0 (Option.some ':') rest := by
  have idle : ∀ piece ∈ (space ++ [':']).map Piece.code, piece.isIdle = true := by
    intro piece mem
    obtain ⟨c, among, rfl⟩ := List.mem_map.mp mem
    rcases List.mem_append.mp among with blank | colon
    · have part := not_isNamePart_of_isSpace (spaces c blank)
      have start : isNameStart c = false :=
        Bool.eq_false_iff.mpr fun start => by simp [isNamePart_of_isNameStart start] at part
      have digit : isDecimal c = false :=
        Bool.eq_false_iff.mpr fun digit => by simp [isNamePart_of_isDecimal digit] at part
      simp [Piece.isIdle, start, digit]
    · rw [List.mem_singleton.mp colon]
      decide +kernel
  have last (before : Option Char) :
      lastChar before ((space ++ [':']).map Piece.code) = Option.some ':' := by
    simp [lastChar, Piece.text]
  rw [quoteKeysFrom_begin length (by simpa using some), quoteKeysFrom_left some,
    quoteKeysFrom_idle idle, textOf_code, last]
  simp

theorem getLast?_past {piece : Piece} (here : Cursor) (rest : List Char) :
    here.past piece.text rest = ⟨piece.text.getLast?, rest⟩ := by
  have some : piece.text ≠ [] := by cases piece <;> simp [Piece.text]
  rw [Cursor.past, List.getLast?_eq_some_getLast some, Option.some_or]

/-- A string or comment holds no key and begins none. -/
theorem isIdle_of_opaque? {text rest : List Char} {piece : Piece}
    (h : opaque? text = some (piece, rest)) : piece.isIdle = true := by
  cases piece with
  | code c => exact absurd rfl (ne_code_of_opaque? h c)
  | _ => rfl

/-- The quoting of the bare key that is found at a place. -/
theorem quoteKeysFrom_found {found : Match} (nothing : opaque? here.rest = none)
    (h : match? Rule.forKeys here = some found) :
    quoteKeysFrom 0 here.before (pieces here.rest) = found.rule.write found.texts ++
      quoteKeysFrom 0 found.reached.before (pieces found.reached.rest) := by
  obtain ⟨before, _ | ⟨c, rest⟩⟩ := here
  · exact absurd (match?_length_lt h) (Nat.not_lt_zero _)
  · rw [match?_forKeys before nothing rfl] at h
    split at h
    · rename_i begins
      obtain ⟨name, space, tail, text, some, taken, left, parts, spaces⟩ := key_cut begins
      have stop : isSpace ':' = false := by decide
      have length := keyLength_pieces before nothing
      rw [begins, if_pos rfl, taken] at length
      rw [taken, left, List.takeWhile_append_of_pos spaces, List.dropWhile_append_of_pos spaces,
        List.takeWhile_cons, List.dropWhile_cons, stop] at h
      -- Nothing opens in the key and what stands up to the colon, so all of it is code.
      have cut : pieces (c :: rest) =
          name.map .code ++ ((space ++ [':']).map .code ++ pieces tail) := by
        have named : ∀ d ∈ name, OpensNothing d := fun d mem =>
          opensNothing_of_class (parts d mem) (any_keyPart c)
        have behind : ∀ d ∈ space ++ [':'], OpensNothing d := by
          intro d mem
          rcases List.mem_append.mp mem with blank | colon
          · exact opensNothing_of_class (spaces d blank) (by decide)
          · rw [List.mem_singleton.mp colon]
            exact ⟨by decide, by decide⟩
        rw [text, pieces_append_code named, ← pieces_append_code behind, List.append_assoc,
          List.singleton_append]
      cases h
      rw [cut] at length
      rw [cut, quoteKeysFrom_cut some spaces length]
      simp [Rule.bareKey, Rule.quoteKey]
    · cases h

theorem rewrites_forKeys :
    Rewrites Rule.forKeys fun here => quoteKeysFrom 0 here.before (pieces here.rest) where
  found {here found} h := by
    cases first : opaque? here.rest with
    | none => exact quoteKeysFrom_found first h
    | some found =>
      obtain ⟨-, written, reached⟩ := uniform_forKeys.eq_found first h
      rw [pieces_of_opaque? first, quoteKeysFrom_none (keyLength_idle (isIdle_of_opaque? first) _ _),
        written, reached, getLast?_past]
  kept {before c rest} h := by
    have nothing := uniform_forKeys.nothing h
    have length := keyLength_pieces before nothing
    rw [match?_forKeys before nothing rfl] at h
    split at h
    · cases h
    · rename_i no
      rw [if_neg no, pieces_code nothing] at length
      rw [pieces_code nothing, quoteKeysFrom_none length]
      rfl
  done before := by
    rw [pieces_nil]
    rfl

theorem quoteKeys_rules (text : List Char) : quoteKeys text = rewriteBy Rule.forKeys text :=
  (rewrites_forKeys.rewriteBy_eq text).symm

/-! Trailing commas. -/

theorem closesNext_pieces (text : List Char) :
    closesNext (pieces text) = (text.dropWhile isSpace).head?.any closesContainer := by
  rw [closesNext, (pieces_run isSpace (by decide) text).2, head?_pieces _ (by decide)]

theorem stuck_space_closing : StuckWithin isSpace [one closesContainer] := by
  intro before c rest space
  have open_ : closesContainer c = false := by
    refine Bool.eq_false_iff.mpr fun closes => ?_
    rw [not_isSpace_of_closes closes] at space
    cases space
  rw [Rule.partEnds, ends_one, open_]
  rfl

theorem partEnds_trailing (before : Option Char) (rest : List Char) :
    Rule.partEnds Rule.trailingComma.parts ⟨before, ',' :: rest⟩ =
      (Rule.partEnds [one closesContainer] (Cursor.skip isSpace ⟨some ',', rest⟩)).map
        fun (texts, reached) => ([','] :: rest.takeWhile isSpace :: texts, reached) := by
  rw [Rule.trailingComma, Rule.partEnds, ends_char_self, List.flatMap_singleton, spaces,
    partEnds_run stuck_space_closing, List.map_map]
  simp [Function.comp_def]

theorem partEnds_closing (here : Cursor) : Rule.partEnds [one closesContainer] here =
    match here.rest with
    | [] => []
    | c :: rest => if closesContainer c then [([[c]], ⟨some c, rest⟩)] else [] := by
  obtain ⟨before, _ | ⟨c, rest⟩⟩ := here
  · rfl
  · rw [Rule.partEnds, ends_one]
    cases h : closesContainer c <;> simp [h, Rule.partEnds]

theorem match?_trailing (before : Option Char) {space after : List Char} {d : Char}
    (spaces : ∀ c ∈ space, isSpace c = true) (closes : closesContainer d = true) :
    match? Rule.forCommas ⟨before, ',' :: (space ++ d :: after)⟩ =
      some ⟨Rule.trailingComma, [[','], space, [d]], ⟨some d, after⟩⟩ := by
  have nothing : opaque? (',' :: (space ++ d :: after)) = none := opaque?_code (by decide) rfl _
  have stop := not_isSpace_of_closes closes
  rw [Rule.forCommas, Rule.copy, finds_opaqueText.next (by simp [nothing])]
  apply match?_first
  · rw [partEnds_trailing, partEnds_closing]
    simp [Cursor.skip, Cursor.past, List.takeWhile_append_of_pos spaces,
      List.dropWhile_append_of_pos spaces, stop, closes]
  · simp only [List.length_cons, List.length_append]
    omega

theorem match?_plain {before : Option Char} {c : Char} {rest : List Char}
    (nothing : opaque? (c :: rest) = none)
    (open_ : c = ',' → (rest.dropWhile isSpace).head?.any closesContainer = false) :
    match? Rule.forCommas ⟨before, c :: rest⟩ = none := by
  rw [Rule.forCommas, Rule.copy, finds_opaqueText.next (by simp [nothing]), match?_next, match?_nil]
  by_cases comma : c = ','
  · subst comma
    rw [partEnds_trailing, partEnds_closing]
    change (List.map _ (match rest.dropWhile isSpace with | [] => [] | _ :: _ => _)).head? = none
    have stays := open_ rfl
    cases left : rest.dropWhile isSpace with
    | nil => rfl
    | cons d after =>
      rw [left] at stays
      simp_all
  · rw [Rule.trailingComma, Rule.partEnds, ends_char_other comma]
    rfl

theorem closing_cut {rest : List Char}
    (closes : (rest.dropWhile isSpace).head?.any closesContainer = true) :
    ∃ space d after, rest = space ++ d :: after ∧ (∀ c ∈ space, isSpace c = true) ∧
      closesContainer d = true := by
  cases left : rest.dropWhile isSpace with
  | nil =>
    rw [left] at closes
    cases closes
  | cons d after =>
    rw [left] at closes
    refine ⟨rest.takeWhile isSpace, d, after, ?_, List.all_eq_true.mp List.all_takeWhile, closes⟩
    rw [← left, List.takeWhile_append_dropWhile]

/-- The dropping of the trailing comma that is found at a place. -/
theorem dropCommas_found {found : Match} (nothing : opaque? here.rest = none)
    (h : match? Rule.forCommas here = some found) :
    textOf (dropCommas (pieces here.rest)) = found.rule.write found.texts ++
      textOf (dropCommas (pieces found.reached.rest)) := by
  obtain ⟨before, _ | ⟨c, rest⟩⟩ := here
  · exact absurd (match?_length_lt h) (Nat.not_lt_zero _)
  · by_cases trailing : c = ',' ∧ (rest.dropWhile isSpace).head?.any closesContainer = true
    · obtain ⟨rfl, closes⟩ := trailing
      obtain ⟨space, d, after, rfl, spaces, closes⟩ := closing_cut closes
      have blank : ∀ e ∈ space, OpensNothing e := fun e mem =>
        opensNothing_of_class (spaces e mem) (by decide)
      have bracket : OpensNothing d := opensNothing_of_class closes (by decide)
      rw [match?_trailing before spaces closes] at h
      cases h
      rw [pieces_code nothing, pieces_append_code blank,
        pieces_code (opaque?_code bracket.1 bracket.2 after),
        dropCommas_trailing (isCode_codes spaces) closes, textOf_cons]
      rfl
    · have open_ : c = ',' → (rest.dropWhile isSpace).head?.any closesContainer = false :=
        fun comma => Bool.eq_false_iff.mpr fun closes => trailing ⟨comma, closes⟩
      rw [match?_plain nothing open_] at h
      cases h

theorem rewrites_forCommas :
    Rewrites Rule.forCommas fun here => textOf (dropCommas (pieces here.rest)) where
  found {here found} h := by
    cases first : opaque? here.rest with
    | none => exact dropCommas_found first h
    | some found =>
      obtain ⟨-, written, reached⟩ := uniform_forCommas.eq_found first h
      rw [pieces_of_opaque? first,
        dropCommas_copy fun comma => absurd comma (ne_code_of_opaque? first ','), textOf_cons,
        written, reached]
      rfl
  kept {before c rest} h := by
    have nothing := uniform_forCommas.nothing h
    have stays : Piece.code c = .code ',' → closesNext (pieces rest) = false := by
      intro comma
      cases comma
      refine Bool.eq_false_iff.mpr fun closes => ?_
      rw [closesNext_pieces] at closes
      obtain ⟨space, d, after, rfl, spaces, closes⟩ := closing_cut closes
      rw [match?_trailing before spaces closes] at h
      cases h
    rw [pieces_code nothing, dropCommas_copy stays, textOf_cons]
    rfl
  done before := by
    rw [pieces_nil]
    rfl

theorem stripTrailingCommas_rules (text : List Char) :
    stripTrailingCommas text = rewriteBy Rule.forCommas text :=
  (rewrites_forCommas.rewriteBy_eq text).symm

/-- The steps behind the first, each with its rules. -/
def stepRules : List ((List Char → List Char) × List Rule) :=
  [(quoteKeys, Rule.forKeys), (convertQuotes, Rule.forQuotes),
    (stripTrailingCommas, Rule.forCommas), (stripComments, Rule.forComments)]

theorem normalSteps_eq : normalSteps = resolveInterpolations :: stepRules.map (·.1) := rfl

/-- Every step but the first is a search by its rules. -/
theorem step_rules {step : List Char → List Char} {rules : List Rule}
    (h : (step, rules) ∈ stepRules) :
    (∀ text, step text = rewriteBy rules text) ∧ ∃ rewritten, Uniform rules rewritten := by
  simp only [stepRules, List.mem_cons, Prod.mk.injEq, List.not_mem_nil, or_false] at h
  rcases h with ⟨rfl, rfl⟩ | ⟨rfl, rfl⟩ | ⟨rfl, rfl⟩ | ⟨rfl, rfl⟩
  · exact ⟨quoteKeys_rules, _, uniform_forKeys⟩
  · exact ⟨convertQuotes_rules, _, uniform_forQuotes⟩
  · exact ⟨stripTrailingCommas_rules, _, uniform_forCommas⟩
  · exact ⟨stripComments_rules, _, uniform_forComments⟩

end ThemeSheet.Literal
