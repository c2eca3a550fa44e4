import ThemeSheet.Proofs.LocatedLiteral
import ThemeSheet.Proofs.NormalAlike

/-! A comment counts as a space, but where its removal brings together what a space keeps apart. -/

namespace ThemeSheet.Literal

open Text

/-- A comment between two texts does what a space does there. -/
structure CountsAsSpace (front back : List Piece) : Prop where
  /-- It does not part a bare key from its colon. -/
  key : colonNext back = true → endsInWord front = false
  /-- No two characters of words are brought together when the comments are left out. -/
  word : ∀ c d, lastOf Piece.isSeen front = some (.code c) →
    (visible back).head? = some (.code d) → isPlain c = true → isPlain d = false
  /-- Between a trailing comma and its bracket stand only blanks, and the comma ends a part. -/
  comma : ∀ before gap gap' bracket rest, front = before ++ .code ',' :: gap.map .code →
    back = gap'.map .code ++ .code bracket :: rest → Spaces gap → Spaces gap' →
    closesContainer bracket = true →
    Blanks (gap ++ gap') ∧ ∀ c, lastOf Piece.isSolid before = some (.code c) → opensPart c = false

/-- A comment counts as a space where a space or a mark stands before it and neither a colon nor a
closing bracket behind it. -/
theorem countsAsSpace_apart {front back : List Piece} (colon : colonNext back = false)
    (closes : closesNext back = false)
    (apart : ∀ c, lastOf Piece.isSeen front = some (.code c) → isPlain c = false) :
    CountsAsSpace front back := by
  refine ⟨fun found => ?_, fun c d last _ plain => ?_, fun before gap gap' c rest _ eq _ all h => ?_⟩
  · rw [colon] at found
    cases found
  · rw [apart c last] at plain
    cases plain
  · rw [eq, closesNext_spaces (isCode_codes all) h] at closes
    cases closes

/-! Around a comment and around a space. -/

/-- No slash stands before a comment. -/
theorem Whole.last_seen {front back : List Piece} {comment : Piece}
    (h : Whole (front ++ comment :: back)) (commented : comment.isComment = true) :
    lastOf Piece.isSeen front ≠ some (.code '/') := by
  have covered {piece : Piece} (commented : piece.isSeen = false) : piece.followsSlash = false := by
    cases piece <;> first | rfl | cases commented
  induction front with
  | nil => rintro ⟨⟩
  | cons piece front ih =>
    have whole := lastOf_append (p := Piece.isSeen) [piece] front
    rw [List.singleton_append] at whole
    rw [whole]
    cases last : lastOf Piece.isSeen front with
    | some found =>
      rw [Option.some_or, ← last]
      exact ih h.tail
    | none =>
      rw [Option.none_or]
      intro slash
      obtain rfl : piece = .code '/' := by
        cases seen : piece.isSeen with
        | true => simpa [lastOf, seen] using slash
        | false => simp [lastOf, seen] at slash
      have next : ∃ first, (front ++ comment :: back).head? = some first ∧
          first.followsSlash = false := by
        cases front with
        | nil => exact ⟨comment, rfl, covered (by rw [Piece.isSeen, commented]; rfl)⟩
        | cons first front =>
          have all := List.filter_eq_nil_iff.mp (List.getLast?_eq_none_iff.mp last)
          exact ⟨first, rfl, covered (by simpa using all first List.mem_cons_self)⟩
      obtain ⟨first, eq, follows⟩ := next
      cases h with
      | code _ allowed =>
        have := allowed rfl first eq
        rw [follows] at this
        cases this

/-- A comment is left out. -/
theorem normalFrom_comment {front back : List Piece} {comment : Piece}
    (whole : Whole (front ++ comment :: back)) (commented : comment.isComment = true) :
    normalFrom none (front ++ comment :: back) =
      normalFrom none front ++ normalFrom (some ' ') back := by
  have code (p : Char → Bool) : comment.isCode p = false := by
    cases comment <;> first | rfl | cases commented
  have idle : comment.isIdle = true := by
    cases comment <;> first | rfl | cases commented
  have dark : firstPart (comment :: back) = some comment := firstPart_dark (code isSpace) back
  have ends : ∀ piece ∈ (comment :: back).head?, piece.isCode isNamePart = false := by
    rintro piece ⟨⟩
    exact code isNamePart
  have colon : colonNext (comment :: back) = false := by
    rw [colonNext, dark]
    cases comment <;> first | rfl | cases commented
  have closes : closesNext (comment :: back) = false := by
    change (firstPart (comment :: back)).any _ = false
    rw [dark]
    exact code closesContainer
  have behind : normalFrom comment.text.getLast? back = normalFrom (some ' ') back := by
    refine normalFrom_before fun piece first => ?_
    cases whole.right with
    | @block body =>
      have slash : (Piece.blockComment body).text.getLast? = some '/' :=
        List.getLast?_append_of_ne_nil ('/' :: '*' :: body) (by simp)
      rw [slash]
      exact .inl rfl
    | line _ ends =>
      refine .inr ?_
      rcases ends with rfl | eq
      · cases first
      · rw [eq] at first
        cases first
        decide
    | code => cases commented
    | quoted => cases commented
  have left : normalFrom (lastChar none front) (comment :: back) =
      normalFrom comment.text.getLast? back := by
    have other : comment.doubled = comment := by
      cases comment <;> first | rfl | cases commented
    rw [normalFrom, keyed_idle idle, List.map_cons, other, dropCommas_copy, visible,
      List.filter_cons_of_neg]
    · rfl
    · simp [Piece.isSeen, commented]
    · rintro rfl
      cases commented
  rw [normalFrom_append ends (fun found => by rw [colon] at found; cases found)
    (fun found => by rw [closes] at found; cases found), left, behind]

/-- A space is kept, if it does not end a trailing comma. -/
theorem normalFrom_space {front back : List Piece}
    (colon : colonNext back = true → endsInWord front = false)
    (comma : closesNext back = true → lastOf Piece.isDark front ≠ some (.code ',')) :
    normalFrom none (front ++ .code ' ' :: back) =
      normalFrom none front ++ .code ' ' :: normalFrom (some ' ') back := by
  have ends : ∀ piece ∈ (Piece.code ' ' :: back).head?, piece.isCode isNamePart = false := by
    rintro piece ⟨⟩
    decide
  have left : normalFrom (lastChar none front) (.code ' ' :: back) =
      .code ' ' :: normalFrom (some ' ') back := by
    rw [normalFrom, keyed_idle (by decide), List.map_cons, dropCommas_copy]
    · rfl
    · intro same
      cases same
  have next : closesNext (.code ' ' :: back) = closesNext back := closesNext_space (by decide) back
  rw [normalFrom_append ends colon (by rwa [next]), left]

/-- What begins a normal form in code begins the text, or closes a container. -/
theorem head_normalFrom {before : Option Char} {ps : List Piece} {c : Char}
    (h : (normalFrom before ps).head? = some (.code c)) :
    (visible ps).head? = some (.code c) ∨ closesContainer c = true := by
  have commas {ps : List Piece} (h : (visible (dropCommas ps)).head? = some (.code c)) :
      (visible ps).head? = some (.code c) ∨ closesContainer c = true := by
    induction ps using dropCommas_induction with
    | nil => exact .inl h
    | copy piece rest kept ih =>
      rw [dropCommas_copy kept] at h
      unfold visible at h ih ⊢
      cases seen : piece.isSeen with
      | true =>
        rw [List.filter_cons_of_pos seen] at h ⊢
        exact .inl h
      | false =>
        rw [List.filter_cons_of_neg (by simp [seen])] at h ⊢
        exact ih h
    | drop spaces d rest all closes _ =>
      rw [dropCommas_trailing all closes] at h
      cases h
      exact .inr closes
  have keys {before : Option Char} {ps : List Piece}
      (h : (visible ((keyed before ps).map Piece.doubled)).head? = some (.code c)) :
      (visible ps).head? = some (.code c) := by
    induction before, ps using keyed_induction with
    | nil before =>
      rw [keyed_nil] at h
      cases h
    | copy before piece rest none ih =>
      rw [keyed_copy none, List.map_cons] at h
      unfold visible at h ih ⊢
      cases seen : piece.isSeen with
      | true =>
        rw [List.filter_cons_of_pos ((isSeen_doubled piece).trans seen)] at h
        rw [List.filter_cons_of_pos seen]
        exact congrArg some (doubled_eq_code (Option.some.inj h))
      | false =>
        rw [List.filter_cons_of_neg (by simp [isSeen_doubled, seen])] at h
        rw [List.filter_cons_of_neg (by simp [seen])]
        exact ih h
    | key before name rest some length _ _ _ =>
      rw [keyed_key some length] at h
      cases h
  exact (commas h).imp keys id

/-- The last character of code in a normal form is the last one that was no comment. -/
theorem last_normalFrom {before : Option Char} {ps : List Piece} {c : Char}
    (h : (normalFrom before ps).getLast? = some (.code c)) :
    lastOf Piece.isSeen ps = some (.code c) := by
  refine lastOf_normal rfl isSeen_doubled before ?_
  rw [← lastOf_dropCommas fun _ _ => rfl]
  exact h

theorem lastDark_normalFrom {before : Option Char} {ps : List Piece} {c : Char}
    (h : lastOf Piece.isDark (normalFrom before ps) = some (.code c)) :
    lastOf Piece.isSolid ps = some (.code c) := by
  have solid (piece : Piece) : piece.doubled.isSolid = piece.isSolid := by
    rw [Piece.isSolid, Piece.isSolid, isDark_doubled, isSeen_doubled]
  have closes (d : Char) (closes : closesContainer d = true) : (Piece.code d).isSolid = true := by
    have dark := not_isSpace_of_closes closes
    simp [Piece.isSolid, Piece.isDark, Piece.isSeen, Piece.isCode, Piece.isComment, dark]
  refine lastOf_normal (by decide) solid before ?_
  rw [← lastOf_dropCommas closes]
  rw [normalFrom, lastOf, visible, List.filter_filter] at h
  exact h

/-- A space may be put between two texts whose words stay apart without it. -/
theorem alike_space {front back : List Piece} (whole : Whole front) (whole' : Whole back)
    (slash : lastOf Piece.isSeen front ≠ some (.code '/'))
    (word : ∀ c d, lastOf Piece.isSeen front = some (.code c) →
      (visible back).head? = some (.code d) → isPlain c = true → isPlain d = false) :
    Alike (textOf (normalFrom none front ++ normalFrom (some ' ') back))
      (textOf (normalFrom none front ++ .code ' ' :: normalFrom (some ' ') back)) := by
  have behind := normal_normalFrom whole' (some ' ')
  have breaks (c : Char) (last : (normalFrom none front).getLast? = some (.code c))
      (plain : isPlain c = true) : Breaks (textOf (normalFrom (some ' ') back)) := by
    cases first : normalFrom (some ' ') back with
    | nil => exact breaks_nil
    | cons piece rest =>
      have head := congrArg List.head? first
      rw [textOf_cons]
      cases piece with
      | code d =>
        refine breaks_cons.mpr ?_
        rcases head_normalFrom head with found | closes
        · exact word c d (last_normalFrom last) found plain
        · exact not_plain_of_closes closes
      | quoted quote body =>
        obtain rfl := behind.double quote body (by rw [first]; exact List.mem_cons_self)
        exact breaks_cons.mpr (by decide)
      | lineComment body => cases behind.seen _ (by rw [first]; exact List.mem_cons_self)
      | blockComment body => cases behind.seen _ (by rw [first]; exact List.mem_cons_self)
  rw [textOf_append, textOf_append, textOf_cons]
  refine alike_behind (normal_normalFrom whole none) ⟨fun last => ?_, fun c last plain => ?_,
    fun _ _ _ comma => ?_⟩ (.blank rfl (alike_refl behind))
  · exact absurd (last_normalFrom last) slash
  · exact .inr ⟨breaks c last plain, breaks_cons.mpr (by decide)⟩
  · change (trimLeft (' ' :: textOf _)).head? = some ','
    rwa [trimLeft_of_isBlank (by decide)]

/-- Spaces in front are copied. -/
theorem normalFrom_spaces {gap : List Char} (spaces : Spaces gap) (before : Option Char)
    (rest : List Piece) : normalFrom before (gap.map .code ++ rest) =
      gap.map .code ++ normalFrom (lastChar before (gap.map .code)) rest := by
  have plain : ∀ piece ∈ gap.map Piece.code, piece ≠ .code ',' := by
    rintro piece mem rfl
    exact absurd (isCode_codes spaces _ mem) (by decide)
  rw [normalFrom, keyed_spaces (isCode_codes spaces), List.map_append, map_doubled_codes,
    dropCommas_plain plain, visible_codes]
  rfl

theorem idle_of_closes {c : Char} (closes : closesContainer c = true) :
    (Piece.code c).isIdle = true := by
  simp only [closesContainer, Bool.or_eq_true, beq_iff_eq] at closes
  rcases closes with rfl | rfl <;> decide

theorem comma_ne_of_closes {c : Char} (closes : closesContainer c = true) :
    Piece.code c ≠ .code ',' := by
  intro same
  rw [Piece.code.inj same] at closes
  cases closes

theorem normalFrom_bracket {c : Char} (closes : closesContainer c = true) (before : Option Char)
    (rest : List Piece) :
    normalFrom before (.code c :: rest) = .code c :: normalFrom (some c) rest := by
  rw [normalFrom, keyed_idle (idle_of_closes closes), List.map_cons]
  change visible (dropCommas (.code c :: _)) = _
  rw [dropCommas_copy fun comma => absurd comma (comma_ne_of_closes closes)]
  rfl

/-- A trailing comma is dropped. -/
theorem normalFrom_trailing {gap : List Char} (spaces : Spaces gap) {c : Char}
    (closes : closesContainer c = true) (before : Option Char) (rest : List Piece) :
    normalFrom before (.code ',' :: (gap.map .code ++ .code c :: rest)) =
      .code c :: normalFrom (some c) rest := by
  rw [normalFrom, keyed_idle (by decide), keyed_spaces (isCode_codes spaces),
    keyed_idle (idle_of_closes closes), List.map_cons, List.map_append, map_doubled_codes,
    List.map_cons]
  change visible (dropCommas (.code ',' :: (gap.map .code ++ .code c :: _))) = _
  rw [dropCommas_trailing (isCode_codes spaces) closes]
  rfl

/-- A comma at the end is kept. -/
theorem normalFrom_comma {gap : List Char} (spaces : Spaces gap) (before : Option Char) :
    normalFrom before (.code ',' :: gap.map .code) = (',' :: gap).map .code := by
  have none : closesNext (gap.map .code) = false := by
    change (firstPart _).any _ = false
    rw [firstPart_spaces (isCode_codes spaces)]
    rfl
  have behind := normalFrom_spaces spaces (some ',') []
  rw [List.append_nil] at behind
  rw [normalFrom, keyed_idle (by decide), List.map_cons,
    dropCommas_copy fun _ => (closesNext_keyed _ _).trans none]
  change .code ',' :: normalFrom (some ',') _ = _
  rw [behind, normalFrom, keyed_nil]
  simp [dropCommas, visible]

/-- A space that ends a trailing comma has the comma dropped, which stays before a comment. -/
theorem alike_comma {before rest : List Piece} {gap gap' : List Char} {bracket : Char}
    {comment : Piece} (commented : comment.isComment = true)
    (whole : Whole ((before ++ .code ',' :: gap.map .code) ++
      comment :: (gap'.map .code ++ .code bracket :: rest)))
    (spaces : Spaces gap) (spaces' : Spaces gap') (closes : closesContainer bracket = true)
    (blanks : Blanks (gap ++ gap'))
    (part : ∀ c, lastOf Piece.isSolid before = some (.code c) → opensPart c = false) :
    Alike
      (textOf (normalFrom none ((before ++ .code ',' :: gap.map .code) ++
        comment :: (gap'.map .code ++ .code bracket :: rest))))
      (textOf (normalFrom none ((before ++ .code ',' :: gap.map .code) ++
        .code ' ' :: (gap'.map .code ++ .code bracket :: rest)))) := by
  have comma (tail : List Piece) : normalFrom none (before ++ .code ',' :: tail) =
      normalFrom none before ++ normalFrom (lastChar none before) (.code ',' :: tail) := by
    refine normalFrom_append ?_ (by rintro ⟨⟩) (by rintro ⟨⟩) none
    rintro piece ⟨⟩
    decide
  have between : Spaces (gap ++ ' ' :: gap') := by
    intro c mem
    rcases List.mem_append.mp mem with mem | mem
    · exact spaces c mem
    · rcases List.mem_cons.mp mem with rfl | mem
      · decide
      · exact spaces' c mem
  have dropped : normalFrom none ((before ++ .code ',' :: gap.map .code) ++
      .code ' ' :: (gap'.map .code ++ .code bracket :: rest)) =
      normalFrom none before ++ .code bracket :: normalFrom (some bracket) rest := by
    have text : (before ++ Piece.code ',' :: gap.map .code) ++
        .code ' ' :: (gap'.map .code ++ .code bracket :: rest) =
        before ++ .code ',' :: ((gap ++ ' ' :: gap').map .code ++ .code bracket :: rest) := by
      simp
    rw [text, comma, normalFrom_trailing between closes]
  have last : Whole rest := whole.right.tail.right.tail
  have tail := Alike.comma blanks closes (alike_refl (normal_normalFrom last (some bracket)))
  have breaks : Breaks (bracket :: textOf (normalFrom (some bracket) rest)) :=
    breaks_cons.mpr (not_plain_of_closes closes)
  rw [normalFrom_comment whole commented, comma, normalFrom_comma spaces, normalFrom_spaces spaces',
    normalFrom_bracket closes, dropped]
  have behind := alike_behind (normal_normalFrom whole.left.left none) ⟨fun _ => ?_, fun _ _ _ =>
    .inr ⟨breaks_cons.mpr (by decide), breaks⟩, fun c found opens => ?_⟩ tail
  · simpa [textOf_append, textOf_cons, textOf_code, Piece.text] using behind
  · refine ⟨fun c first => ?_, fun c first => ?_⟩
    · cases first
      decide
    · cases first
      simp only [closesContainer, Bool.or_eq_true, beq_iff_eq] at closes
      rcases closes with rfl | rfl <;> decide
  · rw [part c (lastDark_normalFrom found)] at opens
    cases opens

/-- Behind the last piece that is no space come spaces. -/
theorem split_lastDark {ps : List Piece} {piece : Piece}
    (last : lastOf Piece.isDark ps = some piece) : ∃ (front : List Piece) (gap : List Char),
      ps = front ++ piece :: gap.map .code ∧ Spaces gap := by
  induction ps using List.reverseRecOn with
  | nil => cases last
  | append_singleton front next ih =>
    cases dark : next.isDark with
    | true =>
      rw [lastOf_concat dark] at last
      obtain rfl := Option.some.inj last
      exact ⟨front, [], rfl, spaces_nil⟩
    | false =>
      have alone : lastOf Piece.isDark [next] = none := by simp [lastOf, dark]
      rw [lastOf_append, alone, Option.none_or] at last
      obtain ⟨front, gap, rfl, spaces⟩ := ih last
      cases next with
      | code c =>
        have space : isSpace c = true := by simpa [Piece.isDark, Piece.isCode] using dark
        refine ⟨front, gap ++ [c], by simp, fun d mem => ?_⟩
        rcases List.mem_append.mp mem with mem | mem
        · exact spaces d mem
        · exact List.mem_singleton.mp mem ▸ space
      | lineComment => cases dark
      | blockComment => cases dark
      | quoted => cases dark

/-- Without comments, the two texts differ in blanks and in a trailing comma. -/
theorem alike_spaced {front back : List Piece} {comment : Piece}
    (commented : comment.isComment = true) (whole : Whole (front ++ comment :: back))
    (space : CountsAsSpace front back) :
    Alike (textOf (normalFrom none (front ++ comment :: back)))
      (textOf (normalFrom none (front ++ .code ' ' :: back))) := by
  by_cases trailing : closesNext back = true ∧ lastOf Piece.isDark front = some (.code ',')
  · obtain ⟨next, last⟩ := trailing
    obtain ⟨before, gap, rfl, spaces⟩ := split_lastDark last
    obtain ⟨gap', bracket, rest, rfl, all, closes⟩ := closing_of_closesNext next
    obtain ⟨gap', rfl, spaces'⟩ := codes_of_all all
    obtain ⟨blanks, part⟩ := space.comma before gap gap' bracket rest rfl rfl spaces spaces' closes
    exact alike_comma commented whole spaces spaces' closes blanks part
  · have comma (closes : closesNext back = true) : lastOf Piece.isDark front ≠ some (.code ',') :=
      fun last => trailing ⟨closes, last⟩
    rw [normalFrom_comment whole commented, normalFrom_space space.key comma]
    exact alike_space whole.left whole.right.tail (whole.last_seen commented) space.word

/-! Interpolations take no part in this. -/

theorem isCode_resolved (p : Char → Bool) (piece : Piece) :
    piece.resolved.isCode p = piece.isCode p := by
  cases piece <;> rfl

theorem isSeen_resolved (piece : Piece) : piece.resolved.isSeen = piece.isSeen := by
  cases piece <;> rfl

theorem isDark_resolved (piece : Piece) : piece.resolved.isDark = piece.isDark := by
  rw [Piece.isDark, isCode_resolved]
  rfl

theorem isSolid_resolved (piece : Piece) : piece.resolved.isSolid = piece.isSolid := by
  rw [Piece.isSolid, isDark_resolved, isSeen_resolved]
  rfl

theorem resolved_eq_code {piece : Piece} {c : Char} : piece.resolved = .code c ↔ piece = .code c := by
  cases piece <;> simp [Piece.resolved]

theorem map_resolved_eq_codes {ps : List Piece} {chars : List Char} :
    ps.map Piece.resolved = chars.map .code ↔ ps = chars.map .code := by
  induction ps generalizing chars with
  | nil => simp [eq_comm]
  | cons piece ps ih =>
    cases chars with
    | nil => simp
    | cons c chars => simp [resolved_eq_code, ih]

theorem colonNext_resolved (ps : List Piece) :
    colonNext (ps.map Piece.resolved) = colonNext ps := by
  have same : (Piece.isCode isSpace ∘ Piece.resolved) = Piece.isCode isSpace :=
    funext (isCode_resolved isSpace)
  have colon (first : Option Piece) :
      first.map Piece.resolved = some (.code ':') ↔ first = some (.code ':') := by
    cases first <;> simp [resolved_eq_code]
  rw [colonNext, colonNext, firstPart, firstPart, List.dropWhile_map, same, List.head?_map,
    Bool.eq_iff_iff, beq_iff_eq, beq_iff_eq, colon]

/-- Resolving interpolations brings no comment to count for more or less than a space. -/
theorem CountsAsSpace.resolved {front back : List Piece} (h : CountsAsSpace front back) :
    CountsAsSpace (front.map Piece.resolved) (back.map Piece.resolved) := by
  have last {p : Piece → Bool} (same : ∀ piece, p piece.resolved = p piece) {ps : List Piece}
      {c : Char} (found : lastOf p (ps.map Piece.resolved) = some (.code c)) :
      lastOf p ps = some (.code c) := by
    rw [lastOf_map same] at found
    obtain ⟨piece, found, eq⟩ := Option.map_eq_some_iff.mp found
    rw [found, resolved_eq_code.mp eq]
  refine ⟨fun colon => ?_, fun c d front back => ?_, fun before gap gap' bracket rest eq eq' => ?_⟩
  · rw [colonNext_resolved] at colon
    have word := h.key colon
    unfold endsInWord at word ⊢
    rw [lastOf_map isDark_resolved]
    cases found : lastOf Piece.isDark front with
    | none => rfl
    | some piece =>
      rw [found] at word
      exact (isCode_resolved isNamePart piece).trans word
  · refine h.word c d (last isSeen_resolved front) ?_
    have same : (Piece.isSeen ∘ Piece.resolved) = Piece.isSeen := funext isSeen_resolved
    rw [visible, List.filter_map, same, List.head?_map] at back
    obtain ⟨piece, found, eq⟩ := Option.map_eq_some_iff.mp back
    rw [visible, found, resolved_eq_code.mp eq]
  · obtain ⟨before', tail, rfl, rfl, tail'⟩ := List.map_eq_append_iff.mp eq
    obtain ⟨comma, spaces, rfl, comma', spaces'⟩ := List.map_eq_cons_iff.mp tail'
    obtain ⟨spaces'', tail, rfl, gaps, tail'⟩ := List.map_eq_append_iff.mp eq'
    obtain ⟨closing, rest, rfl, closing', rfl⟩ := List.map_eq_cons_iff.mp tail'
    rw [map_resolved_eq_codes] at spaces' gaps
    rw [resolved_eq_code] at comma' closing'
    subst comma' spaces' gaps closing'
    intro space space' closes
    obtain ⟨blanks, part⟩ := h.comma before' gap gap' bracket rest rfl rfl space space' closes
    exact ⟨blanks, fun c found => part c (last isSolid_resolved found)⟩

/-! Where a literal closes. -/

/-- A bracket that is closed last of all is so with a space in the place of a comment. -/
theorem afterClose?_spaced {front back : List Piece} {comment : Piece}
    (commented : comment.isComment = true) (whole : Whole (front ++ comment :: back))
    (depth : Nat)
    (closed : afterClose? '{' '}' depth (textOf (front ++ comment :: back)) = some []) :
    afterClose? '{' '}' depth (textOf (front ++ .code ' ' :: back)) = some [] := by
  have skips {piece : Piece} {rest : List Piece} (whole : Whole (piece :: rest))
      (other : ∀ c, piece ≠ .code c) (depth : Nat) :
      afterClose? '{' '}' depth (textOf (piece :: rest)) =
        afterClose? '{' '}' depth (textOf rest) :=
    afterClose?_of_afterOpaque? (afterOpaque?_of_opaque? (whole.opens other))
  induction front generalizing depth with
  | nil =>
    have other (c : Char) : comment ≠ .code c := by
      rintro rfl
      cases commented
    have space : afterOpaque? (' ' :: textOf back) = none := afterOpaque?_code (by decide) rfl _
    rw [List.nil_append, skips whole other] at closed
    rw [List.nil_append, textOf_cons]
    change afterClose? '{' '}' depth (' ' :: textOf back) = some []
    rw [afterClose?_code space, if_neg (by decide), if_neg (by decide), closed]
  | cons piece front ih =>
    have feed : comment ≠ .code '\n' := by
      rintro rfl
      cases commented
    have spaced : Whole (piece :: front ++ .code ' ' :: back) :=
      whole.exchange feed rfl (.code rfl (absurd · (by decide)) whole.right.tail)
    rw [List.cons_append] at whole spaced closed ⊢
    by_cases code : ∃ c, piece = .code c
    · obtain ⟨c, rfl⟩ := code
      have here : afterClose? '{' '}' depth (c :: textOf (front ++ comment :: back)) = _ :=
        afterClose?_code whole.not_opens
      have here' : afterClose? '{' '}' depth (c :: textOf (front ++ .code ' ' :: back)) = _ :=
        afterClose?_code spaced.not_opens
      change afterClose? '{' '}' depth (c :: textOf (front ++ comment :: back)) = _ at closed
      change afterClose? '{' '}' depth (c :: textOf (front ++ .code ' ' :: back)) = _
      rw [here] at closed
      rw [here']
      split at closed
      · rename_i opens
        rw [if_pos opens]
        exact ih whole.tail _ closed
      · rename_i opens
        rw [if_neg opens]
        split at closed
        · rename_i closes
          rw [if_pos closes]
          split at closed
          · -- The last bracket does not close before the comment.
            obtain ⟨d, more, eq⟩ := Whole.some_text comment back
            rw [textOf_append, eq] at closed
            simp at closed
          · rename_i inner
            rw [if_neg inner]
            exact ih whole.tail _ closed
        · rename_i closes
          rw [if_neg closes]
          exact ih whole.tail _ closed
    · have other (c : Char) : piece ≠ .code c := fun same => code ⟨c, same⟩
      rw [skips whole other] at closed
      rw [skips spaced other]
      exact ih whole.tail _ closed

/-- A balanced literal is so with a space in the place of a comment, whatever follows. -/
theorem balanced?_spaced {front back : List Piece} {comment : Piece}
    (commented : comment.isComment = true) (whole : Whole (front ++ comment :: back))
    (balanced : Bracketed '{' (textOf (front ++ comment :: back))) (after : List Char) :
    (textOf (front ++ .code ' ' :: back)).head? = some '{' ∧
      balanced? (textOf (front ++ .code ' ' :: back) ++ after) =
        some (textOf (front ++ .code ' ' :: back)) := by
  have brace := whole.head_brace balanced.1
  have closed := afterBalanced?_bracketed balanced []
  rw [List.append_nil] at closed
  cases front with
  | nil =>
    cases brace
    cases commented
  | cons piece front =>
    cases brace
    have spaced : afterBalanced? (textOf (.code '{' :: front ++ .code ' ' :: back)) = some [] :=
      afterClose?_spaced commented whole.tail 1 closed
    refine ⟨rfl, ?_⟩
    rw [balanced?, afterBalanced?_more spaced]
    simp

end ThemeSheet.Literal

namespace ThemeSheet.Extraction

open Literal

/-- The outcome of a literal with a space in the place of a comment. -/
theorem sameOutcome_spaced {source source' name : String} {front back : List Piece}
    {comment : Piece} (commented : comment.isComment = true)
    (located : locate name.toList source.toList = some (textOf (front ++ comment :: back)))
    (located' : locate name.toList source'.toList = some (textOf (front ++ .code ' ' :: back)))
    (whole : Whole (front ++ comment :: back)) (settled : Settled (front ++ comment :: back))
    (space : CountsAsSpace front back) (path : Option String) :
    SameOutcome source source' name path := by
  have feed : comment ≠ .code '\n' := by
    rintro rfl
    cases commented
  have spaced : Whole (front ++ .code ' ' :: back) :=
    whole.exchange feed rfl (.code rfl (absurd · (by decide)) whole.right.tail)
  have settled' : Settled (front ++ .code ' ' :: back) :=
    settled.exchange (by decide) (by decide) (by simp)
  refine sameOutcome_of_alike located located' whole settled spaced settled' ?_ path
  have still : comment.resolved.isComment = true := by
    cases comment <;> first | rfl | cases commented
  have resolved := whole.resolved
  simp only [List.map_append, List.map_cons] at resolved ⊢
  exact alike_spaced still resolved space.resolved

/-- A source that exports a constant with a literal. -/
def constantSource (before : List Char) (name : String) (type : Option (List Char))
    (literal : List Piece) (after : List Char) : String :=
  String.ofList (before ++
    ("export const ".toList ++ assignment name.toList type (textOf literal) after))

/-- A comment of the literal counts as a space, where it stands between no bare key and its colon,
between no two characters of words, and behind no trailing comma but one with blanks around it that
ends a part. Then the outcome is the same with a space in its place; the literal of a constant that
is exported is located with the space as well. -/
theorem extract_spacedComment {name : String} {front back : List Piece} {comment : Piece}
    (commented : comment.isComment = true) (whole : Whole (front ++ comment :: back))
    (settled : Settled (front ++ comment :: back)) (space : CountsAsSpace front back)
    (path : Option String) :
    (∀ source source' : String,
      locate name.toList source.toList = some (textOf (front ++ comment :: back)) →
      locate name.toList source'.toList = some (textOf (front ++ .code ' ' :: back)) →
      SameOutcome source source' name path) ∧
    ∀ (before after : List Char) (type : Option (List Char)), isIdentifier name = true →
      ¬ ExportsConst before → (∀ t, type = some t → t ≠ [] ∧ ∀ c ∈ t, annotationEnd c = false) →
      Bracketed '{' (textOf (front ++ comment :: back)) →
      SameOutcome (constantSource before name type (front ++ comment :: back) after)
        (constantSource before name type (front ++ .code ' ' :: back) after) name path := by
  constructor
  · intro source source' located located'
    exact sameOutcome_spaced commented located located' whole settled space path
  · intro before after type identifier first typed balanced
    have bound {literal : List Piece} (brace : (textOf literal).head? = some '{')
        (closed : balanced? (textOf literal ++ after) = some (textOf literal)) :
        locate name.toList (constantSource before name type literal after).toList =
          some (textOf literal) := by
      rw [constantSource, String.toList_ofList]
      refine locate_exportConst first rfl fun c => ?_
      rw [exportConst?_assignment identifier typed brace, Option.bind_some, closed]
    have closed : balanced? (textOf (front ++ comment :: back) ++ after) =
        some (textOf (front ++ comment :: back)) := by
      rw [balanced?, afterBalanced?_bracketed balanced]
      simp
    obtain ⟨brace, closed'⟩ := balanced?_spaced commented whole balanced after
    exact sameOutcome_spaced commented (bound balanced.1 closed) (bound brace closed') whole settled
      space path

/-- What stands before and behind a comment in a literal with two members. -/
def twoMembers : List Piece × List Piece :=
  ("\x7b a: 1, ".toList.map .code, " b: [true] \x7d".toList.map .code)

theorem extract_commentedMembers :
    isIdentifier "THEME" = true ∧ ¬ ExportsConst [] ∧
      CountsAsSpace twoMembers.1 twoMembers.2 ∧
      SameOutcome
        (constantSource [] "THEME" none
          (twoMembers.1 ++ .blockComment " c ".toList :: twoMembers.2) [])
        (constantSource [] "THEME" none (twoMembers.1 ++ .code ' ' :: twoMembers.2) [])
        "THEME" none ∧
      SameOutcome "let THEME = \x7b a: 1, /* c */ b: [true] \x7d"
        "let THEME = \x7b a: 1,   b: [true] \x7d" "THEME" none := by
  have identifier : isIdentifier "THEME" = true := by decide
  have first : ¬ ExportsConst [] := not_exportsConst (by decide)
  have space : CountsAsSpace twoMembers.1 twoMembers.2 := by
    refine countsAsSpace_apart ?_ ?_ fun c last => ?_
    · decide +kernel
    · decide +kernel
    · have blank : lastOf Piece.isSeen twoMembers.1 = some (.code ' ') := by decide +kernel
      rw [blank] at last
      cases last
      decide
  have back : Whole twoMembers.2 := by
    have calm := calm_of_all (show " b: [true] \x7d".toList.all _ = true by decide +kernel)
    have whole := whole_codes calm .nil
    rwa [List.append_nil] at whole
  have whole : Whole (twoMembers.1 ++ .blockComment " c ".toList :: twoMembers.2) := by
    have calm := calm_of_all (show "\x7b a: 1, ".toList.all _ = true by decide +kernel)
    exact whole_codes calm (.block (by decide +kernel) back)
  have settled : Settled (twoMembers.1 ++ .blockComment " c ".toList :: twoMembers.2) := by
    have code (chars body : List Char) : .lineComment body ∉ chars.map Piece.code := by simp
    refine ⟨by decide +kernel, fun body mem => ?_⟩
    rcases List.mem_append.mp mem with mem | mem
    · exact absurd mem (code _ body)
    · rcases List.mem_cons.mp mem with same | mem
      · cases same
      · exact absurd mem (code _ body)
  have balanced : Bracketed '{'
      (textOf (twoMembers.1 ++ .blockComment " c ".toList :: twoMembers.2)) :=
    ⟨rfl, by decide +kernel⟩
  obtain ⟨located, exported⟩ := @extract_spacedComment "THEME" _ _ _ rfl whole settled space none
  exact ⟨identifier, first, space, exported [] [] none identifier first (by rintro t ⟨⟩) balanced,
    located "let THEME = \x7b a: 1, /* c */ b: [true] \x7d"
      "let THEME = \x7b a: 1,   b: [true] \x7d" (by decide +kernel) (by decide +kernel)⟩

/-- Between a bare key and its colon a comment does not count as a space. -/
theorem extract_commentedKey :
    (extract "export const THEME = \x7b a /* c */ : 1 \x7d;\n" "THEME" none).2.toOption = none ∧
      (extract "export const THEME = \x7b a   : 1 \x7d;\n" "THEME" none).2 =
        .ok [("a", "1")] := by
  decide +kernel

end ThemeSheet.Extraction
