import ThemeSheet.Extraction
import ThemeSheet.Proofs.NormalPieces
import ThemeSheet.Proofs.ReadAlike

/-! Normal texts that are alike, from pieces that are alike. -/

namespace ThemeSheet.Literal

open Text

/-- Pieces without comments whose strings are in double quotes. -/
structure Normal (ps : List Piece) : Prop where
  whole : Whole ps
  seen : ∀ piece ∈ ps, piece.isSeen = true
  double : ∀ quote body, .quoted quote body ∈ ps → quote = '"'

theorem Normal.tail {piece : Piece} {rest : List Piece} (h : Normal (piece :: rest)) :
    Normal rest :=
  ⟨h.whole.tail, fun p mem => h.seen p (List.mem_cons_of_mem piece mem),
    fun quote body mem => h.double quote body (List.mem_cons_of_mem piece mem)⟩

theorem mem_of_mem_dropCommas {piece : Piece} {ps : List Piece} (mem : piece ∈ dropCommas ps) :
    piece ∈ ps := by
  induction ps using dropCommas_induction with
  | nil => exact mem
  | copy first rest kept ih =>
    rw [dropCommas_copy kept] at mem
    exact (List.mem_cons.mp mem).elim (· ▸ List.mem_cons_self)
      (List.mem_cons_of_mem first <| ih ·)
  | drop spaces c rest all closes ih =>
    rw [dropCommas_trailing all closes] at mem
    rcases List.mem_cons.mp mem with rfl | mem
    · simp
    · simp [ih mem]

theorem normal_normalFrom {ps : List Piece} (whole : Whole ps) (before : Option Char) :
    Normal (normalFrom before ps) := by
  refine ⟨(whole.keyed before).doubled.dropCommas.visible, fun piece mem =>
    (List.mem_filter.mp mem).2, fun quote body mem => ?_⟩
  obtain ⟨piece, -, eq⟩ := List.mem_map.mp (mem_of_mem_dropCommas (List.mem_filter.mp mem).1)
  cases piece with
  | quoted => exact (Piece.quoted.inj eq).1.symm
  | code => cases eq
  | lineComment => cases eq
  | blockComment => cases eq

/-! Texts that are alike behind the same pieces. -/

/-- Two texts may follow the pieces. -/
structure Follow (ps : List Piece) (x y : List Char) : Prop where
  slash : ps.getLast? = some (.code '/') → NoComment x ∧ NoComment y
  front : ∀ c, ps.getLast? = some (.code c) → isPlain c = true → SameFront x y
  comma : ∀ c, lastOf Piece.isDark ps = some (.code c) → opensPart c = true →
    (trimLeft x).head? = some ',' → (trimLeft y).head? = some ','

theorem Follow.tail {piece : Piece} {rest : List Piece} {x y : List Char}
    (h : Follow (piece :: rest) x y) : Follow rest x y := by
  have last {p : Piece} (found : rest.getLast? = some p) : (piece :: rest).getLast? = some p := by
    rw [List.getLast?_cons, found]
    rfl
  refine ⟨fun found => h.slash (last found), fun c found => h.front c (last found), fun c found => ?_⟩
  have whole := lastOf_append (p := Piece.isDark) [piece] rest
  rw [found, Option.some_or] at whole
  exact h.comma c whole

theorem Whole.some_text (piece : Piece) (rest : List Piece) :
    ∃ c more, textOf (piece :: rest) = c :: more := by
  rw [textOf_cons]
  cases piece <;> exact ⟨_, _, rfl⟩

theorem trimLeft_codes {spaces : List Piece} (h : ∀ piece ∈ spaces, piece.isCode isSpace = true)
    (text : List Char) : trimLeft (textOf spaces ++ text) = trimLeft text := by
  obtain ⟨chars, rfl, all⟩ := codes_of_all h
  rw [textOf_code, trimLeft_spaces all]

/-- Behind the spaces in front, a text begins as its pieces do. -/
theorem head_trimLeft_textOf {ps : List Piece} (whole : Whole ps) (x y : List Char) :
    (∀ piece ∈ ps, piece.isCode isSpace = true) ∨
      (trimLeft (textOf ps ++ x)).head? = (trimLeft (textOf ps ++ y)).head? := by
  have split := List.takeWhile_append_dropWhile (p := Piece.isCode isSpace) (l := ps)
  have spaces : ∀ piece ∈ ps.takeWhile (Piece.isCode isSpace), piece.isCode isSpace = true :=
    List.all_eq_true.mp List.all_takeWhile
  cases more : ps.dropWhile (Piece.isCode isSpace) with
  | nil =>
    rw [more, List.append_nil] at split
    exact .inl (split ▸ spaces)
  | cons piece rest =>
    right
    have dark : piece.isCode isSpace = false := by
      simpa [more] using List.head?_dropWhile_not (p := Piece.isCode isSpace) (l := ps)
    rw [more] at split
    rw [← split] at whole
    obtain ⟨c, text, eq, first⟩ :
        ∃ c text, textOf (piece :: rest) = c :: text ∧ isSpace c = false := by
      rw [textOf_cons]
      cases whole.right with
      | code => exact ⟨_, _, rfl, dark⟩
      | quoted quoted =>
        refine ⟨_, _, rfl, ?_⟩
        simp only [isQuote, Bool.or_eq_true, beq_iff_eq] at quoted
        rcases quoted with (rfl | rfl) | rfl <;> decide
      | block => exact ⟨_, _, rfl, by decide⟩
      | line => exact ⟨_, _, rfl, by decide⟩
    have head (z : List Char) : (trimLeft (textOf ps ++ z)).head? = some c := by
      rw [← split, textOf_append, List.append_assoc, trimLeft_codes spaces, eq, List.cons_append,
        trimLeft_cons first]
      rfl
    rw [head x, head y]

theorem isDark_of_opensPart {c : Char} (h : opensPart c = true) : (Piece.code c).isDark = true := by
  simp only [opensPart, Bool.or_eq_true, beq_iff_eq] at h
  rcases h with (rfl | rfl) | rfl <;> decide

/-- Alike texts stay alike behind normal pieces. -/
theorem alike_behind {ps : List Piece} (normal : Normal ps) {x y : List Char}
    (follow : Follow ps x y) (tail : Alike x y) : Alike (textOf ps ++ x) (textOf ps ++ y) := by
  induction ps with
  | nil => exact tail
  | cons piece rest ih =>
    have behind := ih normal.tail follow.tail
    have seen := normal.seen piece List.mem_cons_self
    rw [textOf_cons]
    cases normal.whole with
    | @code c _ quote slash whole =>
      refine .code ⟨quote, fun same => ?_, fun plain => ?_, fun opens first => ?_⟩ behind
      · cases rest with
        | nil =>
          subst same
          exact follow.slash rfl
        | cons next rest =>
          obtain ⟨d, more, eq⟩ := Whole.some_text next rest
          have safe := whole.noComment (slash same)
          rw [eq] at safe ⊢
          exact ⟨safe, safe⟩
      · cases rest with
        | nil => exact follow.front c rfl plain
        | cons next rest =>
          obtain ⟨d, more, eq⟩ := Whole.some_text next rest
          rw [eq]
          exact .inl rfl
      · rcases head_trimLeft_textOf whole x y with spaces | same
        · have last : lastOf Piece.isDark (.code c :: rest) = some (.code c) := by
            have whole := lastOf_append (p := Piece.isDark) [.code c] rest
            rw [lastOf_spaces spaces, Option.none_or] at whole
            exact whole.trans (lastOf_concat (isDark_of_opensPart opens) [])
          change (trimLeft (textOf rest ++ x)).head? = _ at first
          change (trimLeft (textOf rest ++ y)).head? = _
          rw [trimLeft_codes spaces] at first ⊢
          exact follow.comma c last opens first
        · exact same ▸ first
    | @quoted quote body _ quoted inner _ =>
      obtain rfl := normal.double quote body List.mem_cons_self
      have string := Alike.string inner.string inner.string (fun _ => rfl) behind
      simpa [Piece.text] using string
    | block => cases seen
    | line => cases seen

theorem alike_refl {ps : List Piece} (normal : Normal ps) : Alike (textOf ps) (textOf ps) := by
  have none : NoComment [] := fun c first => by cases first
  have behind := alike_behind normal ⟨fun _ => ⟨none, none⟩, fun _ _ _ => .inl rfl, fun _ _ _ => id⟩
    Alike.nil
  rwa [List.append_nil] at behind

/-! Normal forms of texts that are put together. -/

theorem isCode_doubled (p : Char → Bool) (piece : Piece) :
    piece.doubled.isCode p = piece.isCode p := by
  cases piece <;> rfl

theorem closesNext_keyed (before : Option Char) (ps : List Piece) :
    closesNext ((keyed before ps).map Piece.doubled) = closesNext ps := by
  induction before, ps using keyed_induction with
  | nil before => rw [keyed_nil]; rfl
  | copy before piece rest none ih =>
    rw [keyed_copy none, List.map_cons]
    cases space : piece.isCode isSpace with
    | true =>
      rw [closesNext_space space, closesNext_space ((isCode_doubled isSpace piece).trans space), ih]
    | false =>
      rw [closesNext_dark space, closesNext_dark ((isCode_doubled isSpace piece).trans space),
        isCode_doubled]
  | key before name rest some length parts _ _ =>
    obtain ⟨c, name, rfl⟩ := List.exists_cons_of_ne_nil some
    have part := parts c List.mem_cons_self
    have dark : (Piece.code c).isCode isSpace = false := not_isSpace_of_isNamePart part
    have other : closesContainer c = false := by
      refine Bool.eq_false_iff.mpr fun closes => ?_
      simp only [closesContainer, Bool.or_eq_true, beq_iff_eq] at closes
      rcases closes with rfl | rfl <;> exact absurd part (by decide)
    rw [keyed_key some length]
    exact ((closesNext_dark dark _).trans other).symm

theorem isDark_doubled (piece : Piece) : piece.doubled.isDark = piece.isDark := by
  rw [Piece.isDark, isCode_doubled]
  rfl

theorem isSeen_doubled (piece : Piece) : piece.doubled.isSeen = piece.isSeen := by
  cases piece <;> rfl

theorem doubled_eq_code {piece : Piece} {c : Char} (h : piece.doubled = .code c) :
    piece = .code c := by
  cases piece with
  | code => exact h
  | lineComment => cases h
  | blockComment => cases h
  | quoted => cases h

/-- Keys and strings in double quotes leave the last character of code as it is. -/
theorem lastOf_normal {p : Piece → Bool} (colon : p (.code ':') = true)
    (same : ∀ piece, p piece.doubled = p piece) (before : Option Char) {ps : List Piece} {c : Char}
    (h : lastOf p ((keyed before ps).map Piece.doubled) = some (.code c)) :
    lastOf p ps = some (.code c) := by
  rw [lastOf_map same, lastOf_keyed colon] at h
  obtain ⟨piece, found, eq⟩ := Option.map_eq_some_iff.mp h
  rw [found, doubled_eq_code eq]

/-- A text is put into normal form piece by piece around a border that completes no key and no
trailing comma. -/
theorem normalFrom_append {front tail : List Piece}
    (ends : ∀ piece ∈ tail.head?, piece.isCode isNamePart = false)
    (colon : colonNext tail = true → endsInWord front = false)
    (comma : closesNext tail = true → lastOf Piece.isDark front ≠ some (.code ','))
    (before : Option Char) :
    normalFrom before (front ++ tail) =
      normalFrom before front ++ normalFrom (lastChar before front) tail := by
  rw [normalFrom, keyed_append ends colon, List.map_append, dropCommas_append, visible_append]
  · rfl
  · rw [closesNext_keyed]
    exact fun closes last => comma closes (lastOf_normal rfl isDark_doubled before last)

theorem normalFrom_before {before before' : Option Char} {ps : List Piece}
    (h : ∀ piece ∈ ps.head?, before.any joinsName = before'.any joinsName ∨ piece.isIdle = true) :
    normalFrom before ps = normalFrom before' ps := by
  rw [normalFrom, keyed_before h]
  rfl

/-! What extraction makes of a literal. -/

/-- A string is put into normal form by itself. -/
theorem normalFrom_string (front : List Piece) (quote : Char) (body : List Char)
    (back : List Piece) (before : Option Char) :
    normalFrom before (front ++ .quoted quote body :: back) =
      normalFrom before front ++ (Piece.quoted quote body).doubled :: normalFrom (some quote) back := by
  have last : (Piece.quoted quote body).text.getLast? = some quote :=
    List.getLast?_append_of_ne_nil (quote :: body) (by simp)
  have ends : ∀ piece ∈ (Piece.quoted quote body :: back).head?,
      piece.isCode isNamePart = false := by
    rintro piece ⟨⟩
    rfl
  have kept : ((Piece.quoted quote body).doubled = .code ',' →
      closesNext ((keyed (some quote) back).map Piece.doubled) = false) := fun same => by cases same
  rw [normalFrom_append ends (by rintro ⟨⟩) (by rintro ⟨⟩), normalFrom, normalFrom, normalFrom,
    keyed_idle rfl, last, List.map_cons, dropCommas_copy kept]
  rfl

/-- A string may be written otherwise, if it is read alike. -/
theorem alike_string {front back : List Piece} {quote quote' : Char} {body body' : List Char}
    (whole : Whole (front ++ .quoted quote body :: back)) (quoted : isQuote quote' = true)
    (inner : QuotedBody quote' body')
    (same : ∀ site, readString site (if quote = '"' then body else requote quote body) =
      readString site (if quote' = '"' then body' else requote quote' body')) :
    Alike (textOf (normalFrom none (front ++ .quoted quote body :: back)))
      (textOf (normalFrom none (front ++ .quoted quote' body' :: back))) := by
  have quoted' : isQuote quote = true ∧ QuotedBody quote body := by
    cases whole.right with
    | quoted quoted inner => exact ⟨quoted, inner⟩
  have joins : (some quote).any joinsName = (some quote').any joinsName := by
    have none {c : Char} (h : isQuote c = true) : joinsName c = false := by
      simp only [isQuote, Bool.or_eq_true, beq_iff_eq] at h
      rcases h with (rfl | rfl) | rfl <;> decide
    exact (none quoted'.1).trans (none quoted).symm
  have string := Alike.string (quotedBody_doubled quoted'.1 quoted'.2).string
    (quotedBody_doubled quoted inner).string same
    (alike_refl (normal_normalFrom whole.right.tail (some quote)))
  have front := normal_normalFrom whole.left none
  rw [normalFrom_string, normalFrom_string, textOf_append, textOf_append, textOf_cons, textOf_cons,
    ← normalFrom_before fun _ _ => .inl joins]
  simp only [Piece.doubled, Piece.text, List.append_assoc, List.cons_append, List.nil_append]
  refine alike_behind front ⟨fun _ => ?_, fun _ _ _ => .inl rfl, fun _ _ _ comma => ?_⟩ string
  · constructor <;> rintro c ⟨⟩ <;> decide
  · rw [trimLeft_cons (c := '"') (by decide)] at comma
    cases comma

end ThemeSheet.Literal

namespace ThemeSheet.Extraction

open Literal

/-- What is extracted from two sources is the same: the mapping or that there is none, and the
warnings behind the record of the normal literal. -/
def SameOutcome (source source' name : String) (path : Option String) : Prop :=
  (extract source name path).2.toOption = (extract source' name path).2.toOption ∧
    (extract source name path).1.tail = (extract source' name path).1.tail

theorem extract_of_locate {source name : String} {raw : List Char}
    (located : locate name.toList source.toList = some raw) (path : Option String) :
    (extract source name path).2.toOption = (evaluate name (normalize raw)).2.toOption ∧
      (extract source name path).1.tail = (evaluate name (normalize raw)).1 := by
  rw [extract, located]
  dsimp only
  refine ⟨?_, rfl⟩
  cases (evaluate name (normalize raw)).2 <;> rfl

/-- Literals with normal forms that are alike have the same outcome. -/
theorem sameOutcome_of_alike {source source' name : String} {ps qs : List Piece}
    (located : locate name.toList source.toList = some (textOf ps))
    (located' : locate name.toList source'.toList = some (textOf qs))
    (whole : Whole ps) (settled : Settled ps) (whole' : Whole qs) (settled' : Settled qs)
    (alike : Alike (textOf (normalFrom none (ps.map Piece.resolved)))
      (textOf (normalFrom none (qs.map Piece.resolved)))) (path : Option String) :
    SameOutcome source source' name path := by
  obtain ⟨mapping, warnings⟩ := extract_of_locate located path
  obtain ⟨mapping', warnings'⟩ := extract_of_locate located' path
  obtain ⟨same, same'⟩ := evaluate_alike alike name
  rw [SameOutcome, mapping, mapping', warnings, warnings', normalize_textOf whole settled,
    normalize_textOf whole' settled']
  exact ⟨same', same⟩

end ThemeSheet.Extraction
