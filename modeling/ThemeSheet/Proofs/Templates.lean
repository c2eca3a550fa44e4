import ThemeSheet.Proofs.LocatedLiteral
import ThemeSheet.Proofs.NormalAlike

/-! What a template stands for: its texts as they are read alone, and the custom properties that its
references name. -/

namespace ThemeSheet.Literal

open Text

def HoldsNone (text : List Char) : Prop :=
  ∀ r : Reference, ¬ r.text <:+: text

/-- A text, then references with a text behind each. The texts hold no references. -/
structure Template where
  lead : List Char
  parts : List (Reference × List Char)
  plain : ∀ text ∈ lead :: parts.map Prod.snd, HoldsNone text

/-- References with the texts behind them. -/
def joinParts (parts : List (Reference × List Char)) : List Char :=
  parts.flatMap fun (r, text) => r.text ++ text

def Template.body (template : Template) : List Char :=
  template.lead ++ joinParts template.parts

/-- What a reference stands for. A backslash that escapes its dollar sign meets the first letter of
`var` and makes a vertical tab of it. -/
def Reference.value (r : Reference) (escaped : Bool) : List Char :=
  if escaped then '\x0b' :: r.property.tail else r.property

/-- The text without the backslash that escapes what follows. -/
def withoutEscape (text : List Char) : List Char :=
  if escapesNext text then text.dropLast else text

/-- Each text is read alone, and each reference stands for its value. -/
def readParts (site : Site) (text : List Char) :
    List (Reference × List Char) → Except Fault String
  | [] => readString site text
  | (r, next) :: rest => do
    let before ← readString site (withoutEscape text)
    let behind ← readParts site next rest
    return before ++ String.ofList (r.value (escapesNext text)) ++ behind

def Template.read (template : Template) (site : Site) : Except Fault String :=
  readParts site template.lead template.parts

theorem holdsNone_of {text : List Char} (h : ¬ ['$', '{'] <:+: text) : HoldsNone text :=
  fun r found => h (List.IsInfix.trans ⟨[], r.inside, rfl⟩ found)

theorem resolve_plain {text : List Char} (h : HoldsNone text) :
    resolveInterpolations text = text := by
  fun_induction resolveInterpolations text with
  | case1 => rfl
  | case2 rest out after found _ _ =>
    obtain ⟨r, rfl, -⟩ := reference?_eq_some found
    exact absurd ⟨[], after, rfl⟩ (h r)
  | case3 rest _ ih => rw [ih fun r found => h r (List.infix_cons found)]
  | case4 c rest _ ih => rw [ih fun r found => h r (List.infix_cons found)]

/-- No reference reaches into the next one. -/
theorem noneAcross_reference (x : List Char) (r : Reference) (rest : List Char) :
    NoneAcross x (r.text ++ rest) := by
  rintro s left right whole - after
  rcases right with - | ⟨dollar, - | ⟨brace, more⟩⟩
  · exact .inr rfl
  · obtain ⟨rfl, -⟩ := List.cons_prefix_cons.mp after
    obtain ⟨front, eq, -⟩ := s.closing
    have last : left ++ ['$'] = ('$' :: '{' :: front) ++ ['}'] := by
      rw [whole, Reference.text, eq]
      rfl
    cases List.append_inj_right' last rfl
  · obtain ⟨rfl, behind⟩ := List.cons_prefix_cons.mp after
    obtain ⟨rfl, -⟩ := List.cons_prefix_cons.mp behind
    rcases left with - | ⟨c, - | ⟨d, left⟩⟩
    · exact .inl rfl
    · cases (List.cons.inj (List.cons.inj whole).2).1
    · have inside : left ++ '$' :: '{' :: more = s.inside :=
        (List.cons.inj (List.cons.inj whole).2).2
      have mem : '{' ∈ s.inside := by
        rw [← inside]
        simp
      rcases s.mem_inside mem with h | h | h | h <;> cases h

theorem resolve_parts {text : List Char} {r : Reference} (h : HoldsNone text) (rest : List Char) :
    resolveInterpolations (text ++ (r.text ++ rest)) =
      text ++ (r.property ++ resolveInterpolations rest) := by
  rw [resolve_append (noneAcross_reference text r rest), resolve_plain h, resolve_reference]

/-! Reading the resolved body. -/

/-- What stands for plain characters is read apart from what surrounds it. -/
theorem readString_between (site : Site) {text more between rest : List Char}
    (done : escapesNext text = false) (dark : ∀ c ∈ more.head?, guides c = false)
    (some : between ≠ []) (points : codePoints more = between.map Char.toNat ++ codePoints rest) :
    readString site (text ++ more) = do
      let before ← readString site text
      let behind ← readString site rest
      return before ++ String.ofList between ++ behind := by
  have apart : ∀ n ∈ (codePoints more).head?, isLowSurrogate n = false := by
    obtain ⟨c, tail, rfl⟩ := List.exists_cons_of_ne_nil some
    rw [points]
    rintro n ⟨⟩
    exact (not_surrogate c).2
  simp only [readString_points]
  rw [codePoints_append done dark, readPoints_append apart, points, readPoints_chars]
  cases readPoints site (codePoints text) with
  | error => rfl
  | ok before =>
    cases readPoints site (codePoints rest) with
    | error => rfl
    | ok behind => simp [pure, Except.pure, bind, Except.bind, String.append_assoc]

theorem readString_part (site : Site) {text : List Char} (done : escapesNext text = false)
    (r : Reference) (rest : List Char) :
    readString site (text ++ (r.property ++ rest)) = do
      let before ← readString site text
      let behind ← readString site rest
      return before ++ String.ofList r.property ++ behind := by
  obtain ⟨more, eq⟩ := r.property_cons
  have dark : ∀ c ∈ (r.property ++ rest).head?, guides c = false := by
    rw [eq]
    rintro c ⟨⟩
    rfl
  exact readString_between site done dark (by simp [eq])
    (codePoints_plain (r.not_mem_property (c := '\\') (by decide)) rest)

theorem readString_escaped (site : Site) {text : List Char} (done : escapesNext text = false)
    (r : Reference) (rest : List Char) :
    readString site (text ++ '\\' :: (r.property ++ rest)) = do
      let before ← readString site text
      let behind ← readString site rest
      return before ++ String.ofList ('\x0b' :: r.property.tail) ++ behind := by
  obtain ⟨more, eq⟩ := r.property_cons
  have none : '\\' ∉ more := fun mem =>
    r.not_mem_property (c := '\\') (by decide) (eq ▸ List.mem_cons_of_mem 'v' mem)
  have points : codePoints ('\\' :: 'v' :: (more ++ rest)) =
      ('\x0b' :: more).map Char.toNat ++ codePoints rest := by
    have tab := means_escape (c := 'v') (by decide) (by decide) (more ++ rest)
    rw [codePoints_plain none] at tab
    exact tab
  have dark : ∀ c ∈ ('\\' :: 'v' :: (more ++ rest)).head?, guides c = false := by
    rintro c ⟨⟩
    rfl
  rw [eq, List.cons_append, List.tail_cons]
  exact readString_between site done dark (List.cons_ne_nil _ _) points

theorem readString_parts (site : Site) {text : List Char} {parts : List (Reference × List Char)}
    (h : ∀ part ∈ text :: parts.map Prod.snd, HoldsNone part) :
    readString site (resolveInterpolations (text ++ joinParts parts)) =
      readParts site text parts := by
  induction parts generalizing text with
  | nil =>
    rw [joinParts, List.flatMap_nil, List.append_nil, resolve_plain (h text List.mem_cons_self)]
    rfl
  | cons part rest ih =>
    obtain ⟨r, next⟩ := part
    have behind := ih fun part mem => h part (List.mem_cons_of_mem text mem)
    have whole : text ++ joinParts ((r, next) :: rest) = text ++ (r.text ++ (next ++ joinParts rest)) := by
      simp [joinParts]
    rw [whole, resolve_parts (h text List.mem_cons_self), readParts, withoutEscape, Reference.value,
      ← behind]
    cases escapes : escapesNext text with
    | false => exact readString_part site escapes r _
    | true =>
      obtain ⟨front, rfl, done⟩ := concat_of_escapesNext escapes
      have read := readString_escaped site done r (resolveInterpolations (next ++ joinParts rest))
      simpa using read

/-- The body that normalization makes of a template is read as its parts are. -/
theorem readString_template (template : Template) (site : Site) :
    readString site (requote backtick (resolveInterpolations template.body)) =
      template.read site := by
  rw [readString_requote (.inr rfl)]
  exact readString_parts site template.plain

/-! A literal with one member. -/

/-- What stands before the value of the only member, whose key is bare. -/
def memberFront (key : List Char) : List Piece :=
  .code '{' :: .code ' ' :: (key.map .code ++ [.code ':', .code ' '])

/-- A literal with one member. -/
def memberPieces (key : List Char) (value : Piece) : List Piece :=
  memberFront key ++ value :: [.code ' ', .code '}']

section Member

variable {key : List Char} (named : IsName key)

include named

theorem whole_member {value : Piece} (stands : Whole (value :: [.code ' ', .code '}'])) :
    Whole (memberPieces key value) := by
  have chars : ∀ c ∈ key, isQuote c = false ∧ c ≠ '/' := fun c mem =>
    ⟨(apart_of_isNamePart (named.2 c mem)).2.1, (apart_of_isNamePart (named.2 c mem)).1⟩
  have colon : Whole (.code ':' :: .code ' ' :: value :: [.code ' ', .code '}']) :=
    .code rfl (absurd · (by decide)) (.code rfl (absurd · (by decide)) stands)
  have whole : Whole (.code '{' :: .code ' ' :: (key.map .code ++
      .code ':' :: .code ' ' :: value :: [.code ' ', .code '}'])) :=
    .code rfl (absurd · (by decide)) (.code rfl (absurd · (by decide)) (whole_codes chars colon))
  simpa [memberPieces, memberFront] using whole

/-- Only the first piece is an opening brace. -/
theorem settled_member {value : Piece} (brace : value ≠ .code '{')
    (comment : ∀ body, value ≠ .lineComment body) : Settled (memberPieces key value) := by
  refine ⟨fun found => ?_, fun body mem => ?_⟩
  · have mem : Piece.code '{' ∈ .code ' ' :: ((key.map .code ++ [.code ':', .code ' ']) ++
        value :: [.code ' ', .code '}']) := by
      rcases infix_cons_iff.mp found with ⟨same, -⟩ | found
      · cases same
      · exact found.subset (by simp)
    simp only [List.mem_append, List.mem_cons, List.mem_map, List.not_mem_nil, or_false] at mem
    rcases mem with mem | (⟨c, mem, same⟩ | mem | mem) | mem | mem | mem
    · cases mem
    · rw [Piece.code.inj same] at mem
      exact absurd (named.2 _ mem) (by decide)
    · cases mem
    · cases mem
    · exact absurd mem.symm brace
    · cases mem
    · cases mem
  · simp only [memberPieces, memberFront, List.mem_append, List.mem_cons, List.mem_map,
      List.not_mem_nil, or_false, List.cons_append] at mem
    rcases mem with mem | mem | (⟨c, -, same⟩ | mem | mem) | mem | mem | mem
    · cases mem
    · cases mem
    · cases same
    · cases mem
    · cases mem
    · exact absurd mem.symm (comment body)
    · cases mem
    · cases mem

theorem normalFrom_member (quote : Char) (body : List Char) :
    normalFrom none (memberPieces key (.quoted quote body)) =
      [.code '{', .code ' ', .quoted '"' key, .code ':', .code ' ',
        (Piece.quoted quote body).doubled, .code ' ', .code '}'] := by
  have nonempty : key ≠ [] := by
    obtain ⟨c, rest, rfl, -⟩ := named.head
    simp
  have colon : ColonFollows [Piece.code ':', .code ' '] := by
    refine ⟨?_, rfl⟩
    rintro piece ⟨⟩
    rfl
  have length : keyLength (some ' ') (key.map .code ++ [.code ':', .code ' ']) = key.length := by
    rw [keyLength_name named colon.1, if_neg (by decide), if_pos colon.2]
  have front : normalFrom none (memberFront key) =
      [.code '{', .code ' ', .quoted '"' key, .code ':', .code ' '] := by
    rw [normalFrom, memberFront, keyed_idle (by decide), keyed_idle (by decide)]
    change visible (dropCommas ((Piece.code '{' :: .code ' ' :: keyed (some ' ') _).map _)) = _
    rw [keyed_key nonempty length, keyed_idle (by decide), keyed_idle (by decide), keyed_nil]
    simp [Piece.doubled, dropCommas, visible, Piece.isSeen, Piece.isComment]
  have back : normalFrom (some quote) [.code ' ', .code '}'] = [.code ' ', .code '}'] := by
    rw [normalFrom, keyed_idle (by decide), keyed_idle (by decide), keyed_nil]
    rfl
  rw [memberPieces, normalFrom_string, front, back]
  rfl

/-- The literal is balanced, whatever follows. -/
theorem balanced?_member {quote : Char} {body : List Char} (quoted : isQuote quote = true)
    (inner : QuotedBody quote body) (after : List Char) :
    balanced? (textOf (memberPieces key (.quoted quote body)) ++ after) =
      some (textOf (memberPieces key (.quoted quote body))) := by
  have value : Tidy [.code ':', .code ' ', .quoted quote body, .code ' '] :=
    .code (by decide) rfl (by decide) (.code (by decide) rfl (by decide)
      (.closed (closed_quoted quoted (inner.split quoted))
        (.code (by decide) rfl (by decide) .nil)))
  have tidy : Tidy (.code ' ' ::
      (key.map .code ++ [.code ':', .code ' ', .quoted quote body, .code ' '])) :=
    .code (by decide) rfl (by decide)
      (tidy_chars (fun c mem => apart_of_isNamePart (named.2 c mem)) value)
  have split : textOf (memberPieces key (.quoted quote body)) = '{' :: (textOf (.code ' ' ::
      (key.map .code ++ [.code ':', .code ' ', .quoted quote body, .code ' '])) ++ ['}']) := by
    simp [memberPieces, memberFront, textOf, Piece.text]
  have closed : afterBalanced? (textOf (memberPieces key (.quoted quote body)) ++ after) =
      some after := by
    rw [split, List.cons_append, List.append_assoc, afterBalanced?]
    change afterClose? '{' '}' 1 (textOf _ ++ '}' :: after) = _
    rw [afterClose?_tidy tidy, afterClose?_code (afterOpaque?_code (by decide) rfl after)]
    rfl
  rw [balanced?, closed]
  simp

/-- The normal form of the literal, as a derivation of the grammar. -/
theorem lexes_member {body : List Char} (inner : StringBody body) :
    Lexes (textOf [.code '{', .code ' ', .quoted '"' key, .code ':', .code ' ',
        .quoted '"' body, .code ' ', .code '}'])
      (Tree.object (.lastPair (.pair (.stringKey key) (.string body))) false).tokens := by
  have fixed (token : Token) (mem : token ∈ Token.fixed) {rest tokens} (tail : Spells rest tokens) :
      Spells (token.text ++ rest) (token :: tokens) := .token (.fixed mem) tail
  have quoted {body : List Char} (inner : StringBody body) {rest tokens}
      (tail : Spells rest tokens) :
      Spells ('"' :: (body ++ '"' :: rest)) (.string body :: tokens) := by
    simpa using Spells.token (.string inner) tail
  have spells : Spells ('{' :: ' ' :: '"' :: (key ++ '"' :: ':' :: ' ' :: '"' ::
      (body ++ '"' :: ' ' :: ['}'])))
      (Tree.object (.lastPair (.pair (.stringKey key) (.string body))) false).tokens :=
    fixed .leftBrace (by decide) (.blank rfl (quoted (quotedBody_name named.2).string
      (fixed .colon (by decide) (.blank rfl (quoted inner
        (.blank rfl (fixed .rightBrace (by decide) .nil)))))))
  refine lexes_of_spells ?_ (Tree.leavesEnd _)
  simpa [textOf, Piece.text] using spells

/-- The value of the only member is what is read of it. -/
theorem evaluate_member {body : List Char} (inner : StringBody body) (name : String) :
    evaluate name (textOf [.code '{', .code ' ', .quoted '"' key, .code ':', .code ' ',
        .quoted '"' body, .code ' ', .code '}']) =
      ([], ((readString .string body).mapError .literal).map fun value =>
        [(String.ofList key, value)]) := by
  have lexes := lexes_member named inner
  generalize textOf _ = text at lexes ⊢
  have parsed : parse (maskFunctions text) = .ok [(.string key, .string body)] := by
    rw [maskFunctions_of_lexes lexes]
    exact parse_of_object lexes
      (Tree.object (.lastPair (.pair (.stringKey key) (.string body))) false).derived
  have keyRead : readString .stringKey key = .ok (String.ofList key) := by
    have read := readString_written (rfl : isQuote '"' = true) .stringKey key
    rwa [writtenBody_name named] at read
  have each : readMembers 2 [(.string key, .string body)] =
      (readString .string body).map fun value => [(String.ofList key, .text value)] := by
    rw [readMembers, Key.read, keyRead, Node.read]
    cases readString .string body <;> rfl
  cases read : readString .string body with
  | error fault =>
    have members : members text = .error (.literal fault) := by
      rw [Literal.members, parsed]
      simp only [Except.mapError, bind, Except.bind, each, read, Except.map]
    rw [evaluate, members]
    rfl
  | ok value =>
    rw [read] at each
    have noIndex : ∀ key' ∈ [(String.ofList key, Reading.text value)].map Prod.fst,
        index? key' = .ok none := by
      intro key' mem
      rw [List.mem_singleton.mp mem]
      exact index?_of_noIndex (noIndex_of_isName named)
    have found := members_eq parsed each fun key mem => ⟨none, noIndex key mem⟩
    rw [ownMembers_names noIndex] at found
    rw [evaluate, found]
    rfl

end Member

theorem string_template {template : Template} (inner : QuotedBody backtick template.body) :
    StringBody (requote backtick (resolveInterpolations template.body)) :=
  stringBody_requote (.inr rfl) ((QuotedBody.resolve rfl).1 inner)

end ThemeSheet.Literal

namespace ThemeSheet.Extraction

open Literal

/-- A template has the same outcome as any string, without references, that is read as the
template's parts are. -/
theorem sameOutcome_template {source source' name : String} {front back : List Piece}
    {template : Template} {written : List Char}
    (located : locate name.toList source.toList =
      some (textOf (front ++ .quoted backtick template.body :: back)))
    (located' : locate name.toList source'.toList =
      some (textOf (front ++ .quoted '"' written :: back)))
    (whole : Whole (front ++ .quoted backtick template.body :: back))
    (settled : Settled (front ++ .quoted backtick template.body :: back))
    (string : StringBody written) (plain : HoldsNone written)
    (same : ∀ site, readString site written = template.read site) (path : Option String) :
    SameOutcome source source' name path := by
  have whole' : Whole (front ++ .quoted '"' written :: back) :=
    whole.exchange (by simp) rfl (.quoted rfl string.quoted whole.right.tail)
  have settled' : Settled (front ++ .quoted '"' written :: back) :=
    settled.exchange (by simp) (by simp) (by simp)
  refine sameOutcome_of_alike located located' whole settled whole' settled' ?_ path
  have resolved := whole.resolved
  simp only [List.map_append, List.map_cons, Piece.resolved] at resolved ⊢
  refine alike_string resolved rfl ?_ fun site => ?_
  · rw [resolve_plain plain]
    exact string.quoted
  · rw [resolve_plain plain, if_neg (by decide), if_pos rfl, readString_template, same]

/-- A constant that is bound to a literal with one member. -/
def memberSource (before : List Char) (name : String) (key : List Char) (value : Piece)
    (after : List Char) : String :=
  String.ofList (before ++ ("export const ".toList ++
    assignment name.toList none (textOf (memberPieces key value)) after))

theorem locate_member {name : String} (identifier : isIdentifier name = true)
    {before : List Char} (first : ¬ ExportsConst before) {key : List Char} (named : IsName key)
    {quote : Char} {body : List Char} (quoted : isQuote quote = true)
    (inner : QuotedBody quote body) (after : List Char) :
    locate name.toList (memberSource before name key (.quoted quote body) after).toList =
      some (textOf (memberPieces key (.quoted quote body))) := by
  rw [memberSource, String.toList_ofList]
  refine locate_exportConst first rfl fun c => ?_
  rw [exportConst?_assignment identifier (fun _ none => by cases none) rfl, Option.bind_some,
    balanced?_member named quoted inner]

/-- A template that is the only value is extracted as its parts are read. -/
theorem extract_member {name : String} (identifier : isIdentifier name = true)
    {before : List Char} (first : ¬ ExportsConst before) {key : List Char} (named : IsName key)
    {template : Template} (inner : QuotedBody backtick template.body) (after : List Char)
    (path : Option String) :
    (extract (memberSource before name key (.quoted backtick template.body) after) name path).2 =
      ((template.read .string).mapError (.evaluation ∘ .literal)).map fun value =>
        [(String.ofList key, value)] := by
  have located := locate_member identifier first named rfl inner after
  have whole : Whole (memberPieces key (.quoted backtick template.body)) :=
    whole_member named (.quoted rfl inner
      (.code rfl (absurd · (by decide)) (.code rfl (absurd · (by decide)) .nil)))
  have settled : Settled (memberPieces key (.quoted backtick template.body)) :=
    settled_member named (by simp) (by simp)
  have resolved : (memberPieces key (.quoted backtick template.body)).map Piece.resolved =
      memberPieces key (.quoted backtick (resolveInterpolations template.body)) := by
    have codes : (key.map Piece.code).map Piece.resolved = key.map Piece.code := by
      rw [List.map_map]
      rfl
    simp [memberPieces, memberFront, Piece.resolved]
  have double : backtick ≠ '"' := by decide
  rw [extract, located]
  simp only [normalize_textOf whole settled, resolved, normalFrom_member named, Piece.doubled,
    if_neg double, evaluate_member named (string_template inner), readString_template]
  cases template.read .string <;> rfl

/-- In every literal a template has the same outcome as any string, without references, that is read
as the parts of the template are: each text as it is read alone, and each reference as the custom
property that it names, unless a backslash escapes it. Where the template is the only value of the
literal, the mapping holds that value. -/
theorem extract_template (name : String) (template : Template) (path : Option String) :
    (∀ (source source' : String) (front back : List Piece) (written : List Char),
      locate name.toList source.toList =
        some (textOf (front ++ .quoted backtick template.body :: back)) →
      locate name.toList source'.toList = some (textOf (front ++ .quoted '"' written :: back)) →
      Whole (front ++ .quoted backtick template.body :: back) →
      Settled (front ++ .quoted backtick template.body :: back) →
      StringBody written → HoldsNone written →
      (∀ site, readString site written = template.read site) →
      SameOutcome source source' name path) ∧
    ∀ before key after : List Char, isIdentifier name = true → ¬ ExportsConst before → IsName key →
      QuotedBody backtick template.body →
      (extract (memberSource before name key (.quoted backtick template.body) after) name path).2 =
        ((template.read .string).mapError (.evaluation ∘ .literal)).map fun value =>
          [(String.ofList key, value)] :=
  ⟨fun _ _ _ _ _ located located' whole settled string plain same =>
      sameOutcome_template located located' whole settled string plain same path,
    fun _ _ after identifier first named inner =>
      extract_member identifier first named inner after path⟩

/-- `B_2 . fooBar` -/
def spacedReference : Reference where
  before := [' ']
  space := "B_2".toList
  middle := [' ']
  inner := ['\t']
  name := "fooBar".toList
  after := []
  spaced := by decide
  constant := ⟨rfl, List.all_eq_true.mp (by decide +kernel)⟩
  named := ⟨rfl, List.all_eq_true.mp (by decide)⟩

/-- `A.b` -/
def shortReference : Reference where
  before := []
  space := ['A']
  middle := []
  inner := []
  name := ['b']
  after := []
  spaced := by decide
  constant := ⟨rfl, List.all_eq_true.mp (by decide +kernel)⟩
  named := ⟨rfl, List.all_eq_true.mp (by decide)⟩

/-- A template with two backslashes before one reference, and an escape behind another. -/
def spacedTemplate : Template where
  lead := "1px \\\\".toList
  parts := [(spacedReference, " of ".toList), (shortReference, "\\u0041".toList)]
  plain := by
    have none : ∀ text ∈ ["1px \\\\".toList, " of ".toList, "\\u0041".toList],
        ¬ ['$', '{'] <:+: text := by decide +kernel
    exact fun text mem => holdsNone_of (none text mem)

/-- The value of that template. -/
def spacedValue : String :=
  "1px \\var(--b_2-foo-bar) of var(--a-b)A"

theorem extract_spacedTemplate :
    isIdentifier "THEME" = true ∧ ¬ ExportsConst [] ∧ IsName ['a'] ∧
      QuotedBody backtick spacedTemplate.body ∧
      SameOutcome (memberSource [] "THEME" ['a'] (.quoted backtick spacedTemplate.body) [])
        (memberSource [] "THEME" ['a'] (.quoted '"' (writtenBody '"' spacedValue.toList)) [])
        "THEME" none ∧
      (extract (memberSource [] "THEME" ['a'] (.quoted backtick spacedTemplate.body) [])
        "THEME" none).2 = .ok [("a", spacedValue)] := by
  have identifier : isIdentifier "THEME" = true := by decide
  have first : ¬ ExportsConst [] := not_exportsConst (by decide)
  have named : IsName ['a'] := ⟨rfl, List.all_eq_true.mp (by decide)⟩
  have inner : QuotedBody backtick spacedTemplate.body :=
    quotedBody_of_split (show splitString? backtick (spacedTemplate.body ++ [backtick]) =
      some (_, []) by decide +kernel)
  have written : QuotedBody '"' (writtenBody '"' spacedValue.toList) :=
    quotedBody_of_split (splitString?_written rfl spacedValue.toList [])
  have plain : HoldsNone (writtenBody '"' spacedValue.toList) := holdsNone_of (by decide +kernel)
  have read (site : Site) : spacedTemplate.read site = .ok spacedValue := by
    cases site <;> decide +kernel
  have same (site : Site) : readString site (writtenBody '"' spacedValue.toList) =
      spacedTemplate.read site := by
    rw [read, readString_written rfl, String.ofList_toList]
  have whole : Whole (memberPieces ['a'] (.quoted backtick spacedTemplate.body)) :=
    whole_member named (.quoted rfl inner
      (.code rfl (absurd · (by decide)) (.code rfl (absurd · (by decide)) .nil)))
  have settled : Settled (memberPieces ['a'] (.quoted backtick spacedTemplate.body)) :=
    settled_member named (by simp) (by simp)
  obtain ⟨sameOutcome, extracted⟩ := extract_template "THEME" spacedTemplate none
  have value := extracted [] ['a'] [] identifier first named inner
  rw [read] at value
  exact ⟨identifier, first, named, inner,
    sameOutcome _ _ _ _ _
      (locate_member identifier first named rfl inner [])
      (locate_member identifier first named rfl written []) whole settled written.string plain same,
    value⟩

/-- An escaped reference does not stand for its text: its backslash and the first letter of `var`
are read as a vertical tab. -/
theorem extract_escapedReference :
    escapesNext ['\\'] = true ∧
      (extract (memberSource [] "THEME" ['a'] (.quoted backtick ('\\' :: shortReference.text))
        ";\n".toList) "THEME" none).2 = .ok [("a", "\x0bar(--a-b)")] ∧
      "\x0bar(--a-b)" ≠ String.ofList shortReference.text := by
  decide +kernel

end ThemeSheet.Extraction
