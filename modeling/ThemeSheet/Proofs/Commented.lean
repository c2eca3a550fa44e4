import ThemeSheet.Proofs.Located

namespace ThemeSheet.Literal

open Text

/-- A comment in front of a text, with the line feed that ends it or its closing mark. -/
inductive Comment : List Char → Prop
  | line {body} (one : '\n' ∉ body) : Comment ('/' :: '/' :: body ++ ['\n'])
  | block {body} (closed : ¬ ['*', '/'] <:+: body) : Comment ('/' :: '*' :: body ++ ['*', '/'])

/-- The patterns of the bindings, in the order they are tried. -/
def patterns (name : List Char) : List (Option Char → List Char → Option (List Char)) :=
  [fun before text => (exportConst? name before text).bind balanced?,
   fun _ text => (exportObject? text).bind (memberLiteral? name),
   fun before text => (declaration? name before text).bind balanced?]

theorem locate_eq_patterns (name source : List Char) :
    locate name source = (patterns name).findSome? fun pattern => search pattern none source :=
  rfl

/-- A pattern does not see more of the character before it than whether a name may go on. -/
theorem pattern_before {name : List Char} {pattern : Option Char → List Char → Option (List Char)}
    (mem : pattern ∈ patterns name) {c : Char} (joins : joinsName c = false) (text : List Char) :
    pattern (some c) text = pattern none text := by
  simp only [patterns, List.mem_cons, List.not_mem_nil, or_false] at mem
  rcases mem with rfl | rfl | rfl
  · rfl
  · rfl
  · simp [declaration?, joins]

theorem search_before {α : Type} {found : Option Char → List Char → Option α}
    {before before' : Option Char} (h : ∀ text, found before text = found before' text)
    (text : List Char) : search found before text = search found before' text := by
  cases text with
  | nil => rfl
  | cons c rest => rw [search, search, h]

theorem Comment.last {comment : List Char} (h : Comment comment) :
    ∃ c, comment.getLast? = some c ∧ joinsName c = false ∧ isNamePart c = false := by
  cases h with
  | line => exact ⟨'\n', List.getLast?_concat, by decide, by decide⟩
  | @block body =>
    refine ⟨'/', ?_, by decide, by decide⟩
    rw [List.getLast?_append_of_ne_nil _ (by simp)]
    rfl

/-- The places of a comment come first, for each pattern: the rest is searched as if the comment
were not there. -/
theorem search_behind_comment {name comment : List Char} (h : Comment comment)
    {pattern : Option Char → List Char → Option (List Char)} (mem : pattern ∈ patterns name)
    (source : List Char) :
    search pattern none (comment ++ source) =
      (search (fun c rest => pattern c (rest ++ source)) none comment).or
        (search pattern none source) := by
  obtain ⟨c, last, joins, -⟩ := h.last
  rw [search_append, last, Option.some_or, search_before (pattern_before mem joins)]

theorem findSome?_congr {α β : Type} {f g : α → Option β} {l : List α}
    (h : ∀ a ∈ l, f a = g a) : l.findSome? f = l.findSome? g := by
  induction l with
  | nil => rfl
  | cons a l ih =>
    obtain ⟨here, later⟩ := List.forall_mem_cons.mp h
    rw [List.findSome?_cons, List.findSome?_cons, here, ih later]

/-- A comment from which no pattern matches changes nothing. -/
theorem locate_behind_comment {name comment source : List Char} (h : Comment comment)
    (none : ∀ pattern ∈ patterns name, ∀ front back, comment = front ++ back → back ≠ [] →
      pattern front.getLast? (back ++ source) = .none) :
    locate name (comment ++ source) = locate name source := by
  rw [locate_eq_patterns, locate_eq_patterns]
  refine findSome?_congr fun pattern mem => ?_
  rw [search_behind_comment h mem, search_eq_none, Option.none_or]
  intro front back split some
  rw [Option.or_none]
  exact none pattern mem front back split some

/-- Each pattern begins with a keyword. -/
theorem pattern_keyword {name text literal : List Char} {before : Option Char}
    {pattern : Option Char → List Char → Option (List Char)} (mem : pattern ∈ patterns name)
    (h : pattern before text = some literal) :
    ∃ keyword ∈ ["export", "const", "let", "var"], keyword.toList <+: text := by
  simp only [patterns, List.mem_cons, List.not_mem_nil, or_false] at mem
  rcases mem with rfl | rfl | rfl
  · obtain ⟨found, constant, -⟩ := Option.bind_eq_some_iff.mp h
    obtain ⟨spaces, rest, -, -, rfl, -⟩ := boundTo_of_exportConst? constant
    exact ⟨"export", by decide, List.prefix_append _ _⟩
  · obtain ⟨object, exported, -⟩ := Option.bind_eq_some_iff.mp h
    unfold exportObject? at exported
    split at exported
    · cases exported
    · rename_i rest prefixed
      exact ⟨"export", by decide, rest, (isPrefixOf?_append prefixed).symm⟩
  · obtain ⟨found, declared, -⟩ := Option.bind_eq_some_iff.mp h
    obtain ⟨-, binding, declares, rfl, -⟩ := boundTo_of_declaration? declared
    cases declares with
    | @mk keyword _ _ _ word =>
      exact ⟨keyword, List.mem_cons_of_mem _ word, by simp⟩

/-- No pattern matches from a comment without a keyword. -/
theorem pattern_plain_comment {name comment source front back : List Char} (h : Comment comment)
    (plain : ∀ keyword ∈ ["export", "const", "let", "var"], ¬ keyword.toList <:+: comment)
    {pattern : Option Char → List Char → Option (List Char)} (mem : pattern ∈ patterns name)
    (split : comment = front ++ back) (some : back ≠ []) (before : Option Char) :
    pattern before (back ++ source) = none := by
  apply Option.eq_none_iff_forall_ne_some.mpr
  intro literal found
  obtain ⟨keyword, word, rest, whole⟩ := pattern_keyword mem found
  rcases List.append_eq_append_iff.mp whole with ⟨more, inside, -⟩ | ⟨more, beyond, -⟩
  · exact plain keyword word ⟨front, more, by rw [split, inside, List.append_assoc]⟩
  · obtain ⟨c, last, -, other⟩ := h.last
    rw [split, List.getLast?_append_of_ne_nil _ some] at last
    have within : c ∈ keyword.toList := by
      rw [beyond]
      exact List.mem_append_left more (List.mem_of_getLast? last)
    have words : ["export", "const", "let", "var"].all (·.toList.all isNamePart) = true := by
      decide +kernel
    rw [List.all_eq_true.mp (List.all_eq_true.mp words keyword word) c within] at other
    cases other

theorem bindingText_append (name : String) (written : WrittenLiteral) (after more : List Char) :
    bindingText name written after ++ more = bindingText name written (after ++ more) := by
  unfold bindingText
  rw [List.append_assoc, List.append_assoc, List.append_assoc, List.append_assoc]

/-- A comment without a keyword changes nothing. -/
theorem locate_behind_plain_comment {name comment source : List Char} (h : Comment comment)
    (plain : ∀ keyword ∈ ["export", "const", "let", "var"], ¬ keyword.toList <:+: comment) :
    locate name (comment ++ source) = locate name source :=
  locate_behind_comment h fun _ mem _ _ split some => pattern_plain_comment h plain mem split some _

/-- An exported constant in a comment is taken like any other, whatever follows the comment. -/
theorem locate_commented_out {name : String} (h : isIdentifier name = true)
    {front : List Char} (first : ¬ ExportsConst front) (written : WrittenLiteral)
    (back source : List Char) :
    locate name.toList ((front ++ bindingText name written back) ++ source) =
      some written.text := by
  rw [List.append_assoc, bindingText_append]
  exact locate_bindingText h first written (back ++ source)

/-! The members of an object. -/

/-- What stands between the braces of the object at the front. -/
def inside? (object : List Char) : Option (List Char) :=
  (afterBalanced? object).map fun after => (object.drop 1).take (object.length - after.length - 2)

theorem suffix_of_member? {name text rest : List Char} {before : Option Char}
    (h : member? name before text = some rest) : rest <:+ text := by
  unfold member? at h
  split at h
  · cases h
  · obtain ⟨tail, named, h⟩ := Option.bind_eq_some_iff.mp h
    obtain ⟨prefixed, -⟩ := Option.filter_eq_some_iff.mp named
    have after : tail <:+ text := ⟨name, (isPrefixOf?_append prefixed).symm⟩
    split at h
    · rename_i more colon
      obtain ⟨gap, -, split, -⟩ := fromBrace?_eq_some_iff.mp h
      have assigned : rest <:+ trimLeft tail := by
        rw [colon, split]
        exact (List.suffix_append gap rest).trans (List.suffix_cons ':' _)
      exact (assigned.trans (List.dropWhile_suffix _)).trans after
    · cases h

/-- The literal of a member is taken from the first place where its name and a brace stand. -/
theorem memberLiteral?_eq (name : List Char) {object inside : List Char}
    (h : inside? object = some inside) :
    ∃ more, object.drop 1 = inside ++ more ∧
      memberLiteral? name object =
        (search (member? name) (some '{') inside).bind fun rest => balanced? (rest ++ more) := by
  obtain ⟨after, closed, rfl⟩ := Option.map_eq_some_iff.mp h
  refine ⟨(object.drop 1).drop (object.length - after.length - 2),
    (List.take_append_drop _ _).symm, ?_⟩
  rw [memberLiteral?, closed, Option.bind_some]
  refine Option.bind_congr fun rest searched => ?_
  obtain ⟨front, back, split, -, found⟩ := search_eq_some searched
  obtain ⟨start, whole⟩ : rest <:+ (object.drop 1).take (object.length - after.length - 2) :=
    (suffix_of_member? found).trans ⟨front, split.symm⟩
  rw [← whole, List.length_append, Nat.add_sub_cancel]
  conv =>
    enter [1, 1, 2]
    rw [← List.take_append_drop (object.length - after.length - 2) (object.drop 1), ← whole]
  rw [List.append_assoc, List.drop_left]

/-- A place of a text stands in one of the pieces that make it. -/
def Stands (ps : List Piece) (piece : Piece) (front back : List Char) : Prop :=
  ∃ before after start stop, ps = before ++ piece :: after ∧ piece.text = start ++ stop ∧
    stop ≠ [] ∧ front = textOf before ++ start ∧ back = stop ++ textOf after

theorem stands_of_split {ps : List Piece} {front back : List Char} (h : textOf ps = front ++ back)
    (some : back ≠ []) : ∃ piece, Stands ps piece front back := by
  induction ps generalizing front with
  | nil => exact absurd (List.append_eq_nil_iff.mp h.symm).2 some
  | cons piece ps ih =>
    rw [textOf_cons] at h
    have later {middle : List Char} (eq : front = piece.text ++ middle)
        (rest : textOf ps = middle ++ back) : ∃ piece', Stands (piece :: ps) piece' front back := by
      obtain ⟨piece', before, after, start, stop, rfl, text, some', rfl, rfl⟩ := ih rest
      exact ⟨piece', piece :: before, after, start, stop, rfl, text, some',
        by rw [eq, textOf_cons, List.append_assoc], rfl⟩
    rcases List.append_eq_append_iff.mp h with ⟨middle, eq, rest⟩ | ⟨middle, eq, rest⟩
    · exact later eq rest
    · cases middle with
      | nil =>
        have whole : front = piece.text ++ [] := by rw [eq, List.append_nil, List.append_nil]
        exact later whole rest.symm
      | cons c middle =>
        exact ⟨piece, [], ps, front, c :: middle, rfl, eq, List.cons_ne_nil c middle, rfl, rest⟩

/-- A comment or a string. -/
def Piece.isOpaque : Piece → Bool
  | code _ => false
  | _ => true

/-- Where no member begins in a comment or a string of the object, the one that is taken begins in
code. -/
theorem memberLiteral?_code {name object inside literal : List Char}
    (held : inside? object = some inside)
    (none : ∀ piece front back, Stands (pieces inside) piece front back → piece.isOpaque = true →
      member? name (front.getLast?.or (some '{')) back = none)
    (h : memberLiteral? name object = some literal) :
    ∃ c front back rest more, Stands (pieces inside) (.code c) front back ∧
      member? name (front.getLast?.or (some '{')) back = some rest ∧
      object.drop 1 = inside ++ more ∧ balanced? (rest ++ more) = some literal := by
  obtain ⟨more, split, eq⟩ := memberLiteral?_eq name held
  rw [eq] at h
  obtain ⟨rest, searched, closed⟩ := Option.bind_eq_some_iff.mp h
  obtain ⟨front, back, whole, some, found⟩ := search_eq_some searched
  obtain ⟨piece, stands⟩ := stands_of_split ((flatMap_pieces inside).trans whole) some
  cases piece with
  | code c => exact ⟨c, front, back, rest, more, stands, found, split, closed⟩
  | lineComment | blockComment | quoted =>
    rw [none _ front back stands rfl] at found
    cases found

theorem inside?_tidy {ps : List Piece} (h : Tidy ps) (more : List Char) :
    inside? ('{' :: (textOf ps ++ '}' :: more)) = some (textOf ps) := by
  have closed : afterBalanced? ('{' :: (textOf ps ++ '}' :: more)) = some more := by
    change afterClose? '{' '}' 1 (textOf ps ++ '}' :: more) = some more
    rw [afterClose?_tidy h, afterClose?_code (afterOpaque?_code (by decide) rfl more)]
    rfl
  rw [inside?, closed, Option.map_some, List.drop_one, List.tail_cons]
  have length : ('{' :: (textOf ps ++ '}' :: more)).length - more.length - 2 =
      (textOf ps).length := by
    simp
    omega
  rw [length, List.take_left]

theorem member?_named (name : List Char) {before : Option Char}
    (joins : before.any joinsName = false) (written : WrittenLiteral) (more : List Char) :
    member? name before (name ++ (": ".toList ++ (written.text ++ more))) =
      some (written.text ++ more) := by
  have named : afterName? name (name ++ (": ".toList ++ (written.text ++ more))) =
      some (": ".toList ++ (written.text ++ more)) := by
    rw [afterName?, Token.isPrefixOf?_self]
    rfl
  rw [member?, if_neg (by simp [joins]), named, Option.bind_some]
  rfl

/-- No member begins where no name does. -/
theorem member?_none {name : String} (h : isIdentifier name = true) {c : Char}
    (other : isNameStart c = false) (before : Option Char) (rest : List Char) :
    member? name.toList before (c :: rest) = none := by
  apply Option.eq_none_iff_forall_ne_some.mpr
  intro found member
  obtain ⟨stem, tail, whole, named, -⟩ := identifier_split h
  obtain ⟨n, stem, rfl, starts⟩ := named.head
  unfold member? at member
  split at member
  · cases member
  · obtain ⟨after, named, -⟩ := Option.bind_eq_some_iff.mp member
    obtain ⟨prefixed, -⟩ := Option.filter_eq_some_iff.mp named
    have split := isPrefixOf?_append prefixed
    rw [whole] at split
    obtain ⟨rfl, -⟩ := List.cons.inj split
    rw [starts] at other
    cases other

/-- A member in a comment or a string of the object is taken like any other, if it comes first. -/
theorem memberLiteral?_opaque {name : String} (h : isIdentifier name = true) {piece : Piece}
    {ps : List Piece} (tidy : Tidy (piece :: ps)) {start stop : List Char}
    {written : WrittenLiteral}
    (text : piece.text = start ++ (name.toList ++ (": ".toList ++ (written.text ++ stop))))
    (plain : ∀ c ∈ start, isNameStart c = false) (joins : start.getLast?.any joinsName = false)
    (more : List Char) :
    memberLiteral? name.toList ('{' :: (textOf (piece :: ps) ++ '}' :: more)) =
      some written.text := by
  have inside : textOf (piece :: ps) = start ++ (name.toList ++ (": ".toList ++
      (written.text ++ (stop ++ textOf ps)))) := by
    rw [textOf_cons, text]
    simp only [List.append_assoc]
  have before : (start.getLast?.or (some '{')).any joinsName = false := by
    cases last : start.getLast? with
    | none => rfl
    | some c =>
      rw [last] at joins
      exact joins
  have searched : search (member? name.toList) (some '{') (textOf (piece :: ps)) =
      some (written.text ++ (stop ++ textOf ps)) := by
    rw [inside, search_append, search_eq_none, Option.none_or]
    · refine search_here ?_ (member?_named name.toList before written _)
      simp [WrittenLiteral.text]
    · intro front back split some
      obtain ⟨c, back, rfl⟩ := List.exists_cons_of_ne_nil some
      exact member?_none h (plain c (by rw [split]; simp)) _ _
  obtain ⟨more', -, eq⟩ := memberLiteral?_eq name.toList (inside?_tidy tidy more)
  rw [eq, searched, Option.bind_some, List.append_assoc, balanced?_text]

/-- Comments and strings are seen by the search for a binding. It passes over a comment from which
no pattern matches, and takes a member from code if none begins in a comment or a string. But a
constant that is exported in a comment is located there, and so is a member that a comment or a
string of the object holds before the others. -/
theorem locate_commented {name : String} (h : isIdentifier name = true) :
    (∀ comment source, Comment comment →
      (∀ pattern ∈ patterns name.toList, ∀ front back, comment = front ++ back → back ≠ [] →
        pattern front.getLast? (back ++ source) = none) →
      locate name.toList (comment ++ source) = locate name.toList source) ∧
    (∀ front written back source, Comment (front ++ bindingText name written back) →
      ¬ ExportsConst front →
      locate name.toList ((front ++ bindingText name written back) ++ source) =
        some written.text) ∧
    (∀ object inside literal, inside? object = some inside →
      (∀ piece front back, Stands (pieces inside) piece front back → piece.isOpaque = true →
        member? name.toList (front.getLast?.or (some '{')) back = none) →
      memberLiteral? name.toList object = some literal →
      ∃ c front back rest more, Stands (pieces inside) (.code c) front back ∧
        member? name.toList (front.getLast?.or (some '{')) back = some rest ∧
        object.drop 1 = inside ++ more ∧ balanced? (rest ++ more) = some literal) ∧
    (∀ (piece : Piece) (ps : List Piece) (start stop more : List Char) (written : WrittenLiteral),
      Tidy (piece :: ps) → piece.isOpaque = true →
      piece.text = start ++ (name.toList ++ (": ".toList ++ (written.text ++ stop))) →
      (∀ c ∈ start, isNameStart c = false) → start.getLast?.any joinsName = false →
      memberLiteral? name.toList ('{' :: (textOf (piece :: ps) ++ '}' :: more)) =
        some written.text) :=
  ⟨fun _ _ comment none => locate_behind_comment comment none,
    fun _ written back source _ first => locate_commented_out h first written back source,
    fun _ _ _ held none found => memberLiteral?_code held none found,
    fun _ _ _ _ more _ tidy _ text plain joins =>
      memberLiteral?_opaque h tidy text plain joins more⟩

/-- A comment without a keyword, one that holds a whole binding, an object without comments and one
with a member in a comment. -/
theorem locate_commented_theme :
    locate "THEME".toList (('/' :: '/' :: " theme".toList ++ ['\n']) ++ ['}']) =
        locate "THEME".toList ['}'] ∧
      locate "THEME".toList (("// ".toList ++ bindingText "THEME" (.empty []) ";\n".toList) ++
        ['}']) = some (WrittenLiteral.empty []).text ∧
      (∃ c front back rest more, Stands (pieces " THEME: \x7b\x7d ".toList) (.code c) front back ∧
        member? "THEME".toList (front.getLast?.or (some '{')) back = some rest ∧
        "\x7b THEME: \x7b\x7d \x7d".toList.drop 1 = " THEME: \x7b\x7d ".toList ++ more ∧
        balanced? (rest ++ more) = some "\x7b\x7d".toList) ∧
      memberLiteral? "THEME".toList ('{' :: (textOf [.blockComment " THEME: \x7b\x7d ".toList] ++
        ['}'])) = some (WrittenLiteral.empty []).text := by
  have name : isIdentifier "THEME" = true := by decide
  have plain : Comment ('/' :: '/' :: " theme".toList ++ ['\n']) := .line (by decide)
  have words : ∀ keyword ∈ ["export", "const", "let", "var"],
      ¬ keyword.toList <:+: '/' :: '/' :: " theme".toList ++ ['\n'] := by decide +kernel
  have line : "// ".toList ++ bindingText "THEME" (.empty []) ";\n".toList =
      '/' :: '/' :: " export const THEME = \x7b\x7d;".toList ++ ['\n'] := by decide +kernel
  have bound : Comment ("// ".toList ++ bindingText "THEME" (.empty []) ";\n".toList) := by
    rw [line]
    exact .line (by decide)
  have inside : inside? "\x7b THEME: \x7b\x7d \x7d".toList = some " THEME: \x7b\x7d ".toList := by
    decide +kernel
  have coded : pieces " THEME: \x7b\x7d ".toList = " THEME: \x7b\x7d ".toList.map .code := by
    decide +kernel
  have member : memberLiteral? "THEME".toList "\x7b THEME: \x7b\x7d \x7d".toList =
      some "\x7b\x7d".toList := by decide +kernel
  have tidy : Tidy [.blockComment " THEME: \x7b\x7d ".toList] :=
    .closed (closed_block (by decide +kernel)) .nil
  have text : (Piece.blockComment " THEME: \x7b\x7d ".toList).text = "/* ".toList ++
      ("THEME".toList ++ (": ".toList ++ ((WrittenLiteral.empty []).text ++ " */".toList))) := by
    decide +kernel
  have start : ∀ c ∈ "/* ".toList, isNameStart c = false :=
    forall_eq_false_of_any (by decide +kernel)
  have joins : "/* ".toList.getLast?.any joinsName = false := by decide +kernel
  obtain ⟨passed, located, code, held⟩ := locate_commented name
  refine ⟨passed _ _ plain fun pattern mem front back split some =>
      pattern_plain_comment plain words mem split some _,
    located _ _ _ _ bound (not_exportsConst (by decide +kernel)),
    code _ _ _ inside ?_ member, held _ _ _ _ _ _ tidy rfl text start joins⟩
  rintro piece front back ⟨before, after, start, stop, eq, -, -, -, -⟩ isOpaque
  have mem : piece ∈ " THEME: \x7b\x7d ".toList.map Piece.code := by
    rw [← coded, eq]
    simp
  obtain ⟨c, -, rfl⟩ := List.mem_map.mp mem
  cases isOpaque

/-- Not every comment is passed over, and a member may be taken from one. -/
theorem locate_old_theme :
    (¬ ∀ name comment source, isIdentifier name = true → Comment comment →
      locate name.toList (comment ++ source) = locate name.toList source) ∧
    locate "THEME".toList
        "export default \x7b /* THEME: \x7b\x7d */ THEME: \x7b b: 2 \x7d \x7d;".toList ≠
      locate "THEME".toList "export default \x7b THEME: \x7b b: 2 \x7d \x7d;".toList := by
  constructor
  · intro claim
    have same := claim "THEME"
      ('/' :: '/' :: " export const THEME = \x7b a: 1 \x7d;".toList ++ ['\n'])
      "export const THEME = \x7b b: 2 \x7d;\n".toList (by decide) (.line (by decide))
    have commented : locate "THEME".toList
        (('/' :: '/' :: " export const THEME = \x7b a: 1 \x7d;".toList ++ ['\n']) ++
          "export const THEME = \x7b b: 2 \x7d;\n".toList) = some "\x7b a: 1 \x7d".toList := by
      decide +kernel
    have exported : locate "THEME".toList "export const THEME = \x7b b: 2 \x7d;\n".toList =
        some "\x7b b: 2 \x7d".toList := by
      decide +kernel
    rw [commented, exported] at same
    exact absurd same (by decide)
  · decide +kernel

end ThemeSheet.Literal
