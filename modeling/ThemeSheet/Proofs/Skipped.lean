import ThemeSheet.Proofs.Evaluation
import ThemeSheet.Proofs.Functions
import ThemeSheet.Proofs.Quoting

namespace ThemeSheet.Literal

open Text

def Node.isContainer : Node → Bool
  | object _ | array _ => true
  | _ => false

/-- A member that an object may hold but that is no entry: its text, its key and why it is left
out. The strings and numbers in a container must have values, and it must not nest too deeply. -/
inductive Skipped : List Char → String → Reading → Prop
  | nested {text key node name reading} (member : IsMember text (key, node))
    (container : node.isContainer = true) (named : key.read = .ok name)
    (converts : node.read 2 = .ok reading) : Skipped text name .nested
  | function {start token key name blanks text trail} (lexes : Lexes start [token])
    (isKey : token.key? = some key) (named : key.read = .ok name) (gap : Blanks blanks)
    (body : FunctionText text) (ending : Blanks trail) :
    Skipped (start ++ ':' :: (blanks ++ (text ++ trail))) name .function
  | method {lead name text trail} (gap : Blanks lead) (method : MethodText name text)
    (ending : Blanks trail) : Skipped (lead ++ (text ++ trail)) (String.ofList name) .function

/-- A function begins with a character that is no space. -/
theorem head_functionText {text : List Char} (h : FunctionText text) (more : List Char) :
    (text ++ more).head?.all (!isSpace ·) = true := by
  have named {name : List Char} (h : IsName name) (rest : List Char) :
      (name ++ rest).head?.all (!isSpace ·) = true := by
    obtain ⟨c, tail, rfl, starts⟩ := h.head
    simp [(apart_of_isNameStart starts).1]
  cases h with
  | function before =>
    cases before with
    | no => rfl
    | yes => rfl
  | arrow before =>
    cases before with
    | @name async name spaces before isName all =>
      cases before with
      | no =>
        simp only [List.nil_append, List.append_assoc]
        exact named isName _
      | yes => rfl
    | list list =>
      obtain ⟨rest, rfl⟩ := list.head
      rfl
    | asyncList => rfl

theorem head_methodText {name text : List Char} (h : MethodText name text) (more : List Char) :
    (text ++ more).head?.all (!isSpace ·) = true := by
  obtain ⟨before, starred, named, -, -, -, -⟩ := h
  cases before with
  | yes => rfl
  | no =>
    cases starred with
    | yes => rfl
    | no =>
      obtain ⟨c, tail, rfl, starts⟩ := named.head
      simp [(apart_of_isNameStart starts).1]

/-- The mark of a function between blanks is a token. -/
theorem lexes_mark {blanks left : List Char} (gap : Blanks blanks) (ending : Blanks left) :
    Lexes (':' :: (blanks ++ (functionMark ++ left))) [.colon, .function] := by
  have mark : Lexes (functionMark ++ left) [.function] :=
    Lexes.of_fixed .function (by decide) (.of_blanks ending)
  have spaced := Lexes.blanks gap mark
  exact Lexes.of_fixed .colon (by decide) spaced

theorem derives_mark {token : Token} {key : Key} (h : token.key? = some key) :
    Derives (.members [(key, .function)]) [token, .colon, .function] :=
  .lastMember h (.leaf rfl)

theorem denotes_function {start blanks text trail : List Char} {token : Token} {key : Key}
    (lexes : Lexes start [token]) (isKey : token.key? = some key) (gap : Blanks blanks)
    (body : FunctionText text) (ending : Blanks trail) :
    Denotes (start ++ ':' :: (blanks ++ (text ++ trail))) (key, .function) := by
  obtain ⟨left, ending, found⟩ := afterFunction?_text body ending
  refine ⟨start ++ ':' :: (blanks ++ (functionMark ++ left)), ?_, _,
    lexes.append (lexes_mark gap ending) (stops_cons.mpr rfl), derives_mark isKey⟩
  intro more ends
  have word : WordsEnd [token] := List.isChain_singleton token
  have colon : advance ['{'] ':' = (['{'], .value) := by decide
  have value := found more ends
  have function : masked? .value (text ++ (trail ++ more)) = some (functionMark, left ++ more) := by
    rw [masked?, value]
    rfl
  simp only [List.append_assoc, List.cons_append]
  rw [maskFrom_lexes lexes word (ends_cons rfl _)]
  simp only [List.foldl_cons, List.foldl_nil]
  rw [follow_key isKey, maskFrom_mark (by decide), colon, maskFrom_spaces gap.spaces,
    maskFrom_function (head_functionText body _) function, maskFrom_spaces ending.spaces]

theorem denotes_method {lead name text trail : List Char} (gap : Blanks lead)
    (method : MethodText name text) (ending : Blanks trail) :
    Denotes (lead ++ (text ++ trail)) (.string (name.flatMap jsonChar), .function) := by
  have key : Lexes (lead ++ jsonChars name) [.string (name.flatMap jsonChar)] := by
    have closed := (inside_flatMap inside_jsonChar name).split (by decide) []
    exact .blanks gap (.of_string closed .nil)
  refine ⟨lead ++ jsonChars name ++ ':' :: ([' '] ++ (functionMark ++ trail)), ?_, _,
    key.append (lexes_mark (by simp [Blanks, isBlank]) ending) (stops_cons.mpr rfl), derives_mark rfl⟩
  intro more _
  have function : masked? .member (text ++ (trail ++ more)) =
      some (jsonChars name ++ ": ".toList ++ functionMark, trail ++ more) :=
    maskedMethod?_text method (trail ++ more)
  simp only [List.append_assoc]
  rw [maskFrom_spaces gap.spaces, maskFrom_function (head_methodText method _) function,
    maskFrom_spaces ending.spaces]
  simp only [List.append_assoc, List.cons_append]
  rfl

/-- A skipped member is read, with its key and the reason. -/
theorem denotes_of_skipped {text : List Char} {key : String} {reading : Reading}
    (h : Skipped text key reading) :
    ∃ member, Denotes text member ∧ member.1.read = .ok key ∧ member.2.read 2 = .ok reading := by
  cases h with
  | @nested _ k node _ reading member container named converts =>
    refine ⟨(k, node), denotes_of_isMember member, named, ?_⟩
    have reads := Node.reads_of_read converts
    cases reads <;> first | exact converts | cases container
  | function lexes isKey named gap body ending =>
    exact ⟨_, denotes_function lexes isKey gap body ending, named, rfl⟩
  | method gap method ending =>
    exact ⟨_, denotes_method gap method ending, readString_json _ _, rfl⟩

/-! What an inserted member changes. -/

theorem readMembers_append {depth : Nat} {front back : List Member}
    {fs bs : List (String × Reading)} (hf : readMembers depth front = .ok fs)
    (hb : readMembers depth back = .ok bs) :
    readMembers depth (front ++ back) = .ok (fs ++ bs) := by
  induction front generalizing fs with
  | nil =>
    cases hf
    exact hb
  | cons member front ih =>
    obtain ⟨key, node⟩ := member
    obtain ⟨name, reading, tail, named, read, rest, rfl⟩ := readMembers_cons_ok hf
    rw [List.cons_append, readMembers, named, read, ih rest]
    rfl

theorem readMembers_split {depth : Nat} {front back : List Member}
    {members : List (String × Reading)} (h : readMembers depth (front ++ back) = .ok members) :
    ∃ fs bs, readMembers depth front = .ok fs ∧ readMembers depth back = .ok bs ∧
      members = fs ++ bs := by
  induction front generalizing members with
  | nil => exact ⟨[], members, rfl, h, rfl⟩
  | cons member front ih =>
    obtain ⟨key, node⟩ := member
    obtain ⟨name, reading, tail, named, read, rest, rfl⟩ := readMembers_cons_ok h
    obtain ⟨fs, bs, hf, hb, rfl⟩ := ih rest
    refine ⟨(name, reading) :: fs, bs, ?_, hb, rfl⟩
    rw [readMembers, named, read, hf]
    rfl

/-- The key that is read is the key that is written. -/
theorem key_of_readMembers {depth : Nat} {nodes : List Member}
    {members : List (String × Reading)} (h : readMembers depth nodes = .ok members) {key : String}
    (hk : key ∈ members.map Prod.fst) : ∃ node ∈ nodes, node.1.read = .ok key := by
  induction nodes generalizing members with
  | nil =>
    cases h
    cases hk
  | cons node nodes ih =>
    obtain ⟨k, node⟩ := node
    obtain ⟨name, reading, tail, named, read, rest, rfl⟩ := readMembers_cons_ok h
    rcases List.mem_cons.mp hk with rfl | hk
    · exact ⟨(k, node), List.mem_cons_self, named⟩
    · obtain ⟨found, mem, same⟩ := ih rest hk
      exact ⟨found, List.mem_cons_of_mem _ mem, same⟩

theorem index_of_mapM {members : List (String × Reading)}
    {indexed : List (Option Nat × String × Reading)}
    (h : members.mapM (fun member => return (← index? member.1, member) :
        String × Reading → Except IndexFault (Option Nat × String × Reading)) = .ok indexed) :
    ∀ member ∈ members, ∃ index, index? member.1 = .ok index := by
  induction members generalizing indexed with
  | nil => simp
  | cons member members ih =>
    rw [List.mapM_cons] at h
    cases first : index? member.1 with
    | error => simp [first, bind, Except.bind] at h
    | ok index =>
      cases rest : members.mapM (fun member => return (← index? member.1, member) :
          String × Reading → Except IndexFault (Option Nat × String × Reading)) with
      | error =>
        rw [first, rest] at h
        cases h
      | ok others =>
        intro m hm
        rcases List.mem_cons.mp hm with rfl | hm
        · exact ⟨index, first⟩
        · exact ih rest m hm

/-- Keys that have an order are all indices or names. -/
theorem index_of_ownKeys {members own : List (String × Reading)} (h : ownKeys members = .ok own) :
    ∀ key ∈ members.map Prod.fst, ∃ index, index? key = .ok index := by
  intro key hk
  have merged : key ∈ (merge members).map Prod.fst := by
    rw [keys_merge]
    exact mem_firstKeys.mpr hk
  obtain ⟨member, mem, rfl⟩ := List.mem_map.mp merged
  unfold ownKeys at h
  cases indexed : (merge members).mapM (fun member => return (← index? member.1, member) :
      String × Reading → Except IndexFault (Option Nat × String × Reading)) with
  | error =>
    rw [indexed] at h
    cases h
  | ok others => exact index_of_mapM indexed member mem

/-- A literal that evaluates was read, and its keys have an order. -/
theorem evaluate_ok {name : String} {text : List Char} {nodes : List Member}
    {logs : List LogRecord} {entries : Mapping} (parsed : parse (maskFunctions text) = .ok nodes)
    (h : evaluate name text = (logs, .ok entries)) :
    ∃ members, readMembers 2 nodes = .ok members ∧
      (∀ key ∈ members.map Prod.fst, ∃ index, index? key = .ok index) ∧
      logs = warnings (if name.isEmpty then "literal" else name) (ownMembers members) ∧
      entries = primitives (ownMembers members) := by
  unfold evaluate at h
  have result := members_case text
  generalize members text = found at h result
  cases result with
  | malformed | unread | unordered => simp at h
  | @done _ members own parsed' read order =>
    cases parsed.symm.trans parsed'
    have indexed := index_of_ownKeys order
    cases order.symm.trans (ownKeys_eq indexed)
    obtain ⟨logged, result⟩ := Prod.mk.inj h
    by_cases none : ((primitives (ownMembers members)).isEmpty &&
        !(ownMembers members).isEmpty) = true
    · rw [if_pos none] at result
      cases result
    · rw [if_neg none] at result
      exact ⟨members, read, indexed, logged.symm, (Except.ok.inj result).symm⟩

/-- In an object's order a new key stands somewhere between the others. -/
theorem ownMembers_insert {fs bs : List (String × Reading)} {key : String} {reading : Reading}
    (fresh : key ∉ (fs ++ bs).map Prod.fst) :
    ∃ before after, ownMembers (fs ++ bs) = before ++ after ∧
      ownMembers (fs ++ (key, reading) :: bs) = before ++ (key, reading) :: after := by
  have order := ownOrder_ownMembers (fs ++ (key, reading) :: bs)
  have mem : key ∈ (ownMembers (fs ++ (key, reading) :: bs)).map Prod.fst := by
    rw [order.complete]
    simp
  obtain ⟨member, mem, rfl⟩ := List.mem_map.mp mem
  obtain ⟨before, after, split⟩ := List.append_of_mem mem
  have value : member.2 = reading := by
    have last := lastValue?_of_mem_own mem
    have behind : bs.reverse.lookup member.1 = none := by
      apply List.lookup_eq_none_iff.mpr
      intro other hm
      have : other.1 ∈ (fs ++ bs).map Prod.fst :=
        List.mem_map_of_mem (List.mem_append_right fs (List.mem_reverse.mp hm))
      have apart : member.1 ≠ other.1 := fun same => fresh (same ▸ this)
      simpa using apart
    rw [lastValue?, List.reverse_append, List.reverse_cons, List.append_assoc, List.lookup_append,
      behind, List.lookup_append] at last
    simpa using last.symm
  subst value
  have nodup := order.nodup
  rw [split, List.map_append, List.map_cons] at nodup
  obtain ⟨-, rest, apart⟩ := List.nodup_append.mp nodup
  have front : ∀ other ∈ before, other.1 ≠ member.1 := fun other hm =>
    apart other.1 (List.mem_map_of_mem hm) member.1 List.mem_cons_self
  have back : ∀ other ∈ after, other.1 ≠ member.1 := fun other hm same =>
    (List.nodup_cons.mp rest).1 (same ▸ List.mem_map_of_mem hm)
  refine ⟨before, after, ?_, split⟩
  have others : (fs ++ member :: bs).filter (fun other => other.1 != member.1) = fs ++ bs := by
    have kept : ∀ other ∈ fs ++ bs, (other.1 != member.1) = true := by
      intro other hm
      simp only [bne_iff_ne, ne_eq]
      intro same
      exact fresh (same ▸ List.mem_map_of_mem hm)
    rw [List.filter_append, List.filter_cons_of_neg (by simp), ← List.filter_append,
      List.filter_eq_self.mpr kept]
  have filtered := filter_ownMembers (· != member.1) (fs ++ member :: bs)
  rw [others, split, List.filter_append, List.filter_cons_of_neg (by simp),
    List.filter_eq_self.mpr (by simpa using front), List.filter_eq_self.mpr (by simpa using back)]
    at filtered
  exact filtered.symm

/-- Members that are no entries leave the others alone: the mapping stays as it was, and one
warning comes to those there were. -/
theorem evaluate_skipped {name : String} {front back : List (List Char)}
    {frontMembers backMembers : List Member} {tail text : List Char} {key : String}
    {reading : Reading} {index : Option Nat} {logs : List LogRecord} {entries : Mapping}
    (hf : List.Forall₂ IsMember front frontMembers) (hb : List.Forall₂ IsMember back backMembers)
    (closing : Tail (front ++ back) tail)
    (evaluated : evaluate name (literal (front ++ back) tail) = (logs, .ok entries))
    (some : entries ≠ []) (skipped : Skipped text key reading)
    (fresh : ∀ member ∈ frontMembers ++ backMembers, member.1.read ≠ .ok key)
    (indexed : index? key = .ok index) :
    let label := if name.isEmpty then "literal" else name
    ∃ before warning after, logs = before ++ after ∧ reading.warning? label key = .some warning ∧
      evaluate name (literal (front ++ text :: back) tail) =
        (before ++ warning :: after, .ok entries) := by
  intro label
  obtain ⟨member, denotes, named, read⟩ := denotes_of_skipped skipped
  have front_denotes := hf.imp fun _ _ => denotes_of_isMember
  have back_denotes := hb.imp fun _ _ => denotes_of_isMember
  have parsed := parse_maskFunctions_literal (List.rel_append front_denotes back_denotes) closing
  obtain ⟨members, whole, ordered, rfl, rfl⟩ := evaluate_ok parsed evaluated
  obtain ⟨fs, bs, hfs, hbs, rfl⟩ := readMembers_split whole
  have new : key ∉ (fs ++ bs).map Prod.fst := by
    intro hk
    obtain ⟨node, mem, same⟩ := key_of_readMembers whole hk
    exact fresh node mem same
  have closing' : Tail (front ++ text :: back) tail := by
    cases closing with
    | nothing => exact .nothing
    | blanks none _ =>
      -- A literal without members has no entries.
      obtain ⟨rfl, rfl⟩ := List.append_eq_nil_iff.mp none
      cases hf
      cases hb
      cases hfs
      cases hbs
      have empty : ownMembers ([] : List (String × Reading)) = [] :=
        List.isEmpty_iff.mp (ownMembers_isEmpty [])
      rw [List.append_nil, empty] at some
      exact absurd rfl some
    | comma _ blanks => exact .comma (by simp) blanks
  have parsed' : parse (maskFunctions (literal (front ++ text :: back) tail)) =
      .ok (frontMembers ++ member :: backMembers) :=
    parse_maskFunctions_literal
      (List.rel_append front_denotes (.cons denotes back_denotes)) closing'
  have inserted : readMembers 2 (member :: backMembers) = .ok ((key, reading) :: bs) := by
    rw [readMembers, named, read, hbs]
    rfl
  have whole' := readMembers_append hfs inserted
  have ordered' : ∀ k ∈ (fs ++ (key, reading) :: bs).map Prod.fst, ∃ i, index? k = .ok i := by
    intro k hk
    rw [List.map_append, List.map_cons, List.mem_append, List.mem_cons] at hk
    rcases hk with hk | rfl | hk
    · exact ordered k (by simp [hk])
    · exact ⟨index, indexed⟩
    · exact ordered k (by simp [hk])
  obtain ⟨before, after, split, split'⟩ := @ownMembers_insert fs bs key reading new
  have left_out : reading.text? = none ∧
      ∃ warning, reading.warning? label key = .some warning := by
    cases skipped <;> exact ⟨rfl, _, rfl⟩
  obtain ⟨none, warning, warned⟩ := left_out
  have entries_same : primitives (ownMembers (fs ++ (key, reading) :: bs)) =
      primitives (ownMembers (fs ++ bs)) := by
    rw [split, split', primitives, primitives, List.filterMap_append, List.filterMap_append,
      List.filterMap_cons_none (by simp [none])]
  have logged : warnings label (ownMembers (fs ++ (key, reading) :: bs)) =
      warnings label before ++ warning :: warnings label after := by
    rw [split', warnings, warnings, warnings, List.filterMap_append, List.filterMap_cons]
    simp only [warned]
  refine ⟨warnings label before, warning, warnings label after, ?_, warned, ?_⟩
  · change warnings label (ownMembers (fs ++ bs)) = _
    rw [split, warnings, warnings, warnings, List.filterMap_append]
  · have filled : (primitives (ownMembers (fs ++ bs))).isEmpty = false :=
      List.isEmpty_eq_false_iff.mpr some
    unfold evaluate
    rw [members_eq parsed' whole' ordered']
    change (warnings label _, _) = _
    rw [logged, entries_same, filled, Bool.false_and, if_neg Bool.false_ne_true]

def dataFront : List Char := "\"a\": \"x\"".toList

def dataBack : List Char := " \"b\": null".toList

theorem isMember_dataFront : IsMember dataFront (.string ['a'], .string ['x']) := by
  have value : Lexes " \"x\"".toList [.string ['x']] := .blank rfl (.of_string rfl .nil)
  exact ⟨_, .of_string rfl (.of_fixed .colon (by decide) value), .lastMember rfl (.leaf rfl)⟩

theorem isMember_dataBack : IsMember dataBack (.string ['b'], .null) := by
  have value : Lexes " null".toList [.null] := .blank rfl (.of_fixed .null (by decide) .nil)
  exact ⟨_, .blank rfl (.of_string rfl (.of_fixed .colon (by decide) value)),
    .lastMember rfl (.leaf rfl)⟩

/-- A function whose body holds a comma and, in a string, a brace. -/
def arrowMember : List Char := "\"f\": async x => g(x, '\x7d')".toList

theorem skipped_arrowMember : Skipped arrowMember "f" .function := by
  have start : Lexes "\"f\"".toList [.string ['f']] := .of_string rfl .nil
  have before : Async ("async".toList ++ [' ']) := .yes (by simp) (by decide)
  have params : ArrowParams ("async".toList ++ [' '] ++ (['x'] ++ [' '])) :=
    .name before ⟨rfl, List.all_eq_true.mp (by decide)⟩ (by decide)
  have inner : Expression 1 "x, '\x7d')".toList :=
    .other rfl rfl rfl (by decide) (.other rfl rfl rfl (fun _ => Nat.one_pos)
      (.other rfl rfl rfl (by decide) (.string rfl rfl (.closes rfl .nil))))
  have body : Expression 0 " g(x, '\x7d')".toList :=
    .other rfl rfl rfl (by decide) (.other rfl rfl rfl (by decide) (.opens rfl inner))
  have function := FunctionText.arrow params (.expression body (by decide))
  have gap : Blanks [' '] := by decide
  exact Skipped.function start rfl (by decide +kernel) gap function blanks_nil

theorem evaluate_arrowMember :
    ∃ before warning after, [] = before ++ after ∧
      Reading.function.warning? "literal" "f" = some warning ∧
      evaluate "" (literal ([dataFront] ++ arrowMember :: [dataBack]) []) =
        (before ++ warning :: after, .ok [("a", "x"), ("b", "null")]) := by
  have evaluated : evaluate "" (literal ([dataFront] ++ [dataBack]) []) =
      ([], .ok [("a", "x"), ("b", "null")]) := by decide +kernel
  have fresh : ∀ member ∈ [(Key.string ['a'], Node.string ['x'])] ++
      [(Key.string ['b'], Node.null)], member.1.read ≠ .ok "f" := by decide +kernel
  have indexed : index? "f" = .ok none := by decide +kernel
  exact evaluate_skipped (.cons isMember_dataFront .nil) (.cons isMember_dataBack .nil) .nothing
    evaluated (by simp) skipped_arrowMember fresh indexed

/-- An array of the grammar, but its string names a code point that does not exist. -/
def hugeMember : List Char := "\"f\": [\"\\u\x7b110000\x7d\"]".toList

theorem evaluate_hugeMember :
    IsMember dataFront (.string ['a'], .string ['x']) ∧
      IsMember hugeMember (.string ['f'], .array [.string "\\u\x7b110000\x7d".toList]) ∧
      evaluate "" (literal [dataFront] []) = ([], .ok [("a", "x")]) ∧
      evaluate "" (literal [dataFront, hugeMember] []) =
        ([], .error (.literal (.noValue .string .noCodePoint))) := by
  refine ⟨isMember_dataFront, ⟨_, lexes_of_tokens [.string ['f'], .colon, .leftBracket,
    .string "\\u\x7b110000\x7d".toList, .rightBracket] (by decide +kernel) (by decide +kernel),
    .lastMember rfl (.array (.lastItem (.leaf rfl)) (.inl rfl))⟩, ?_, ?_⟩
  · decide +kernel
  · decide +kernel

end ThemeSheet.Literal
