import ThemeSheet.Proofs.DataLiteral
import ThemeSheet.Proofs.Evaluation
import ThemeSheet.Proofs.Normalized

namespace ThemeSheet.Literal

open Text

/-! Members in normal form are members of data. -/

def WrittenMember.normal (member : WrittenMember) : WrittenMember :=
  ((member.map WrittenKey.withQuotes id id).map WrittenKey.doubled WrittenValue.doubled id).map
    WrittenKey.bared id Gap.bared

theorem blanks_gap {gap : Gap} (h : gap.all Filler.isBlank = true) :
    Blanks (textOf gap.pieces) := by
  induction gap with
  | nil => exact blanks_nil
  | cons filler gap ih =>
    rw [List.all_cons, Bool.and_eq_true] at h
    obtain ⟨here, rest⟩ := h
    cases filler with
    | blank c blank => exact List.forall_mem_cons.mpr ⟨blank, ih rest⟩
    | block => cases here
    | line => cases here

theorem blanks_bared (gap : Gap) : Blanks (textOf gap.bared.pieces) :=
  blanks_gap (blank_bared gap)

/-- A string between blanks. -/
theorem lexes_written (text : List Char) {rest : List Char} {tokens : List Token}
    (h : Lexes rest tokens) :
    Lexes ('"' :: (writtenBody '"' text ++ '"' :: rest))
      (.string (writtenBody '"' text) :: tokens) :=
  .of_string (splitString?_written rfl text rest) h

theorem read_value (value : WrittenValue) {blanks : List Char} (h : Blanks blanks) :
    ∃ token node, Lexes (textOf value.doubled.pieces ++ blanks) [token] ∧
      token.leaf? = some node ∧ node.read 2 = .ok (.text (String.ofList value.content)) := by
  cases value with
  | text quote _ content =>
    refine ⟨.string (writtenBody '"' content), .string (writtenBody '"' content), ?_, rfl, ?_⟩
    · have lexes := lexes_written content (.of_blanks h)
      simpa [WrittenValue.doubled, WrittenValue.pieces, textOf, Piece.text] using lexes
    · rw [Node.read, readString_written rfl]
      rfl
  | word token word =>
    have fixed : token ∈ Token.fixed ∧ ∃ node, token.leaf? = some node ∧
        node.read 2 = .ok (.text (String.ofList token.text)) := by
      cases token <;> first | exact ⟨by decide, _, rfl, rfl⟩ | cases word
    obtain ⟨mem, node, leaf, read⟩ := fixed
    refine ⟨token, node, ?_, leaf, read⟩
    change Lexes (textOf (token.text.map .code) ++ blanks) [token]
    rw [textOf_code]
    exact .of_fixed token mem (.of_blanks h)

/-- The key of a member in normal form, with what stands before the colon. -/
theorem text_normal_key (key : WrittenKey) : ∃ blanks, Blanks blanks ∧
    textOf key.withQuotes.doubled.bared.pieces =
      '"' :: (writtenBody '"' key.name ++ '"' :: blanks) := by
  cases key with
  | bare name h gap _ =>
    refine ⟨_, blanks_bared gap, ?_⟩
    simp [WrittenKey.withQuotes, WrittenKey.doubled, WrittenKey.bared, WrittenKey.pieces,
      WrittenKey.name, textOf_cons, Piece.text]
  | quoted quote h name _ gap =>
    refine ⟨_, blanks_bared gap, ?_⟩
    simp [WrittenKey.withQuotes, WrittenKey.doubled, WrittenKey.bared, WrittenKey.pieces,
      WrittenKey.name, textOf_cons, Piece.text]

/-- A text is a member whose key and value are those of an entry. -/
def ReadsAs (text : List Char) (entry : String × String) : Prop :=
  ∃ member, IsMember text member ∧ member.1.read = .ok entry.1 ∧
    member.2.read 2 = .ok (.text entry.2)

theorem readsAs_normal (member : WrittenMember) :
    ReadsAs (textOf member.normal.pieces) member.entry := by
  obtain ⟨before, key, middle, value, after⟩ := member
  obtain ⟨blanks, blank, keyText⟩ := text_normal_key key
  obtain ⟨token, node, lexes, leaf, read⟩ := read_value value (blanks_bared after)
  have spaced := Lexes.blanks (blanks_bared middle) lexes
  have colon := Lexes.of_fixed .colon (by decide) spaced
  have named := lexes_written key.name (.blanks blank colon)
  refine ⟨(.string (writtenBody '"' key.name), node),
    ⟨[.string (writtenBody '"' key.name), .colon, token], ?_, .lastMember rfl (.leaf leaf)⟩,
    readString_written rfl .stringKey key.name, read⟩
  · have all := Lexes.blanks (blanks_bared before) named
    change Lexes (textOf (before.bared.pieces ++ (key.withQuotes.doubled.bared.pieces ++
      .code ':' :: (middle.bared.pieces ++ (value.doubled.pieces ++ after.bared.pieces))))) _
    simp only [textOf_append, textOf_cons, keyText, List.append_assoc, List.cons_append]
    exact all

/-! Literals in normal form. -/

theorem textOf_members (first : WrittenMember) (others : List WrittenMember) :
    textOf (first.pieces ++ laterPieces others) =
      joined ((first :: others).map fun member => textOf member.pieces) := by
  induction others generalizing first with
  | nil => simp [laterPieces, joined]
  | cons other others ih =>
    rw [List.map_cons, joined_cons (by simp), ← ih, laterPieces_cons, textOf_append, textOf_cons]
    rfl

/-- The gap behind a last comma that is not dropped. -/
def keptGap? : Option Gap → Option Gap
  | none => none
  | some gap => if gap.all Filler.isBlank then none else some gap.bared

theorem normal_filled (first : WrittenMember) (others : List WrittenMember) (comma : Option Gap) :
    (WrittenLiteral.filled first others comma).normal =
      .filled first.normal (others.map WrittenMember.normal) (keptGap? comma) := by
  have all : ((others.map WrittenMember.withQuotes).map
      (WrittenMember.map WrittenKey.doubled WrittenValue.doubled id)).map
        (WrittenMember.map WrittenKey.bared id Gap.bared) = others.map WrittenMember.normal := by
    rw [List.map_map, List.map_map]
    rfl
  rw [← all]
  cases comma with
  | none => rfl
  | some gap =>
    rw [WrittenLiteral.normal, WrittenLiteral.withQuotes, WrittenLiteral.doubled,
      WrittenLiteral.map, WrittenLiteral.map, Option.map_some, Option.map_some,
      WrittenLiteral.withoutComma, keptGap?, id, id]
    split <;> rfl

/-- A literal in normal form is one of data. -/
theorem text_normal (written : WrittenLiteral) : ∃ tail,
    Tail (written.members.map fun member => textOf member.normal.pieces) tail ∧
      written.normal.text =
        literal (written.members.map fun member => textOf member.normal.pieces) tail := by
  cases written with
  | empty gap => exact ⟨_, .blanks rfl (blanks_bared gap), rfl⟩
  | filled first others comma =>
    have tail : Tail ((first :: others).map fun member => textOf member.normal.pieces)
        (textOf (endPieces (keptGap? comma))) := by
      cases found : keptGap? comma with
      | none => exact .nothing
      | some gap =>
        obtain ⟨was, rfl⟩ : ∃ was : Gap, was.bared = gap := by
          unfold keptGap? at found
          split at found
          · cases found
          · split at found <;> cases found
            exact ⟨_, rfl⟩
        exact .comma (by simp) (blanks_bared was)
    have members := textOf_members first.normal (others.map WrittenMember.normal)
    rw [textOf_append, List.map_cons, List.map_map] at members
    refine ⟨_, tail, ?_⟩
    rw [normal_filled, WrittenLiteral.text, WrittenLiteral.inner, literal, textOf_append,
      textOf_append, ← List.append_assoc, members, List.append_assoc]
    rfl

/-! Entries. -/

theorem read_members {texts : List (List Char)} {entries : List (String × String)}
    (h : List.Forall₂ ReadsAs texts entries) : ∃ members, List.Forall₂ Denotes texts members ∧
      readMembers 2 members = .ok (entries.map fun entry => (entry.1, .text entry.2)) := by
  induction h with
  | nil => exact ⟨[], .nil, rfl⟩
  | cons first _ ih =>
    obtain ⟨member, is, named, read⟩ := first
    obtain ⟨members, denote, rest⟩ := ih
    refine ⟨member :: members, .cons (denotes_of_isMember is) denote, ?_⟩
    rw [readMembers, named, read, rest]
    rfl

theorem index?_of_noIndex {key : List Char} (h : NoIndex key) :
    index? (String.ofList key) = .ok none := by
  have looks : looksLikeIndex key = false := by
    rcases h with rfl | ⟨c, mem, letter⟩
    · rfl
    · have all : key.all isDigit = false :=
        List.all_eq_false.mpr ⟨c, mem, by simp [letter]⟩
      simp [looksLikeIndex, all]
  simp [index?, looks]

theorem noIndex_key (key : WrittenKey) : NoIndex key.name := by
  cases key with
  | bare name h _ _ => exact noIndex_of_isName h
  | quoted _ _ name named _ => exact named

/-- Without indices an object lists its members as they first occur. -/
theorem ownMembers_names {α : Type} {members : List (String × α)}
    (h : ∀ key ∈ members.map Prod.fst, index? key = .ok none) :
    ownMembers members = merge members := by
  have names : ∀ member ∈ merge members, indexValue? member.1 = none := by
    intro member mem
    have key : member.1 ∈ members.map Prod.fst := by
      rw [← mem_firstKeys, ← keys_merge]
      exact List.mem_map_of_mem mem
    rw [indexValue?, h _ key]
    rfl
  have noIndices : (merge members).filter (fun member => (indexValue? member.1).isSome) = [] := by
    rw [List.filter_eq_nil_iff]
    intro member mem
    simp [names member mem]
  have all : nameMembers (merge members) = merge members := by
    rw [nameMembers, List.filter_eq_self]
    intro member mem
    simp [names member mem]
  rw [ownMembers, indexMembers, noIndices, all, List.mergeSort_nil, List.nil_append]

theorem map_put {α β : Type} (f : α → β) (key : String) (value : α)
    (members : List (String × α)) :
    (put key value members).map (fun member => (member.1, f member.2)) =
      put key (f value) (members.map fun member => (member.1, f member.2)) := by
  induction members with
  | nil => rfl
  | cons member rest ih =>
    obtain ⟨k, v⟩ := member
    by_cases same : k = key
    · simp [put, same]
    · simp [put, same, ih]

theorem map_merge {α β : Type} (f : α → β) (members : List (String × α)) :
    merge (members.map fun member => (member.1, f member.2)) =
      (merge members).map fun member => (member.1, f member.2) := by
  have into (merged : List (String × α)) :
      mergeInto (merged.map fun member => (member.1, f member.2))
        (members.map fun member => (member.1, f member.2)) =
      (mergeInto merged members).map fun member => (member.1, f member.2) := by
    induction members generalizing merged with
    | nil => rfl
    | cons member rest ih =>
      obtain ⟨key, value⟩ := member
      change mergeInto (put key (f value) _) _ = (mergeInto (put key value merged) rest).map _
      rw [← map_put, ih]
  exact into []

theorem primitives_texts (entries : Mapping) :
    primitives (entries.map fun entry => (entry.1, .text entry.2)) = entries := by
  simp [primitives, List.filterMap_map, Reading.text?]

theorem warnings_texts (label : String) (entries : Mapping) :
    warnings label (entries.map fun entry => (entry.1, .text entry.2)) = [] := by
  simp [warnings, Reading.warning?]

/-- What is written is read back: nothing is warned about, and each key has its last text. -/
theorem evaluate_normalize {written : WrittenLiteral} (h : ¬ ['$', '{'] <:+: written.text)
    (name : String) :
    evaluate name (normalize written.text) = ([], .ok (merge written.entries)) := by
  obtain ⟨tail, closing, text⟩ := text_normal written
  have each : List.Forall₂ ReadsAs
      (written.members.map fun member => textOf member.normal.pieces) written.entries := by
    rw [WrittenLiteral.entries, List.forall₂_map_left_iff, List.forall₂_map_right_iff,
      List.forall₂_same]
    exact fun member _ => readsAs_normal member
  obtain ⟨nodes, denote, read⟩ := read_members each
  have parsed := parse_maskFunctions_literal denote closing
  rw [← text, ← normalize_text h] at parsed
  have names : ∀ key ∈ (written.entries.map fun entry => (entry.1, Reading.text entry.2)).map
      Prod.fst, index? key = .ok none := by
    intro key mem
    simp only [WrittenLiteral.entries, List.map_map, List.mem_map] at mem
    obtain ⟨member, -, rfl⟩ := mem
    exact index?_of_noIndex (noIndex_key member.key)
  have found := members_eq parsed read fun key mem => ⟨none, names key mem⟩
  rw [ownMembers_names names, map_merge] at found
  simp only [evaluate, found, warnings_texts, primitives_texts]
  cases merge written.entries <;> rfl

end ThemeSheet.Literal
