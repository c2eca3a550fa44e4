import ThemeSheet.CommandLine.Json
import ThemeSheet.Proofs.ReadBack
import ThemeSheet.Proofs.Skipped

namespace ThemeSheet

open Text

namespace Literal

variable {α : Type}

/-! An object whose members already stand in its own order. -/

/-- Whether one key may stand before another: indices go by size, and names come after them. -/
def Precedes (first second : String) : Prop :=
  match indexValue? first, indexValue? second with
  | some a, some b => a ≤ b
  | none, some _ => False
  | _, none => True

theorem pairwise_ownMembers (members : List (String × α)) :
    ((ownMembers members).map Prod.fst).Pairwise Precedes := by
  have index : ∀ member ∈ indexMembers (merge members), ∃ n, indexValue? member.1 = some n := by
    intro member mem
    exact Option.isSome_iff_exists.mp (List.mem_filter.mp (List.mem_mergeSort.mp mem)).2
  have name : ∀ member ∈ nameMembers (merge members), indexValue? member.1 = none := by
    intro member mem
    exact Option.isNone_iff_eq_none.mp (List.mem_filter.mp mem).2
  rw [List.pairwise_map, ownMembers, List.pairwise_append]
  refine ⟨?_, ?_, ?_⟩
  · refine (List.pairwise_mergeSort indexLe_trans indexLe_total _).imp_of_mem fun ha hb le => ?_
    obtain ⟨m, hm⟩ := index _ ha
    obtain ⟨n, hn⟩ := index _ hb
    simpa [Precedes, indexLe, hm, hn] using le
  · refine List.pairwise_of_forall_mem_list fun a ha b hb => ?_
    simp [Precedes, name a ha, name b hb]
  · intro a ha b hb
    obtain ⟨m, hm⟩ := index a ha
    simp [Precedes, hm, name b hb]

theorem put_fresh {key : String} {members : List (String × α)} (h : key ∉ members.map Prod.fst)
    (value : α) : put key value members = members ++ [(key, value)] := by
  induction members with
  | nil => rfl
  | cons member rest ih =>
    obtain ⟨k, v⟩ := member
    rw [List.map_cons, List.mem_cons, not_or] at h
    rw [put, if_neg (Ne.symm h.1), ih h.2, List.cons_append]

/-- Members with different keys are merged as they are. -/
theorem merge_of_nodup {members : List (String × α)} (h : (members.map Prod.fst).Nodup) :
    merge members = members := by
  have into (merged : List (String × α)) (h : ((merged ++ members).map Prod.fst).Nodup) :
      mergeInto merged members = merged ++ members := by
    induction members generalizing merged with
    | nil => exact (List.append_nil merged).symm
    | cons member rest ih =>
      obtain ⟨key, value⟩ := member
      have fresh : key ∉ merged.map Prod.fst := by
        rw [List.map_append, List.nodup_append] at h
        exact fun mem => h.2.2 key mem key List.mem_cons_self rfl
      have split : merged ++ (key, value) :: rest = (merged ++ [(key, value)]) ++ rest := by simp
      rw [split] at h ⊢
      change mergeInto (put key value merged) rest = _
      rw [put_fresh fresh, ih (List.nodup_append.mp (List.map_append ▸ h)).2.1 _ h]
  exact into [] h

theorem ownMembers_of_ordered {members : List (String × α)} (nodup : (members.map Prod.fst).Nodup)
    (ordered : (members.map Prod.fst).Pairwise Precedes) : ownMembers members = members := by
  rw [List.pairwise_map] at ordered
  have sorted : indexMembers members =
      members.filter fun member => (indexValue? member.1).isSome := by
    refine List.mergeSort_of_pairwise ((ordered.filter _).imp_of_mem fun ha hb le => ?_)
    obtain ⟨m, hm⟩ := Option.isSome_iff_exists.mp (List.mem_filter.mp ha).2
    obtain ⟨n, hn⟩ := Option.isSome_iff_exists.mp (List.mem_filter.mp hb).2
    simpa [Precedes, indexLe, hm, hn] using le
  have split (members : List (String × α))
      (ordered : members.Pairwise fun a b => Precedes a.1 b.1) :
      (members.filter fun member => (indexValue? member.1).isSome) ++ nameMembers members =
        members := by
    induction members with
    | nil => rfl
    | cons member rest ih =>
      obtain ⟨first, later⟩ := List.pairwise_cons.mp ordered
      cases index : indexValue? member.1 with
      | some n => simpa [nameMembers, index] using ih later
      | none =>
        -- Behind a name there are names only.
        have names : ∀ other ∈ rest, indexValue? other.1 = none := by
          intro other mem
          have le := first other mem
          cases later : indexValue? other.1 with
          | none => rfl
          | some n => simp [Precedes, index, later] at le
        have noIndex : rest.filter (fun member => (indexValue? member.1).isSome) = [] :=
          List.filter_eq_nil_iff.mpr fun other mem => by simp [names other mem]
        have allNames : rest.filter (fun member => (indexValue? member.1).isNone) = rest :=
          List.filter_eq_self.mpr fun other mem => by simp [names other mem]
        simp [nameMembers, index, noIndex, allNames]
  rw [ownMembers, merge_of_nodup nodup, sorted, split members ordered]

/-! A mapping that a literal evaluates to. -/

/-- What every mapping is that a literal evaluates to: its keys have an order, and stand in it. -/
structure Ordered (entries : Mapping) : Prop where
  indexed : ∀ key ∈ entries.map Prod.fst, ∃ index, index? key = .ok index
  nodup : (entries.map Prod.fst).Nodup
  ordered : (entries.map Prod.fst).Pairwise Precedes

theorem parsed_of_evaluate {name : String} {text : List Char} {logs : List LogRecord}
    {entries : Mapping} (h : evaluate name text = (logs, .ok entries)) :
    ∃ nodes, parse (maskFunctions text) = .ok nodes := by
  unfold evaluate at h
  have result := members_case text
  generalize members text = found at h result
  cases result with
  | malformed | unread | unordered => simp at h
  | done parsed => exact ⟨_, parsed⟩

theorem ordered_of_evaluate {name : String} {text : List Char} {logs : List LogRecord}
    {entries : Mapping} (h : evaluate name text = (logs, .ok entries)) : Ordered entries := by
  obtain ⟨nodes, parsed⟩ := parsed_of_evaluate h
  obtain ⟨members, -, indexed, -, rfl⟩ := evaluate_ok parsed h
  have order := ownOrder_ownMembers members
  have keys := keys_primitives (ownMembers members)
  exact ⟨fun key mem => indexed key ((order.complete key).mp (keys.subset mem)),
    keys.nodup order.nodup, (pairwise_ownMembers members).sublist keys⟩

/-- Members that are written in the order of their object are read back as they are. -/
theorem evaluate_of_ordered {texts : List (List Char)} {tail : List Char} {entries : Mapping}
    (ordered : Ordered entries) (each : List.Forall₂ ReadsAs texts entries)
    (closing : Tail texts tail) (name : String) :
    evaluate name (literal texts tail) = ([], .ok entries) := by
  obtain ⟨nodes, denote, read⟩ := read_members each
  have keys : (entries.map fun entry => (entry.1, Reading.text entry.2)).map Prod.fst =
      entries.map Prod.fst := by
    rw [List.map_map]
    rfl
  have found := members_eq (parse_maskFunctions_literal denote closing) read
    (keys ▸ ordered.indexed)
  rw [ownMembers_of_ordered (keys ▸ ordered.nodup) (keys ▸ ordered.ordered)] at found
  simp only [evaluate, found, warnings_texts, primitives_texts]
  cases entries <;> rfl

end Literal

namespace CommandLine

open Literal

/-- How the members of a JSON object are set out: on one line, or each on a line of its own behind
an indentation. -/
inductive Layout
  | line
  | lines (indentation : String) (blank : Blanks indentation.toList)

namespace Layout

/-- What stands before the first member. -/
def opening : Layout → String
  | line => ""
  | lines indentation _ => "\n" ++ indentation

/-- What stands behind the comma between two members. -/
def gap : Layout → String
  | line => " "
  | lines indentation _ => "\n" ++ indentation

/-- What stands behind the last member. -/
def closing : Layout → String
  | line => ""
  | lines _ _ => "\n"

/-- A mapping as a JSON object. -/
def print (layout : Layout) (mapping : Mapping) : String :=
  if mapping.isEmpty then "\x7b\x7d"
  else
    "\x7b" ++ layout.opening ++
      ("," ++ layout.gap).intercalate (mapping.map fun (key, value) => jsonMember key value) ++
      layout.closing ++ "\x7d"

theorem blanks_opening (layout : Layout) : Blanks layout.opening.toList := by
  cases layout with
  | line => decide
  | lines indentation blank =>
    rw [opening, String.toList_append]
    exact List.forall_mem_cons.mpr ⟨rfl, blank⟩

theorem blanks_gap (layout : Layout) : Blanks layout.gap.toList := by
  cases layout with
  | line => decide
  | lines indentation blank =>
    rw [gap, String.toList_append]
    exact List.forall_mem_cons.mpr ⟨rfl, blank⟩

theorem blanks_closing (layout : Layout) : Blanks layout.closing.toList := by
  cases layout with
  | line => decide
  | lines =>
    rw [closing]
    decide

end Layout

theorem intercalate_indented (indentation : String) {lines : List String} (some : lines ≠ []) :
    indentation ++ (",\n" ++ indentation).intercalate lines =
      ",\n".intercalate (lines.map (indentation ++ ·)) := by
  induction lines with
  | nil => exact absurd rfl some
  | cons line lines ih =>
    cases lines with
    | nil => simp
    | cons next lines =>
      have rest := ih (by simp)
      rw [List.map_cons] at rest
      rw [List.map_cons, List.map_cons, String.intercalate_cons_cons, String.intercalate_cons_cons,
        ← rest]
      simp only [String.append_assoc]

/-- The mapping that a user is shown is indented by two spaces. -/
theorem mappingJson_eq (mapping : Mapping) :
    mappingJson mapping = (Layout.lines "  " (by decide)).print mapping := by
  cases mapping with
  | nil => rfl
  | cons entry rest =>
    have some : (entry :: rest).map (fun (key, value) => jsonMember key value) ≠ [] := by simp
    have lines := intercalate_indented "  " some
    have two : "" ++ "  " = "  " := rfl
    have between : "," ++ ("\n" ++ "  ") = ",\n" ++ "  " := rfl
    rw [mappingJson, jsonBlock, two, ← lines, Layout.print, Layout.opening, Layout.gap,
      Layout.closing, between, if_neg (by simp), if_neg (by simp)]
    simp only [String.append_assoc]
    rfl

theorem jsonMember_toList (key value : String) : (jsonMember key value).toList =
    '"' :: (key.toList.flatMap jsonChar ++ '"' :: ':' :: ' ' :: '"' ::
      (value.toList.flatMap jsonChar ++ ['"'])) := by
  simp [jsonMember, json, jsonChars]

/-- A member of a JSON object between blanks is read as its key and value. -/
theorem readsAs_jsonMember {lead trail : List Char} (before : Blanks lead) (after : Blanks trail)
    (key value : String) :
    ReadsAs (lead ++ ((jsonMember key value).toList ++ trail)) (key, value) := by
  let name := key.toList.flatMap jsonChar
  let body := value.toList.flatMap jsonChar
  have split (text rest : List Char) :
      splitString? '"' (text.flatMap jsonChar ++ '"' :: rest) =
        some (text.flatMap jsonChar, rest) :=
    (inside_flatMap inside_jsonChar text).split (by decide) rest
  have last : Lexes ('"' :: (body ++ '"' :: trail)) [.string body] :=
    .of_string (split value.toList trail) (.of_blanks after)
  have colon : Lexes (':' :: ' ' :: '"' :: (body ++ '"' :: trail)) [.colon, .string body] :=
    .of_fixed .colon (by decide) (.blank rfl last)
  have named : Lexes ('"' :: (name ++ '"' :: ':' :: ' ' :: '"' :: (body ++ '"' :: trail)))
      [.string name, .colon, .string body] :=
    .of_string (split key.toList _) colon
  have text : (jsonMember key value).toList ++ trail =
      '"' :: (name ++ '"' :: ':' :: ' ' :: '"' :: (body ++ '"' :: trail)) := by
    simp [jsonMember_toList, name, body]
  have lexes : Lexes (lead ++ ((jsonMember key value).toList ++ trail))
      [.string name, .colon, .string body] := by
    rw [text]
    exact .blanks before named
  have derives : Derives (.members [(.string name, .string body)])
      [.string name, .colon, .string body] := .lastMember rfl (.leaf rfl)
  refine ⟨(.string name, .string body), ⟨_, lexes, derives⟩, ?_, ?_⟩
  · change readString .stringKey name = .ok key
    rw [readString_json, String.ofList_toList]
  · change (readString .string body).map Reading.text = .ok (.text value)
    rw [readString_json, String.ofList_toList]
    rfl

/-- The members of a JSON object are members of data, the blanks around them included. -/
theorem readsAs_jsonMembers {gap closing : List Char} (between : Blanks gap)
    (after : Blanks closing) (rest : Mapping) (first : String × String) {lead : List Char}
    (before : Blanks lead) : ∃ texts, List.Forall₂ ReadsAs texts (first :: rest) ∧
      lead ++ ((',' :: gap).intercalate
        ((first :: rest).map fun entry => (jsonMember entry.1 entry.2).toList) ++ closing) =
        joined texts := by
  induction rest generalizing first lead with
  | nil => exact ⟨_, .cons (readsAs_jsonMember before after first.1 first.2) .nil, by simp [joined]⟩
  | cons next rest ih =>
    obtain ⟨texts, each, same⟩ := ih next between
    have here := readsAs_jsonMember before blanks_nil first.1 first.2
    refine ⟨_ :: texts, .cons here each, ?_⟩
    have some : texts ≠ [] := by
      rintro rfl
      cases each
    rw [joined_cons some, ← same, List.map_cons, List.map_cons, List.intercalate_cons_cons]
    simp

/-- A printed mapping is a literal of data. -/
theorem print_toList (layout : Layout) (mapping : Mapping) : ∃ texts,
    List.Forall₂ ReadsAs texts mapping ∧ (layout.print mapping).toList = literal texts [] := by
  cases mapping with
  | nil => exact ⟨[], .nil, by simp [Layout.print, literal, joined]⟩
  | cons first rest =>
    obtain ⟨texts, each, same⟩ := readsAs_jsonMembers layout.blanks_gap layout.blanks_closing rest
      first layout.blanks_opening
    refine ⟨texts, each, ?_⟩
    rw [Layout.print, if_neg (by simp), literal, ← same]
    simp [String.toList_intercalate, Function.comp_def]

/-- What a literal evaluates to is printed so that it evaluates to the same again, on one line or on
many, with nothing to warn of. -/
theorem evaluate_print {name : String} {text : List Char} {logs : List LogRecord}
    {entries : Mapping} (h : evaluate name text = (logs, .ok entries)) (again : String) :
    evaluate again (mappingJson entries).toList = ([], .ok entries) ∧
      ∀ layout : Layout, evaluate again (layout.print entries).toList = ([], .ok entries) := by
  have printed (layout : Layout) :
      evaluate again (layout.print entries).toList = ([], .ok entries) := by
    obtain ⟨texts, each, same⟩ := print_toList layout entries
    rw [same]
    exact evaluate_of_ordered (ordered_of_evaluate h) each .nothing again
  exact ⟨by rw [mappingJson_eq]; exact printed _, printed⟩

/-- An index behind a name, a pair of surrogates and an escaped line feed. -/
def escapedText : List Char :=
  "\x7b\"b\": \"\\ud83d\\ude00\\n\", \"7\": 0x10\x7d".toList

def escapedEntries : Mapping :=
  [("7", "16"), ("b", "😀\n")]

theorem evaluate_print_escaped :
    evaluate "THEME" escapedText = ([], .ok escapedEntries) ∧
      evaluate "" (mappingJson escapedEntries).toList = ([], .ok escapedEntries) ∧
      ∀ layout : Layout, evaluate "" (layout.print escapedEntries).toList =
        ([], .ok escapedEntries) := by
  have evaluated : evaluate "THEME" escapedText = ([], .ok escapedEntries) := by decide +kernel
  exact ⟨evaluated, evaluate_print evaluated ""⟩

end CommandLine
end ThemeSheet
