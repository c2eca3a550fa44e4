import ThemeSheet.Literal.Evaluate
import ThemeSheet.Proofs.OwnKeys
import Mathlib.Data.List.Forall2

namespace ThemeSheet.Literal

/-- The text a key stands for. -/
inductive Key.Names : Key → String → Prop
  | string (body : List Char) : Names (.string body) (unescape body)
  | number (literal : NumberLiteral) (x : Double) (value : literal.toDouble? = some x) :
    Names (.number literal) x.text

/-- What a value comes to as text, or why it is skipped. Nothing is said of what a container
holds. -/
inductive Node.Reads : Node → Reading → Prop
  | string (body : List Char) : Reads (.string body) (.text (unescape body))
  | number (literal : NumberLiteral) (x : Double) (value : literal.toDouble? = some x) :
    Reads (.number literal) (.text x.text)
  | yes : Reads .yes (.text "true")
  | no : Reads .no (.text "false")
  | null : Reads .null (.text "null")
  | undefined : Reads .undefined (.text "undefined")
  | function : Reads .function .function
  | object (members : List Member) : Reads (.object members) .nested
  | array (items : List Node) : Reads (.array items) .nested

theorem readString_ok {site : Site} {body : List Char} {text : String}
    (h : readString site body = .ok text) : text = unescape body := by
  unfold readString at h
  split at h <;> cases h
  rfl

theorem readNumber_ok {site : Site} {literal : NumberLiteral} {text : String}
    (h : readNumber site literal = .ok text) : ∃ x, literal.toDouble? = some x ∧ text = x.text := by
  unfold readNumber at h
  split at h
  · rename_i x hx
    cases h
    exact ⟨x, hx, rfl⟩
  · cases h

theorem except_map_ok {ε α β : Type} {f : α → β} {x : Except ε α} {b : β}
    (h : x.map f = .ok b) : ∃ a, x = .ok a ∧ f a = b := by
  cases x with
  | error => cases h
  | ok a => exact ⟨a, rfl, Except.ok.inj h⟩

theorem Key.names_of_read {key : Key} {name : String} (h : key.read = .ok name) :
    key.Names name := by
  cases key with
  | string body => exact readString_ok h ▸ .string body
  | number literal =>
    obtain ⟨x, hx, rfl⟩ := readNumber_ok h
    exact .number literal x hx

theorem Node.reads_of_read {depth : Nat} {node : Node} {reading : Reading}
    (h : node.read depth = .ok reading) : node.Reads reading := by
  cases node with
  | string body =>
    obtain ⟨text, ht, rfl⟩ := except_map_ok h
    exact readString_ok ht ▸ .string body
  | number literal =>
    obtain ⟨text, ht, rfl⟩ := except_map_ok h
    obtain ⟨x, hx, rfl⟩ := readNumber_ok ht
    exact .number literal x hx
  | yes => cases h; exact .yes
  | no => cases h; exact .no
  | null => cases h; exact .null
  | undefined => cases h; exact .undefined
  | function => cases h; exact .function
  | object members =>
    unfold Node.read at h
    split at h
    · cases h
    · obtain ⟨_, _, rfl⟩ := except_map_ok h
      exact .object members
  | array items =>
    unfold Node.read at h
    split at h
    · cases h
    · obtain ⟨_, _, rfl⟩ := except_map_ok h
      exact .array items

theorem readMembers_cons_ok {depth : Nat} {key : Key} {node : Node} {rest : List Member}
    {members : List (String × Reading)} (h : readMembers depth ((key, node) :: rest) = .ok members) :
    ∃ name reading tail, key.read = .ok name ∧ node.read depth = .ok reading ∧
      readMembers depth rest = .ok tail ∧ members = (name, reading) :: tail := by
  rw [readMembers] at h
  cases hk : key.read with
  | error => rw [hk] at h; cases h
  | ok name =>
    cases hn : node.read depth with
    | error => rw [hk, hn] at h; cases h
    | ok reading =>
      cases ht : readMembers depth rest with
      | error => rw [hk, hn, ht] at h; cases h
      | ok tail =>
        rw [hk, hn, ht] at h
        cases h
        exact ⟨name, reading, tail, rfl, rfl, rfl, rfl⟩

/-- Keys and values are read one by one, in the order they are written. -/
theorem forall₂_readMembers {depth : Nat} {nodes : List Member}
    {members : List (String × Reading)} (h : readMembers depth nodes = .ok members) :
    List.Forall₂ (fun node member => node.1.Names member.1 ∧ node.2.Reads member.2)
      nodes members := by
  induction nodes generalizing members with
  | nil => cases h; exact .nil
  | cons node rest ih =>
    obtain ⟨name, reading, tail, hk, hn, ht, rfl⟩ := readMembers_cons_ok h
    exact .cons ⟨Key.names_of_read hk, Node.reads_of_read hn⟩ (ih ht)

/-- How the members of a literal come about, or at which step they do not. -/
inductive MembersCase (text : List Char) :
    Except EvaluationFault (List (String × Reading)) → Prop
  | malformed {fault} (parsed : parse (maskFunctions text) = .error fault) :
    MembersCase text (.error (.literal (.malformed fault)))
  | unread {nodes fault} (parsed : parse (maskFunctions text) = .ok nodes)
    (read : readMembers 2 nodes = .error fault) : MembersCase text (.error (.literal fault))
  | unordered {nodes members fault} (parsed : parse (maskFunctions text) = .ok nodes)
    (read : readMembers 2 nodes = .ok members) (order : ownKeys members = .error fault) :
    MembersCase text (.error (.keyOrder fault))
  | done {nodes members own} (parsed : parse (maskFunctions text) = .ok nodes)
    (read : readMembers 2 nodes = .ok members) (order : ownKeys members = .ok own) :
    MembersCase text (.ok own)

theorem members_case (text : List Char) : MembersCase text (Literal.members text) := by
  unfold Literal.members
  cases parsed : parse (maskFunctions text) with
  | error => exact .malformed parsed
  | ok nodes =>
    simp only [Except.mapError, bind, Except.bind]
    cases read : readMembers 2 nodes with
    | error => exact .unread parsed read
    | ok members =>
      cases order : ownKeys members with
      | error => simpa only [order] using MembersCase.unordered parsed read order
      | ok => simpa only [order] using MembersCase.done parsed read order

theorem members_eq {text : List Char} {nodes : List Member} {members : List (String × Reading)}
    (parsed : parse (maskFunctions text) = .ok nodes) (read : readMembers 2 nodes = .ok members)
    (indexed : ∀ key ∈ members.map Prod.fst, ∃ index, index? key = .ok index) :
    Literal.members text = .ok (ownMembers members) := by
  simp only [Literal.members, parsed, read, ownKeys_eq indexed, Except.mapError, bind, Except.bind]

theorem keys_primitives (members : List (String × Reading)) :
    ((primitives members).map Prod.fst).Sublist (members.map Prod.fst) := by
  induction members with
  | nil => exact .slnil
  | cons member rest ih =>
    obtain ⟨key, reading⟩ := member
    cases reading with
    | text value => exact ih.cons_cons key
    | function => exact ih.cons key
    | nested => exact ih.cons key

theorem ownMembers_isEmpty (members : List (String × Reading)) :
    (ownMembers members).isEmpty = members.isEmpty := by
  have complete := (ownOrder_ownMembers members).complete
  cases ho : ownMembers members with
  | nil =>
    cases members with
    | nil => rfl
    | cons member rest => simpa [ho] using complete member.1
  | cons member rest =>
    cases members with
    | nil => simpa [ho] using complete member.1
    | cons => rfl

end ThemeSheet.Literal
