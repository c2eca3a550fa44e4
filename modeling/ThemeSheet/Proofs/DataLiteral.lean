import ThemeSheet.Proofs.Masking

namespace ThemeSheet.Literal

open Text

/-- A text that is one member of data. -/
def IsMember (text : List Char) (member : Member) : Prop :=
  ∃ tokens, Lexes text tokens ∧ Derives (.members [member]) tokens

theorem derives_member {member : Member} {tokens : List Token}
    (h : Derives (.members [member]) tokens) : ∃ token rest,
      tokens = token :: .colon :: rest ∧ token.key? = some member.1 ∧
        Derives (.value member.2) rest := by
  cases h with
  | lastMember named value => exact ⟨_, _, rfl, named, value⟩
  | member _ _ more _ => exact absurd rfl more

/-- What may stand behind a member: a comma or the end of the object. -/
def EndsMember (text : List Char) : Prop :=
  ∃ c rest, text = c :: rest ∧ (c = ',' ∨ c = '}')

theorem EndsMember.ends {text : List Char} (h : EndsMember text) : Ends text := by
  obtain ⟨c, rest, rfl, last⟩ := h
  refine ends_cons ?_ rest
  rcases last with rfl | rfl <;> rfl

/-- What the mask makes of a member in an object, whatever stands behind it. -/
def MasksTo (text masked : List Char) : Prop :=
  ∀ more, EndsMember more →
    maskFrom ['{'] .member (text ++ more) = masked ++ maskFrom ['{'] .other more

/-- The member that a text is read as when its functions are masked. -/
def Denotes (text : List Char) (member : Member) : Prop :=
  ∃ masked, MasksTo text masked ∧ IsMember masked member

theorem masksTo_of_isMember {text : List Char} {member : Member} (h : IsMember text member) :
    MasksTo text text := by
  obtain ⟨tokens, lexes, derives⟩ := h
  obtain ⟨token, rest, rfl, named, value⟩ := derives_member derives
  intro more ends
  rw [maskFrom_lexes lexes (wordsEnd_of_derives derives) ends.ends]
  have := follow_of_derives value ['{'] .value
  simp only [List.foldl_cons]
  rw [follow_key named]
  change text ++ maskFrom (rest.foldl follow (['{'], .value)).1
    (rest.foldl follow (['{'], .value)).2 more = _
  rw [this.1, this.2 _ rfl]

theorem denotes_of_isMember {text : List Char} {member : Member} (h : IsMember text member) :
    Denotes text member :=
  ⟨text, masksTo_of_isMember h, h⟩

/-- Texts with a comma between each and the next. -/
def joined : List (List Char) → List Char
  | [] => []
  | [text] => text
  | text :: texts => text ++ ',' :: joined texts

theorem joined_cons {texts : List (List Char)} (h : texts ≠ []) (text : List Char) :
    joined (text :: texts) = text ++ ',' :: joined texts := by
  cases texts with
  | nil => exact absurd rfl h
  | cons => rfl

/-- What may stand between the last member and the closing brace: blanks if there is no member,
else a comma and blanks. -/
inductive Tail {α : Type} (parts : List α) : List Char → Prop
  | nothing : Tail parts []
  | blanks {blanks} (none : parts = []) (h : Blanks blanks) : Tail parts blanks
  | comma {blanks} (some : parts ≠ []) (h : Blanks blanks) :
    Tail parts (',' :: blanks)

/-- An object literal, given its members and what stands behind the last. -/
def literal (texts : List (List Char)) (tail : List Char) : List Char :=
  '{' :: (joined texts ++ (tail ++ ['}']))

theorem lexes_joined {texts : List (List Char)} {members : List Member}
    (h : List.Forall₂ IsMember texts members) :
    ∃ tokens, Lexes (joined texts) tokens ∧ Derives (.members members) tokens := by
  induction h with
  | nil => exact ⟨[], .nil, .noMembers⟩
  | @cons text member texts members first rest ih =>
    obtain ⟨tokens, lexes, derives⟩ := first
    cases rest with
    | nil => exact ⟨tokens, lexes, derives⟩
    | cons second rest =>
      obtain ⟨others, lexes', derives'⟩ := ih
      obtain ⟨token, value, rfl, named, derived⟩ := derives_member derives
      refine ⟨_, ?_, .member named derived (by simp) derives'⟩
      have comma : Lexes (',' :: joined _) (.comma :: others) :=
        Lexes.of_fixed .comma (by decide) lexes'
      exact lexes.append comma (stops_cons.mpr rfl)

theorem lexes_tail {α : Type} {parts : List α} {tail : List Char} (h : Tail parts tail) :
    ∃ tokens, Lexes tail tokens ∧ Closing parts tokens := by
  cases h with
  | nothing => exact ⟨[], .nil, .inl rfl⟩
  | blanks _ h => exact ⟨[], .of_blanks h, .inl rfl⟩
  | comma some h =>
    exact ⟨[.comma], Lexes.of_fixed .comma (by decide) (.of_blanks h), .inr ⟨some, rfl⟩⟩

theorem stops_tail {α : Type} {parts : List α} {tail : List Char} (h : Tail parts tail) :
    Stops (tail ++ ['}']) := by
  refine stops_append ?_ (stops_cons.mpr rfl)
  cases h with
  | nothing => exact stops_nil
  | blanks _ h => exact stops_blanks h
  | comma _ _ => exact stops_cons.mpr rfl

/-- A literal is read as the members it is written with. -/
theorem parse_literal {texts : List (List Char)} {members : List Member} {tail : List Char}
    (h : List.Forall₂ IsMember texts members) (closing : Tail members tail) :
    parse (literal texts tail) = .ok members := by
  obtain ⟨tokens, lexes, derives⟩ := lexes_joined h
  obtain ⟨last, lexes', closed⟩ := lexes_tail closing
  have brace : Lexes ['}'] [.rightBrace] :=
    Lexes.of_fixed .rightBrace (by decide) .nil
  have inner := lexes.append (lexes'.append brace (stops_cons.mpr rfl)) (stops_tail closing)
  refine parse_of_derives ?_ derives closed
  rw [List.append_assoc]
  exact Lexes.of_fixed .leftBrace (by decide) inner

theorem maskFrom_joined {texts maskeds : List (List Char)}
    (h : List.Forall₂ MasksTo texts maskeds) (some : texts ≠ []) {more : List Char}
    (ends : EndsMember more) :
    maskFrom ['{'] .member (joined texts ++ more) =
      joined maskeds ++ maskFrom ['{'] .other more := by
  induction h with
  | nil => exact absurd rfl some
  | @cons text masked texts maskeds first rest ih =>
    cases rest with
    | nil => exact first more ends
    | @cons text' masked' texts maskeds second rest =>
      have next : EndsMember (',' :: (joined (text' :: texts) ++ more)) := ⟨_, _, rfl, .inl rfl⟩
      have comma : advance ['{'] ',' = (['{'], .member) := by decide
      rw [joined_cons (List.cons_ne_nil text' texts) text,
        joined_cons (List.cons_ne_nil masked' maskeds) masked, List.append_assoc,
        List.append_assoc, List.cons_append, first _ next, maskFrom_mark (by decide), comma,
        ih (by simp)]
      rfl

/-- The tail of a literal is copied. -/
theorem maskFrom_tail {α : Type} {parts : List α} {tail : List Char} (h : Tail parts tail)
    (expected : Expected) : maskFrom ['{'] expected (tail ++ ['}']) = tail ++ ['}'] := by
  obtain ⟨tokens, lexes, closing⟩ := lexes_tail h
  have brace : Ends ['}'] := ends_cons rfl []
  rw [maskFrom_lexes lexes (leavesEnd_closing closing).1.words brace, maskFrom_mark (by decide),
    maskFrom]

theorem maskFunctions_literal {texts maskeds : List (List Char)} {tail : List Char}
    (h : List.Forall₂ MasksTo texts maskeds) (closing : Tail texts tail) :
    maskFunctions (literal texts tail) = literal maskeds tail := by
  have brace : advance [] '{' = (['{'], .member) := by decide
  rw [maskFunctions, literal, maskFrom_mark (by decide), brace]
  change '{' :: maskFrom ['{'] .member (joined texts ++ (tail ++ ['}'])) = literal maskeds tail
  cases texts with
  | nil =>
    cases h
    change '{' :: maskFrom ['{'] .member (tail ++ ['}']) = _
    rw [maskFrom_tail closing]
    rfl
  | cons text texts =>
    have ends : EndsMember (tail ++ ['}']) := by
      cases closing with
      | nothing => exact ⟨_, _, rfl, .inr rfl⟩
      | blanks none _ => cases none
      | comma _ _ => exact ⟨_, _, rfl, .inl rfl⟩
    rw [maskFrom_joined h (by simp) ends, maskFrom_tail closing]
    rfl

/-- A literal is read as what its members denote. -/
theorem parse_maskFunctions_literal {texts : List (List Char)} {members : List Member}
    {tail : List Char} (h : List.Forall₂ Denotes texts members) (closing : Tail texts tail) :
    parse (maskFunctions (literal texts tail)) = .ok members := by
  have chosen : ∃ maskeds, List.Forall₂ MasksTo texts maskeds ∧
      List.Forall₂ IsMember maskeds members := by
    clear closing
    induction h with
    | nil => exact ⟨[], .nil, .nil⟩
    | cons first _ ih =>
      obtain ⟨masked, masks, is⟩ := first
      obtain ⟨maskeds, masks', are⟩ := ih
      exact ⟨masked :: maskeds, .cons masks masks', .cons is are⟩
  obtain ⟨maskeds, masks, are⟩ := chosen
  rw [maskFunctions_literal masks closing]
  refine parse_literal are ?_
  have none : texts = [] ↔ members = [] := by
    rw [← List.length_eq_zero_iff, ← List.length_eq_zero_iff, h.length_eq]
  cases closing with
  | nothing => exact .nothing
  | blanks empty h => exact .blanks (none.mp empty) h
  | comma some h => exact .comma (fun empty => some (none.mpr empty)) h

end ThemeSheet.Literal
