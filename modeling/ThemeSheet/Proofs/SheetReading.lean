import ThemeSheet.Proofs.Tokens

namespace ThemeSheet.Css

open Literal (isBlank)

/-! How a stylesheet is read: where its rules and declarations end. A mark such as a semicolon
counts only outside strings, comments, escapes and brackets. The texts between the marks are kept as
they stand, with the blanks in them. -/

inductive Quote
  | single
  | double
deriving DecidableEq

def Quote.char : Quote → Char
  | single => '\''
  | double => '"'

inductive Bracket
  | round
  | square
  | curly
deriving DecidableEq

def Bracket.closing : Bracket → Char
  | round => ')'
  | square => ']'
  | curly => '}'

inductive Mode
  | code
  /-- After a slash, which may begin a comment. -/
  | slash
  /-- After a backslash outside strings. -/
  | escape
  | comment
  /-- After a star in a comment. -/
  | star
  | quoted (quote : Quote)
  | quotedEscape (quote : Quote)
deriving DecidableEq

/-- A place in a text, with the brackets that are open there, the nearest first. -/
structure Place where
  mode : Mode
  brackets : List Bracket
deriving DecidableEq

def isNewline (c : Char) : Bool :=
  c == '\n' || c == '\r' || c == '\x0c'

namespace Place

def start : Place := ⟨.code, []⟩

/-- A closing bracket that does not belong to the nearest open one is passed over. -/
def closed (brackets : List Bracket) (c : Char) : List Bracket :=
  match brackets with
  | [] => []
  | bracket :: rest => if c = bracket.closing then rest else bracket :: rest

def afterCode (brackets : List Bracket) (c : Char) : Place :=
  match c with
  | '/' => ⟨.slash, brackets⟩
  | '\\' => ⟨.escape, brackets⟩
  | '\'' => ⟨.quoted .single, brackets⟩
  | '"' => ⟨.quoted .double, brackets⟩
  | '(' => ⟨.code, .round :: brackets⟩
  | '[' => ⟨.code, .square :: brackets⟩
  | '{' => ⟨.code, .curly :: brackets⟩
  | _ => ⟨.code, closed brackets c⟩

/-- A string ends at its quote, or else with the line. -/
def after (place : Place) (c : Char) : Place :=
  match place.mode with
  | .code => afterCode place.brackets c
  | .slash => if c = '*' then ⟨.comment, place.brackets⟩ else afterCode place.brackets c
  | .escape => ⟨.code, place.brackets⟩
  | .comment => ⟨if c = '*' then .star else .comment, place.brackets⟩
  | .star => ⟨if c = '/' then .code else if c = '*' then .star else .comment, place.brackets⟩
  | .quoted quote =>
    ⟨if c = quote.char || isNewline c then .code
      else if c = '\\' then .quotedEscape quote
      else .quoted quote, place.brackets⟩
  | .quotedEscape quote => ⟨.quoted quote, place.brackets⟩

/-- Outside strings, comments, escapes and brackets. -/
def outside (place : Place) : Bool :=
  (place.mode == .code || place.mode == .slash) && place.brackets.isEmpty

def through (place : Place) (text : List Char) : Place :=
  text.foldl after place

/-- What comes before the first of the marks that stands outside, and the rest from that mark on. -/
def cut (marks : List Char) (place : Place) : List Char → List Char × List Char
  | [] => ([], [])
  | c :: rest =>
    if place.outside && marks.contains c then ([], c :: rest)
    else
      let (before, rest) := cut marks (place.after c) rest
      (c :: before, rest)

/-- Whether one of the marks stands outside. -/
def meets (marks : List Char) (place : Place) : List Char → Bool
  | [] => false
  | c :: rest => place.outside && marks.contains c || meets marks (place.after c) rest

end Place

open Place

/-- Without blanks and comments at the front. -/
def skipGap : (inComment : Bool) → List Char → List Char
  | false, '/' :: '*' :: rest => skipGap true rest
  | true, '*' :: '/' :: rest => skipGap false rest
  | false, c :: rest => if isBlank c then skipGap false rest else c :: rest
  | true, _ :: rest => skipGap true rest
  | _, [] => []

structure Declaration where
  name : List Char
  /-- What stands after the colon. -/
  value : List Char
deriving DecidableEq

structure Rule where
  /-- What stands before the opening brace. -/
  prelude : List Char
  declarations : List Declaration
deriving DecidableEq

/-- A text without a colon is a name without a value. -/
def declared (text : List Char) : List Declaration :=
  if text = [] then []
  else
    let (name, rest) := start.cut [':'] text
    [⟨name, rest.drop 1⟩]

theorem length_cut (marks : List Char) (place : Place) (text : List Char) :
    (place.cut marks text).2.length ≤ text.length := by
  fun_induction cut marks place text with
  | case1 => simp
  | case2 => simp
  | case3 place c rest other before rest' eq ih =>
    rw [eq] at ih
    exact Nat.le_succ_of_le ih

theorem length_skipGap (inComment : Bool) (text : List Char) :
    (skipGap inComment text).length ≤ text.length := by
  fun_induction skipGap inComment text <;> simp_all <;> omega

theorem length_rest {marks text before rest : List Char}
    (h : start.cut marks (skipGap false text) = (before, rest)) : rest.length ≤ text.length := by
  have shorter := length_cut marks start (skipGap false text)
  rw [h] at shorter
  exact Nat.le_trans shorter (length_skipGap false text)

/-- The declarations up to the brace that ends the rule, and what follows it. -/
def declarations (text : List Char) : List Declaration × List Char :=
  match _ : start.cut [';', '}'] (skipGap false text) with
  | (declaration, ';' :: rest) =>
    let (more, rest) := declarations rest
    (declared declaration ++ more, rest)
  | (declaration, rest) => (declared declaration, rest.drop 1)
termination_by text.length
decreasing_by
  rename_i found
  exact length_rest found

theorem length_declarations (text : List Char) :
    (declarations text).2.length ≤ text.length := by
  fun_induction declarations text with
  | case1 text declaration rest found more rest' eq ih =>
    rw [eq] at ih
    exact Nat.le_of_lt (Nat.lt_of_le_of_lt ih (length_rest found))
  | case2 text declaration rest other found =>
    rw [List.length_drop]
    exact Nat.le_trans (Nat.sub_le ..) (length_rest found)

/-- A rule that begins with an at sign may end in a semicolon and have no declarations. -/
def preludeMarks (text : List Char) : List Char :=
  if text.head? = some '@' then ['{', ';'] else ['{']

/-- The rules of a stylesheet. -/
def rules (text : List Char) : List Rule :=
  match _ : start.cut (preludeMarks (skipGap false text)) (skipGap false text) with
  | (prelude, '{' :: rest) => ⟨prelude, (declarations rest).1⟩ :: rules (declarations rest).2
  | (prelude, ';' :: rest) => ⟨prelude, []⟩ :: rules rest
  | _ => []
termination_by text.length
decreasing_by
  all_goals
    rename_i found
    have shorter := length_rest found
    have := length_declarations rest
    simp only [List.length_cons] at shorter
    omega

/-! Where a text is cut. -/

theorem cut_append (marks : List Char) (place : Place) (text : List Char) :
    (place.cut marks text).1 ++ (place.cut marks text).2 = text := by
  fun_induction cut marks place text with
  | case1 => rfl
  | case2 => rfl
  | case3 place c rest other before rest' eq ih =>
    rw [eq] at ih
    simpa using ih

theorem cut_stops (marks : List Char) (place : Place) (text : List Char) :
    (place.cut marks text).2 = [] ∨
      ∃ mark ∈ marks, ∃ rest, (place.cut marks text).2 = mark :: rest := by
  fun_induction cut marks place text with
  | case1 => exact .inl rfl
  | case2 place c rest here =>
    simp only [Bool.and_eq_true, List.contains_iff_mem] at here
    exact .inr ⟨c, here.2, rest, rfl⟩
  | case3 place c rest other before rest' eq ih =>
    rw [eq] at ih
    exact ih

theorem cut_of_not_mem {marks : List Char} {c : Char} (h : c ∉ marks) (place : Place)
    (rest : List Char) :
    (place.cut marks (c :: rest)).1 = c :: ((place.after c).cut marks rest).1 := by
  rw [cut, if_neg (by simp [h])]

/-- A text is cut at a mark put behind it if it holds no mark and leaves nothing open. -/
theorem cut_eq_iff {marks : List Char} {place : Place} {text rest : List Char} {mark : Char}
    (mem : mark ∈ marks) :
    place.cut marks (text ++ mark :: rest) = (text, mark :: rest) ↔
      place.meets marks text = false ∧ (place.through text).outside = true := by
  induction text generalizing place with
  | nil =>
    cases out : place.outside <;> simp [cut, meets, through, out, mem]
  | cons c text ih =>
    rw [List.cons_append, cut, meets]
    cases here : place.outside && marks.contains c with
    | true => simp
    | false =>
      simp only [Bool.false_eq_true, if_false, Bool.false_or]
      exact Iff.trans (by simp [Prod.ext_iff]) (@ih (place.after c))

/-- Whatever is put behind the text, it is read to its end and no further than a mark. -/
structure Contained (marks text : List Char) : Prop where
  unbroken : start.meets marks text = false
  complete : (start.through text).outside = true

theorem contained_iff {marks text : List Char} : Contained marks text ↔
    start.meets marks text = false ∧ (start.through text).outside = true :=
  ⟨fun h => ⟨h.unbroken, h.complete⟩, fun ⟨unbroken, complete⟩ => ⟨unbroken, complete⟩⟩

instance (marks text : List Char) : Decidable (Contained marks text) :=
  decidable_of_iff _ contained_iff.symm

theorem cut_start_iff {marks text : List Char} {mark : Char} (mem : mark ∈ marks)
    (rest : List Char) :
    start.cut marks (text ++ mark :: rest) = (text, mark :: rest) ↔ Contained marks text :=
  (cut_eq_iff mem).trans contained_iff.symm

example : Contained [';', '}'] "url(a;b) '\x7d' /* ; */ \\; 1/2".toList ∧
    ¬ Contained [';', '}'] "1; --b: 2".toList := by decide +kernel

theorem through_append (place : Place) (a b : List Char) :
    place.through (a ++ b) = (place.through a).through b :=
  List.foldl_append

theorem meets_append (marks : List Char) (place : Place) (a b : List Char) :
    place.meets marks (a ++ b) = (place.meets marks a || (place.through a).meets marks b) := by
  induction a generalizing place with
  | nil => rfl
  | cons c a ih => rw [List.cons_append, meets, meets, ih, Bool.or_assoc]; rfl

theorem meets_eq_false_iff {marks text : List Char} {place : Place} :
    place.meets marks text = false ↔ ∀ mark ∈ marks, place.meets [mark] text = false := by
  induction text generalizing place with
  | nil => simp [meets]
  | cons c text ih =>
    have here : (place.outside && marks.contains c) = false ↔
        ∀ mark ∈ marks, (place.outside && [mark].contains c) = false := by
      cases place.outside with
      | false => simp
      | true =>
        simp only [Bool.true_and, ← Bool.not_eq_true, List.contains_iff_mem, List.mem_singleton]
        exact ⟨fun h mark mem same => h (same ▸ mem), fun h mem => h c mem rfl⟩
    simp only [meets, Bool.or_eq_false_iff, here, @ih (place.after c)]
    exact ⟨fun h mark mem => ⟨h.1 mark mem, h.2 mark mem⟩,
      fun h => ⟨fun mark mem => (h mark mem).1, fun mark mem => (h mark mem).2⟩⟩

/-! Gaps. -/

/-- Whether a text begins like a name or a rule. -/
def isLead : List Char → Bool
  | [] => false
  | c :: _ => !(isBlank c || ['/', '{', '}', ';'].contains c)

theorem skipGap_of_isLead {text : List Char} (h : isLead text = true) (rest : List Char) :
    skipGap false (text ++ rest) = text ++ rest := by
  cases text with
  | nil => cases h
  | cons c text =>
    simp only [isLead, Bool.not_eq_true', Bool.or_eq_false_iff] at h
    have slash : c ≠ '/' := by
      rintro rfl
      exact absurd h.2 (by decide)
    rw [List.cons_append, skipGap]
    · simp [h.1]
    · intro rest same
      exact absurd same slash

theorem skipGap_blanks {blanks : List Char} (h : Blanks blanks) (text : List Char) :
    skipGap false (blanks ++ text) = skipGap false text := by
  induction blanks with
  | nil => rfl
  | cons c blanks ih =>
    simp only [Blanks, List.mem_cons, forall_eq_or_imp] at h
    have slash : c ≠ '/' := by
      rintro rfl
      exact absurd h.1 (by decide)
    rw [List.cons_append, skipGap]
    · simpa [h.1] using ih h.2
    · intro rest same
      exact absurd same slash

theorem declarations_gap {text other : List Char} (h : skipGap false text = skipGap false other) :
    declarations text = declarations other := by
  unfold declarations
  rw [h]

theorem rules_gap {text other : List Char} (h : skipGap false text = skipGap false other) :
    rules text = rules other := by
  unfold rules
  rw [h]

/-! A declaration is read as it was written exactly if its name and the whole of it are
contained. -/

namespace Declaration

def text (d : Declaration) : List Char :=
  d.name ++ ':' :: d.value

/-- A declaration whose text cannot be taken for anything else at its beginning. -/
structure Proper (d : Declaration) : Prop where
  lead : isLead d.name = true
  some : d.value ≠ []

structure Reads (d : Declaration) : Prop where
  name : Contained [':'] d.name
  whole : Contained [';', '}'] d.text

end Declaration

theorem declared_iff {text : List Char} {d : Declaration} (some : d.value ≠ []) :
    declared text = [d] ↔ text = d.text ∧ Contained [':'] d.name := by
  obtain ⟨name, value⟩ := d
  constructor
  · intro found
    unfold declared at found
    split at found
    · cases found
    · have both := cut_append [':'] start text
      rcases cut_stops [':'] start text with stop | ⟨mark, mem, rest, stop⟩
      · simp only [stop, List.drop_nil, List.cons.injEq, Declaration.mk.injEq, and_true] at found
        exact absurd found.2.symm some
      · obtain rfl : mark = ':' := by simpa using mem
        simp only [stop, List.drop_one, List.tail_cons, List.cons.injEq, Declaration.mk.injEq,
          and_true] at found
        rw [stop, found.1, found.2] at both
        refine ⟨both.symm, (cut_start_iff mem value).mp ?_⟩
        rw [both, Prod.ext_iff]
        exact ⟨found.1, found.2 ▸ stop⟩
  · rintro ⟨rfl, contained⟩
    have cut := (cut_start_iff (List.mem_singleton.mpr rfl) value).mpr contained
    simp [declared, Declaration.text, cut]

theorem declared_of_ne_nil {text : List Char} (h : text ≠ []) : ∃ d, declared text = [d] :=
  ⟨_, if_neg h⟩

theorem declarations_of_semicolon {text declaration rest : List Char}
    (h : start.cut [';', '}'] (skipGap false text) = (declaration, ';' :: rest)) :
    declarations text =
      (declared declaration ++ (declarations rest).1, (declarations rest).2) := by
  rw [declarations]
  split <;> simp_all

theorem declarations_of_brace {text declaration rest : List Char}
    (h : start.cut [';', '}'] (skipGap false text) = (declaration, '}' :: rest)) :
    declarations text = (declared declaration, rest) := by
  rw [declarations]
  split <;> simp_all

theorem declarations_begin (text : List Char) : ∃ more, (declarations text).1 =
    declared (start.cut [';', '}'] (skipGap false text)).1 ++ more := by
  rw [declarations]
  split
  · next eq => exact ⟨_, by rw [eq]⟩
  · next eq => exact ⟨[], by rw [eq, List.append_nil]⟩

variable {d : Declaration}

theorem Declaration.Proper.skipGap_text (proper : d.Proper) (rest : List Char) :
    skipGap false (d.text ++ rest) = d.text ++ rest := by
  rw [Declaration.text, List.append_assoc]
  exact skipGap_of_isLead proper.lead _

theorem Declaration.Reads.declarations_eq (proper : d.Proper) (reads : d.Reads)
    (rest : List Char) : declarations (d.text ++ ';' :: rest) =
      (d :: (declarations rest).1, (declarations rest).2) := by
  have semicolon : ';' ∈ [';', '}'] := List.mem_cons_self
  have cut := (cut_start_iff semicolon rest).mpr reads.whole
  rw [← proper.skipGap_text] at cut
  rw [declarations_of_semicolon cut, (declared_iff proper.some).mpr ⟨rfl, reads.name⟩,
    List.singleton_append]

theorem Declaration.Proper.cut_ne_nil (proper : d.Proper) (rest : List Char) :
    (start.cut [';', '}'] (d.text ++ rest)).1 ≠ [] := by
  have lead := proper.lead
  obtain ⟨name, value⟩ := d
  cases name with
  | nil => cases lead
  | cons c name =>
    have unmarked : c ∉ [';', '}'] := by
      intro mem
      simp only [List.mem_cons, List.not_mem_nil, or_false] at mem
      rcases mem with rfl | rfl <;> exact absurd lead (by simp [isLead])
    simp [Declaration.text, cut_of_not_mem unmarked]

theorem Declaration.reads_of_declarations {rest : List Char} {more : List Declaration}
    (proper : d.Proper) (read : (declarations (d.text ++ ';' :: rest)).1 = d :: more) :
    d.Reads := by
  have semicolon : ';' ∈ [';', '}'] := List.mem_cons_self
  have both := cut_append [';', '}'] start (d.text ++ ';' :: rest)
  -- The first cut gives a declaration, which can only be `d`, so it cuts behind the text of `d`.
  obtain ⟨others, begins⟩ := declarations_begin (d.text ++ ';' :: rest)
  obtain ⟨first, one⟩ := declared_of_ne_nil (proper.cut_ne_nil (';' :: rest))
  rw [read, proper.skipGap_text, one, List.singleton_append, List.cons.injEq] at begins
  rw [← begins.1] at one
  obtain ⟨before, named⟩ := (declared_iff proper.some).mp one
  rw [before] at both
  refine ⟨named, (cut_start_iff semicolon rest).mp ?_⟩
  exact Prod.ext before (List.append_cancel_left both)

/-! Rules, each declaration on a line of its own. -/

/-- The declarations of a rule, with the brace that ends it. -/
def blockText (ds : List Declaration) : List Char :=
  (ds.flatMap fun d => "\n  ".toList ++ (d.text ++ [';'])) ++ "\n\x7d".toList

theorem blockText_cons (d : Declaration) (ds : List Declaration) (rest : List Char) :
    blockText (d :: ds) ++ rest = "\n  ".toList ++ (d.text ++ ';' :: (blockText ds ++ rest)) := by
  simp [blockText]

theorem declarations_line (text : List Char) :
    declarations ("\n  ".toList ++ text) = declarations text :=
  declarations_gap (skipGap_blanks (by decide) text)

theorem declarations_blockText {ds : List Declaration} (proper : ∀ d ∈ ds, d.Proper)
    (reads : ∀ d ∈ ds, d.Reads) (rest : List Char) :
    declarations (blockText ds ++ rest) = (ds, rest) := by
  induction ds with
  | nil => exact @declarations_of_brace _ [] rest rfl
  | cons d ds ih =>
    simp only [List.mem_cons, forall_eq_or_imp] at proper reads
    rw [blockText_cons, declarations_line, reads.1.declarations_eq proper.1, ih proper.2 reads.2]

theorem declarations_blockText_iff {ds : List Declaration} (proper : ∀ d ∈ ds, d.Proper)
    (rest : List Char) :
    (declarations (blockText ds ++ rest)).1 = ds ↔ ∀ d ∈ ds, d.Reads := by
  refine ⟨fun read => ?_, fun reads => by rw [declarations_blockText proper reads]⟩
  induction ds with
  | nil => simp
  | cons d ds ih =>
    simp only [List.mem_cons, forall_eq_or_imp] at proper ⊢
    rw [blockText_cons, declarations_line] at read
    have first := Declaration.reads_of_declarations proper.1 read
    rw [first.declarations_eq proper.1, List.cons.injEq] at read
    exact ⟨first, ih proper.2 read.2⟩

namespace Rule

def text (rule : Rule) : List Char :=
  rule.prelude ++ '{' :: blockText rule.declarations

structure Proper (rule : Rule) : Prop where
  lead : isLead rule.prelude = true
  declarations : ∀ d ∈ rule.declarations, d.Proper

structure Reads (rule : Rule) : Prop where
  prelude : Contained (preludeMarks rule.prelude) rule.prelude
  declarations : ∀ d ∈ rule.declarations, d.Reads

end Rule

theorem rules_prelude_iff {prelude rest : List Char} {found : List Declaration}
    {more : List Rule} (lead : isLead prelude = true) :
    rules (prelude ++ '{' :: rest) = ⟨prelude, found⟩ :: more ↔
      Contained (preludeMarks prelude) prelude ∧ (declarations rest).1 = found ∧
        rules (declarations rest).2 = more := by
  have marks : preludeMarks (prelude ++ '{' :: rest) = preludeMarks prelude := by
    cases prelude with
    | nil => cases lead
    | cons => rfl
  have mem : '{' ∈ preludeMarks prelude := by
    unfold preludeMarks
    split <;> simp
  have both := cut_append (preludeMarks prelude) start (prelude ++ '{' :: rest)
  rw [rules, skipGap_of_isLead lead, marks, ← cut_start_iff mem rest]
  split
  · next before rest' cut =>
    rw [cut] at both ⊢
    simp only [List.cons.injEq, Rule.mk.injEq, Prod.mk.injEq, true_and]
    constructor
    · rintro ⟨⟨rfl, rfl⟩, rfl⟩
      obtain rfl : rest' = rest := List.tail_eq_of_cons_eq (List.append_cancel_left both)
      simp
    · rintro ⟨⟨rfl, rfl⟩, rfl, rfl⟩
      simp
  · next before rest' cut =>
    rw [cut] at both ⊢
    constructor
    · intro same
      simp only [List.cons.injEq, Rule.mk.injEq] at same
      rw [same.1.1] at both
      simp at both
    · simp
  · next brace _ =>
    constructor
    · intro same
      cases same
    · rintro ⟨cut, -⟩
      exact absurd cut (brace _ _)

theorem rules_text_iff {rule : Rule} (proper : rule.Proper) (rest : List Char) (more : List Rule) :
    rules (rule.text ++ rest) = rule :: more ↔ rule.Reads ∧ rules rest = more := by
  rw [Rule.text, List.append_assoc, List.cons_append, rules_prelude_iff proper.lead,
    declarations_blockText_iff proper.declarations]
  constructor
  · rintro ⟨prelude, reads, read⟩
    rw [declarations_blockText proper.declarations reads] at read
    exact ⟨⟨prelude, reads⟩, read⟩
  · rintro ⟨⟨prelude, reads⟩, read⟩
    refine ⟨prelude, reads, ?_⟩
    rwa [declarations_blockText proper.declarations reads]

/-- Rules that are written with a blank line before each are read as they were written exactly if
each of them is. -/
theorem rules_iff {written : List Rule} (proper : ∀ rule ∈ written, rule.Proper) :
    rules ((written.flatMap fun rule => "\n\n".toList ++ rule.text) ++ ['\n']) = written ↔
      ∀ rule ∈ written, rule.Reads := by
  induction written with
  | nil =>
    have ends : rules ['\n'] = rules [] := rules_gap rfl
    simp only [List.flatMap_nil, List.nil_append, ends, List.not_mem_nil, false_imp_iff,
      implies_true, iff_true]
    rw [rules]
    rfl
  | cons rule written ih =>
    simp only [List.mem_cons, forall_eq_or_imp] at proper ⊢
    have gap (text : List Char) : rules ("\n\n".toList ++ text) = rules text :=
      rules_gap (skipGap_blanks (by decide) text)
    rw [List.flatMap_cons, List.append_assoc, List.append_assoc, gap, rules_text_iff proper.1,
      ih proper.2]

/-! Characters that the reading passes over without looking at them. -/

def isPlain (c : Char) : Bool :=
  !(isNewline c || ['/', '*', '\\', '\'', '"', '(', ')', '[', ']', '{', '}', ':', ';'].contains c)

/-- Where a plain character leads. -/
def Mode.rested : Mode → Mode
  | code | slash | escape => code
  | comment | star => comment
  | quoted quote | quotedEscape quote => quoted quote

theorem ne_of_isPlain {c d : Char} (hc : isPlain c = true) (hd : isPlain d = false) : c ≠ d := by
  rintro rfl
  simp [hc] at hd

theorem afterCode_of_isPlain (brackets : List Bracket) {c : Char} (h : isPlain c = true) :
    afterCode brackets c = ⟨.code, brackets⟩ := by
  have same : closed brackets c = brackets := by
    cases brackets with
    | nil => rfl
    | cons bracket rest => exact if_neg (ne_of_isPlain h (by cases bracket <;> decide))
  unfold afterCode
  split
  case h_8 => rw [same]
  all_goals exact absurd h (by decide)

theorem after_of_isPlain (place : Place) {c : Char} (h : isPlain c = true) :
    place.after c = ⟨place.mode.rested, place.brackets⟩ := by
  obtain ⟨mode, brackets⟩ := place
  have star : c ≠ '*' := ne_of_isPlain h (by decide)
  have slash : c ≠ '/' := ne_of_isPlain h (by decide)
  have backslash : c ≠ '\\' := ne_of_isPlain h (by decide)
  have newline : isNewline c = false := by
    simp only [isPlain, Bool.not_eq_true', Bool.or_eq_false_iff] at h
    exact h.1
  have quotation (quote : Quote) : c ≠ quote.char := ne_of_isPlain h (by cases quote <;> decide)
  cases mode <;>
    simp [after, Mode.rested, afterCode_of_isPlain brackets h, star, slash, backslash, newline,
      quotation]

theorem through_of_isPlain (place : Place) {word : List Char} (some : word ≠ [])
    (plain : ∀ c ∈ word, isPlain c = true) :
    place.through word = ⟨place.mode.rested, place.brackets⟩ := by
  induction word generalizing place with
  | nil => exact absurd rfl some
  | cons c word ih =>
    simp only [List.mem_cons, forall_eq_or_imp] at plain
    have here := after_of_isPlain place plain.1
    cases word with
    | nil => exact here
    | cons d word =>
      have rested : place.mode.rested.rested = place.mode.rested := by cases place.mode <;> rfl
      calc place.through (c :: d :: word)
          = (place.after c).through (d :: word) := rfl
        _ = ⟨place.mode.rested.rested, place.brackets⟩ := by
          rw [ih (place.after c) (by simp) plain.2, here]
        _ = ⟨place.mode.rested, place.brackets⟩ := by rw [rested]

theorem meets_of_isPlain {marks word : List Char} (special : ∀ mark ∈ marks, isPlain mark = false)
    (plain : ∀ c ∈ word, isPlain c = true) (place : Place) : place.meets marks word = false := by
  induction word generalizing place with
  | nil => rfl
  | cons c word ih =>
    simp only [List.mem_cons, forall_eq_or_imp] at plain
    have here : c ∉ marks := fun mem => ne_of_isPlain plain.1 (special c mem) rfl
    simp [meets, here, ih plain.2]

/-- `other` is spelled like `text`, but with plain characters in the place of a plain one. -/
inductive Respelled : (text other : List Char) → Prop
  | nil : Respelled [] []
  | same (c : Char) {text other : List Char} : Respelled text other →
      Respelled (c :: text) (c :: other)
  | plain {c : Char} {word text other : List Char} : isPlain c = true → word ≠ [] →
      (∀ d ∈ word, isPlain d = true) → Respelled text other → Respelled (c :: text) (word ++ other)

theorem Respelled.through_eq {text other : List Char} (h : Respelled text other) (place : Place) :
    place.through text = place.through other := by
  induction h generalizing place with
  | nil => rfl
  | same c _ ih => exact ih (place.after c)
  | plain hc some letters _ ih =>
    rw [through_append, through_of_isPlain place some letters, ← ih, ← after_of_isPlain place hc]
    rfl

theorem Respelled.meets_eq {text other marks : List Char} (h : Respelled text other)
    (special : ∀ mark ∈ marks, isPlain mark = false) (place : Place) :
    place.meets marks text = place.meets marks other := by
  induction h generalizing place with
  | nil => rfl
  | same c _ ih => rw [meets, meets, ih]
  | plain hc some letters _ ih =>
    rw [meets_append, meets_of_isPlain special letters, through_of_isPlain place some letters, ← ih,
      ← after_of_isPlain place hc, ← List.singleton_append, meets_append,
      meets_of_isPlain special (by simpa using hc)]
    rfl

theorem Respelled.contained_iff {text other marks : List Char} (h : Respelled text other)
    (special : ∀ mark ∈ marks, isPlain mark = false) :
    Contained marks text ↔ Contained marks other := by
  rw [Css.contained_iff, Css.contained_iff, h.meets_eq special, h.through_eq]

end ThemeSheet.Css
