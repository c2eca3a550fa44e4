import ThemeSheet.Proofs.BracketScan
import ThemeSheet.Proofs.StepRules
import ThemeSheet.Proofs.StringParts
import ThemeSheet.Proofs.UnmaskedData

/-! The strings and comments that the scan for brackets passes over, and those that the patterns
find. -/

namespace ThemeSheet.Literal

open Text Pattern

/-- From where to where the strings and comments among some pieces reach. -/
def spansOf (place : Nat) : List Piece → List (Nat × Nat)
  | [] => []
  | piece :: rest =>
    let stop := place + piece.text.length
    if piece.isCode fun _ => true then spansOf stop rest else (place, stop) :: spansOf stop rest

/-! What the steps find. -/

section Found

variable {place : Nat} {rules : List Rule} {rewritten : Piece → List Char}

theorem spansOf_codes (place : Nat) (front : List Char) (ps : List Piece) :
    spansOf place (front.map .code ++ ps) = spansOf (place + front.length) ps := by
  induction front generalizing place with
  | nil => rfl
  | cons c front ih =>
    rw [List.length_cons, Nat.add_comm front.length, ← Nat.add_assoc]
    exact ih (place + 1)

theorem spansOf_opaque {text rest : List Char} {piece : Piece}
    (h : opaque? text = some (piece, rest)) (place : Nat) (ps : List Piece) :
    spansOf place (piece :: ps) = (place, place + (text.length - rest.length)) ::
      spansOf (place + (text.length - rest.length)) ps := by
  have long : text.length - rest.length = piece.text.length := by
    rw [opaque?_append h, List.length_append, Nat.add_sub_cancel]
  have dark : piece.isCode (fun _ => true) = false := by
    cases piece with
    | code c => exact absurd rfl (ne_code_of_opaque? h c)
    | _ => rfl
  rw [long, spansOf, dark]
  rfl

/-- A step finds the strings and comments that are pieces of the text, whatever else it finds. -/
theorem spans_pieces (uniform : Uniform rules rewritten) (place : Nat) (here : Cursor) :
    (stretches rules place here).filterMap Stretch.span? = spansOf place (pieces here.rest) := by
  fun_induction stretches rules place here with
  | case1 place here found matched shorter stop ih =>
    cases first : opaque? here.rest with
    | some piece =>
      obtain ⟨dark, -, reached⟩ := uniform.eq_found first matched
      have rest : found.reached.rest = piece.2 := congrArg Cursor.rest reached
      have span : Stretch.span? (.matched place stop found) = some (place, stop) := if_pos dark
      rw [pieces_of_opaque? first, spansOf_opaque first, List.filterMap_cons_some span, ih, ← rest]
    | none =>
      obtain ⟨light, front, split, code⟩ := uniform.code first matched
      have span : Stretch.span? (.matched place stop found) = none := if_neg (by simp [light])
      have reaches : stop = place + front.length := by
        simp only [stop, split, List.length_append, Nat.add_sub_cancel]
      rw [List.filterMap_cons_none span, ih, split, pieces_append_code code, spansOf_codes, reaches]
  | case2 => rw [pieces_nil, spansOf, List.filterMap_nil]
  | case3 place before c rest none ih =>
    rw [pieces_code (uniform.nothing none)]
    exact ih

end Found

/-! Strings. -/

section Opened

variable {text : List Char} {index stop : Nat} {quote : Char}

/-- The string that opens at an index ends right before `stop`, with a quote that no backslash
escapes. -/
def ClosesString (text : List Char) (quote : Char) (index stop : Nat) : Prop :=
  index + 1 < stop ∧ text[stop - 1]? = some quote ∧
    escapesNext ((text.take (stop - 1)).drop (index + 1)) = false

/-- If a block comment opens at an index, it is closed. -/
def ClosesComment (text : List Char) (index : Nat) : Prop :=
  ['/', '*'] <+: text.drop index → ['*', '/'] <:+: text.drop (index + 2)

/-- What opens at an index: the scan goes on at `stop`, and if it is closed, it is a piece of the
text. -/
structure Opened (closed : Prop) (keeps : Piece → Bool) (text : List Char) (index stop : Nat) :
    Prop where
  passes : afterOpaque? (text.drop index) = some (text.drop stop)
  after : index < stop
  within : stop ≤ text.length
  whole : closed →
    ∃ piece, keeps piece = true ∧ opaque? (text.drop index) = some (piece, text.drop stop)
  unfinished : ¬ closed → opaque? (text.drop index) = none

/-- The body of a closed string escapes nothing behind it. -/
theorem escapesNext_of_splitString? {body after : List Char}
    (h : splitString? quote text = some (body, after)) : escapesNext body = false := by
  fun_induction splitString? quote text generalizing body with
  | case1 | case2 | case5 => cases h
  | case3 c rest ih =>
    obtain ⟨⟨body', after'⟩, found, eq⟩ := Option.map_eq_some_iff.mp h
    cases eq
    rw [escapesNext_escaped]
    exact ih found
  | case4 =>
    cases h
    rfl
  | case6 c rest alone pair _ _ ih =>
    obtain ⟨⟨body', after'⟩, found, eq⟩ := Option.map_eq_some_iff.mp h
    cases eq
    rw [escapesNext_plain (ne_backslash alone pair)]
    exact ih found

/-- Where the scan stops behind a quote that nothing escapes, the string is closed. -/
theorem splitString?_of_afterString (slash : quote ≠ '\\') {body after : List Char}
    (split : text = body ++ quote :: after) (ends : afterString quote text = after)
    (even : escapesNext body = false) : splitString? quote text = some (body, after) := by
  fun_induction afterString quote text generalizing body with
  | case1 => simp at split
  | case2 =>
    cases body with
    | nil => exact absurd (List.cons.inj split).1.symm slash
    | cons d body => simp at split
  | case3 c rest ih =>
    -- A body of one backslash would escape the closing quote.
    rcases body with _ | ⟨d, _ | ⟨e, body⟩⟩
    · exact absurd (List.cons.inj split).1.symm slash
    · obtain ⟨rfl, -⟩ := List.cons.inj split
      cases even
    · simp only [List.cons_append, List.cons.injEq] at split
      obtain ⟨rfl, rfl, inner⟩ := split
      rw [escapesNext_escaped] at even
      rw [splitString?, ih inner ends even]
      rfl
  | case4 rest alone pair =>
    subst ends
    have none : body = [] := by
      have := congrArg List.length split
      simp only [List.length_cons, List.length_append] at this
      exact List.eq_nil_of_length_eq_zero (by omega)
    rw [splitString?_cons (ne_backslash alone pair), if_pos rfl, none]
  | case5 c rest =>
    subst ends
    have := congrArg List.length split
    simp only [List.length_cons, List.length_append] at this
    omega
  | case6 c rest alone pair other goes ih =>
    cases body with
    | nil => exact absurd (List.cons.inj split).1 other
    | cons d body =>
      obtain ⟨rfl, inner⟩ := List.cons.inj split
      have plain := ne_backslash alone pair
      rw [escapesNext_plain plain] at even
      rw [splitString?_cons plain, if_neg other, if_neg goes, ih inner ends even]
      rfl

/-- A suffix begins at an index. -/
theorem exists_drop {rest : List Char} (suffix : rest <:+ text.drop index)
    (shorter : rest.length < (text.drop index).length) :
    ∃ stop, rest = text.drop stop ∧ index < stop ∧ stop ≤ text.length := by
  have eq := List.suffix_iff_eq_drop.mp suffix
  rw [List.drop_drop] at eq
  rw [List.length_drop] at shorter
  refine ⟨_, eq, ?_, ?_⟩ <;> rw [List.length_drop] <;> omega

/-- The string that opens at an index, told by its quotes. -/
theorem closesString_iff (slash : quote ≠ '\\')
    (ends : afterString quote (text.drop (index + 1)) = text.drop stop) (after : index < stop)
    (within : stop ≤ text.length) : ClosesString text quote index stop ↔
      ∃ body, splitString? quote (text.drop (index + 1)) = some (body, text.drop stop) := by
  constructor
  · rintro ⟨room, last, even⟩
    refine ⟨_, splitString?_of_afterString slash ?_ ends even⟩
    have behind : text.drop (stop - 1) = quote :: text.drop stop := by
      rw [drop_of_getElem? last, Nat.sub_add_cancel (by omega)]
    rw [← behind, ← List.drop_append_of_le_length, List.take_append_drop]
    rw [List.length_take]
    omega
  · rintro ⟨body, found⟩
    have split := splitString?_append found
    have long := congrArg List.length split
    simp only [List.length_append, List.length_cons, List.length_drop] at long
    have inside : (text.take (stop - 1)).drop (index + 1) = body := by
      rw [List.drop_take, split]
      exact List.take_left' (by omega)
    have last : (text.drop (index + 1))[stop - 1 - (index + 1)]? = some quote := by
      rw [split, List.getElem?_append_right (by omega), show stop - 1 - (index + 1) - body.length = 0
        by omega]
      rfl
    rw [List.getElem?_drop, show index + 1 + (stop - 1 - (index + 1)) = stop - 1 by omega] at last
    exact ⟨by omega, last, inside ▸ escapesNext_of_splitString? found⟩

theorem string_opened (opens : text[index]? = some quote) (quoted : isQuote quote = true) :
    ∃ stop, stringEnd? text index = some stop ∧
      Opened (ClosesString text quote index stop) (Piece.isQuoted quote) text index stop ∧
      (¬ ClosesString text quote index stop →
        stop = text.length ∨ text[stop]? = some '\n') := by
  have front := drop_of_getElem? opens
  have passes : afterOpaque? (text.drop index) =
      some (afterString quote (text.drop (index + 1))) := by
    rw [front, afterOpaque?_quote quoted]
  obtain ⟨stop, ends, after, within⟩ :=
    exists_drop (afterOpaque?_suffix passes) (afterOpaque?_length_lt passes)
  have closes := closesString_iff (ne_of_isQuote quoted).1 ends after within
  have piece : opaque? (text.drop index) = _ := (congrArg opaque? front).trans
    (opaque?_quote quoted _)
  have unfinished (open_ : ¬ ClosesString text quote index stop) :
      splitString? quote (text.drop (index + 1)) = none := by
    refine Option.eq_none_iff_forall_ne_some.mpr fun (body, rest) found => open_ (closes.mpr ⟨body, ?_⟩)
    rw [found, ← ends, afterString_of_splitString? found]
  refine ⟨stop, ?_, ⟨ends ▸ passes, after, within, fun closed => ?_, fun open_ => ?_⟩, fun open_ => ?_⟩
  · rw [stringEnd?, front]
    simp only [ends, List.length_drop]
    congr 1
    omega
  · obtain ⟨body, found⟩ := closes.mp closed
    exact ⟨.quoted quote body, beq_self_eq_true quote, by rw [piece, found]; rfl⟩
  · rw [piece, unfinished open_]
    rfl
  · obtain ⟨inside, -, ⟨ended, -⟩ | ⟨rest, line, -⟩⟩ := splitString?_open (unfinished open_)
    · rw [ends, List.drop_eq_nil_iff] at ended
      exact .inl (Nat.le_antisymm within ended)
    · right
      rw [ends] at line
      simpa using congrArg List.head? line

/-! Comments. -/

theorem splitBlockComment?_open (h : splitBlockComment? text = none) :
    ¬ ['*', '/'] <:+: text ∧ afterBlockComment text = [] := by
  fun_induction splitBlockComment? text with
  | case1 => exact ⟨by simp, rfl⟩
  | case2 => cases h
  | case3 c rest pair ih =>
    obtain ⟨none, ends⟩ := ih (Option.map_eq_none_iff.mp h)
    refine ⟨fun among => ?_, ?_⟩
    · rcases List.infix_cons_iff.mp among with ⟨tail, front⟩ | later
      · obtain ⟨rfl, slash⟩ := List.cons.inj front
        exact pair tail rfl slash.symm
      · exact none later
    · rw [afterBlockComment]
      · exact ends
      · exact pair

theorem opaque?_block (text : List Char) :
    opaque? ('/' :: '*' :: text) =
      (splitBlockComment? text).map fun (body, after) => (.blockComment body, after) := rfl

/-- A comment opens at an index. -/
def OpensComment (text : List Char) (index : Nat) : Prop :=
  ['/', '/'] <+: text.drop index ∨ ['/', '*'] <+: text.drop index

/-- A piece that opens at an index. -/
theorem opened_of_piece {closed : Prop} (keeps : Piece → Bool) {piece : Piece} {rest : List Char}
    (found : opaque? (text.drop index) = some (piece, rest)) (kept : keeps piece = true)
    (whole : closed) : ∃ stop, Opened closed keeps text index stop := by
  have passes := afterOpaque?_of_opaque? found
  obtain ⟨stop, ends, after, within⟩ :=
    exists_drop (afterOpaque?_suffix passes) (afterOpaque?_length_lt passes)
  exact ⟨stop, ends ▸ passes, after, within, fun _ => ⟨piece, kept, ends ▸ found⟩,
    fun open_ => absurd whole open_⟩

theorem comment_opened (opens : OpensComment text index) :
    ∃ stop, Opened (ClosesComment text index) Piece.isComment text index stop ∧
      (¬ ClosesComment text index → stop = text.length) := by
  rcases opens with ⟨tail, front⟩ | ⟨tail, front⟩
  · have piece : opaque? (text.drop index) = some (.lineComment (tail.takeWhile (· != '\n')),
        tail.dropWhile (· != '\n')) := by
      rw [← front]
      rfl
    have closed : ClosesComment text index := by
      rintro ⟨other, block⟩
      rw [← front] at block
      cases block
    obtain ⟨stop, opened⟩ := opened_of_piece Piece.isComment piece rfl closed
    exact ⟨stop, opened, fun open_ => absurd closed open_⟩
  · have piece : opaque? (text.drop index) = _ :=
      (congrArg opaque? front.symm).trans (opaque?_block tail)
    have behind : text.drop (index + 2) = tail := by
      rw [← List.drop_drop, ← front]
      rfl
    cases found : splitBlockComment? tail with
    | some found' =>
      obtain ⟨body, rest⟩ := found'
      rw [found] at piece
      have closed : ClosesComment text index := fun _ => by
        rw [behind, splitBlockComment?_append found]
        exact ⟨body, rest, by simp⟩
      obtain ⟨stop, opened⟩ := opened_of_piece Piece.isComment piece rfl closed
      exact ⟨stop, opened, fun open_ => absurd closed open_⟩
    | none =>
      obtain ⟨none, ended⟩ := splitBlockComment?_open found
      have open_ : ¬ ClosesComment text index := fun closed => by
        have inside := closed ⟨tail, front⟩
        rw [behind] at inside
        exact none inside
      have passes : afterOpaque? (text.drop index) = some (text.drop text.length) := by
        rw [← front, List.drop_length]
        exact congrArg some ended
      have room : index < text.length := by
        have := congrArg List.length front
        rw [List.length_drop, List.length_append] at this
        simp only [List.length_cons] at this
        omega
      rw [found] at piece
      exact ⟨text.length, ⟨passes, room, le_rfl, fun closed => absurd closed open_, fun _ => piece⟩,
        fun _ => rfl⟩

/-! The same strings and comments for the scan and for the steps. -/

/-- The string or block comment that reaches from one index to the other is closed. -/
def ClosedAt (text : List Char) (span : Nat × Nat) : Prop :=
  (∀ quote, text[span.1]? = some quote → isQuote quote = true →
    ClosesString text quote span.1 span.2) ∧ ClosesComment text span.1

/-- Every string and block comment that the scan passes over in a text is closed. -/
def Terminated (text : List Char) : Prop :=
  ∀ span ∈ passed 0 text, ClosedAt text span

/-- Where the scan stands at an index, it passes over what stands between there and `stop`, and a
pattern matches just that, exactly if it is closed. -/
structure AgreesAt (p : Pattern) (closed : Prop) (text : List Char) (index stop : Nat) : Prop where
  after : index < stop
  within : stop ≤ text.length
  resumes (opening closing : Char) (depth : Nat) :
    closeScan opening closing depth index (text.drop index) =
      ((index, stop) :: (closeScan opening closing depth stop (text.drop stop)).1,
        (closeScan opening closing depth stop (text.drop stop)).2)
  matched (other : Nat) : p.end? text index = some other ↔ closed ∧ other = stop

/-- A step is a search by rules, which find in a text what the scan passes over: the whole text,
and the part between an opening bracket and the closing one. -/
structure SpansAgree (text : List Char) (step : List Char → List Char) (rules : List Rule) :
    Prop where
  searches (other : List Char) : step other = rewriteBy rules other
  whole : spansBy rules text = passed 0 text
  inside (index : Nat) (opening closing : Char) (code : (index, opening) ∈ codeFrom 0 text)
    (pair : closing? opening = some closing) :
    closingIndex text index = .ok (bracketScan opening closing text index).2 ∧
      (bracketScan opening closing text index).1 = (spansBy rules text).filter fun span =>
        index < span.1 && (bracketScan opening closing text index).2.all (span.1 < ·)

theorem Pattern.Finds.end? {p : Pattern} {keeps : Piece → Bool} (h : p.Finds keeps)
    (text : List Char) (index : Nat) : p.end? text index =
      ((opaque? (text.drop index)).filter fun found => keeps found.1).map fun (_, rest) =>
        text.length - rest.length := by
  rw [Pattern.end?, h, Option.map_map]
  rfl

theorem length_drop_sub (after : index < stop) (within : stop ≤ text.length) :
    index + ((text.drop index).length - (text.drop stop).length) = stop := by
  rw [List.length_drop, List.length_drop]
  omega

theorem Opened.agreesAt {closed : Prop} {keeps : Piece → Bool} {p : Pattern}
    (h : Opened closed keeps text index stop) (finds : p.Finds keeps) :
    AgreesAt p closed text index stop where
  after := h.after
  within := h.within
  resumes opening closing depth := by
    rw [closeScan_of_afterOpaque? h.passes, length_drop_sub h.after h.within]
  matched other := by
    rw [finds.end?]
    by_cases whole : closed
    · obtain ⟨piece, kept, found⟩ := h.whole whole
      have stops : text.length - (text.drop stop).length = stop := by
        rw [List.length_drop]
        exact Nat.sub_sub_self h.within
      rw [found, Option.filter_some, if_pos kept]
      change some (text.length - (text.drop stop).length) = some other ↔ closed ∧ other = stop
      rw [stops, Option.some.injEq]
      exact ⟨fun same => ⟨whole, same.symm⟩, fun both => both.2.symm⟩
    · rw [h.unfinished whole]
      simp [whole]

/-- Whatever the scan passes over opens as a string or as a comment. -/
theorem opens_of_afterOpaque? {rest : List Char} (h : afterOpaque? (text.drop index) = some rest) :
    (∃ quote, text[index]? = some quote ∧ isQuote quote = true) ∨ OpensComment text index := by
  have head : text[index]? = (text.drop index).head? := by rw [List.head?_drop]
  unfold afterOpaque? at h
  split at h
  · rename_i tail front
    exact .inr (.inl ⟨tail, front.symm⟩)
  · rename_i tail front
    exact .inr (.inr ⟨tail, front.symm⟩)
  · rename_i c tail _ _ front
    split at h
    · rename_i quoted
      exact .inl ⟨c, by rw [head, front]; rfl, quoted⟩
    · cases h
  · cases h

/-- What the scan passes over is a piece of the text, if it is closed. -/
theorem exists_piece {rest : List Char} (passes : afterOpaque? (text.drop index) = some rest)
    (closed : ClosedAt text (index, index + ((text.drop index).length - rest.length))) :
    ∃ stop piece, index < stop ∧ stop ≤ text.length ∧ rest = text.drop stop ∧
      opaque? (text.drop index) = some (piece, text.drop stop) := by
  have reaches {now : Prop} {keeps : Piece → Bool} {stop : Nat}
      (opened : Opened now keeps text index stop) : rest = text.drop stop ∧
        index + ((text.drop index).length - rest.length) = stop := by
    have same := Option.some.inj (passes.symm.trans opened.passes)
    exact ⟨same, same ▸ length_drop_sub opened.after opened.within⟩
  rcases opens_of_afterOpaque? passes with ⟨quote, opens, quoted⟩ | opens
  · obtain ⟨stop, -, opened, -⟩ := string_opened opens quoted
    obtain ⟨same, stops⟩ := reaches opened
    obtain ⟨piece, -, found⟩ := opened.whole (stops ▸ closed.1 quote opens quoted)
    exact ⟨stop, piece, opened.after, opened.within, same, found⟩
  · obtain ⟨stop, opened, -⟩ := comment_opened opens
    obtain ⟨piece, -, found⟩ := opened.whole closed.2
    exact ⟨stop, piece, opened.after, opened.within, (reaches opened).1, found⟩

/-- The scan passes over the pieces that are strings and comments, if each is closed. -/
theorem passed_pieces (text : List Char) (index : Nat)
    (closed : ∀ span ∈ passed index (text.drop index), ClosedAt text span) :
    passed index (text.drop index) = spansOf index (pieces (text.drop index)) := by
  -- The text stays whole, since what is closed is told by its indices; the place moves on.
  induction size : text.length - index using Nat.strong_induction_on generalizing index with
  | _ n ih =>
    cases passes : afterOpaque? (text.drop index) with
    | some rest =>
      rw [passed_of_afterOpaque? passes] at closed ⊢
      obtain ⟨stop, piece, after, within, rfl, found⟩ :=
        exists_piece passes (closed _ List.mem_cons_self)
      rw [length_drop_sub after within] at closed ⊢
      rw [pieces_of_opaque? found, spansOf_opaque found, length_drop_sub after within,
        ih _ (by omega) stop (fun span mem => closed span (List.mem_cons_of_mem _ mem)) rfl]
    | none =>
      have nothing : opaque? (text.drop index) = none :=
        Option.eq_none_iff_forall_ne_some.mpr fun found there => by
          rw [afterOpaque?_of_opaque? there] at passes
          cases passes
      cases left : text.drop index with
      | nil =>
        rw [passed_nil, pieces_nil]
        rfl
      | cons c rest =>
        have behind : rest = text.drop (index + 1) := by
          rw [← List.drop_drop, left]
          rfl
        have inside : index < text.length := by
          have := congrArg List.length left
          rw [List.length_drop, List.length_cons] at this
          omega
        rw [left] at passes nothing closed
        rw [passed_cons passes, behind] at closed ⊢
        rw [← behind, pieces_code nothing, behind, ih _ (by omega) (index + 1) closed rfl]
        rfl

theorem terminated_pieces (closed : Terminated text) : passed 0 text = spansOf 0 (pieces text) :=
  passed_pieces text 0 closed

theorem Terminated.spansAgree (closed : Terminated text) {step : List Char → List Char}
    {rules : List Rule} (h : (step, rules) ∈ stepRules) : SpansAgree text step rules := by
  obtain ⟨searches, rewritten, uniform⟩ := step_rules h
  have whole : spansBy rules text = passed 0 text :=
    (spans_pieces uniform 0 ⟨none, text⟩).trans (terminated_pieces closed).symm
  refine ⟨searches, whole, fun index opening closing code pair => ?_⟩
  have behind := passed_behind code
  rw [Nat.sub_zero] at behind
  have opens : text[index]? = some opening := getElem?_of_mem_code (by rwa [List.drop_zero])
  refine ⟨bracketScan_found opens pair, ?_⟩
  rw [bracketScan, closeScan_passed, ← behind, List.filter_filter, whole]
  simp only [Bool.and_comm]

/-- Strings and comments are the same for the scan and for the patterns. A string is matched exactly
if the scan stops behind its closing quote, and a comment exactly if it is a line comment or closed,
each as far as the scan passes over it; where a string is not closed, the scan goes on at a line
feed or at the end, and where a comment is not, at the end. So in a text where all are closed, each
step but the first finds the strings and comments that the scan passes over. -/
theorem scan_agrees_with_patterns (text : List Char) :
    (∀ index quote, text[index]? = some quote → isQuote quote = true →
      ∃ stop, stringEnd? text index = some stop ∧
        AgreesAt (string quote) (ClosesString text quote index stop) text index stop ∧
        (¬ ClosesString text quote index stop →
          stop = text.length ∨ text[stop]? = some '\n')) ∧
    (∀ index, OpensComment text index →
      ∃ stop, AgreesAt comment (ClosesComment text index) text index stop ∧
        (¬ ClosesComment text index → stop = text.length)) ∧
    normalSteps = resolveInterpolations :: stepRules.map Prod.fst ∧
    (Terminated text →
      ∀ step rules, (step, rules) ∈ stepRules → SpansAgree text step rules) := by
  refine ⟨fun index quote opens quoted => ?_, fun index opens => ?_, normalSteps_eq,
    fun closed step rules h => closed.spansAgree h⟩
  · obtain ⟨stop, scanned, opened, open_⟩ := string_opened opens quoted
    exact ⟨stop, scanned, opened.agreesAt (finds_string quoted), open_⟩
  · obtain ⟨stop, opened, open_⟩ := comment_opened opens
    exact ⟨stop, opened.agreesAt finds_comment, open_⟩

end Opened

theorem scan_agrees_with_patterns_closed :
    let text := "\x7ba: 'b\\'c', /* d */\x7d".toList
    Terminated text ∧ passed 0 text = [(4, 10), (12, 19)] ∧
      (∃ stop, stringEnd? text 4 = some stop ∧
        AgreesAt (string '\'') (ClosesString text '\'' 4 stop) text 4 stop) ∧
      (∃ stop, AgreesAt comment (ClosesComment text 12) text 12 stop) ∧
      SpansAgree text quoteKeys Rule.forKeys := by
  intro text
  have spans : passed 0 text = [(4, 10), (12, 19)] := by decide +kernel
  have closed : Terminated text := by
    intro span mem
    rw [spans] at mem
    simp only [List.mem_cons, List.not_mem_nil, or_false] at mem
    rcases mem with rfl | rfl
    · refine ⟨fun quote opens quoted => ?_, fun block => ?_⟩
      · obtain rfl : quote = '\'' := Option.some.inj (opens.symm.trans (by decide +kernel))
        exact ⟨by decide, by decide +kernel, by decide +kernel⟩
      · exact absurd block (by decide +kernel)
    · refine ⟨fun quote opens quoted => ?_, fun block => ?_⟩
      · obtain rfl : quote = '/' := Option.some.inj (opens.symm.trans (by decide +kernel))
        cases quoted
      · decide +kernel
  obtain ⟨strings, comments, -, steps⟩ := scan_agrees_with_patterns text
  obtain ⟨stop, scanned, agrees, -⟩ := strings 4 '\'' (by decide +kernel) rfl
  obtain ⟨stop', agrees', -⟩ := comments 12 (.inr (by decide +kernel))
  exact ⟨closed, spans, ⟨stop, scanned, agrees⟩, ⟨stop', agrees'⟩,
    steps closed _ _ List.mem_cons_self⟩

end ThemeSheet.Literal
