import ThemeSheet.Files.GuardedWrite
import ThemeSheet.Proofs.CyclePipeline

/-! What a write comes to on a system that may refuse each of its steps. -/

namespace ThemeSheet

namespace Text

theorem isSurrogate_codePoint (c : Char) : (codePoint c).isSurrogate = false := by
  have valid := c.valid
  have value : (codePoint c).val = c.val.toNat := rfl
  simp only [UInt32.isValidChar, Nat.isValidChar] at valid
  simp only [CodePoint.isSurrogate, isHighSurrogate, isLowSurrogate, value, Bool.or_eq_false_iff,
    Bool.and_eq_false_iff, decide_eq_false_iff_not]
  omega

theorem ofNat_codePoint (c : Char) : Char.ofNat (codePoint c) = c :=
  Char.ofNat_toNat c

theorem codePoint_ofNat {point : CodePoint} (h : point.isSurrogate = false) :
    codePoint (Char.ofNat point) = point := by
  have valid : point.val.isValidChar := by
    have := point.isLt
    simp only [CodePoint.isSurrogate, isHighSurrogate, isLowSurrogate, Bool.or_eq_false_iff,
      Bool.and_eq_false_iff, decide_eq_false_iff_not] at h
    unfold Nat.isValidChar
    omega
  apply Fin.ext
  rw [Char.ofNat, dif_pos valid]
  rfl

theorem encodePointsAt_eq_ok {position : Nat} {text : List CodePoint} {bytes : List UInt8} :
    encodePointsAt position text = .ok bytes ↔
      ∃ chars, text = chars.map codePoint ∧ bytes = encodeUtf8 chars := by
  induction text generalizing position bytes with
  | nil =>
    constructor
    · intro h
      cases h
      exact ⟨[], rfl, rfl⟩
    · rintro ⟨chars, none, rfl⟩
      rw [List.map_eq_nil_iff.mp none.symm]
      rfl
  | cons point rest ih =>
    rw [encodePointsAt]
    cases surrogate : point.isSurrogate with
    | true =>
      constructor
      · intro h
        cases h
      · rintro ⟨chars, whole, -⟩
        obtain ⟨c, -, rfl⟩ := List.mem_map.mp (whole ▸ List.mem_cons_self)
        rw [isSurrogate_codePoint] at surrogate
        cases surrogate
    | false =>
      rw [if_neg Bool.false_ne_true]
      constructor
      · intro h
        cases coded : encodePointsAt (position + 1) rest with
        | error => simp [coded, Except.map] at h
        | ok tail =>
          obtain ⟨chars, rfl, rfl⟩ := ih.mp coded
          simp only [coded, Except.map, Except.ok.injEq] at h
          refine ⟨Char.ofNat point :: chars, ?_, ?_⟩
          · rw [List.map_cons, codePoint_ofNat surrogate]
          · rw [← h, encodeUtf8, encodeUtf8, List.flatMap_cons]
      · rintro ⟨chars, whole, rfl⟩
        cases chars with
        | nil => cases whole
        | cons c chars =>
          obtain ⟨rfl, rfl⟩ := List.cons.inj whole
          rw [ih.mpr ⟨chars, rfl, rfl⟩, ofNat_codePoint]
          simp [Except.map, encodeUtf8]

/-- Bytes stand for a text if it is made of characters alone. -/
theorem encodePoints_eq_ok {text : List CodePoint} {bytes : List UInt8} :
    encodePoints text = .ok bytes ↔
      ∃ chars, text = chars.map codePoint ∧ bytes = encodeUtf8 chars :=
  encodePointsAt_eq_ok

end Text

namespace Files

open Text

variable {fs : Files} {cwd : List String} {path : Path} {refusals : Refusals}

/-! On a system that refuses nothing it is the write that runs. -/

theorem tryDirectory_none (fs : Files) (cwd : List String) (path : Path) :
    fs.tryDirectory .none cwd path = fs.makeDirectory cwd path := rfl

theorem prepare_none (fs : Files) (cwd : List String) (path : Path) :
    fs.prepare .none cwd path = fs.makeDirectories cwd path := by
  fun_induction makeDirectories fs cwd path with
  | case1 path nul => rw [prepare, if_pos nul]
  | case2 path nul made h => rw [prepare, if_neg nul, tryDirectory_none, h]
  | case3 path nul h root => rw [prepare, if_neg nul, tryDirectory_none, h]; simp [root]
  | case4 path nul h inner _ above error failed ih =>
    rw [prepare, if_neg nul, tryDirectory_none, h]
    simp [inner, ih, above, failed]
  | case5 path nul h inner _ above failed made again ih =>
    rw [prepare, if_neg nul, tryDirectory_none, h]
    simp [inner, ih, above, failed, tryDirectory_none, again]
  | case6 path nul h inner _ above failed errno again there ih
  | case7 path nul h inner _ above failed errno again there ih =>
    rw [prepare, if_neg nul, tryDirectory_none, h]
    simp [inner, ih, above, failed, tryDirectory_none, again, there]
  | case8 path nul errno other h there
  | case9 path nul errno other h there =>
    rw [prepare, if_neg nul, tryDirectory_none, h]
    simp [there]

/-- A text of characters is written as `writeAtomic` writes it. -/
theorem save_none (fs : Files) (cwd : List String) (path : Path) (text : String) :
    fs.save .none cwd path (text.toList.map codePoint) =
      ⟨(fs.writeAtomic cwd path text).states, (fs.writeAtomic cwd path text).error.map .file⟩ := by
  have coded : encodePoints (text.toList.map codePoint) = .ok (encodeUtf8 text.toList) :=
    encodePoints_eq_ok.mpr ⟨_, rfl, rfl⟩
  rw [save, writeAtomic, prepare_none]
  generalize fs.makeDirectories cwd path.parent = made
  cases made.error with
  | some error => rfl
  | none =>
    simp only [createTemporary]
    by_cases nul : (temporaryPath (made.files fs) cwd path).holdsNul = true
    · simp [nul]
    · cases found : (made.files fs).place false cwd (temporaryPath (made.files fs) cwd path) with
      | error errno => simp [nul, Refusals.none]
      | ok place =>
        simp only [nul, Refusals.none, fill, coded, grow, tryReplace, Attempt.files,
          List.head?_nil, Option.getD_none, List.head?_cons, Option.getD_some,
          Bool.false_eq_true, if_false]
        generalize Files.replace _ cwd _ path = moved
        cases moved <;> rfl

/-! Directories on the way. -/

/-- What a tree has become in which directories were made that a path needs: nothing that was there
has changed, and what is new is a directory that a front of the path leads to. -/
structure Prepared (cwd : List String) (path : Path) (before after : Files) : Prop where
  rooted : Rooted after.seen
  kept : ∀ parts, before.seen parts ≠ none → after.seen parts = before.seen parts
  new : ∀ parts, before.seen parts = none → after.seen parts ≠ none →
    after.seen parts = some (.directory 0) ∧
      ∃ front, front <+: path.parts ∧ after.Reaches false cwd { path with parts := front } parts

/-- A path starts in a directory, wherever that is. -/
theorem inside_start (inside : fs.seen cwd = some (.directory 0)) :
    fs.seen (if path.isAbsolute then [] else cwd) = some (.directory 0) := by
  split
  · exact seen_nil fs
  · exact inside

namespace Prepared

variable {before mid after : Files}

theorem refl (cwd : List String) (path : Path) (rooted : Rooted fs.seen) :
    Prepared cwd path fs fs :=
  ⟨rooted, fun _ _ => rfl, fun _ missing there => absurd missing there⟩

theorem of_parent (h : Prepared cwd path.parent before after) : Prepared cwd path before after :=
  { h with
    new := fun parts missing there => by
      obtain ⟨directory, front, first, way⟩ := h.new parts missing there
      exact ⟨directory, front, first.trans (List.dropLast_prefix _), way⟩ }

/-- What is seen afterwards is all that counts. -/
theorem congr (h : Prepared cwd path before mid) (same : after.seen = mid.seen) :
    Prepared cwd path before after := by
  obtain ⟨rooted, kept, new⟩ := h
  simp only [Reaches, ← same] at rooted kept new
  exact ⟨rooted, kept, new⟩

theorem inside (h : Prepared cwd path before after)
    (inside : before.seen cwd = some (.directory 0)) : after.seen cwd = some (.directory 0) := by
  rw [h.kept cwd (by simp [inside]), inside]

/-- One directory more. -/
theorem step (h : Prepared cwd path before mid) (inside : before.seen cwd = some (.directory 0))
    (made : mid.makeDirectory cwd path = .ok after) : Prepared cwd path before after := by
  obtain ⟨place, inner, reaches, nothing, rfl⟩ := makeDirectory_eq_ok made
  have seen := seen_put mid inner (.directory mid.freshStamp)
  have kept {parts : List String} (there : mid.seen parts ≠ none) :
      (mid.put place (.directory mid.freshStamp)).seen parts = mid.seen parts := by
    rw [seen, if_neg]
    rintro rfl
    exact there nothing
  have carried {path : Path} {place' : List String} (way : mid.Reaches false cwd path place') :
      (mid.put place (.directory mid.freshStamp)).Reaches false cwd path place' :=
    way.carry (fun parts node there _ => by rw [kept (by simp [there]), there]) (.inl rfl)
  have above := reaches.2.in_directory h.rooted (inside_start (h.inside inside))
  refine ⟨h.rooted.put nothing above _, ?_, ?_⟩
  · intro parts there
    have same := h.kept parts there
    rw [kept (same ▸ there), same]
  · intro parts missing there
    by_cases at_place : parts = place
    · rw [at_place]
      exact ⟨by rw [seen, if_pos rfl]; rfl, path.parts, List.prefix_refl _, carried reaches⟩
    · rw [seen, if_neg at_place] at there ⊢
      obtain ⟨directory, front, first, way⟩ := h.new parts missing there
      exact ⟨directory, front, first, carried way⟩

end Prepared

theorem makeDirectory_of_tryDirectory {made : Files}
    (h : fs.tryDirectory refusals cwd path = .ok made) : fs.makeDirectory cwd path = .ok made := by
  rw [tryDirectory] at h
  split at h
  · cases h
  · exact h

theorem last_mem (before : Files) (states : List Files) :
    states.head?.getD before ∈ before :: states := by
  cases states with
  | nil => exact List.mem_cons_self
  | cons state states => exact List.mem_cons_of_mem _ List.mem_cons_self

/-- Each state on the way has nothing but directories more, whether all of them come or not. -/
theorem prepared_prepare (refusals : Refusals) (path : Path) (rooted : Rooted fs.seen)
    (inside : fs.seen cwd = some (.directory 0)) :
    ∀ state ∈ fs :: (fs.prepare refusals cwd path).states, Prepared cwd path fs state := by
  have still (path : Path) : ∀ state ∈ [fs], Prepared cwd path fs state := by
    intro state there
    rw [List.mem_singleton.mp there]
    exact .refl cwd path rooted
  fun_induction prepare refusals fs cwd path with
  | case2 path _ made h =>
    intro state there
    rcases List.mem_cons.mp there with rfl | there
    · exact .refl cwd path rooted
    · rw [List.mem_singleton.mp there]
      exact (Prepared.refl cwd path rooted).step inside (makeDirectory_of_tryDirectory h)
  | case4 path _ _ _ _ above error h ih => exact fun state there => (ih state there).of_parent
  | case5 path _ _ _ _ above h made again ih =>
    have last := (ih _ (last_mem fs above.states)).of_parent
    intro state there
    rcases List.mem_cons.mp there with rfl | there
    · exact .refl cwd path rooted
    · rcases List.mem_cons.mp there with rfl | there
      · exact last.step inside (makeDirectory_of_tryDirectory again)
      · exact (ih state (List.mem_cons_of_mem _ there)).of_parent
  | case6 path _ _ _ _ above h errno again there ih
  | case7 path _ _ _ _ above h errno again there ih =>
    exact fun state there => (ih state there).of_parent
  | case1 path | case3 path | case8 path | case9 path => exact still path

/-- No fault of a directory is one that nobody expects. -/
theorem isExpected_of_prepare {error : FileError}
    (h : (fs.prepare refusals cwd path).error = some error) :
    (WriteFault.file error).isExpected = true := by
  fun_induction prepare refusals fs cwd path with
  | case4 path _ _ _ _ above error' failed ih => exact ih (failed.trans h)
  | case6 path _ _ _ _ above failed errno again there ih => exact ih h
  | case2 | case5 | case8 => cases h
  | case1 | case3 | case7 | case9 =>
    cases h
    rfl

/-! The temporary file. -/

/-- A tree that shows a file at one place, and everywhere else what another tree shows. -/
def ShowsFile (before : Files) (place : List String) (bytes : List UInt8) (after : Files) : Prop :=
  ∃ stamp, ∀ parts, after.seen parts =
    if parts = place then some (.file bytes false stamp) else before.seen parts

/-- A place at which nothing is and that a path does not lead to. -/
def Aside (fs : Files) (cwd : List String) (path : Path) (place : List String) : Prop :=
  fs.seen place = none ∧ ¬ fs.Reaches false cwd path place

theorem Aside.inner {place : List String} (aside : fs.Aside cwd path place) : place ≠ [] := by
  rintro rfl
  simpa using aside.1

section
variable {place : List String} {bytes : List UInt8} {mid : Files}

theorem showsFile_put (inner : place ≠ []) (bytes : List UInt8) (stamp : Stamp) :
    fs.ShowsFile place bytes (fs.put place (.file bytes false stamp)) :=
  ⟨stamp, seen_put fs inner _⟩

theorem ShowsFile.put (shown : fs.ShowsFile place bytes mid) (inner : place ≠ [])
    (content : List UInt8) (stamp : Stamp) :
    fs.ShowsFile place content (mid.put place (.file content false stamp)) := by
  obtain ⟨_, seen⟩ := shown
  refine ⟨stamp, fun parts => ?_⟩
  rw [seen_put mid inner, seen]
  split <;> rfl

theorem ShowsFile.erase (shown : fs.ShowsFile place bytes mid) (rooted : Rooted fs.seen)
    (missing : fs.seen place = none) : (mid.eraseTree place).seen = fs.seen := by
  obtain ⟨_, seen⟩ := shown
  exact seen_eraseTree_of_missing rooted missing seen

/-- The file leads nobody anywhere: each way there was one before. -/
theorem ShowsFile.reaches (shown : fs.ShowsFile place bytes mid) {goal : List String}
    (way : mid.Reaches false cwd path goal) : fs.Reaches false cwd path goal := by
  obtain ⟨stamp, seen⟩ := shown
  exact way.without_file seen

/-- It takes the place of nothing that is on a way, either. -/
theorem ShowsFile.carries (shown : fs.ShowsFile place bytes mid) (missing : fs.seen place = none)
    {goal : List String} (way : fs.Reaches false cwd path goal) :
    mid.Reaches false cwd path goal := by
  obtain ⟨stamp, seen⟩ := shown
  exact way.with_file missing seen

end

/-- Some bytes are there already, or none. -/
def ShowsPart (before : Files) (place : List String) (after : Files) : Prop :=
  ∃ bytes, before.ShowsFile place bytes after

theorem isExpected_of_createTemporary {temporary : Path} {error : FileError}
    (h : fs.createTemporary refusals cwd temporary = .error error) :
    (WriteFault.file error).isExpected = true := by
  rw [createTemporary] at h
  split at h
  · cases h
    rfl
  · split at h <;> cases h <;> rfl

/-- The temporary file is made where nothing is, and not where the path leads. -/
theorem aside_temporary (rooted : Rooted fs.seen) (inside : fs.seen cwd = some (.directory 0))
    {place : List String} (found : fs.Reaches false cwd (fs.temporaryPath cwd path) place) :
    fs.Aside cwd path place := by
  obtain ⟨name, last, apart⟩ := temporary_named rooted found
  have missing : fs.seen place = none := temporary_missing rooted found.place_eq
  refine ⟨missing, fun reaches => ?_⟩
  rcases reaches.2.there_or_named rooted (inside_start inside) with there | named
  · exact there missing
  · rw [last] at named
    apply apart
    rw [Path.name, ← named, Option.getD_some]

theorem createTemporary_eq_ok {temporary : Path} {place : List String} {created : Files} :
    fs.createTemporary refusals cwd temporary = .ok (place, created) ↔
      (temporary.holdsNul = false ∧ refusals.creation = none) ∧
        fs.Reaches false cwd temporary place ∧
        created = fs.put place (.file [] false fs.freshStamp) := by
  constructor
  · intro h
    rw [createTemporary] at h
    split at h
    · cases h
    · rename_i whole
      split at h
      · cases h
      · cases h
      · rename_i allowed found
        cases h
        exact ⟨⟨Bool.eq_false_iff.mpr whole, allowed⟩, (place_eq_ok.mp found).1, rfl⟩
  · rintro ⟨⟨whole, allowed⟩, reaches, rfl⟩
    simp [createTemporary, whole, allowed, reaches.place_eq]

/-- At each size the file has some of its bytes. -/
theorem shown_grow {place : List String} {created : Files} (bytes : List UInt8)
    (inner : place ≠ []) (states : List Files) (sizes : List Nat)
    (shown : ∀ state ∈ created :: states, fs.ShowsPart place state) :
    ∀ state ∈ created :: created.grow place bytes states sizes, fs.ShowsPart place state := by
  induction sizes generalizing states with
  | nil => exact shown
  | cons size sizes ih =>
    rw [grow]
    apply ih
    intro state there
    obtain ⟨_, last⟩ := shown _ (last_mem created states)
    rcases List.mem_cons.mp there with rfl | there
    · exact shown _ List.mem_cons_self
    · rcases List.mem_cons.mp there with rfl | there
      · exact ⟨_, last.put inner _ _⟩
      · exact shown _ (List.mem_cons_of_mem _ there)

/-- What filling the temporary file comes to: there is some of the text all the time and, if nothing
goes wrong, all of it at the end. -/
theorem shown_fill {place : List String} {created : Files} (refusals : Refusals)
    (text : List CodePoint) (inner : place ≠ [])
    (shown : fs.ShowsFile place [] created) :
    let filling := created.fill refusals place text
    (∀ state ∈ created :: filling.states, fs.ShowsPart place state) ∧
      (∀ fault, filling.fault = some fault → fault.isExpected = true) ∧
      (filling.fault = none → ∃ chars, text = chars.map codePoint ∧
        fs.ShowsFile place (encodeUtf8 chars) (filling.files created)) := by
  have start : ∀ state ∈ [created], fs.ShowsPart place state := by
    intro state there
    rw [List.mem_singleton.mp there]
    exact ⟨[], shown⟩
  rw [fill]
  cases coded : encodePoints text with
  | error error =>
    refine ⟨start, fun fault h => ?_, fun h => (by cases h)⟩
    cases h
    rfl
  | ok bytes =>
    have grown := shown_grow bytes inner [] refusals.sizes start
    cases refusals.writing with
    | some errno =>
      refine ⟨grown, fun fault h => ?_, fun h => (by cases h)⟩
      cases h
      rfl
    | none =>
      obtain ⟨_, last⟩ := grown _ (last_mem created _)
      have full := fun stamp => last.put inner bytes stamp
      refine ⟨fun state there => ?_, fun fault h => (by cases h), fun _ => ?_⟩
      · rcases List.mem_cons.mp there with rfl | there
        · exact ⟨[], shown⟩
        · rcases List.mem_cons.mp there with rfl | there
          · exact ⟨bytes, full _⟩
          · exact grown state (List.mem_cons_of_mem _ there)
      · obtain ⟨chars, rfl, rfl⟩ := encodePoints_eq_ok.mp coded
        exact ⟨chars, rfl, full _⟩

/-- All of a text is written if it has bytes and the system takes them. -/
theorem fill_fault_eq_none {created : Files} {place : List String} {text : List CodePoint} :
    (created.fill refusals place text).fault = none ↔
      (∃ chars : List Char, text = chars.map codePoint) ∧ refusals.writing = none := by
  rw [fill]
  cases coded : encodePoints text with
  | error error =>
    constructor
    · intro h
      cases h
    · rintro ⟨⟨chars, rfl⟩, -⟩
      rw [encodePoints_eq_ok.mpr ⟨chars, rfl, rfl⟩] at coded
      cases coded
  | ok bytes =>
    obtain ⟨chars, same, -⟩ := encodePoints_eq_ok.mp coded
    cases refusals.writing with
    | some errno => simp
    | none => simp [same]

theorem tryReplace_eq_ok {temporary : Path} {replaced : Files} :
    fs.tryReplace refusals cwd temporary path = .ok replaced ↔
      refusals.move = none ∧ fs.replace cwd temporary path = .ok replaced := by
  rw [tryReplace]
  cases refusals.move <;> simp

/-- The temporary file can be moved to each path that names a place of its own and no directory. -/
theorem exists_replace (rooted : Rooted fs.seen) (inside : fs.seen cwd = some (.directory 0))
    {place : List String} {bytes : List UInt8} {filled : Files}
    (found : fs.Reaches false cwd (fs.temporaryPath cwd path) place)
    (shown : fs.ShowsFile place bytes filled) :
    (∃ replaced, filled.replace cwd (fs.temporaryPath cwd path) path = .ok replaced) ↔
      (path.parts ≠ [] ∧ path.name ≠ "..") ∧ ∃ goal, fs.Reaches false cwd path goal ∧
        ∀ stamp, fs.seen goal ≠ some (.directory stamp) := by
  have missing := (aside_temporary rooted inside found).1
  constructor
  · rintro ⟨replaced, moved⟩
    obtain ⟨name, last, apart⟩ := temporary_named rooted found
    obtain ⟨stamp, seen⟩ := shown
    obtain ⟨-, goal, reached, not_directory, -⟩ := seen_replace rooted (inside_start inside) found
      missing (by simp [last, apart]) seen moved
    exact ⟨(replace_ok moved).1, goal, reached, not_directory⟩
  · rintro ⟨named, goal, reached, not_directory⟩
    have here := (shown.carries missing found).place_eq
    have there := (shown.carries missing reached).place_eq
    obtain ⟨stamp, seen⟩ := shown
    have file : filled.find? place = some (.file bytes false stamp) :=
      seen_eq_file.mp (by rw [seen, if_pos rfl])
    rw [replace, if_neg (not_or.mpr named), here, there]
    simp only [file]
    cases node : filled.find? goal with
    | none => exact ⟨_, rfl⟩
    | some node' =>
      cases node' with
      | file | link => exact ⟨_, rfl⟩
      | directory since =>
        have directory := seen_eq_directory.mpr ⟨since, node⟩
        rw [seen] at directory
        split at directory
        · cases directory
        · exact absurd directory (not_directory 0)

/-! The whole write. -/

/-- Nothing stands in the way of a write whose directories are there: the temporary file has a place,
the path names one that is no directory, the text has bytes, and the system refuses nothing. -/
structure Unhindered (refusals : Refusals) (cwd : List String) (path : Path)
    (text : List CodePoint) (fs : Files) : Prop where
  creation : (fs.temporaryPath cwd path).holdsNul = false ∧ refusals.creation = none
  temporary : ∃ place, fs.Reaches false cwd (fs.temporaryPath cwd path) place
  writing : (∃ chars : List Char, text = chars.map codePoint) ∧ refusals.writing = none
  named : path.parts ≠ [] ∧ path.name ≠ ".."
  goal : ∃ goal, fs.Reaches false cwd path goal ∧ ∀ stamp, fs.seen goal ≠ some (.directory stamp)
  move : refusals.move = none

theorem Unhindered.createTemporary {text : List CodePoint}
    (free : Unhindered refusals cwd path text fs) :
    ∃ made, fs.createTemporary refusals cwd (fs.temporaryPath cwd path) = .ok made := by
  obtain ⟨place, reaches⟩ := free.temporary
  exact ⟨(place, _), createTemporary_eq_ok.mpr ⟨free.creation, reaches, rfl⟩⟩

/-- The courses that a write can take once it has made what directories it could: to its end if the
way is clear, and else to one of two points from which it goes back. -/
inductive Course (clear : Prop) (cwd : List String) (path : Path) (text : List CodePoint)
    (made : Files) (earlier : List Files) : Attempt → Prop
  | refused {fault : WriteFault} (expected : fault.isExpected = true) (hindered : ¬ clear) :
    Course clear cwd path text made earlier ⟨earlier, some fault⟩
  | undone {place : List String} {filling : List Files} {ended : Files} {fault : WriteFault}
    (expected : fault.isExpected = true) (hindered : ¬ clear) (aside : made.Aside cwd path place)
    (partly : ∀ state ∈ filling, made.ShowsPart place state) (gone : ended.seen = made.seen) :
    Course clear cwd path text made earlier ⟨ended :: (filling ++ earlier), some fault⟩
  | done {place goal : List String} {filling : List Files} {ended : Files} {chars : List Char}
    (free : clear) (aside : made.Aside cwd path place)
    (partly : ∀ state ∈ filling, made.ShowsPart place state)
    (encoded : text = chars.map codePoint) (reached : made.Reaches false cwd path goal)
    (not_directory : ∀ stamp, made.seen goal ≠ some (.directory stamp))
    (whole : made.ShowsFile goal (encodeUtf8 chars) ended) :
    Course clear cwd path text made earlier ⟨ended :: (filling ++ earlier), none⟩

/-- The way is clear if the directories come to be and nothing else hinders the write. -/
def Clear (refusals : Refusals) (fs : Files) (cwd : List String) (path : Path)
    (text : List CodePoint) : Prop :=
  (fs.prepare refusals cwd path.parent).error = none ∧
    Unhindered refusals cwd path text ((fs.prepare refusals cwd path.parent).files fs)

theorem course_save (text : List CodePoint) (rooted : Rooted fs.seen)
    (inside : fs.seen cwd = some (.directory 0)) :
    Course (Clear refusals fs cwd path text) cwd path text
      ((fs.prepare refusals cwd path.parent).files fs)
      (fs.prepare refusals cwd path.parent).states (fs.save refusals cwd path text) := by
  have prepared : Prepared cwd path.parent fs ((fs.prepare refusals cwd path.parent).files fs) :=
    prepared_prepare refusals path.parent rooted inside _ (last_mem fs _)
  have expected (error : FileError) (h : (fs.prepare refusals cwd path.parent).error = some error) :
      (WriteFault.file error).isExpected = true := isExpected_of_prepare h
  rw [Clear, save]
  generalize fs.prepare refusals cwd path.parent = made at prepared expected ⊢
  have inside := prepared.inside inside
  have rooted := prepared.rooted
  cases failed : made.error with
  | some error => exact .refused (expected error failed) (by simp)
  | none =>
    generalize made.files fs = prepared at inside rooted ⊢
    dsimp only
    cases made' : prepared.createTemporary refusals cwd (prepared.temporaryPath cwd path) with
    | error error =>
      refine .refused (isExpected_of_createTemporary made') fun clear => ?_
      obtain ⟨pair, eq⟩ := clear.2.createTemporary
      rw [made'] at eq
      cases eq
    | ok pair =>
      obtain ⟨place, created⟩ := pair
      obtain ⟨creation, reaches, empty⟩ := createTemporary_eq_ok.mp made'
      have aside : prepared.Aside cwd path place := aside_temporary rooted inside reaches
      have shown : prepared.ShowsFile place [] created := empty ▸ showsFile_put aside.inner [] _
      obtain ⟨partly, expected, full⟩ := shown_fill refusals text aside.inner shown
      have writes : (created.fill refusals place text).fault = none ↔ _ := fill_fault_eq_none
      dsimp only
      generalize created.fill refusals place text = filling at partly expected full writes ⊢
      obtain ⟨_, filled⟩ := partly _ (last_mem created filling.states)
      have gone := filled.erase rooted aside.1
      have movable := exists_replace rooted inside reaches filled
      have partly : ∀ state ∈ filling.states ++ [created], prepared.ShowsPart place state :=
        fun state there => partly state (by simpa [or_comm] using there)
      rw [List.append_cons]
      cases cut : filling.fault with
      | some fault =>
        refine .undone (expected _ cut) (fun clear => ?_) aside partly gone
        rw [writes.mpr clear.2.writing] at cut
        cases cut
      | none =>
        obtain ⟨chars, rfl, stamp, whole⟩ := full cut
        dsimp only
        cases moved : (filling.files created).tryReplace refusals cwd
            (prepared.temporaryPath cwd path) path with
        | error errno =>
          refine .undone rfl (fun clear => ?_) aside partly gone
          obtain ⟨replaced, eq⟩ := movable.mpr ⟨clear.2.named, clear.2.goal⟩
          have again := tryReplace_eq_ok.mpr ⟨clear.2.move, eq⟩
          cases moved.symm.trans again
        | ok replaced =>
          obtain ⟨move, eq⟩ := tryReplace_eq_ok.mp moved
          obtain ⟨named, names⟩ := movable.mp ⟨replaced, eq⟩
          obtain ⟨name, last, apart⟩ := temporary_named rooted reaches
          obtain ⟨-, goal, reached, not_directory, seen⟩ := seen_replace rooted
            (inside_start inside) reaches aside.1 (by simp [last, apart]) whole eq
          exact .done ⟨rfl, creation, ⟨place, reaches⟩, writes.mp cut, named, names, move⟩ aside
            partly rfl reached not_directory ⟨stamp, seen⟩

/-- The files at a moment before a write is over: directories on the way to the path may have come,
and a file that is not where the path leads. -/
inductive Underway (cwd : List String) (path : Path) (before state : Files) : Prop
  | preparing (prepared : Prepared cwd path.parent before state)
  | writing {made : Files} {place : List String} (prepared : Prepared cwd path.parent before made)
    (aside : made.Aside cwd path place) (shown : made.ShowsPart place state)

theorem Prepared.seen_eq {before after : Files} (h : Prepared cwd path before after)
    (parts : List String) : after.seen parts = before.seen parts ∨
      before.seen parts = none ∧ after.seen parts = some (.directory 0) := by
  by_cases missing : before.seen parts = none
  · by_cases there : after.seen parts = none
    · exact .inl (there.trans missing.symm)
    · exact .inr ⟨missing, (h.new parts missing there).1⟩
  · exact .inl (h.kept parts missing)

/-- As long as a write is under way, its path names a place where nothing has changed, or where there
is a directory now that the path needs. -/
theorem Underway.seen_eq {before state : Files} (h : Underway cwd path before state)
    {goal : List String} (way : state.Reaches false cwd path goal) :
    state.seen goal = before.seen goal ∨
      before.seen goal = none ∧ state.seen goal = some (.directory 0) := by
  cases h with
  | preparing prepared => exact prepared.seen_eq goal
  | @writing made place prepared aside shown =>
    obtain ⟨bytes, shown⟩ := shown
    have apart : goal ≠ place := by
      rintro rfl
      exact aside.2 (shown.reaches way)
    obtain ⟨stamp, seen⟩ := shown
    rw [seen, if_neg apart]
    exact prepared.seen_eq goal

section
variable {clear : Prop} {text : List CodePoint} {made : Files} {earlier : List Files}
  {attempt : Attempt}

theorem Course.expected (course : Course clear cwd path text made earlier attempt)
    {error : WriteError} (h : attempt.error path = some error) : ∃ fault, error = .output path fault := by
  cases course with
  | refused expected | undone expected =>
    simp only [Attempt.error, Option.map_some, expected, if_true, Option.some.injEq] at h
    exact ⟨_, h.symm⟩
  | done => cases h

theorem Course.fault_eq_none (course : Course clear cwd path text made earlier attempt) :
    attempt.fault = none ↔ clear := by
  cases course with
  | refused expected hindered | undone expected hindered => simp [hindered]
  | done free => simp [free]

theorem Attempt.error_eq_none : attempt.error path = none ↔ attempt.fault = none := by
  rw [Attempt.error, Option.map_eq_none_iff]

/-- A write that fails leaves no more than directories. -/
theorem Course.prepared (course : Course clear cwd path text made earlier attempt)
    (base : Prepared cwd path.parent fs made) (last : earlier.head?.getD fs = made)
    (failed : attempt.fault ≠ none) : Prepared cwd path.parent fs (attempt.files fs) := by
  cases course with
  | refused =>
    rw [← last] at base
    exact base
  | undone expected hindered aside partly gone => exact base.congr gone
  | done => exact absurd rfl failed

/-- A write that does not fail leaves its text at the place that its path names. -/
theorem Course.written (course : Course clear cwd path text made earlier attempt)
    (base : Prepared cwd path.parent fs made) (fine : attempt.fault = none) :
    ∃ chars goal, text = chars.map codePoint ∧ made.Reaches false cwd path goal ∧
      made.ShowsFile goal (encodeUtf8 chars) (attempt.files fs) ∧
      (((attempt.files fs).content cwd path).toOption = some (encodeUtf8 chars) ∨
        (∃ target, fs.seen goal = some (.link target)) ∧
          ∀ place, ¬ (attempt.files fs).Reaches true cwd path place) := by
  cases course with
  | refused | undone => cases fine
  | @done place goal filling ended chars free aside partly encoded reached not_directory whole =>
    obtain ⟨stamp, seen⟩ := whole
    refine ⟨chars, goal, encoded, reached, ⟨stamp, seen⟩, ?_⟩
    refine (content_of_seen reached not_directory seen).imp_right ?_
    rintro ⟨⟨target, linked⟩, nowhere⟩
    rcases base.seen_eq goal with same | ⟨-, directory⟩
    · exact ⟨⟨target, same ▸ linked⟩, nowhere⟩
    · exact absurd directory (not_directory 0)

theorem Course.underway (course : Course clear cwd path text made earlier attempt)
    (base : Prepared cwd path.parent fs made)
    (before : ∀ state ∈ earlier, Prepared cwd path.parent fs state) :
    ∀ state ∈ attempt.states, Underway cwd path fs state ∨
      attempt.fault = none ∧ state = attempt.files fs := by
  have start (state : Files) (there : state ∈ earlier) : Underway cwd path fs state :=
    .preparing (before state there)
  cases course with
  | refused => exact fun state there => .inl (start state there)
  | undone expected hindered aside partly gone =>
    intro state there
    left
    rcases List.mem_cons.mp there with rfl | there
    · exact .preparing (base.congr gone)
    · rcases List.mem_append.mp there with there | there
      · exact .writing base aside (partly state there)
      · exact start state there
  | done free aside partly =>
    intro state there
    rcases List.mem_cons.mp there with rfl | there
    · exact .inr ⟨rfl, rfl⟩
    · left
      rcases List.mem_append.mp there with there | there
      · exact .writing base aside (partly state there)
      · exact start state there

end

/-- Whatever the system refuses, a write either leaves its text at the place that its path names, or
says that it cannot be written and leaves no file that was not there. Until it is over there is
nothing new at that place. -/
theorem save_atomic (refusals : Refusals) (fs : Files) (cwd : List String) (path : Path)
    (text : List CodePoint) (rooted : Rooted fs.seen)
    (inside : fs.seen cwd = some (.directory 0)) :
    let attempt := fs.save refusals cwd path text
    let after := attempt.files fs
    (∀ error, attempt.error path = some error →
      (∃ fault, error = .output path fault) ∧ Prepared cwd path.parent fs after) ∧
    (attempt.error path = none ↔ Clear refusals fs cwd path text) ∧
    (attempt.error path = none → ∃ chars made goal, text = chars.map codePoint ∧
      Prepared cwd path.parent fs made ∧ made.Reaches false cwd path goal ∧
      made.ShowsFile goal (encodeUtf8 chars) after ∧
      ((after.content cwd path).toOption = some (encodeUtf8 chars) ∨
        (∃ target, fs.seen goal = some (.link target)) ∧
          ∀ place, ¬ after.Reaches true cwd path place)) ∧
    ∀ state ∈ attempt.states, Underway cwd path fs state ∧
      (∀ goal, state.Reaches false cwd path goal → state.seen goal = fs.seen goal ∨
        fs.seen goal = none ∧ state.seen goal = some (.directory 0)) ∨
      attempt.error path = none ∧ state = after := by
  intro attempt after
  have prepared := prepared_prepare refusals path.parent rooted inside
  have base := prepared _ (last_mem fs _)
  have course : Course _ cwd path text _ _ attempt := course_save text rooted inside
  refine ⟨fun error h => ⟨course.expected h, ?_⟩, Attempt.error_eq_none.trans course.fault_eq_none,
    fun h => ?_, fun state there => ?_⟩
  · apply course.prepared base rfl
    intro fine
    rw [Attempt.error_eq_none.mpr fine] at h
    cases h
  · have fine := Attempt.error_eq_none.mp h
    obtain ⟨chars, goal, written⟩ := course.written base fine
    exact ⟨chars, _, goal, written.1, base, written.2⟩
  · refine (course.underway base (fun state there => prepared state (.tail _ there)) state
      there).imp (fun underway => ⟨underway, fun goal => underway.seen_eq⟩) ?_
    rintro ⟨fine, last⟩
    exact ⟨Attempt.error_eq_none.mpr fine, last⟩

/-- A sheet of characters is written; a text that is a lone surrogate is not, and leaves no file. -/
theorem save_themeFiles :
    let output := Path.absolute ["vars.css"]
    let written := Engine.themeFiles.save .none [] output (Engine.emptySheet.toList.map codePoint)
    let failed := Engine.themeFiles.save .none [] output [0xD83D]
    (Rooted Engine.themeFiles.seen ∧ Engine.themeFiles.seen [] = some (.directory 0)) ∧
      (written.error output = none ∧ ∃ (made : Files) (goal : List String),
        made.Reaches false [] output goal ∧
          made.ShowsFile goal (encodeUtf8 Engine.emptySheet.toList)
            (written.files Engine.themeFiles)) ∧
      ∃ fault, failed.error output = some (.output output fault) ∧
        Prepared [] output.parent Engine.themeFiles (failed.files Engine.themeFiles) := by
  intro output written failed
  have rooted := Engine.rooted_themeFiles
  have inside := seen_nil Engine.themeFiles
  refine ⟨⟨rooted, inside⟩, ?_, ?_⟩
  · have fine : written.error output = none := by
      apply Attempt.error_eq_none.mpr
      simp only [written, save_none, output, Engine.writeAtomic_themeFiles, Option.map_none]
    obtain ⟨-, -, saved, -⟩ := save_atomic .none Engine.themeFiles [] output
      (Engine.emptySheet.toList.map codePoint) rooted inside
    obtain ⟨chars, made, goal, same, -, reached, shown, -⟩ := saved fine
    have injective : Function.Injective codePoint := fun a b h => by
      rw [← ofNat_codePoint a, h, ofNat_codePoint]
    rw [List.map_injective_iff.mpr injective same]
    exact ⟨fine, made, goal, reached, shown⟩
  · obtain ⟨refused, -, saved, -⟩ :=
      save_atomic .none Engine.themeFiles [] output [0xD83D] rooted inside
    cases told : failed.error output with
    | none =>
      obtain ⟨chars, -, -, same, -⟩ := saved told
      obtain ⟨c, -, surrogate⟩ := List.mem_map.mp (same ▸ List.mem_singleton_self _)
      have := isSurrogate_codePoint c
      rw [surrogate] at this
      exact absurd this (by decide)
    | some error =>
      obtain ⟨⟨fault, rfl⟩, prepared⟩ := refused error told
      exact ⟨fault, rfl, prepared⟩

/-- A text that was written cannot be read where it was written to, if the path passes the very link
that the file takes the place of. -/
theorem not_read_back_of_save :
    ¬ ∀ (refusals : Refusals) (fs : Files) (cwd : List String) (path : Path) (chars : List Char),
      Rooted fs.seen → fs.seen cwd = some (.directory 0) →
      (fs.save refusals cwd path (chars.map codePoint)).error path = none →
      (((fs.save refusals cwd path (chars.map codePoint)).files fs).content cwd path).toOption =
        some (encodeUtf8 chars) := by
  intro claim
  have fine : (Engine.linkedFiles.save .none [] (.absolute ["d", "d"])
      (Engine.emptySheet.toList.map codePoint)).error (.absolute ["d", "d"]) = none := by
    apply Attempt.error_eq_none.mpr
    simp only [save_none, Engine.writeAtomic_linkedFiles, Option.map_none]
  have read := claim .none Engine.linkedFiles [] (.absolute ["d", "d"]) Engine.emptySheet.toList
    Engine.rooted_linkedFiles (seen_nil _) fine
  rw [save_none] at read
  exact absurd (Engine.content_linkedFiles.symm.trans read) (by simp)

end Files
end ThemeSheet
