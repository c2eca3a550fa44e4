import ThemeSheet.Cycle.Engine
import ThemeSheet.Proofs.AtomicWrite

namespace ThemeSheet

/-! Paths of a resolved configuration. -/

namespace Path

theorem straight_climb {settled parts : List String} (h : ".." ∉ settled) :
    ".." ∉ parts.foldl climb settled := by
  induction parts generalizing settled with
  | nil => exact h
  | cons part parts ih =>
    apply ih
    by_cases up : part = ".."
    · rw [climb, if_pos up]
      exact fun there => h (List.dropLast_subset _ there)
    · rw [climb, if_neg up]
      simp [h, Ne.symm up]

theorem settled_collapse (path : Path) : path.collapse.Settled :=
  ⟨rfl, straight_climb (List.not_mem_nil)⟩

end Path

namespace Files

theorem straight_settle {fs : Files} {free : List Spot} {here reached : Spot} {parts : List String}
    (h : fs.settle free here parts = .ok reached) (start : ".." ∉ here.parts) :
    ".." ∉ reached.parts := by
  have inner {spot : Spot} {part : String} (named : part ≠ "..") (h : ".." ∉ spot.parts) :
      ".." ∉ (spot.child part).parts := by
    simp [Spot.child, h, Ne.symm named]
  fun_induction settle fs free here parts generalizing reached with
  | case1 => cases h; exact start
  | case2 free here rest ih => exact ih h fun there => start (List.dropLast_subset _ there)
  | case3 => cases h
  | case4 =>
    rename_i settled ih tail
    apply tail h
    apply ih settled
    rw [Spot.startOf]
    split
    · simp
    · exact start
  | case5 => cases h
  | case6 =>
    rename_i named _ _ ih
    exact ih h (inner named start)

theorem settled_resolve {fs : Files} {cwd : List String} {path resolved : Path}
    (straight : ".." ∉ cwd) (h : fs.resolve cwd path = .ok resolved) : resolved.Settled := by
  rw [resolve] at h
  split at h
  · cases h
  · dsimp only at h
    split at h
    · cases h
    · cases h
      split
      · rename_i spot hs
        refine ⟨rfl, straight_settle hs ?_⟩
        rw [Spot.startOf]
        split
        · simp
        · exact straight
      · exact Path.settled_collapse _

end Files

theorem Config.settled_output {config resolved : Config} {fs : Files} {base : Path}
    (h : config.resolve fs base = .ok resolved) : resolved.output.Settled := by
  simp only [resolve, bind, Except.bind] at h
  split at h
  · cases h
  · split at h
    · cases h
    · rename_i output ho
      split at h
      · cases h
      · split at h
        · cases h
        · cases h
          exact Files.settled_resolve List.not_mem_nil ho

namespace Engine

open Literal (Mapping)

variable {e e' : Engine} {cwd : List String} {trigger : String}

/-! What the stages change. -/

/-- The parts of an engine that no stage but the last touches. -/
structure Keeps (e e' : Engine) : Prop where
  config : e'.config = e.config
  formatter : e'.controller.formatter = e.controller.formatter

theorem mapError_ne {α β γ : Type} {result : Except α γ} {wrap : α → β} {fault : β}
    (h : ∀ cause, wrap cause ≠ fault) : result.mapError wrap ≠ .error fault := by
  cases result <;> simp [Except.mapError, h]

theorem extract_frame {result : Except CycleFault Mapping} (h : e.extract cwd = (e', result)) :
    Keeps e e' ∧ e'.files = e.files ∧
      result = (Source.extract e.files cwd e.config.target).2.mapError .source := by
  cases h
  exact ⟨⟨rfl, rfl⟩, rfl, rfl⟩

theorem generate_frame {mapping : Mapping} {result : Except CycleFault String}
    (h : e.generate mapping = (e', result)) :
    Keeps e e' ∧ e'.files = e.files ∧
      result = (Stylesheet.render mapping e.config.space e.config.classifier).mapError
        .generation := by
  cases h
  exact ⟨⟨rfl, rfl⟩, rfl, rfl⟩

theorem write_frame {text : String} {result : Except CycleFault Unit}
    (h : e.write cwd text = (e', result)) :
    let run := e.files.writeAtomic cwd e.config.output text
    Keeps e e' ∧ e'.files = run.files e.files ∧
      (result = .ok () ↔ run.error = none) ∧ ∀ cause, result ≠ .error (.formatting cause) := by
  intro run
  rw [write] at h
  split at h
  · rename_i error failed
    have : run.error = some error := failed
    cases h
    exact ⟨⟨rfl, rfl⟩, rfl, by simp [this], by simp⟩
  · rename_i fine
    have : run.error = none := fine
    cases h
    exact ⟨⟨rfl, rfl⟩, rfl, by simp [this], by simp⟩

theorem write_eq (cwd : List String) (text : String) (e : Engine) :
    e.write cwd text =
      ({ e.enter .writing with
          files := (e.files.writeAtomic cwd e.config.output text).files e.files },
        match (e.files.writeAtomic cwd e.config.output text).error with
        | some error => .error (.output e.config.output error)
        | none => .ok ()) := by
  rw [write]
  change (match (e.files.writeAtomic cwd e.config.output text).error with
    | some error => _
    | none => _) = _
  split <;> rfl

/-- A formatter is asked for without the files being touched. -/
theorem formatter_frame {result : Except Format.Fault Formatter} (h : e.formatter = (e', result)) :
    e'.files = e.files ∧ e'.config = e.config := by
  rw [formatter] at h
  split at h
  · cases h
    exact ⟨rfl, rfl⟩
  · cases h
    exact ⟨rfl, rfl⟩

/-- A formatter that can be had works on the files as they are. -/
theorem runFormatter_ok {asked : Engine} {formatter : Formatter} (path : Path)
    (made : e.formatter = (asked, .ok formatter)) :
    (e.runFormatter path).1.files = (formatter.format path e.files).1 ∧
      (e.runFormatter path).2 = (formatter.format path e.files).2 := by
  rw [runFormatter, made, ← (formatter_frame made).1]
  exact ⟨rfl, rfl⟩

/-- Files as the formatting stage leaves them when a fault ends it: untouched if no formatter could
be had, else as the formatter left them. -/
def LeftBy (output : Path) (fault : Format.Fault) (before after : Files) : Prop :=
  after = before ∨ ∃ formatter : Formatter, formatter.format output before = (after, .error fault)

/-- Only a fault that no tool should have ends a cycle in its formatting stage. -/
theorem format_failed {fault : CycleFault} (h : e.format = (e', .error fault)) :
    ∃ cause, fault = .formatting cause ∧ cause.isExpected = false ∧
      LeftBy e.config.output cause e.files e'.files := by
  rw [format] at h
  split at h
  · cases h
  · rename_i after cause ran
    split at h
    · cases h
    · rename_i unexpected
      cases h
      refine ⟨cause, rfl, Bool.eq_false_iff.mpr unexpected, ?_⟩
      cases made : (e.enter .formatting).formatter with
      | mk asked result =>
        cases result with
        | error fault =>
          rw [runFormatter, made] at ran
          cases ran
          exact .inl (formatter_frame made).1
        | ok formatter =>
          obtain ⟨files, result⟩ := runFormatter_ok e.config.output made
          exact .inr ⟨formatter, Prod.ext (files.symm.trans (congrArg _ (congrArg _ ran)))
            (result.symm.trans (congrArg _ ran))⟩

theorem format_fails {formatter : Formatter} {after : Files} {cause : Format.Fault}
    (kept : e.controller.formatter = some formatter)
    (formatted : formatter.format e.config.output e.files = (after, .error cause))
    (unexpected : cause.isExpected = false) :
    ∃ ended, e.format = (ended, .error (.formatting cause)) ∧ ended.files = after := by
  have made : (e.enter .formatting).formatter = (e.enter .formatting, .ok formatter) := by
    have : (e.enter .formatting).controller.formatter = some formatter := kept
    rw [Engine.formatter, this]
  cases ran : (e.enter .formatting).runFormatter e.config.output with
  | mk ended result =>
    obtain ⟨files, outcome⟩ := runFormatter_ok e.config.output made
    have same : (e.enter .formatting).files = e.files := rfl
    rw [same, formatted] at files outcome
    rw [ran] at files outcome
    cases outcome
    refine ⟨ended, ?_, files⟩
    have same : (e.enter .formatting).config = e.config := rfl
    rw [format, same, ran]
    simp [unexpected]

/-- How a cycle can fail: before anything is written, by a write that fails, or by the formatting
stage after a write. -/
theorem stages_failed {fault : CycleFault} (h : e.stages cwd = (e', .error fault)) :
    (∀ cause, fault ≠ .formatting cause) ∧ (e'.files = e.files ∨
      ∃ text, (e.files.writeAtomic cwd e.config.output text).error ≠ none ∧
        e'.files = (e.files.writeAtomic cwd e.config.output text).files e.files) ∨
    ∃ cause text, fault = .formatting cause ∧ cause.isExpected = false ∧
      (e.files.writeAtomic cwd e.config.output text).error = none ∧
      LeftBy e.config.output cause
        ((e.files.writeAtomic cwd e.config.output text).files e.files) e'.files := by
  rw [stages] at h
  split at h
  · rename_i extracted fault hx
    obtain ⟨-, files, source⟩ := extract_frame hx
    cases h
    refine .inl ⟨fun cause same => ?_, .inl files⟩
    exact mapError_ne (by simp) (source.symm.trans (congrArg _ same))
  · rename_i extracted mapping hx
    obtain ⟨⟨config, -⟩, files, -⟩ := extract_frame hx
    split at h
    · rename_i generated fault hg
      obtain ⟨-, files', generation⟩ := generate_frame hg
      cases h
      refine .inl ⟨fun cause same => ?_, .inl (files'.trans files)⟩
      exact mapError_ne (by simp) (generation.symm.trans (congrArg _ same))
    · rename_i generated text hg
      obtain ⟨⟨config', -⟩, files', -⟩ := generate_frame hg
      split at h
      · rename_i written fault hw
        obtain ⟨-, files'', fine, output⟩ := write_frame hw
        cases h
        rw [files', files, config', config] at files'' fine
        refine .inl ⟨fun cause same => output cause (congrArg _ same), .inr ⟨text, ?_, files''⟩⟩
        exact fun none => by cases fine.mpr none
      · rename_i written hw
        obtain ⟨⟨config'', -⟩, files'', fine, -⟩ := write_frame hw
        rw [files', files, config', config] at files'' fine
        split at h
        · rename_i formatted fault hf
          obtain ⟨cause, formatting, unexpected, left⟩ := format_failed hf
          cases h
          refine .inr ⟨cause, text, formatting, unexpected, fine.mp rfl, ?_⟩
          rw [files'', config'', config', config] at left
          exact left
        · cases h

/-- Once the sheet is written, formatting is all that is left of a cycle. -/
theorem stages_of_written {mapping : Mapping} {sheet : String}
    (extracted : (Source.extract e.files cwd e.config.target).2 = .ok mapping)
    (rendered : Stylesheet.render mapping e.config.space e.config.classifier = .ok sheet)
    (fine : (e.files.writeAtomic cwd e.config.output sheet).error = none) :
    ∃ written : Engine, written.config = e.config ∧
      written.files = (e.files.writeAtomic cwd e.config.output sheet).files e.files ∧
      written.controller.formatter = e.controller.formatter ∧
      written.controller.formatters = e.controller.formatters ∧
      e.stages cwd = (written.format.1, written.format.2.map fun _ => mapping.length) := by
  rcases hx : e.extract cwd with ⟨read, result⟩
  obtain ⟨⟨config, kept⟩, files, source⟩ := extract_frame hx
  have asked : read.controller.formatters = e.controller.formatters := by cases hx; rfl
  rw [extracted] at source
  rcases hg : read.generate mapping with ⟨generated, result'⟩
  obtain ⟨⟨config', kept'⟩, files', generation⟩ := generate_frame hg
  have asked' : generated.controller.formatters = read.controller.formatters := by cases hg; rfl
  rw [config, rendered] at generation
  have config₂ : generated.config = e.config := config'.trans config
  refine ⟨{ generated.enter .writing with
    files := (e.files.writeAtomic cwd e.config.output sheet).files e.files }, config₂, rfl,
    kept'.trans kept, asked'.trans asked, ?_⟩
  rw [stages, hx, source]
  simp only [Except.mapError, hg, generation, write_eq, config₂, files', files, fine]
  split
  · rename_i failed
    rw [failed]
    rfl
  · rename_i ok
    rw [ok]
    rfl

/-- A cycle once it is counted and announced. -/
def begun (trigger : String) (e : Engine) : Engine :=
  { e with controller := { e.controller with cycles := e.controller.cycles + 1 } }.emit
    (.started e.config.source trigger)

/-- The fault with which the formatting stage ends a cycle, if it does. -/
def formattingFault? (cwd : List String) (trigger : String) (e : Engine) : Option Format.Fault :=
  match ((e.begun trigger).stages cwd).2 with
  | .error (.formatting cause) => some cause
  | _ => none

theorem regenerate_ok {count : Nat} (h : (e.begun trigger).stages cwd = (e', .ok count)) :
    e.regenerate cwd trigger = ((e'.succeed count).1.enter .idle, (e'.succeed count).2) := by
  rw [begun] at h
  simp only [regenerate, h]

theorem regenerate_error {fault : CycleFault}
    (h : (e.begun trigger).stages cwd = (e', .error fault)) :
    e.regenerate cwd trigger = ((e'.fail fault).1.enter .idle, (e'.fail fault).2) := by
  rw [begun] at h
  simp only [regenerate, h]

/-- A cycle that does not fail in its formatting stage, and fails, leaves the output untouched. One
that fails there has replaced it: the fault is one that no tool should have, the new text was
written as a whole, and what stands there is what the formatter made of it. -/
theorem output_of_regenerate_failed {past : Files} {base : Path} {config : Config}
    (resolved : config.resolve past base = .ok e.config) (rooted : Files.Rooted e.files.seen)
    (failed : (e.regenerate cwd trigger).2.status = .fail) :
    let output := e.config.output
    let after := (e.regenerate cwd trigger).1.files
    (e.formattingFault? cwd trigger = none →
      (after.content cwd output).toOption = (e.files.content cwd output).toOption) ∧
    ∀ cause, e.formattingFault? cwd trigger = some cause → cause.isExpected = false ∧
      ∃ text, let written := e.files.writeAtomic cwd output text
        written.error = none ∧
        ((∀ place target, e.files.Reaches false cwd output place →
            e.files.seen place ≠ some (.link target)) →
          ((written.files e.files).content cwd output).toOption =
            some (Text.encodeUtf8 text.toList)) ∧
        LeftBy output cause (written.files e.files) after := by
  intro output after
  have settled := Config.settled_output resolved
  have files : (e.begun trigger).files = e.files := rfl
  have config : (e.begun trigger).config = e.config := rfl
  cases ran : (e.begun trigger).stages cwd with
  | mk ended result =>
    cases result with
    | ok count =>
      rw [regenerate_ok ran] at failed
      cases failed
    | error fault =>
      have after_eq : after = ended.files := by
        simp only [after, regenerate_error ran, fail]
        split <;> rfl
      have cases := stages_failed ran
      rw [files, config] at cases
      rcases cases with ⟨other, untouched | ⟨text, refused, left⟩⟩ |
        ⟨cause, text, rfl, unexpected, fine, left⟩
      · refine ⟨fun _ => by rw [after_eq, untouched], fun cause formatting => ?_⟩
        simp only [formattingFault?, ran] at formatting
        split at formatting
        · rename_i same
          cases same
          exact absurd rfl (other _)
        · cases formatting
      · refine ⟨fun _ => ?_, fun cause formatting => ?_⟩
        · rw [after_eq, left]
          exact Files.content_of_writeAtomic_failed rooted settled refused
        · simp only [formattingFault?, ran] at formatting
          split at formatting
          · rename_i same
            cases same
            exact absurd rfl (other _)
          · cases formatting
      · have same : e.formattingFault? cwd trigger = some cause := by
          simp [formattingFault?, ran]
        rw [same]
        refine ⟨fun none => by simp at none, fun cause' same' => ?_⟩
        obtain rfl := Option.some.inj same'
        refine ⟨unexpected, text, fine, fun no_link => ?_, after_eq ▸ left⟩
        exact Files.content_of_writeAtomic rooted settled no_link fine

/-- Whenever a formatter fails with a fault that no tool should have, a cycle that has written its
file fails, and what the formatter left stays. -/
theorem regenerate_of_formatter_fault {mapping : Mapping} {text : String} {formatter : Formatter}
    {after : Files} {cause : Format.Fault}
    (extracted : (Source.extract e.files cwd e.config.target).2 = .ok mapping)
    (rendered : Stylesheet.render mapping e.config.space e.config.classifier = .ok text)
    (written : (e.files.writeAtomic cwd e.config.output text).error = none)
    (kept : e.controller.formatter = some formatter)
    (formatted : formatter.format e.config.output
      ((e.files.writeAtomic cwd e.config.output text).files e.files) = (after, .error cause))
    (unexpected : cause.isExpected = false) :
    (e.regenerate cwd trigger).2.status = .fail ∧ (e.regenerate cwd trigger).1.files = after ∧
      e.formattingFault? cwd trigger = some cause := by
  obtain ⟨put, config, files, held, -, stages⟩ :=
    stages_of_written (e := e.begun trigger) extracted rendered written
  change put.config = e.config at config
  change put.files = (e.files.writeAtomic cwd e.config.output text).files e.files at files
  rw [← files, ← config] at formatted
  obtain ⟨ended, left, files⟩ := format_fails (held.trans kept) formatted unexpected
  rw [left] at stages
  have ran : (e.begun trigger).stages cwd = (ended, .error (.formatting cause)) := stages
  rw [regenerate_error ran, formattingFault?, ran]
  refine ⟨rfl, ?_, rfl⟩
  rw [← files, fail]
  split <;> rfl

/-! A cycle that fails with a new text in its output. -/

def explodingFormatter : Formatter :=
  ⟨.custom, fun _ fs => (fs, .error (.other "formatter exploded"))⟩

def themeSource : List UInt8 :=
  Text.encodeUtf8 "export const THEME = \x7b\x7d;\n".toList

def previousSheet : List UInt8 :=
  Text.encodeUtf8 "/* previous */\n".toList

def themeFiles : Files :=
  ⟨[(["theme.ts"], .file themeSource false 0), (["vars.css"], .file previousSheet false 0)], 0⟩

def themeConfig : Config where
  source := .absolute ["theme.ts"]
  name := "THEME"
  output := .absolute ["vars.css"]
  space := ""
  classifier := guessClassifier
  prettierConfig := none
  eslintConfig := none
  delay := 0
  format := true
  isIdentifier_name := by decide +kernel
  delay_nonneg := Rat.le_refl

def explodingEngine : Engine :=
  let controller := Controller.make themeConfig (fun _ _ => ([], .ok explodingFormatter)) .empty
  ⟨{ controller with formatter := some explodingFormatter }, themeFiles, []⟩

/-- Files that all stand at the root are in a directory. -/
theorem rooted_of_top {fs : Files} (top : ∀ entry ∈ fs.entries, entry.1.dropLast = []) :
    Files.Rooted fs.seen := by
  refine ⟨by simp, fun parts there => ?_⟩
  have above : parts.dropLast = [] := by
    by_cases inner : parts = []
    · rw [inner]
      rfl
    · obtain ⟨node, found⟩ := Option.ne_none_iff_exists'.mp (mt Files.seen_eq_none.mpr there)
      rw [Files.find?, if_neg inner] at found
      obtain ⟨entry, found, -⟩ := Option.map_eq_some_iff.mp found
      have same := List.find?_some found
      rw [← eq_of_beq same]
      exact top entry (List.mem_of_find?_eq_some found)
  rw [above, Files.seen_nil]

theorem rooted_themeFiles : Files.Rooted themeFiles.seen :=
  rooted_of_top (by decide)

theorem place_themeFiles {name : String} (follow : Bool) (h : name = "theme.ts" ∨ name = "vars.css") :
    themeFiles.place follow [] (.absolute [name]) = .ok ⟨[name], themeFiles.find? [name]⟩ := by
  apply Files.place_top
  · rcases h with rfl | rfl <;> decide
  · rcases h with rfl | rfl <;> decide
  · rcases h with rfl | rfl <;> simp [Files.seen, Files.find?, themeFiles, Node.unstamped]

theorem resolve_themeFiles {name : String} (h : name = "theme.ts" ∨ name = "vars.css") :
    themeFiles.resolve [] (.absolute [name]) = .ok (.absolute [name]) := by
  have place := place_themeFiles true h
  have settled : themeFiles.settle themeFiles.linkSpots ⟨true, []⟩ [name] = .ok ⟨true, [name]⟩ := by
    rcases h with rfl | rfl <;>
      simp [Files.settle, Files.Spot.child, Files.find?, themeFiles]
  rw [Files.resolve]
  rcases h with rfl | rfl
  all_goals simp_all [Path.holdsNul, Path.absolute, Files.Spot.startOf, Path.isAbsolute]

theorem resolve_themeConfig :
    themeConfig.resolve themeFiles (.absolute []) = .ok explodingEngine.config := by
  have source := resolve_themeFiles (.inl rfl)
  have output := resolve_themeFiles (.inr rfl)
  change ((themeFiles.resolve [] (.absolute ["theme.ts"])).bind fun source =>
    (themeFiles.resolve [] (.absolute ["vars.css"])).bind fun output =>
      .ok { themeConfig with source, output }) = _
  rw [source, output]
  rfl

theorem makeDirectories_themeFiles :
    themeFiles.makeDirectories [] (.absolute []) = ⟨[], none⟩ := by
  have short : (Path.absolute []).text.utf8ByteSize < Files.maxPath := by decide
  have there : themeFiles.isDirectory [] (.absolute []) = true :=
    Files.isDirectory_iff.mpr ⟨[], ⟨short, .stop _ _⟩, by simp⟩
  exact Files.makeDirectories_of_isDirectory there

theorem temporaryPath_themeFiles : themeFiles.temporaryPath [] (.absolute ["vars.css"]) =
    .absolute [".vars.css.<RANDOM>.tmp"] := by decide +kernel

/-- The text of a sheet without a property, which is what the empty literal makes. -/
def emptySheet : String :=
  Stylesheet.ofProperties []

theorem writeAtomic_themeFiles :
    (themeFiles.writeAtomic [] (.absolute ["vars.css"]) emptySheet).error = none := by
  have parent : (Path.absolute ["vars.css"]).parent = .absolute [] := rfl
  have temporary (fs : Files) : fs.place false [] (.absolute [".vars.css.<RANDOM>.tmp"]) =
      .ok ⟨[".vars.css.<RANDOM>.tmp"], fs.find? [".vars.css.<RANDOM>.tmp"]⟩ :=
    Files.place_top (by decide) (by decide) (.inl rfl)
  have output (fs : Files) : fs.place false [] (.absolute ["vars.css"]) =
      .ok ⟨["vars.css"], fs.find? ["vars.css"]⟩ :=
    Files.place_top (by decide) (by decide) (.inl rfl)
  rw [Files.writeAtomic, parent, makeDirectories_themeFiles]
  simp only [Files.Run.files, List.head?_nil, Option.getD_none, temporaryPath_themeFiles, temporary]
  generalize (themeFiles.put [".vars.css.<RANDOM>.tmp"] _).freshStamp = stamp
  generalize hf : (themeFiles.put [".vars.css.<RANDOM>.tmp"] _).put [".vars.css.<RANDOM>.tmp"] _ =
    filled
  have written : filled.find? [".vars.css.<RANDOM>.tmp"] =
      some (.file (Text.encodeUtf8 emptySheet.toList) false stamp) := by
    apply Files.seen_eq_file.mp
    rw [← hf, Files.seen_put_put rfl, if_pos rfl]
    rfl
  have previous : filled.find? ["vars.css"] = some (.file previousSheet false 0) := by
    apply Files.seen_eq_file.mp
    rw [← hf, Files.seen_put_put rfl, if_neg (by decide)]
    rfl
  rw [if_neg (by decide), Files.replace, if_neg (by decide), temporary, output, written, previous]

/-- The theme's source is read wherever it stands. -/
theorem readText_theme {fs : Files}
    (there : fs.find? ["theme.ts"] = some (.file themeSource false 0)) :
    fs.readText [] (.absolute ["theme.ts"]) = .ok "export const THEME = \x7b\x7d;\n" := by
  have decoded : (Text.decodeUtf8 themeSource).toOption =
      some "export const THEME = \x7b\x7d;\n".toList := by decide +kernel
  rw [Files.readText_of_content (by decide) (Files.content_top (by decide) (by decide) there)
    decoded]
  decide +kernel

theorem extract_theme {fs : Files} (there : fs.find? ["theme.ts"] = some (.file themeSource false 0)) :
    (Source.extract fs [] themeConfig.target).2 = .ok [] := by
  have read : Source.read fs [] themeConfig.target.file =
      .ok "export const THEME = \x7b\x7d;\n" := by
    change (fs.readText [] (.absolute ["theme.ts"])).mapError _ = _
    rw [readText_theme there]
    rfl
  have located : (Extraction.extract "export const THEME = \x7b\x7d;\n" "THEME"
      (some "/theme.ts")).2 = .ok [] := by decide +kernel
  rw [Source.extract, read]
  exact congrArg (Except.mapError _) located

theorem regenerate_explodingEngine :
    (explodingEngine.regenerate [] "start").2.status = .fail ∧
      (explodingEngine.regenerate [] "start").1.files =
        (themeFiles.writeAtomic [] (.absolute ["vars.css"]) emptySheet).files themeFiles ∧
      explodingEngine.formattingFault? [] "start" = some (.other "formatter exploded") :=
  regenerate_of_formatter_fault (extract_theme rfl) rfl writeAtomic_themeFiles rfl rfl rfl

theorem content_themeFiles :
    (themeFiles.content [] (.absolute ["vars.css"])).toOption = some previousSheet := by
  rw [Files.content, place_themeFiles true (.inr rfl)]
  rfl

theorem plain_themeFiles (place : List String) (target : Path)
    (reaches : themeFiles.Reaches false [] (.absolute ["vars.css"]) place) :
    themeFiles.seen place ≠ some (.link target) := by
  have here := reaches.place_eq
  rw [place_themeFiles false (.inr rfl)] at here
  cases here
  simp [Files.seen, Files.find?, themeFiles, Node.unstamped]

/-- The output of a cycle need not be what it was, although the cycle failed. -/
theorem failed_cycle_replaces_output :
    ¬ ∀ (past : Files) (base : Path) (config : Config) (e : Engine) (cwd : List String)
        (trigger : String), config.resolve past base = .ok e.config →
      Files.Rooted e.files.seen → (e.regenerate cwd trigger).2.status = .fail →
      ((e.regenerate cwd trigger).1.files.content cwd e.config.output).toOption =
        (e.files.content cwd e.config.output).toOption := by
  intro claim
  obtain ⟨failed, files, -⟩ := regenerate_explodingEngine
  have same := claim themeFiles (.absolute []) themeConfig explodingEngine [] "start"
    resolve_themeConfig rooted_themeFiles failed
  have after : ((explodingEngine.regenerate [] "start").1.files.content []
      (.absolute ["vars.css"])).toOption = some (Text.encodeUtf8 emptySheet.toList) := by
    rw [files]
    exact Files.content_of_writeAtomic rooted_themeFiles ⟨rfl, by decide⟩ plain_themeFiles
      writeAtomic_themeFiles
  have differ : previousSheet ≠ Text.encodeUtf8 emptySheet.toList := by decide +kernel
  have before : (explodingEngine.files.content [] explodingEngine.config.output).toOption =
      some previousSheet := content_themeFiles
  rw [before] at same
  exact differ (Option.some.inj (same.symm.trans after))

theorem output_of_explodingEngine :
    themeConfig.resolve themeFiles (.absolute []) = .ok explodingEngine.config ∧
      Files.Rooted explodingEngine.files.seen ∧
      (explodingEngine.regenerate [] "start").2.status = .fail ∧
      ∃ text, LeftBy (.absolute ["vars.css"]) (.other "formatter exploded")
        ((themeFiles.writeAtomic [] (.absolute ["vars.css"]) text).files themeFiles)
        (explodingEngine.regenerate [] "start").1.files := by
  obtain ⟨failed, -, exploded⟩ := regenerate_explodingEngine
  refine ⟨resolve_themeConfig, rooted_themeFiles, failed, ?_⟩
  obtain ⟨-, text, -, -, left⟩ :=
    (output_of_regenerate_failed resolve_themeConfig rooted_themeFiles failed).2 _ exploded
  exact ⟨text, left⟩

end Engine
end ThemeSheet
