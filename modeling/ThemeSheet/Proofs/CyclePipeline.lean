import ThemeSheet.Proofs.FailedCycle
import ThemeSheet.Proofs.SourcePath
import ThemeSheet.Proofs.WrittenTree

namespace ThemeSheet

open Literal (Mapping)

namespace Formatter

def LeavesFiles (formatter : Formatter) : Prop :=
  ∀ path fs, (formatter.format path fs).1 = fs

/-- A formatter that leaves files alone and fails, if at all, with a fault that tools may have. -/
structure Harmless (formatter : Formatter) : Prop where
  leaves : formatter.LeavesFiles
  expected : ∀ path fs fault, (formatter.format path fs).2 = .error fault → fault.isExpected = true

theorem harmless_idle : idle.Harmless :=
  ⟨fun _ _ => rfl, fun _ _ _ failed => by cases failed⟩

end Formatter

namespace Engine

/-- The formatter that is kept and those that may yet be made are of one kind. -/
structure FormatsWith (holds : Formatter → Prop) (e : Engine) : Prop where
  kept : ∀ formatter, e.controller.formatter = some formatter → holds formatter
  made : ∀ asked fs formatter, (e.controller.formatters asked fs).2 = .ok formatter →
    holds formatter

/-- Formatting can change no file and end no cycle. -/
structure Harmless (e : Engine) : Prop extends FormatsWith Formatter.Harmless e where
  refused : ∀ asked fs fault, (e.controller.formatters asked fs).2 = .error fault →
    fault.isExpected = true

/-- What a cycle comes to, as one function of the files: the mapping and its sheet, or the fault of
the first stage that fails. -/
def pipeline (cwd : List String) (fs : Files) (config : Config) :
    Except CycleFault (Mapping × String) := do
  let source ← (Source.read fs cwd config.source).mapError .source
  let mapping ← (Extraction.extract source config.name (some config.source.text)).2.mapError
    (.source ∘ .extraction)
  let text ← (Stylesheet.render mapping config.space config.classifier).mapError .generation
  match (fs.writeAtomic cwd config.output text).error with
  | some error => .error (.output config.output error)
  | none => .ok (mapping, text)

variable {e e' : Engine} {cwd : List String} {trigger : String}

/-! The formatting stage. -/

theorem Harmless.same_controller (h : e.Harmless)
    (formatter : e'.controller.formatter = e.controller.formatter)
    (formatters : e'.controller.formatters = e.controller.formatters) : e'.Harmless where
  kept := by rw [formatter]; exact h.kept
  made := by rw [formatters]; exact h.made
  refused := by rw [formatters]; exact h.refused

/-- A formatter that is had is the one that is kept, or one that was made. -/
theorem Harmless.formatter (h : e.Harmless) {result : Except Format.Fault Formatter}
    (asked : e.formatter = (e', result)) :
    (∀ formatter, result = .ok formatter → formatter.Harmless) ∧
      ∀ fault, result = .error fault → fault.isExpected = true := by
  rw [Engine.formatter] at asked
  split at asked
  · rename_i formatter kept
    cases asked
    exact ⟨fun _ same => Except.ok.inj same ▸ h.kept formatter kept, fun _ same => by cases same⟩
  · cases asked
    exact ⟨h.made _ _, h.refused _ _⟩

theorem Harmless.runFormatter (h : e.Harmless) (path : Path) :
    (e.runFormatter path).1.files = e.files ∧ (e.runFormatter path).1.config = e.config ∧
      ∀ fault, (e.runFormatter path).2 = .error fault → fault.isExpected = true := by
  cases made : e.formatter with
  | mk asked result =>
    obtain ⟨files, config⟩ := formatter_frame made
    obtain ⟨harmless, expected⟩ := h.formatter made
    cases result with
    | error fault =>
      simp only [Engine.runFormatter, made]
      exact ⟨files, config, fun _ same => expected _ (congrArg _ (Except.error.inj same))⟩
    | ok formatter =>
      obtain ⟨leaves, expected⟩ := harmless formatter rfl
      simp only [Engine.runFormatter, made]
      exact ⟨(leaves path asked.files).trans files, config, expected path asked.files⟩

/-- A formatting stage that can do no harm is passed. -/
theorem Harmless.format (h : e.Harmless) :
    ∃ formatted, e.format = (formatted, .ok ()) ∧ formatted.files = e.files ∧
      formatted.config = e.config := by
  have entered : (e.enter .formatting).Harmless := h.same_controller rfl rfl
  obtain ⟨files, config, expected⟩ := entered.runFormatter e.config.output
  have same : (e.enter .formatting).config = e.config := rfl
  rw [Engine.format, same]
  cases ran : (e.enter .formatting).runFormatter e.config.output with
  | mk formatted result =>
    rw [ran] at files config expected
    cases result with
    | ok => exact ⟨formatted, rfl, files, config⟩
    | error fault =>
      dsimp only
      rw [if_pos (expected fault rfl)]
      exact ⟨_, rfl, files, config⟩

/-! The stages. -/

/-- Reading the source and extracting are one stage. -/
theorem pipeline_eq (cwd : List String) (fs : Files) (config : Config) :
    pipeline cwd fs config =
      ((Source.extract fs cwd config.target).2.mapError CycleFault.source).bind fun mapping =>
        ((Stylesheet.render mapping config.space config.classifier).mapError
          CycleFault.generation).bind fun text =>
            match (fs.writeAtomic cwd config.output text).error with
            | some error => .error (.output config.output error)
            | none => .ok (mapping, text) := by
  have file : config.target.file = config.source := rfl
  have name : config.target.name = config.name := rfl
  rw [pipeline, Source.extract, file, name]
  cases Source.read fs cwd config.source with
  | error fault => rfl
  | ok source =>
    rcases hx : Extraction.extract source config.name (some config.source.text) with ⟨logs, result⟩
    simp only [Except.mapError, bind, Except.bind, hx]
    cases result <;> rfl

/-- The files after the stages: those of the write, if one was reached. -/
structure Written (cwd : List String) (e ended : Engine) : Prop where
  config : ended.config = e.config
  ok : ∀ mapping text, pipeline cwd e.files e.config = .ok (mapping, text) →
    (e.files.writeAtomic cwd e.config.output text).error = none ∧
      ended.files = (e.files.writeAtomic cwd e.config.output text).files e.files
  error : ∀ fault, pipeline cwd e.files e.config = .error fault → ended.files = e.files ∨
    ∃ text, (e.files.writeAtomic cwd e.config.output text).error ≠ none ∧
      ended.files = (e.files.writeAtomic cwd e.config.output text).files e.files

theorem Written.of_computed {ended : Engine} {mapping : Mapping} {text : String}
    (computed : pipeline cwd e.files e.config = .ok (mapping, text))
    (config : ended.config = e.config)
    (fine : (e.files.writeAtomic cwd e.config.output text).error = none)
    (files : ended.files = (e.files.writeAtomic cwd e.config.output text).files e.files) :
    Written cwd e ended where
  config := config
  ok := fun _ _ same => by
    rw [computed] at same
    cases same
    exact ⟨fine, files⟩
  error := fun _ failed => by
    rw [computed] at failed
    cases failed

theorem Written.of_refused {ended : Engine} {fault : CycleFault}
    (refused : pipeline cwd e.files e.config = .error fault) (config : ended.config = e.config)
    (left : ended.files = e.files ∨
      ∃ text, (e.files.writeAtomic cwd e.config.output text).error ≠ none ∧
        ended.files = (e.files.writeAtomic cwd e.config.output text).files e.files) :
    Written cwd e ended where
  config := config
  ok := fun _ _ computed => by
    rw [refused] at computed
    cases computed
  error := fun _ _ => left

/-- The stages compute the pipeline, and change the files as its write does. -/
theorem stages_pipeline (cwd : List String) (h : e.Harmless) : ∃ ended,
    e.stages cwd = (ended, (pipeline cwd e.files e.config).map (·.1.length)) ∧
      Written cwd e ended := by
  rw [stages]
  rcases hx : e.extract cwd with ⟨read, result⟩
  obtain ⟨⟨config, kept⟩, files, source⟩ := extract_frame hx
  have asked : read.controller.formatters = e.controller.formatters := by cases hx; rfl
  have computed := pipeline_eq cwd e.files e.config
  rw [← source] at computed
  cases result with
  | error fault =>
    have failed : pipeline cwd e.files e.config = .error fault := computed
    rw [failed]
    exact ⟨read, rfl, .of_refused failed config (.inl files)⟩
  | ok mapping =>
    dsimp only
    rcases hg : read.generate mapping with ⟨generated, result⟩
    obtain ⟨⟨config', kept'⟩, files', generation⟩ := generate_frame hg
    have asked' : generated.controller.formatters = read.controller.formatters := by cases hg; rfl
    rw [config] at generation
    change _ = ((Stylesheet.render mapping e.config.space e.config.classifier).mapError
      CycleFault.generation).bind _ at computed
    rw [← generation] at computed
    cases result with
    | error fault =>
      have failed : pipeline cwd e.files e.config = .error fault := computed
      rw [failed]
      exact ⟨generated, rfl, .of_refused failed (config'.trans config)
        (.inl (files'.trans files))⟩
    | ok text =>
      dsimp only
      change _ = (match (e.files.writeAtomic cwd e.config.output text).error with
        | some error => Except.error (CycleFault.output e.config.output error)
        | none => .ok (mapping, text)) at computed
      have config₂ : generated.config = e.config := config'.trans config
      rw [write_eq, config₂, files', files]
      cases result : (e.files.writeAtomic cwd e.config.output text).error with
      | some error =>
        have failed : pipeline cwd e.files e.config = .error (.output e.config.output error) := by
          rw [computed, result]
        rw [failed]
        exact ⟨_, rfl, .of_refused failed config₂ (.inr ⟨text, by simp [result], rfl⟩)⟩
      | none =>
        have fine : pipeline cwd e.files e.config = .ok (mapping, text) := by
          rw [computed, result]
        have harmless : ({ generated.enter .writing with
            files := (e.files.writeAtomic cwd e.config.output text).files e.files }).Harmless :=
          h.same_controller (kept'.trans kept) (asked'.trans asked)
        obtain ⟨formatted, ran, files₃, config₃⟩ := harmless.format
        rw [fine]
        dsimp only
        rw [ran]
        exact ⟨formatted, rfl, .of_computed fine (config₃.trans config₂) result files₃⟩

/-- A cycle whose stages all succeed. -/
theorem regenerate_computed (trigger : String) (harmless : e.Harmless) {mapping : Mapping}
    {sheet : String} (computed : pipeline cwd e.files e.config = .ok (mapping, sheet)) :
    (e.regenerate cwd trigger).2 = .success e.config.output mapping.length ∧
      (e.files.writeAtomic cwd e.config.output sheet).error = none ∧
      (e.regenerate cwd trigger).1.files =
        (e.files.writeAtomic cwd e.config.output sheet).files e.files := by
  have begun : (e.begun trigger).Harmless := harmless.same_controller rfl rfl
  obtain ⟨ended, ran, config, ok, -⟩ := stages_pipeline cwd begun
  change _ = (ended, (pipeline cwd e.files e.config).map (·.1.length)) at ran
  rw [computed] at ran
  obtain ⟨fine, files⟩ := ok mapping sheet computed
  rw [regenerate_ok ran]
  refine ⟨?_, fine, files⟩
  rw [succeed, config]
  rfl

/-- A cycle with a stage that fails. -/
theorem regenerate_refused (trigger : String) (harmless : e.Harmless) {fault : CycleFault}
    (refused : pipeline cwd e.files e.config = .error fault) :
    (e.regenerate cwd trigger).2 = .failure fault.message fault.kind ∧
      ((e.regenerate cwd trigger).1.files = e.files ∨
        ∃ text, (e.files.writeAtomic cwd e.config.output text).error ≠ none ∧
          (e.regenerate cwd trigger).1.files =
            (e.files.writeAtomic cwd e.config.output text).files e.files) := by
  have begun : (e.begun trigger).Harmless := harmless.same_controller rfl rfl
  obtain ⟨ended, ran, -, -, error⟩ := stages_pipeline cwd begun
  change _ = (ended, (pipeline cwd e.files e.config).map (·.1.length)) at ran
  rw [refused] at ran
  have files : (e.regenerate cwd trigger).1.files = ended.files := by
    rw [regenerate_error ran, fail]
    split <;> rfl
  rw [files]
  exact ⟨by rw [regenerate_error ran]; rfl, error fault refused⟩

/-- A cycle whose formatter does no harm comes to what the pipeline computes. It succeeds when that
does, with the size of the mapping, and then the sheet stands where the output's path leads, and no
other file or link is changed; it is what is read at the path, unless a link stood at that place and
the path leads nowhere now that it is gone. Else the cycle fails with the text and the kind of the
first stage that does, and no file is changed. -/
theorem regenerate_pipeline (cwd : List String) (trigger : String) {past : Files} {base : Path}
    {config : Config} (resolved : config.resolve past base = .ok e.config)
    (rooted : Files.Rooted e.files.seen) (harmless : e.Harmless) :
    let output := e.config.output
    let outcome := (e.regenerate cwd trigger).2
    let after := (e.regenerate cwd trigger).1.files
    (outcome.succeeded = true ↔ ∃ computed, pipeline cwd e.files e.config = .ok computed) ∧
    (∀ mapping sheet, pipeline cwd e.files e.config = .ok (mapping, sheet) →
      outcome = .success output mapping.length ∧
      ∃ goal stamp, Files.Goal e.files cwd output goal ∧
        after.find? goal = some (.file (Text.encodeUtf8 sheet.toList) false stamp) ∧
        Files.SameFiles (· = goal) e.files after ∧
        ((after.content cwd output).toOption = some (Text.encodeUtf8 sheet.toList) ∨
          (∃ target, e.files.find? goal = some (.link target)) ∧
            ∀ place, ¬ after.Reaches true cwd output place)) ∧
    ∀ fault, pipeline cwd e.files e.config = .error fault →
      outcome = .failure fault.message fault.kind ∧
        Files.SameFiles (fun _ => False) e.files after := by
  intro output outcome after
  have settled := Config.settled_output resolved
  cases computed : pipeline cwd e.files e.config with
  | ok result =>
    obtain ⟨mapping, sheet⟩ := result
    obtain ⟨success, fine, files⟩ : outcome = .success output mapping.length ∧ _ ∧ after = _ :=
      regenerate_computed trigger harmless computed
    refine ⟨⟨fun _ => ⟨_, rfl⟩, fun _ => ?_⟩, fun mapping' sheet' same => ?_,
      fun _ failed => (by cases failed)⟩
    · rw [success]
      rfl
    · cases same
      rw [files]
      exact ⟨success, Files.written_of_writeAtomic rooted settled fine⟩
  | error fault =>
    obtain ⟨failure, left⟩ : outcome = .failure fault.message fault.kind ∧
        (after = e.files ∨ ∃ text, (e.files.writeAtomic cwd output text).error ≠ none ∧
          after = (e.files.writeAtomic cwd output text).files e.files) :=
      regenerate_refused trigger harmless computed
    refine ⟨⟨fun succeeded => ?_, fun none => ?_⟩, fun _ _ ok => (by cases ok),
      fun fault' same => ?_⟩
    · rw [failure] at succeeded
      cases succeeded
    · obtain ⟨_, ok⟩ := none
      cases ok
    · cases same
      refine ⟨failure, ?_⟩
      rcases left with files | ⟨text, refused, files⟩
      · rw [files]
        exact .refl _ _
      · rw [files]
        exact Files.sameFiles_of_writeAtomic_failed rooted settled refused

/-! Cycles over the theme's files. -/

theorem pipeline_theme {fs : Files}
    (there : fs.find? ["theme.ts"] = some (.file themeSource false 0)) {output : Path}
    (written : (fs.writeAtomic [] output emptySheet).error = none) :
    pipeline [] fs { themeConfig with output } = .ok ([], emptySheet) := by
  have extracted := extract_theme there
  rw [pipeline_eq]
  change (((Source.extract fs [] themeConfig.target).2.mapError CycleFault.source).bind _) = _
  rw [extracted]
  change (match (fs.writeAtomic [] output emptySheet).error with
    | some error => _
    | none => _) = _
  rw [written]
  rfl

/-- A controller that formats nothing. -/
def idleEngine (config : Config) (files : Files) : Engine :=
  ⟨.make config (fun _ _ => ([], .ok .idle)) .empty, files, []⟩

theorem harmless_idleEngine (config : Config) (files : Files) :
    (idleEngine config files).Harmless where
  kept := fun _ none => by cases none
  made := fun _ _ formatter made => by
    cases made
    exact Formatter.harmless_idle
  refused := fun _ _ _ failed => by cases failed

theorem regenerate_idleEngine :
    pipeline [] themeFiles themeConfig = .ok ([], emptySheet) ∧
      ((idleEngine themeConfig themeFiles).regenerate [] "start").2 =
        .success (.absolute ["vars.css"]) 0 ∧
      ∃ goal stamp, ((idleEngine themeConfig themeFiles).regenerate [] "start").1.files.find? goal =
        some (.file (Text.encodeUtf8 emptySheet.toList) false stamp) := by
  have computed : pipeline [] themeFiles themeConfig = .ok ([], emptySheet) :=
    pipeline_theme rfl writeAtomic_themeFiles
  obtain ⟨-, success, -⟩ := regenerate_pipeline (e := idleEngine themeConfig themeFiles) [] "start"
    resolve_themeConfig rooted_themeFiles (harmless_idleEngine _ _)
  obtain ⟨outcome, goal, stamp, -, file, -⟩ := success [] emptySheet computed
  exact ⟨computed, outcome, goal, stamp, file⟩

/-- A link that came to stand where the output's directory should be, and that leads to where it
stands. -/
def linkedFiles : Files :=
  ⟨[(["theme.ts"], .file themeSource false 0), (["d"], .link ⟨0, []⟩)], 0⟩

def linkedConfig : Config :=
  { themeConfig with output := .absolute ["d", "d"] }

theorem rooted_linkedFiles : Files.Rooted linkedFiles.seen :=
  rooted_of_top (by decide)

theorem resolve_linkedConfig :
    linkedConfig.resolve themeFiles (.absolute []) = .ok linkedConfig := by
  have source := resolve_themeFiles (.inl rfl)
  have proper : (Path.absolute ["d", "d"]).Proper := by
    refine ⟨rfl, fun part there => ?_⟩
    obtain rfl : part = "d" := by simpa [Path.absolute] using there
    constructor <;> decide
  have unlinked : themeFiles.Unlinked ["d", "d"] := by
    intro front _ target linked
    rw [Files.find?] at linked
    split at linked
    · cases linked
    · obtain ⟨entry, found, link⟩ := Option.map_eq_some_iff.mp linked
      have there := List.mem_of_find?_eq_some found
      simp only [themeFiles, List.mem_cons, List.not_mem_nil, or_false] at there
      rcases there with rfl | rfl <;> cases link
  have output := Files.resolve_of_unlinked proper unlinked []
  change ((themeFiles.resolve [] (.absolute ["theme.ts"])).bind fun source =>
    (themeFiles.resolve [] (.absolute ["d", "d"])).bind fun output =>
      .ok { linkedConfig with source, output }) = _
  rw [source, output]
  rfl

/-- A name behind the link is one at the root. -/
theorem reaches_behind_link {fs : Files} {name : String}
    (linked : fs.seen ["d"] = some (.link ⟨0, []⟩)) (named : name ≠ "..")
    (size : (Path.absolute ["d", name]).text.utf8ByteSize < Files.maxPath)
    (short : name.utf8ByteSize ≤ Files.maxName)
    (plain : ∀ stamp, fs.seen [name] ≠ some (.directory stamp)) :
    fs.Reaches false [] (.absolute ["d", name]) [name] := by
  have start (tail : Files.Leads fs.seen false 39 [] [name] [name]) :
      fs.Reaches false [] (.absolute ["d", name]) [name] :=
    ⟨size, .through (by decide) (by decide) linked (by simp) tail⟩
  apply start
  change Files.Leads fs.seen false 39 [] [name] ([] ++ [name])
  refine .last named short ?_
  split
  · rename_i stamp there
    exact plain stamp there
  · rfl
  · trivial

theorem makeDirectories_linkedFiles :
    linkedFiles.makeDirectories [] (.absolute ["d"]) = ⟨[], none⟩ := by
  have linked : linkedFiles.seen ["d"] = some (.link ⟨0, []⟩) := rfl
  have there : linkedFiles.isDirectory [] (.absolute ["d"]) = true :=
    Files.isDirectory_iff.mpr ⟨[], ⟨by decide, .through (by decide) (by decide) linked (by simp)
      (.stop 39 [])⟩, by simp⟩
  exact Files.makeDirectories_of_isDirectory there

theorem writeAtomic_linkedFiles :
    (linkedFiles.writeAtomic [] (.absolute ["d", "d"]) emptySheet).error = none := by
  have parent : (Path.absolute ["d", "d"]).parent = .absolute ["d"] := rfl
  have temporary : linkedFiles.temporaryPath [] (.absolute ["d", "d"]) =
      .absolute ["d", ".d.<RANDOM>.tmp"] := by decide +kernel
  have behind (fs : Files) (linked : fs.seen ["d"] = some (.link ⟨0, []⟩))
      (plain : ∀ stamp, fs.seen [".d.<RANDOM>.tmp"] ≠ some (.directory stamp)) :=
    (reaches_behind_link linked (by decide) (by decide) (by decide) plain).place_eq
  have missing : linkedFiles.seen [".d.<RANDOM>.tmp"] = none := rfl
  have found := behind linkedFiles rfl (by simp [missing])
  rw [Files.writeAtomic, parent, makeDirectories_linkedFiles]
  simp only [Files.Run.files, List.head?_nil, Option.getD_none, temporary, found]
  generalize (linkedFiles.put [".d.<RANDOM>.tmp"] _).freshStamp = stamp
  generalize hf : (linkedFiles.put [".d.<RANDOM>.tmp"] _).put [".d.<RANDOM>.tmp"] _ = filled
  have written : filled.seen [".d.<RANDOM>.tmp"] =
      some (.file (Text.encodeUtf8 emptySheet.toList) false stamp) := by
    rw [← hf, Files.seen_put_put missing, if_pos rfl]
    rfl
  have linked : filled.seen ["d"] = some (.link ⟨0, []⟩) := by
    rw [← hf, Files.seen_put_put missing, if_neg (by decide)]
    rfl
  have output : filled.place false [] (.absolute ["d", "d"]) = .ok ⟨["d"], filled.find? ["d"]⟩ :=
    (reaches_behind_link linked (by decide) (by decide) (by decide) (by simp [linked])).place_eq
  rw [if_neg (by decide), Files.replace, if_neg (by decide),
    behind filled linked (by simp [written]), output, Files.seen_eq_file.mp written,
    Files.seen_eq_link.mp linked]

/-- Once the link is replaced by the file, the path leads nowhere. -/
theorem content_linkedFiles :
    (((linkedFiles.writeAtomic [] (.absolute ["d", "d"]) emptySheet).files linkedFiles).content []
      (.absolute ["d", "d"])).toOption = none := by
  have settled : (Path.absolute ["d", "d"]).Settled := ⟨rfl, by decide⟩
  have parent : (Path.absolute ["d", "d"]).parent = .absolute ["d"] := rfl
  obtain ⟨-, -, goal, stamp, reached, -, seen⟩ :=
    Files.seen_writeAtomic rooted_linkedFiles settled writeAtomic_linkedFiles
  rw [parent, makeDirectories_linkedFiles] at reached
  change linkedFiles.Reaches false [] (.absolute ["d", "d"]) goal at reached
  have linked : linkedFiles.seen ["d"] = some (.link ⟨0, []⟩) := rfl
  obtain rfl : goal = ["d"] := reached.unique
    (reaches_behind_link linked (by decide) (by decide) (by decide) (by simp [linked]))
  have file := seen ["d"]
  rw [if_pos rfl] at file
  apply Option.eq_none_iff_forall_ne_some.mpr
  intro bytes readable
  obtain ⟨place, _, _, ⟨-, way⟩, -⟩ := Files.content_iff.mp readable
  change Files.Leads _ true Files.maxLinks [] ["d", "d"] place at way
  generalize whole : ["d", "d"] = parts at way
  cases way with
  | stop => cases whole
  | up => exact absurd (List.cons.inj whole).1 (by decide)
  | last => cases (List.cons.inj whole).2
  | through _ _ linked =>
    obtain ⟨rfl, rfl⟩ := List.cons.inj whole
    exact absurd (file.symm.trans linked) (by simp)
  | into _ _ directory =>
    obtain ⟨rfl, rfl⟩ := List.cons.inj whole
    exact absurd (file.symm.trans directory) (by simp)

/-- A cycle that wrote its sheet need not succeed, and one that succeeds need not leave its sheet
where it can be read: by its own formatter's fault, or where the output's path passes the link that
the write replaces. -/
theorem regenerate_not_pipeline :
    (¬ ∀ (past : Files) (base : Path) (config : Config) (e : Engine) (cwd : List String)
        (trigger : String), config.resolve past base = .ok e.config →
      Files.Rooted e.files.seen → e.FormatsWith Formatter.LeavesFiles →
      ((∃ computed, pipeline cwd e.files e.config = .ok computed) →
        (e.regenerate cwd trigger).2.succeeded = true)) ∧
    ¬ ∀ (past : Files) (base : Path) (config : Config) (e : Engine) (cwd : List String)
        (trigger : String) (mapping : Mapping) (sheet : String),
      config.resolve past base = .ok e.config → Files.Rooted e.files.seen →
      e.FormatsWith Formatter.LeavesFiles →
      pipeline cwd e.files e.config = .ok (mapping, sheet) →
      ((e.regenerate cwd trigger).1.files.content cwd e.config.output).toOption =
        some (Text.encodeUtf8 sheet.toList) := by
  constructor
  · intro claim
    have leaves : explodingEngine.FormatsWith Formatter.LeavesFiles := by
      constructor
      · intro formatter kept
        cases kept
        exact fun _ _ => rfl
      · intro _ _ formatter made
        cases made
        exact fun _ _ => rfl
    have computed : pipeline [] themeFiles themeConfig = .ok ([], emptySheet) :=
      pipeline_theme rfl writeAtomic_themeFiles
    have succeeded := claim themeFiles (.absolute []) themeConfig explodingEngine [] "start"
      resolve_themeConfig rooted_themeFiles leaves ⟨_, computed⟩
    obtain ⟨failed, -⟩ := regenerate_explodingEngine
    simp [Outcome.succeeded, failed] at succeeded
  · intro claim
    have harmless := harmless_idleEngine linkedConfig linkedFiles
    have leaves : (idleEngine linkedConfig linkedFiles).FormatsWith Formatter.LeavesFiles :=
      ⟨fun formatter kept => (harmless.kept formatter kept).leaves,
        fun asked fs formatter made => (harmless.made asked fs formatter made).leaves⟩
    have computed : pipeline [] linkedFiles linkedConfig = .ok ([], emptySheet) :=
      pipeline_theme rfl writeAtomic_linkedFiles
    have read := claim themeFiles (.absolute []) linkedConfig
      (idleEngine linkedConfig linkedFiles) [] "start" [] emptySheet resolve_linkedConfig
      rooted_linkedFiles leaves computed
    obtain ⟨-, -, files⟩ := regenerate_computed "start" harmless computed
    rw [files] at read
    exact absurd (content_linkedFiles.symm.trans read) (by simp)

end Engine
end ThemeSheet
