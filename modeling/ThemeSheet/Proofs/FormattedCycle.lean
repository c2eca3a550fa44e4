import ThemeSheet.Proofs.CyclePipeline
import ThemeSheet.Proofs.ToolRuns

/-! Cycles whose output is formatted by tools. What a cycle comes to, once its sheet is written, is
what its formatter comes to. -/

namespace ThemeSheet

open Literal (Mapping)

namespace Engine

/-- The formatter that is kept, and any that may yet be made, is this one. -/
structure Uses (used : Formatter) (e : Engine) : Prop where
  kept : ∀ formatter, e.controller.formatter = some formatter → formatter = used
  made : ∀ asked fs, (e.controller.formatters asked fs).2 = .ok used

variable {e e' : Engine} {used : Formatter} {cwd : List String} {trigger : String}

theorem Uses.same_controller (uses : e.Uses used)
    (formatter : e'.controller.formatter = e.controller.formatter)
    (formatters : e'.controller.formatters = e.controller.formatters) : e'.Uses used where
  kept := by rw [formatter]; exact uses.kept
  made := by rw [formatters]; exact uses.made

theorem Uses.formatter (uses : e.Uses used) : ∃ asked, e.formatter = (asked, .ok used) := by
  rw [Engine.formatter]
  split
  · rename_i kept same
    rw [uses.kept kept same]
    exact ⟨e, rfl⟩
  · rw [← uses.made e.controller.asked e.files]
    exact ⟨_, rfl⟩

/-- What the formatting stage makes of what the formatter came to. -/
def formatted : Except Format.Fault Unit → Except CycleFault Unit
  | .ok () => .ok ()
  | .error fault => if fault.isExpected then .ok () else .error (.formatting fault)

/-- The formatting stage does what the formatter does. -/
theorem Uses.format (uses : e.Uses used) :
    ∃ ended, e.format = (ended, formatted (used.format e.config.output e.files).2) ∧
      ended.files = (used.format e.config.output e.files).1 ∧ ended.config = e.config := by
  have entered : (e.enter .formatting).Uses used := uses.same_controller rfl rfl
  obtain ⟨asked, made⟩ := entered.formatter
  obtain ⟨files, result⟩ := runFormatter_ok e.config.output made
  have config : ((e.enter .formatting).runFormatter e.config.output).1.config = e.config := by
    rw [runFormatter, made]
    exact (formatter_frame made).2
  have same : (e.enter .formatting).config = e.config := rfl
  rw [Engine.format, same]
  change _ = (used.format e.config.output e.files).1 at files
  change _ = (used.format e.config.output e.files).2 at result
  rw [← files, ← result]
  generalize (e.enter .formatting).runFormatter e.config.output = ran at config ⊢
  obtain ⟨ended, fault | _⟩ := ran
  · dsimp only [formatted] at config ⊢
    split
    · exact ⟨_, rfl, rfl, config⟩
    · exact ⟨_, rfl, rfl, config⟩
  · exact ⟨_, rfl, rfl, config⟩

theorem pipeline_ok {fs : Files} {config : Config} {mapping : Mapping} {sheet : String}
    (computed : pipeline cwd fs config = .ok (mapping, sheet)) :
    (Source.extract fs cwd config.target).2 = .ok mapping ∧
      Stylesheet.render mapping config.space config.classifier = .ok sheet ∧
      (fs.writeAtomic cwd config.output sheet).error = none := by
  rw [pipeline_eq] at computed
  cases extracted : (Source.extract fs cwd config.target).2 with
  | error fault =>
    rw [extracted] at computed
    cases computed
  | ok mapping' =>
    simp only [extracted, Except.mapError, Except.bind] at computed
    cases rendered : Stylesheet.render mapping' config.space config.classifier with
    | error fault =>
      rw [rendered] at computed
      cases computed
    | ok sheet' =>
      simp only [rendered] at computed
      split at computed
      · cases computed
      · rename_i fine
        cases computed
        exact ⟨rfl, rendered, fine⟩

/-- A cycle that has written its sheet succeeds exactly if its formatter has no fault but those that
are expected of tools. The files are what the formatter makes of them. -/
theorem regenerate_formatted {mapping : Mapping} {sheet : String} (uses : e.Uses used)
    (computed : pipeline cwd e.files e.config = .ok (mapping, sheet)) (trigger : String) :
    let ran := used.format e.config.output
      ((e.files.writeAtomic cwd e.config.output sheet).files e.files)
    (e.regenerate cwd trigger).1.files = ran.1 ∧
      ((∀ fault, ran.2 = .error fault → fault.isExpected = true) →
        (e.regenerate cwd trigger).2 = .success e.config.output mapping.length) ∧
      ∀ fault, ran.2 = .error fault → fault.isExpected = false →
        (e.regenerate cwd trigger).2 = .failure fault.message "error" := by
  intro ran
  obtain ⟨extracted, rendered, fine⟩ := pipeline_ok computed
  obtain ⟨written, config, files, kept, made, stages⟩ :=
    stages_of_written (e := e.begun trigger) extracted rendered fine
  change written.files = (e.files.writeAtomic cwd e.config.output sheet).files e.files at files
  change written.config = e.config at config
  obtain ⟨ended, format, after, config'⟩ := (uses.same_controller kept made).format
  rw [config, files] at format after
  change ended.files = ran.1 at after
  rw [format] at stages
  change _ = (ended, (formatted ran.2).map fun _ => mapping.length) at stages
  have result (fine : formatted ran.2 = .ok ()) :
      e.regenerate cwd trigger = ((ended.succeed mapping.length).1.enter .idle,
        .success e.config.output mapping.length) := by
    rw [fine] at stages
    rw [regenerate_ok stages, succeed, config', config]
  cases came : ran.2 with
  | ok =>
    rw [result (by rw [came]; rfl)]
    exact ⟨after, fun _ => rfl, fun _ failed => by cases failed⟩
  | error fault =>
    cases expected : fault.isExpected with
    | true =>
      rw [result (by rw [came, formatted, if_pos expected])]
      refine ⟨after, fun _ => rfl, fun fault' same unexpected => ?_⟩
      cases same
      rw [expected] at unexpected
      cases unexpected
    | false =>
      rw [came, formatted, expected, if_neg Bool.false_ne_true] at stages
      rw [regenerate_error stages]
      refine ⟨?_, fun fine => ?_, fun fault' same _ => ?_⟩
      · rw [← after, fail]
        split <;> rfl
      · rw [fine fault rfl] at expected
        cases expected
      · cases same
        rfl

open Format (Launcher Host Tools InOrder Illegible history)
open Format.History (Agrees)


/-- What formatting a file with tools does is told by the account of the tools that it starts: each
is started on the files as the one before it left them, and whatever else the launcher would have
done makes no difference. If there is no fault, the tools have run in order. A fault is that of the
last run, or of reading the file after it, and it is one that tools may have unless something that
should be text was none, or a path was none at all. In the former case a cycle that formats its
sheet with the tools succeeds, in the latter it fails. -/
theorem tools_in_order (launch : Launcher) (host : Host) (tools : Tools) (path : Path)
    (fs : Files) :
    let account := history launch host tools path fs
    Format.format launch host tools path fs = (account.files, account.result) ∧
    account.Accounts launch host tools path fs ∧
    (∀ launch', Agrees launch' (tools.workplace host) path account.runs →
      Format.format launch' host tools path fs = (account.files, account.result)) ∧
    (account.result = .ok () → InOrder host tools path account.runs) ∧
    (∀ fault, account.result = .error fault →
      (fault.isExpected = false ↔ Illegible host path account.files account.runs fault)) ∧
    ∀ (e : Engine) (cwd : List String) (trigger : String) (mapping : Mapping) (sheet : String),
      e.Uses (.ofTools host launch tools) → e.config.output = path →
      pipeline cwd e.files e.config = .ok (mapping, sheet) →
      (e.files.writeAtomic cwd path sheet).files e.files = fs →
      (e.regenerate cwd trigger).1.files = account.files ∧
        ((e.regenerate cwd trigger).2 = .success path mapping.length ↔
          ∀ fault, account.result = .error fault → fault.isExpected = true) := by
  intro account
  have same : Format.format launch host tools path fs = (account.files, account.result) :=
    Format.format_eq_history launch host tools path fs
  have true' : account.Accounts launch host tools path fs := Format.History.accounts_history fs
  refine ⟨same, true', fun launch' agrees => ?_, Format.inOrder_of_ok,
    fun fault failed => (true'.stopped fault failed).unexpected_iff, ?_⟩
  · rw [Format.format_eq_history, Format.History.history_congr agrees]
  · rintro e cwd trigger mapping sheet uses rfl computed rfl
    obtain ⟨files, success, failure⟩ := regenerate_formatted uses computed trigger
    change _ = (Format.format launch host tools _ _).1 at files
    change (∀ fault, (Format.format launch host tools _ _).2 = _ → _) → _ at success
    change ∀ fault, (Format.format launch host tools _ _).2 = _ → _ at failure
    rw [same] at files success failure
    refine ⟨files, fun succeeded fault failed => ?_, success⟩
    by_contra unexpected
    rw [failure fault failed (Bool.eq_false_iff.mpr unexpected)] at succeeded
    cases succeeded

/-! Cycles over the theme's files, with tools. -/

def bothTools : Tools := ⟨some ["prettier"], some ["eslint"], none⟩

def noHost : Host := ⟨[], []⟩

def sheetPath : Path := .absolute ["vars.css"]

/-- Tools that write no output. Prettier leaves the files alone; eslint puts the bytes in the sheet
and reports problems. -/
def puttingLaunch (bytes : List UInt8) : Launcher := fun command _ fs =>
  if command.head? = some "eslint" then
    .finished (fs.put ["vars.css"] (.file bytes false fs.freshStamp)) 1 [] []
  else .finished fs 0 [] []

theorem history_puttingLaunch {fs : Files} {bytes : List UInt8} {text text' : String}
    (before : fs.readText [] sheetPath = .ok text)
    (after : (fs.put ["vars.css"] (.file bytes false fs.freshStamp)).readText [] sheetPath =
      .ok text') :
    let checked := fs.put ["vars.css"] (.file bytes false fs.freshStamp)
    history (puttingLaunch bytes) noHost bothTools sheetPath fs =
      ⟨[⟨["prettier"], [0], fs, .finished fs 0 [] []⟩,
          ⟨["eslint"], [0, 1], fs, .finished checked 1 [] []⟩] ++
        if text' = text then []
        else [⟨["prettier"], [0], checked, .finished checked 0 [] []⟩], checked, .ok ()⟩ := by
  intro checked
  have prettier (fs : Files) : Format.start (puttingLaunch bytes) noHost bothTools sheetPath
      ["prettier"] [0] fs = ⟨[⟨["prettier"], [0], fs, .finished fs 0 [] []⟩], fs, .ok ()⟩ :=
    Format.start_silent (if_neg (by decide)) (by decide)
  have eslint : Format.start (puttingLaunch bytes) noHost bothTools sheetPath ["eslint"] [0, 1] fs =
      ⟨[⟨["eslint"], [0, 1], fs, .finished checked 1 [] []⟩], checked, .ok ()⟩ :=
    Format.start_silent (if_pos rfl) (by decide)
  have first : Format.command? bothTools.prettier = some ["prettier"] := rfl
  have second : Format.command? bothTools.eslint = some ["eslint"] := rfl
  have before : fs.readText noHost.cwd sheetPath = .ok text := before
  have after : checked.readText noHost.cwd sheetPath = .ok text' := after
  simp only [history, Format.startAny, first, prettier, Format.check, second, Format.readBack,
    Format.History.bind, before, eslint, Except.mapError, Format.tidy, after]
  split <;> rfl


/-- A controller of the theme that formats its sheet with tools. -/
def toolEngine (launch : Launcher) (tools : Tools) : Engine :=
  ⟨.make themeConfig (fun _ _ => ([], .ok (.ofTools noHost launch tools))) .empty, themeFiles, []⟩

theorem uses_toolEngine (launch : Launcher) (tools : Tools) :
    (toolEngine launch tools).Uses (.ofTools noHost launch tools) where
  kept := fun _ none => by cases none
  made := fun _ _ => rfl

/-- The theme's files once the sheet is written. -/
def writtenFiles : Files :=
  (themeFiles.writeAtomic [] sheetPath emptySheet).files themeFiles

theorem computed_toolEngine (launch : Launcher) (tools : Tools) :
    pipeline [] (toolEngine launch tools).files (toolEngine launch tools).config =
      .ok ([], emptySheet) :=
  pipeline_theme rfl writeAtomic_themeFiles

theorem readText_writtenFiles : writtenFiles.readText [] sheetPath = .ok emptySheet := by
  have readable : writtenFiles.content [] sheetPath = .ok (Text.encodeUtf8 emptySheet.toList) := by
    have written := Files.content_of_writeAtomic rooted_themeFiles ⟨rfl, by decide⟩ plain_themeFiles
      writeAtomic_themeFiles
    change (writtenFiles.content [] sheetPath).toOption = _ at written
    cases same : writtenFiles.content [] sheetPath with
    | error => simp [same, Except.toOption] at written
    | ok bytes => simpa [same, Except.toOption] using written
  have decoded : (Text.decodeUtf8 (Text.encodeUtf8 emptySheet.toList)).toOption =
      some emptySheet.toList := by decide +kernel
  rw [Files.readText_of_content (by decide) readable decoded]
  decide +kernel

theorem content_put (bytes : List UInt8) (fs : Files) :
    (fs.put ["vars.css"] (.file bytes false fs.freshStamp)).content [] sheetPath = .ok bytes := by
  have seen := Files.seen_put fs (List.cons_ne_nil "vars.css" [])
    (.file bytes false fs.freshStamp) ["vars.css"]
  rw [if_pos rfl] at seen
  exact Files.content_top (by decide) (by decide) (Files.seen_eq_file.mp seen)

/-- The sheet with other bytes is read as what they spell. -/
theorem readText_put {bytes : List UInt8} {text : List Char} (fs : Files)
    (decoded : (Text.decodeUtf8 bytes).toOption = some text) :
    (fs.put ["vars.css"] (.file bytes false fs.freshStamp)).readText [] sheetPath =
      .ok (String.ofList (Text.unifyNewlines text)) :=
  Files.readText_of_content (by decide) (content_put bytes fs) decoded

theorem tools_in_order_fixedSheet :
    let launch := puttingLaunch (Text.encodeUtf8 "/* fixed */".toList)
    let account := history launch noHost bothTools sheetPath writtenFiles
    account.runs.map (·.command) = [["prettier"], ["eslint"], ["prettier"]] ∧
      InOrder noHost bothTools sheetPath account.runs ∧
      ((toolEngine launch bothTools).regenerate [] "start").2 = .success sheetPath 0 := by
  intro launch account
  have decoded : (Text.decodeUtf8 (Text.encodeUtf8 "/* fixed */".toList)).toOption =
      some "/* fixed */".toList := by decide +kernel
  have known := history_puttingLaunch readText_writtenFiles (readText_put writtenFiles decoded)
  have other : String.ofList (Text.unifyNewlines "/* fixed */".toList) ≠ emptySheet := by
    decide +kernel
  change account = _ at known
  rw [if_neg other] at known
  have fine : account.result = .ok () := by rw [known]
  obtain ⟨-, -, -, order, -, cycle⟩ :=
    tools_in_order launch noHost bothTools sheetPath writtenFiles
  obtain ⟨-, success⟩ := cycle _ [] "start" [] emptySheet (uses_toolEngine launch bothTools) rfl
    (computed_toolEngine launch bothTools) rfl
  refine ⟨by rw [known]; rfl, order fine, success.mpr fun fault failed => ?_⟩
  change account.result = _ at failed
  rw [fine] at failed
  cases failed

/-- A tool that ends well, and whose output is no text. -/
def garblingLaunch : Launcher := fun _ _ fs => .finished fs 0 [0xFF] []

def prettierAlone : Tools := ⟨some ["prettier"], none, none⟩

theorem format_garblingLaunch (fs : Files) :
    Format.format garblingLaunch noHost prettierAlone sheetPath fs =
      (fs, .error (.encoding ⟨0xFF, 0, 1, .badStart⟩)) := by
  have garbled : Text.decodeUtf8 [0xFF] = .error ⟨0xFF, 0, 1, .badStart⟩ := by decide +kernel
  have prettier : Format.command? prettierAlone.prettier = some ["prettier"] := rfl
  have eslint : Format.command? prettierAlone.eslint = none := rfl
  simp only [Format.format, prettier, eslint, Format.runTool, garblingLaunch, Format.outputText,
    garbled, bind, Except.bind]

/-- A sheet whose line end is of two characters. -/
def returnFiles : Files :=
  ⟨[(["vars.css"], .file (Text.encodeUtf8 "a\r\n".toList) false 0)], 0⟩

theorem content_returnFiles :
    returnFiles.content [] sheetPath = .ok (Text.encodeUtf8 "a\r\n".toList) := by
  have there : returnFiles.find? ["vars.css"] =
      some (.file (Text.encodeUtf8 "a\r\n".toList) false 0) := by
    simp [Files.find?, returnFiles]
  exact Files.content_top (by decide) (by decide) there

/-- A formatting can fail otherwise than tools may, and a cycle with it; and eslint can be the last
to change the file, where it changes nothing but line ends. -/
theorem tools_not_in_order :
    (¬ ∀ launch host tools path fs fault,
      (Format.format launch host tools path fs).2 = .error fault → fault.isExpected = true) ∧
    (¬ ∀ (e : Engine) (cwd : List String) (trigger : String) (launch : Launcher) (host : Host)
        (tools : Tools), e.Uses (.ofTools host launch tools) →
      (∃ computed, pipeline cwd e.files e.config = .ok computed) →
      (e.regenerate cwd trigger).2.succeeded = true) ∧
    ¬ ∀ (launch : Launcher) (host : Host) (tools : Tools) (path : Path) (fs : Files),
      let account := history launch host tools path fs
      account.result = .ok () → (Format.command? tools.prettier).isSome →
        Format.command? tools.prettier ≠ Format.command? tools.eslint →
        ∀ run ∈ account.runs.getLast?, some run.command = Format.command? tools.eslint →
          (run.left.content host.cwd path).toOption =
            (run.found.content host.cwd path).toOption := by
  refine ⟨fun claim => ?_, fun claim => ?_, fun claim => ?_⟩
  · have expected := claim garblingLaunch noHost prettierAlone sheetPath .empty _
      (by rw [format_garblingLaunch])
    cases expected
  · have succeeded := claim (toolEngine garblingLaunch prettierAlone) [] "start" garblingLaunch
      noHost prettierAlone (uses_toolEngine _ _) ⟨_, computed_toolEngine _ _⟩
    obtain ⟨-, -, failure⟩ := regenerate_formatted (uses_toolEngine garblingLaunch prettierAlone)
      (computed_toolEngine _ _) "start"
    have failed := failure _ (congrArg Prod.snd (format_garblingLaunch _)) rfl
    rw [failed] at succeeded
    cases succeeded
  · have decoded : (Text.decodeUtf8 (Text.encodeUtf8 "a\r\n".toList)).toOption =
        some "a\r\n".toList := by decide +kernel
    have decoded' : (Text.decodeUtf8 (Text.encodeUtf8 "a\n".toList)).toOption =
        some "a\n".toList := by decide +kernel
    have known := history_puttingLaunch
      (Files.readText_of_content (by decide) content_returnFiles decoded)
      (readText_put returnFiles decoded')
    have same : String.ofList (Text.unifyNewlines "a\n".toList) =
        String.ofList (Text.unifyNewlines "a\r\n".toList) := by decide +kernel
    dsimp only at known
    rw [if_pos same, List.append_nil] at known
    have unchanged := claim (puttingLaunch (Text.encodeUtf8 "a\n".toList)) noHost bothTools
      sheetPath returnFiles
    dsimp only at unchanged
    rw [known] at unchanged
    have kept := unchanged rfl rfl (by decide) _ rfl rfl
    rw [Format.Run.left_finished rfl] at kept
    change (Files.content _ [] sheetPath).toOption = (returnFiles.content [] sheetPath).toOption
      at kept
    rw [content_put, content_returnFiles] at kept
    exact absurd kept (by decide +kernel)

end Engine
end ThemeSheet
