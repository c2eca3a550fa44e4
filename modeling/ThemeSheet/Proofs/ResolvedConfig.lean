import ThemeSheet.CommandLine.Run
import ThemeSheet.Proofs.FailedCycle
import ThemeSheet.Proofs.SourcePath

/-! Where the paths of a configuration lead when no link is met on the way: the text alone tells, and
what was found so is found again from every directory. -/

namespace ThemeSheet

namespace Path

/-- A path written out from a directory. -/
def seenFrom (path base : Path) : Path :=
  (absolute base.parts).join path

theorem seenFrom_of_absolute {path : Path} (absolute : path.isAbsolute = true) (base : Path) :
    path.seenFrom base = path :=
  if_pos absolute

theorem isAbsolute_seenFrom (path base : Path) : (path.seenFrom base).isAbsolute = true := by
  rw [seenFrom, join]
  split
  · assumption
  · rfl

/-- A part of a path as a text spells it. -/
structure IsPart (part : String) : Prop where
  ne_empty : part ≠ ""
  ne_here : part ≠ "."
  no_slash : '/' ∉ part.toList

theorem no_slash_of_mem_splitSlash {text part : List Char} (there : part ∈ splitSlash text) :
    '/' ∉ part := by
  induction text generalizing part with
  | nil =>
    cases List.mem_singleton.mp there
    exact List.not_mem_nil
  | cons c rest ih =>
    rw [splitSlash] at there
    split at there
    · rcases List.mem_cons.mp there with rfl | later
      · exact List.not_mem_nil
      · exact ih later
    · rename_i other
      split at there
      · cases List.mem_singleton.mp there
        simpa using Ne.symm other
      · rename_i next parts split_rest
        rw [split_rest] at ih
        rcases List.mem_cons.mp there with rfl | later
        · have := ih List.mem_cons_self
          simp [this, Ne.symm other]
        · exact ih (List.mem_cons_of_mem _ later)

theorem isPart_ofString {text part : String} (there : part ∈ (ofString text).parts) :
    IsPart part := by
  obtain ⟨split_off, kept⟩ := List.mem_filter.mp there
  obtain ⟨chars, among, rfl⟩ := List.mem_map.mp split_off
  simp only [Bool.and_eq_true, bne_iff_ne] at kept
  exact ⟨kept.1, kept.2, by simpa using no_slash_of_mem_splitSlash among⟩

/-- The parts of a path written out are its own or those of the directory. -/
theorem mem_parts_seenFrom {path base : Path} {part : String}
    (there : part ∈ (path.seenFrom base).parts) : part ∈ base.parts ∨ part ∈ path.parts := by
  rw [seenFrom, join] at there
  split at there
  · exact .inr there
  · exact List.mem_append.mp there

theorem mem_foldl_climb {part : String} {here parts : List String}
    (there : part ∈ parts.foldl climb here) : part ∈ here ∨ part ∈ parts := by
  induction parts generalizing here with
  | nil => exact .inl there
  | cons next rest ih =>
    rcases ih there with early | late
    · rw [climb] at early
      split at early
      · exact .inl (List.dropLast_subset _ early)
      · rcases List.mem_append.mp early with before | last
        · exact .inl before
        · cases List.mem_singleton.mp last
          exact .inr List.mem_cons_self
    · exact .inr (List.mem_cons_of_mem _ late)

theorem foldl_climb_of_straight {here parts : List String} (straight : ".." ∉ parts) :
    parts.foldl climb here = here ++ parts := by
  induction parts generalizing here with
  | nil => rw [List.foldl_nil, List.append_nil]
  | cons part rest ih =>
    obtain ⟨named, later⟩ := not_or.mp (mt List.mem_cons.mpr straight)
    rw [List.foldl_cons, ih later, climb, if_neg (Ne.symm named), List.append_assoc,
      List.singleton_append]

theorem proper_collapse {path : Path} (spelled : ∀ part ∈ path.parts, IsPart part)
    (no_nul : path.holdsNul = false) : path.collapse.Proper := by
  refine ⟨rfl, fun part there => ?_⟩
  have own : part ∈ path.parts := by
    rcases mem_foldl_climb there with none | own
    · cases none
    · exact own
  obtain ⟨ne_empty, ne_here, no_slash⟩ := spelled part own
  refine ⟨ne_empty, ne_here, ?_, no_slash, ?_⟩
  · rintro rfl
    exact straight_climb List.not_mem_nil there
  · simp only [holdsNul, List.any_eq_false, List.contains_iff_mem] at no_nul
    exact no_nul part own

end Path

namespace Files

variable {fs : Files} {here parts : List String}

/-- No link is met on a way, each `..` taken by the text alone. -/
def LinkFree (fs : Files) (here parts : List String) : Prop :=
  ∀ front, front <+: parts → ∀ target, fs.find? (front.foldl Path.climb here) ≠ some (.link target)

theorem LinkFree.start (free : fs.LinkFree here parts) (target : Path) :
    fs.find? here ≠ some (.link target) :=
  free [] List.nil_prefix target

theorem LinkFree.step {part : String} (free : fs.LinkFree here (part :: parts)) :
    fs.LinkFree (Path.climb here part) parts :=
  fun _ ahead => free _ (List.cons_prefix_cons.mpr ⟨rfl, ahead⟩)

theorem LinkFree.after {front : List String} (free : fs.LinkFree here (front ++ parts)) :
    fs.LinkFree (front.foldl Path.climb here) parts := by
  intro further ahead
  rw [← List.foldl_append]
  exact free _ ((List.prefix_append_right_inj front).mpr ahead)

theorem LinkFree.settle (free : fs.LinkFree here parts) (spots : List Spot) (fromRoot : Bool) :
    fs.settle spots ⟨fromRoot, here⟩ parts = .ok ⟨fromRoot, parts.foldl Path.climb here⟩ := by
  induction parts generalizing here with
  | nil => rw [Files.settle, List.foldl_nil]
  | cons part rest ih =>
    have further := ih free.step
    by_cases up : part = ".."
    · subst up
      rw [Files.settle]
      exact further
    · have climbed : Path.climb here part = here ++ [part] := if_neg up
      have no_link := free.step.start
      rw [climbed] at no_link
      rw [Files.settle]
      · split
        · rename_i target linked
          exact absurd linked (no_link target)
        · rw [List.foldl_cons, ← further, climbed]
          rfl
      · exact up

/-- Where there are no links, none is met. -/
theorem linkFree_of_no_links (none : ∀ entry ∈ fs.entries, ∀ target, entry.2 ≠ .link target) :
    fs.LinkFree here parts := by
  intro front _ target found
  rw [find?] at found
  split at found
  · cases found
  · obtain ⟨entry, first, linked⟩ := Option.map_eq_some_iff.mp found
    exact none entry (List.mem_of_find?_eq_some first) target linked

theorem unlinked_nil : fs.Unlinked [] := by
  intro front ahead target
  rw [List.prefix_nil.mp ahead, find?, if_pos rfl]
  rintro ⟨⟩

/-- Every place on the way that is left was met on the way that was taken. -/
theorem LinkFree.unlinked (free : fs.LinkFree here parts) (before : fs.Unlinked here) :
    fs.Unlinked (parts.foldl Path.climb here) := by
  induction parts generalizing here with
  | nil => exact before
  | cons part rest ih =>
    refine ih free.step fun front ahead => ?_
    rw [Path.climb] at ahead
    split at ahead
    · exact before front (ahead.trans (List.dropLast_prefix _))
    · rename_i named
      rcases List.prefix_concat_iff.mp ahead with whole | shorter
      · have climbed : Path.climb here part = here ++ [part] := if_neg named
        rw [whole, ← climbed]
        exact free.step.start
      · exact before front shorter

/-- Where no link is met, a path leads where its text says. -/
theorem settle_of_linkFree {cwd : List String} {path : Path} (straight : ".." ∉ cwd)
    (free : fs.LinkFree [] (path.seenFrom (.absolute cwd)).parts) :
    ∃ fromRoot, fs.settle fs.linkSpots ((Spot.mk false cwd).startOf path) path.parts =
      .ok ⟨fromRoot, (path.seenFrom (.absolute cwd)).collapse.parts⟩ := by
  rw [Spot.startOf]
  by_cases absolute : path.isAbsolute = true
  · rw [Path.seenFrom_of_absolute absolute] at free ⊢
    rw [if_pos absolute]
    exact ⟨true, free.settle _ _⟩
  · have parts : (path.seenFrom (.absolute cwd)).parts = cwd ++ path.parts := by
      rw [Path.seenFrom, Path.join, if_neg absolute]
      rfl
    have reached : (path.seenFrom (.absolute cwd)).collapse.parts =
        path.parts.foldl Path.climb cwd := by
      change (path.seenFrom (.absolute cwd)).parts.foldl Path.climb [] = _
      rw [parts, List.foldl_append, Path.foldl_climb_of_straight straight, List.nil_append]
    rw [parts] at free
    have ahead := free.after
    rw [Path.foldl_climb_of_straight straight, List.nil_append] at ahead
    rw [if_neg absolute, reached]
    exact ⟨false, ahead.settle _ _⟩

theorem resolve_of_linkFree {cwd : List String} {path : Path} (straight : ".." ∉ cwd)
    (free : fs.LinkFree [] (path.seenFrom (.absolute cwd)).parts) :
    fs.resolve cwd path = if path.holdsNul then .error .nulInPath
      else .ok (path.seenFrom (.absolute cwd)).collapse := by
  obtain ⟨fromRoot, settled⟩ := settle_of_linkFree straight free
  have placed : fs.place true [] (path.seenFrom (.absolute cwd)).collapse ≠
      .error .tooManyLinks := by
    rw [place]
    split
    · simp
    · exact walk_of_unlinked (Path.straight_climb List.not_mem_nil) (free.unlinked unlinked_nil)
  rw [resolve]
  dsimp only
  rw [settled]
  split
  · rfl
  · dsimp only
    split
    · rename_i looped
      exact absurd looped placed
    · rfl

end Files

namespace Config

variable {config : Config} {fs : Files} {base : Path}

def paths (config : Config) : List Path :=
  config.source :: config.output :: (config.prettierConfig.toList ++ config.eslintConfig.toList)

/-- The same with each path in another's place. -/
def movePaths (config : Config) (move : Path → Path) : Config :=
  { config with
    source := move config.source
    output := move config.output
    prettierConfig := config.prettierConfig.map move
    eslintConfig := config.eslintConfig.map move }

theorem paths_movePaths (config : Config) (move : Path → Path) :
    (config.movePaths move).paths = config.paths.map move := by
  simp [paths, movePaths, Option.toList_map]

theorem mapM_eq {settle : Path → Except FileError Path} {bad : Path → Bool} {fault : FileError}
    {move : Path → Path} {path? : Option Path}
    (each : ∀ path ∈ path?, settle path = if bad path then .error fault else .ok (move path)) :
    path?.mapM settle =
      if path?.toList.any bad then .error fault else .ok (path?.map move) := by
  cases path? with
  | none => rfl
  | some path =>
    change (settle path >>= fun found => pure (some found)) = _
    rw [each path rfl, Option.toList_some, List.any_cons, List.any_nil, Bool.or_false]
    split <;> rfl

/-- If there is one fault that a path can have, a configuration is refused for it exactly if one of
its paths has it. -/
theorem resolve_eq {bad : Path → Bool} {fault : FileError} {move : Path → Path}
    (each : ∀ path ∈ config.paths, fs.resolve [] (path.seenFrom base) =
      if bad path then .error fault else .ok (move path)) :
    config.resolve fs base =
      if config.paths.any bad then .error fault else .ok (config.movePaths move) := by
  simp only [paths, List.mem_cons, List.mem_append, Option.mem_toList, or_imp, forall_and,
    forall_eq] at each
  obtain ⟨source, output, prettier, eslint⟩ := each
  have prettier := mapM_eq prettier
  have eslint := mapM_eq eslint
  simp only [Path.seenFrom] at source output prettier eslint
  simp only [resolve, source, output, prettier, eslint, paths, List.any_cons, List.any_append]
  cases bad config.source <;> cases bad config.output <;>
    cases config.prettierConfig.toList.any bad <;> cases config.eslintConfig.toList.any bad <;> rfl

/-- Paths that are where they lead are found again from every directory. -/
theorem resolve_of_proper (proper : ∀ path ∈ config.paths, path.Proper)
    (unlinked : ∀ path ∈ config.paths, fs.Unlinked path.parts) :
    config.resolve fs base = .ok config := by
  have each : ∀ path ∈ config.paths, fs.resolve [] (path.seenFrom base) =
      if (fun _ => false) path then .error .nulInPath else .ok (id path) := by
    intro path there
    have absolute : path.isAbsolute = true := by
      rw [Path.isAbsolute, (proper path there).slashes]
      rfl
    rw [Path.seenFrom_of_absolute absolute]
    exact Files.resolve_of_unlinked (proper path there) (unlinked path there) []
  rw [resolve_eq each, if_neg (by simp)]
  simp [movePaths]

/-- Where no link is met, the text of a configuration's paths tells what becomes of it. -/
theorem resolve_of_linkFree
    (free : ∀ path ∈ config.paths, fs.LinkFree [] (path.seenFrom base).parts) :
    config.resolve fs base = if config.paths.any fun path => (path.seenFrom base).holdsNul then
      .error .nulInPath else .ok (config.movePaths fun path => (path.seenFrom base).collapse) := by
  refine resolve_eq fun path there => ?_
  have whole : (path.seenFrom base).seenFrom (.absolute []) = path.seenFrom base :=
    Path.seenFrom_of_absolute (path.isAbsolute_seenFrom base) _
  have free := free path there
  rw [← whole] at free
  rw [Files.resolve_of_linkFree List.not_mem_nil free, whole]

/-- The paths of a configuration that was resolved without meeting a link. -/
theorem paths_resolved {resolved : Config}
    (spelled : ∀ path ∈ config.paths, ∀ part ∈ (path.seenFrom base).parts, Path.IsPart part)
    (free : ∀ path ∈ config.paths, fs.LinkFree [] (path.seenFrom base).parts)
    (found : config.resolve fs base = .ok resolved) :
    ∀ path ∈ resolved.paths, path.Proper ∧ fs.Unlinked path.parts := by
  rw [resolve_of_linkFree free] at found
  split at found
  · cases found
  · rename_i no_nul
    cases found
    simp only [List.any_eq_true, not_exists, not_and, Bool.not_eq_true] at no_nul
    rw [paths_movePaths]
    intro path there
    obtain ⟨given, among, rfl⟩ := List.mem_map.mp there
    exact ⟨Path.proper_collapse (spelled given among) (no_nul given among),
      (free given among).unlinked Files.unlinked_nil⟩

theorem paths_made {source name output space : String} {classifier : Option Classifier}
    {prettier eslint : Option String} {delay : Rat} {format : Bool}
    (made : make (.ofString source) name (.ofString output) space classifier
      (prettier.map .ofString) (eslint.map .ofString) delay format = .ok config) :
    ∀ path ∈ config.paths, ∃ text, path = .ofString text := by
  have paths : config.paths = (source :: output :: (prettier.toList ++ eslint.toList)).map
      Path.ofString := by
    rw [make] at made
    split at made
    · split at made
      · cases made
      · split at made
        · cases made
          simp [Config.paths, Option.toList_map]
        · cases made
    · cases made
  intro path there
  rw [paths] at there
  obtain ⟨text, -, rfl⟩ := List.mem_map.mp there
  exact ⟨text, rfl⟩

end Config

namespace Engine

variable {cwd : List String} {e : Engine}

/-- An event asks for a cycle exactly if it is one of those that do and its path leads to the
source. -/
theorem handleEvent_true_iff {event path : String} {clock : Clock} {after : Clock × Engine} :
    handleEvent cwd event path (clock, e) = .ok (after, true) ↔
      (event = "change" ∨ event = "add") ∧
        e.files.resolve cwd (.ofString path) = .ok e.config.source ∧
        after = schedule (clock, e.log .debug s!"{event} event on {path}") := by
  have watched : watchedEvents.contains event = true ↔ event = "change" ∨ event = "add" := by
    simp [watchedEvents]
  rw [handleEvent]
  split
  · rename_i known
    rw [watched] at known
    cases found : e.files.resolve cwd (.ofString path) with
    | error fault => simp [Except.map]
    | ok changed =>
      by_cases same : changed = e.config.source
      · simp [Except.map, same, known, eq_comm]
      · simp [Except.map, same]
  · rename_i unknown
    rw [watched] at unknown
    simp [unknown]

theorem handleEvent_of_linkFree {event path : String} {clock : Clock} (straight : ".." ∉ cwd)
    (free : e.files.LinkFree [] ((Path.ofString path).seenFrom (.absolute cwd)).parts) :
    handleEvent cwd event path (clock, e) =
      if ¬(event = "change" ∨ event = "add") then .ok ((clock, e), false)
      else if (Path.ofString path).holdsNul then .error .nulInPath
      else if ((Path.ofString path).seenFrom (.absolute cwd)).collapse = e.config.source then
        .ok (schedule (clock, e.log .debug s!"{event} event on {path}"), true)
      else .ok ((clock, e), false) := by
  have watched : watchedEvents.contains event = true ↔ event = "change" ∨ event = "add" := by
    simp [watchedEvents]
  rw [handleEvent, Files.resolve_of_linkFree straight free]
  simp only [watched, ite_not]
  split
  · split
    · rfl
    · rw [Except.map]
      split <;> rfl
  · rfl

end Engine

namespace Config

open CommandLine

variable {config : Config} {fs : Files}

/-- Where no link is met on the way of any path, a configuration that is resolved stays as it is,
from whatever directory it is resolved again, and events are told by where their paths lead. -/
theorem resolve_once_for_all {source name output space base : String}
    {classifier : Option Classifier} {prettier eslint : Option String} {delay : Rat} {format : Bool}
    (made : make (.ofString source) name (.ofString output) space classifier
      (prettier.map .ofString) (eslint.map .ofString) delay format = .ok config)
    (free : ∀ path ∈ config.paths, fs.LinkFree [] (path.seenFrom (.ofString base)).parts) :
    config.resolve fs (.ofString base) =
        (if config.paths.any fun path => (path.seenFrom (.ofString base)).holdsNul then
          .error .nulInPath
        else .ok (config.movePaths fun path => (path.seenFrom (.ofString base)).collapse)) ∧
      (∀ again, (config.resolve fs (.ofString base) >>= fun resolved => resolved.resolve fs again) =
        config.resolve fs (.ofString base)) ∧
      ∀ resolved, config.resolve fs (.ofString base) = .ok resolved →
        (∀ path ∈ resolved.paths, path.Proper) ∧
        (∀ host, configSeen fs host resolved = .ok resolved) ∧
        ∀ (cwd : List String) (clock : Clock) (e : Engine) (event path : String),
          e.config = resolved →
          (∀ after, Engine.handleEvent cwd event path (clock, e) = .ok (after, true) ↔
            (event = "change" ∨ event = "add") ∧
              e.files.resolve cwd (.ofString path) = .ok resolved.source ∧
              after = Engine.schedule (clock, e.log .debug s!"{event} event on {path}")) ∧
          (".." ∉ cwd →
            e.files.LinkFree [] ((Path.ofString path).seenFrom (.absolute cwd)).parts →
            Engine.handleEvent cwd event path (clock, e) =
              if ¬(event = "change" ∨ event = "add") then .ok ((clock, e), false)
              else if (Path.ofString path).holdsNul then .error .nulInPath
              else if ((Path.ofString path).seenFrom (.absolute cwd)).collapse =
                  resolved.source then
                .ok (Engine.schedule (clock, e.log .debug s!"{event} event on {path}"), true)
              else .ok ((clock, e), false)) := by
  have spelled : ∀ path ∈ config.paths, ∀ part ∈ (path.seenFrom (.ofString base)).parts,
      Path.IsPart part := by
    intro path there part among
    obtain ⟨text, rfl⟩ := paths_made made path there
    rcases Path.mem_parts_seenFrom among with base | own
    · exact Path.isPart_ofString base
    · exact Path.isPart_ofString own
  have again {resolved : Config} (found : config.resolve fs (.ofString base) = .ok resolved)
      (base : Path) : resolved.resolve fs base = .ok resolved :=
    have paths := paths_resolved spelled free found
    resolve_of_proper (fun path there => (paths path there).1) fun path there => (paths path there).2
  refine ⟨resolve_of_linkFree free, fun base' => ?_, fun resolved found => ⟨fun path there => ?_,
    fun host => ?_, fun cwd clock e event path same => ⟨fun after => ?_, fun straight free => ?_⟩⟩⟩
  · cases found : config.resolve fs (.ofString base) with
    | error fault => rfl
    | ok resolved => exact again found base'
  · exact (paths_resolved spelled free found path there).1
  · rw [configSeen, again found]
    rfl
  · rw [← same]
    exact Engine.handleEvent_true_iff
  · rw [← same]
    exact Engine.handleEvent_of_linkFree straight free

/-- The theme's configuration with its paths written in a roundabout way. -/
def crookedConfig : Config :=
  { Engine.themeConfig with
    source := .ofString "./../../theme.ts"
    output := .ofString "//var/..//vars.css/"
    prettierConfig := some (.ofString "site/./../.prettierrc") }

def straightConfig : Config :=
  { Engine.themeConfig with prettierConfig := some (.absolute ["work", ".prettierrc"]) }

/-- Seen from one directory and then from another, it is the same, and its source is known by
another name. -/
theorem resolve_once_for_all_crooked :
    let e : Engine := { Engine.explodingEngine with
      controller := { Engine.explodingEngine.controller with config := straightConfig } }
    (crookedConfig.resolve Engine.themeFiles (.ofString "//work/.") >>= fun resolved =>
        resolved.resolve Engine.themeFiles (.ofString "/else/../where")) = .ok straightConfig ∧
      configSeen Engine.themeFiles ⟨["work"], []⟩ straightConfig = .ok straightConfig ∧
      Engine.handleEvent ["work"] "add" "..//./theme.ts" (.initial, e) =
        .ok (Engine.schedule (.initial, e.log .debug "add event on ..//./theme.ts"), true) ∧
      Engine.handleEvent ["work"] "add" "theme.ts" (.initial, e) = .ok ((.initial, e), false) := by
  intro e
  have made : make (.ofString "./../../theme.ts") Engine.themeConfig.name
      (.ofString "//var/..//vars.css/") Engine.themeConfig.space (some Engine.themeConfig.classifier)
      ((some "site/./../.prettierrc").map .ofString) ((none : Option String).map .ofString)
      Engine.themeConfig.delay Engine.themeConfig.format = .ok crookedConfig := by
    rw [make, dif_pos Engine.themeConfig.isIdentifier_name]
    dsimp only
    rw [dif_pos Engine.themeConfig.delay_nonneg]
    rfl
  have free : ∀ path ∈ crookedConfig.paths,
      Engine.themeFiles.LinkFree [] (path.seenFrom (.ofString "//work/.")).parts :=
    fun _ _ => Files.linkFree_of_no_links (by simp [Engine.themeFiles])
  obtain ⟨resolved, once, settled⟩ := resolve_once_for_all made free
  rw [if_neg (by decide +kernel)] at resolved
  have straight : (crookedConfig.movePaths fun path =>
      (path.seenFrom (.ofString "//work/.")).collapse) = straightConfig := by
    have source : ((Path.ofString "./../../theme.ts").seenFrom (.ofString "//work/.")).collapse =
        .absolute ["theme.ts"] := by decide +kernel
    have output : ((Path.ofString "//var/..//vars.css/").seenFrom (.ofString "//work/.")).collapse =
        .absolute ["vars.css"] := by decide +kernel
    have prettier : ((Path.ofString "site/./../.prettierrc").seenFrom
        (.ofString "//work/.")).collapse = .absolute ["work", ".prettierrc"] := by decide +kernel
    rw [movePaths, crookedConfig]
    dsimp only [Option.map]
    rw [source, output, prettier]
    rfl
  rw [straight] at resolved
  obtain ⟨-, seen, events⟩ := settled straightConfig resolved
  have there (path : String) :
      e.files.LinkFree [] ((Path.ofString path).seenFrom (.absolute ["work"])).parts :=
    Files.linkFree_of_no_links (by simp [e, Engine.explodingEngine, Engine.themeFiles])
  have told (path : String) := (events ["work"] .initial e "add" path rfl).2 (by decide) (there path)
  refine ⟨(once _).trans resolved, seen _, (told _).trans ?_, (told _).trans ?_⟩
  · rw [if_neg (by decide), if_neg (by decide +kernel), if_pos (by decide +kernel)]
    rfl
  · rw [if_neg (by decide), if_neg (by decide +kernel), if_neg (by decide +kernel)]

end Config
end ThemeSheet
