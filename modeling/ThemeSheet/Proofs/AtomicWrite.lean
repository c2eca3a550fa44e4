import Mathlib.Data.List.Nodup
import Mathlib.Data.List.Perm.Basic
import ThemeSheet.Files.AtomicWrite
import ThemeSheet.Proofs.FileTree

namespace ThemeSheet

/-- A path that says by itself where it leads, links apart. -/
structure Path.Settled (path : Path) : Prop where
  absolute : path.isAbsolute = true
  straight : ".." ∉ path.parts

namespace Path

theorem Settled.parent {path : Path} (settled : path.Settled) : path.parent.Settled :=
  ⟨settled.absolute, fun h => settled.straight (List.dropLast_subset _ h)⟩

theorem parts_eq_parent {path : Path} (inner : path.parts ≠ []) :
    path.parts = path.parent.parts ++ [path.name] := by
  simp [parent, name, List.getLast?_eq_some_getLast inner, List.dropLast_concat_getLast inner]

theorem Settled.name_ne {path : Path} (settled : path.Settled) (inner : path.parts ≠ []) :
    path.name ≠ ".." := by
  intro h
  apply settled.straight
  rw [parts_eq_parent inner, h]
  simp

end Path

namespace Files

variable {fs : Files} {cwd : List String} {path : Path}

/-- What stands at a path stands in a directory, which its parent leads to. -/
theorem Reaches.parent (rooted : Rooted fs.seen) (absolute : path.isAbsolute = true)
    (inner : path.parts ≠ []) {follow : Bool} {place : List String}
    (h : fs.Reaches follow cwd path place) :
    ∃ left directory, fs.Reaches true cwd path.parent directory ∧
      fs.seen directory = some (.directory 0) ∧
      Leads fs.seen follow left directory [path.name] place := by
  obtain ⟨short, way⟩ := h
  rw [if_pos absolute, Path.parts_eq_parent inner] at way
  obtain ⟨left, directory, first, inside, second⟩ :=
    way.split rooted (List.cons_ne_nil _ _) rooted.root
  refine ⟨left, directory, ⟨?_, ?_⟩, inside, second⟩
  · have bound := utf8ByteSize_text_parent path
    have : 1 < maxPath := by decide
    omega
  · have : path.parent.isAbsolute = true := absolute
    rw [if_pos this]
    exact first

theorem isDirectory_parent (rooted : Rooted fs.seen) (absolute : path.isAbsolute = true)
    (h : fs.isDirectory cwd path = true) : fs.isDirectory cwd path.parent = true := by
  by_cases inner : path.parts = []
  · have : path.parent = path := by
      obtain ⟨slashes, parts⟩ := path
      cases (inner : parts = [])
      rfl
    rw [this]
    exact h
  · obtain ⟨place, reaches, -⟩ := isDirectory_iff.mp h
    obtain ⟨-, directory, above, inside, -⟩ := reaches.parent rooted absolute inner
    exact isDirectory_iff.mpr ⟨directory, above, inside⟩

/-- Where the parent leads to no directory nothing can be read. -/
theorem content_eq_none (rooted : Rooted fs.seen) (absolute : path.isAbsolute = true)
    (h : fs.isDirectory cwd path.parent = false) : (fs.content cwd path).toOption = none := by
  apply Option.eq_none_iff_forall_not_mem.mpr
  intro bytes readable
  obtain ⟨place, executable, stamp, reaches, there⟩ := content_iff.mp readable
  by_cases inner : path.parts = []
  · obtain ⟨-, way⟩ := reaches
    rw [if_pos absolute, inner] at way
    cases way
    simp at there
  · obtain ⟨-, directory, above, inside, -⟩ := reaches.parent rooted absolute inner
    have := isDirectory_iff.mpr ⟨directory, above, inside⟩
    rw [h] at this
    cases this

/-! Making directories. -/

/-- What is put where nothing was, in a directory, keeps everything in a directory. -/
theorem Rooted.put {place : List String} (rooted : Rooted fs.seen) (missing : fs.seen place = none)
    (inside : fs.seen place.dropLast = some (.directory 0)) (node : Node) :
    Rooted (fs.put place node).seen := by
  have inner : place ≠ [] := by
    rintro rfl
    simp at missing
  have seen := seen_put fs inner node
  have kept {parts : List String} (h : fs.seen parts = some (.directory 0)) :
      (fs.put place node).seen parts = some (.directory 0) := by
    rw [seen, if_neg, h]
    rintro rfl
    rw [missing] at h
    cases h
  refine ⟨by simp, fun parts there => kept ?_⟩
  by_cases h : parts = place
  · rw [h]
    exact inside
  · rw [seen, if_neg h] at there
    exact rooted.above parts there

/-- A directory is made where nothing was. -/
theorem makeDirectory_eq_ok {made : Files} (h : fs.makeDirectory cwd path = .ok made) :
    ∃ place, place ≠ [] ∧ fs.Reaches false cwd path place ∧ fs.seen place = none ∧
      made = fs.put place (.directory fs.freshStamp) := by
  rw [makeDirectory] at h
  split at h
  · cases h
  · rename_i place found
    split at h
    · cases h
    · rename_i missing
      cases h
      obtain ⟨reaches, node⟩ := place_eq_ok.mp found
      have nothing : fs.seen place.parts = none := seen_eq_none.mpr (node ▸ missing)
      refine ⟨place.parts, ?_, reaches, nothing, rfl⟩
      intro root
      rw [root] at nothing
      simp at nothing

theorem makeDirectory_ok (rooted : Rooted fs.seen) (absolute : path.isAbsolute = true)
    {made : Files} (h : fs.makeDirectory cwd path = .ok made) :
    ∃ place, made.Reaches true cwd path place ∧ made.seen place = some (.directory 0) ∧
      (∀ name, made.seen (place ++ [name]) = none) ∧ Rooted made.seen := by
  obtain ⟨place, inner, reaches, nothing, rfl⟩ := makeDirectory_eq_ok h
  have seen := seen_put fs inner (.directory fs.freshStamp)
  have made : (fs.put place (.directory fs.freshStamp)).seen place = some (.directory 0) := by
    simp [seen, Node.unstamped]
  refine ⟨place, ?_, made, ?_, ?_⟩
  · refine reaches.carry (fun parts node there _ => ?_) (.inr (by simp [made]))
    rw [seen, if_neg, there]
    rintro rfl
    simp [nothing] at there
  · intro name
    rw [seen, if_neg (by simp)]
    exact Decidable.byContradiction fun below =>
      rooted.of_prefix (List.prefix_append place [name]) below nothing
  · have way := reaches.2
    rw [if_pos absolute] at way
    exact rooted.put nothing (way.in_directory rooted rooted.root) _

/-- What stands at a path is found by the attempt to make a directory there. -/
theorem makeDirectory_of_isDirectory (h : fs.isDirectory cwd path = true) :
    fs.makeDirectory cwd path = .error .occupied := by
  obtain ⟨place, ⟨short, way⟩, there⟩ := isDirectory_iff.mp h
  obtain ⟨place, way, there⟩ := way.unfollowed (by simp [there])
  have found := Reaches.place_eq ⟨short, way⟩
  obtain ⟨node, hn⟩ := Option.ne_none_iff_exists'.mp (mt seen_eq_none.mpr there)
  simp [makeDirectory, found, hn]

theorem makeDirectories_of_isDirectory (h : fs.isDirectory cwd path = true) :
    fs.makeDirectories cwd path = ⟨[], if path.holdsNul then some .nulInPath else none⟩ := by
  rw [makeDirectories]
  split
  · rfl
  · simp [makeDirectory_of_isDirectory h]

/-- What making directories comes to: if it changed anything, then either the path now leads to a
directory that is new and empty, or to none. -/
structure Made (fs : Files) (cwd : List String) (path : Path) (run : Run) : Prop where
  rooted : Rooted (run.files fs).seen
  failed : run.error ≠ none →
    run.states = [] ∨ (run.files fs).isDirectory cwd path = false
  new : run.error = none → run.states = [] ∨
    ∃ place, (run.files fs).Reaches true cwd path place ∧
      ∀ name, (run.files fs).seen (place ++ [name]) = none

theorem Made.unchanged (rooted : Rooted fs.seen) (error : Option FileError) :
    Made fs cwd path ⟨[], error⟩ :=
  ⟨rooted, fun _ => .inl rfl, fun _ => .inl rfl⟩

theorem made_makeDirectories (cwd : List String) (rooted : Rooted fs.seen) (settled : path.Settled) :
    Made fs cwd path (fs.makeDirectories cwd path) := by
  fun_induction makeDirectories fs cwd path with
  | case1 => exact .unchanged rooted _
  | case2 path _ made h =>
    obtain ⟨place, reaches, -, empty, rooted⟩ := makeDirectory_ok rooted settled.absolute h
    exact ⟨rooted, fun failed => absurd rfl failed, fun _ => .inr ⟨place, reaches, empty⟩⟩
  | case3 => exact .unchanged rooted _
  | case4 path _ _ _ _ above error h ih =>
    have made := ih settled.parent
    refine ⟨made.rooted, fun _ => ?_, fun none => by cases none⟩
    refine (made.failed (by simp [above, h])).imp id fun absent => ?_
    apply Bool.eq_false_iff.mpr
    intro present
    have := isDirectory_parent made.rooted settled.absolute present
    exact Bool.eq_false_iff.mp absent this
  | case5 path _ _ _ _ above h made hm ih =>
    obtain ⟨place, reaches, -, empty, rooted⟩ :=
      makeDirectory_ok (ih settled.parent).rooted settled.absolute hm
    exact ⟨rooted, fun failed => absurd rfl failed, fun _ => .inr ⟨place, reaches, empty⟩⟩
  | case6 path _ _ inner _ above h errno hm present ih =>
    have made := ih settled.parent
    refine ⟨made.rooted, fun failed => absurd h failed, fun _ => ?_⟩
    refine (made.new h).imp id ?_
    rintro ⟨directory, reaches, empty⟩
    obtain ⟨place, there, inside⟩ := isDirectory_iff.mp present.2
    obtain ⟨left, other, above', -, last⟩ := there.parent made.rooted settled.absolute inner
    cases reaches.unique above'
    have same := last.eq_of_missing (settled.name_ne inner) (empty _)
    rw [same, empty] at inside
    cases inside
  | case7 path _ _ _ _ above h errno hm absent ih =>
    have made := ih settled.parent
    refine ⟨made.rooted, fun _ => .inr ?_, fun none => by cases none⟩
    apply Bool.eq_false_iff.mpr
    intro present
    refine absent ⟨?_, present⟩
    rintro rfl
    have := makeDirectory_of_isDirectory present
    change (above.files fs).makeDirectory cwd path = _ at this
    rw [hm] at this
    cases this
  | case8 => exact .unchanged rooted _
  | case9 => exact .unchanged rooted _

/-- Making the directories above a file changes nothing about what can be read at its path. -/
theorem content_makeDirectories (cwd : List String) (rooted : Rooted fs.seen) (settled : path.Settled) :
    (((fs.makeDirectories cwd path.parent).files fs).content cwd path).toOption =
      (fs.content cwd path).toOption := by
  have made := made_makeDirectories cwd rooted settled.parent
  generalize hr : fs.makeDirectories cwd path.parent = run at made
  by_cases still : run.states = []
  · simp [Run.files, still]
  · have before : fs.isDirectory cwd path.parent = false := by
      apply Bool.eq_false_iff.mpr
      intro present
      rw [makeDirectories_of_isDirectory present] at hr
      exact still (hr ▸ rfl)
    rw [content_eq_none rooted settled.absolute before]
    cases herror : run.error with
    | some error =>
      have after := (made.failed (by simp [herror])).resolve_left still
      exact content_eq_none made.rooted settled.absolute after
    | none =>
      obtain ⟨directory, reaches, empty⟩ := (made.new herror).resolve_left still
      by_cases inner : path.parts = []
      · have same : path.parent.parts = path.parts := by simp [Path.parent, inner]
        apply Option.eq_none_iff_forall_not_mem.mpr
        intro bytes readable
        obtain ⟨place, executable, stamp, ⟨-, way⟩, there⟩ := content_iff.mp readable
        rw [if_pos settled.absolute, inner] at way
        cases way
        simp at there
      · apply Option.eq_none_iff_forall_not_mem.mpr
        intro bytes readable
        obtain ⟨place, executable, stamp, there, file⟩ := content_iff.mp readable
        obtain ⟨left, other, above, -, last⟩ := there.parent made.rooted settled.absolute inner
        cases reaches.unique above
        rw [last.eq_of_missing (settled.name_ne inner) (empty _), empty] at file
        cases file

/-! The temporary file. -/

theorem temporaryName_injective (path : Path) : Function.Injective (temporaryName path) := by
  intro a b h
  have := congrArg String.length h
  simpa [temporaryName, randomPart, String.length_append] using this

theorem temporaryName_ne (path : Path) (attempt : Nat) : temporaryName path attempt ≠ ".." := by
  intro h
  have := congrArg String.length h
  have four : ".tmp".length = 4 := by decide
  have two : "..".length = 2 := by decide
  simp only [temporaryName, String.length_append, four, two] at this
  omega

theorem length_temporaryName (path : Path) (attempt : Nat) :
    path.name.length < (temporaryName path attempt).length := by
  have four : ".tmp".length = 4 := by decide
  simp only [temporaryName, String.length_append, four]
  omega

/-- One of the attempts is free: there are more of them than names. -/
theorem isFreeName_freeAttempt (fs : Files) (path : Path) :
    fs.isFreeName (temporaryName path (fs.freeAttempt path)) = true := by
  rw [freeAttempt]
  cases found : (List.range (fs.entries.length + 1)).find? fun attempt =>
      fs.isFreeName (temporaryName path attempt) with
  | some attempt => simpa using List.find?_some found
  | none =>
    have taken : ((List.range (fs.entries.length + 1)).map (temporaryName path)) ⊆
        fs.entries.filterMap fun entry => entry.1.getLast? := by
      intro name hm
      obtain ⟨attempt, there, rfl⟩ := List.mem_map.mp hm
      have := List.find?_eq_none.mp found attempt there
      simpa [isFreeName] using this
    have distinct : ((List.range (fs.entries.length + 1)).map (temporaryName path)).Nodup :=
      List.nodup_range.map (temporaryName_injective path)
    have many := (List.subperm_of_subset distinct taken).length_le
    have few := List.length_filterMap_le (fun entry : List String × Node => entry.1.getLast?)
      fs.entries
    simp only [List.length_map, List.length_range] at many
    omega

theorem find?_of_isFreeName {name : String} {parts : List String}
    (free : fs.isFreeName name = true) (last : parts.getLast? = some name) :
    fs.find? parts = none := by
  have inner : parts ≠ [] := by
    rintro rfl
    cases last
  simp only [find?, inner, if_false, Option.map_eq_none_iff, List.find?_eq_none]
  intro entry there same
  have := List.all_eq_true.mp free entry there
  simp_all

/-- Nothing is at the place of the temporary file before it is made. -/
theorem temporary_missing (rooted : Rooted fs.seen) {place : Place}
    (h : fs.place false cwd (fs.temporaryPath cwd path) = .ok place) :
    fs.seen place.parts = none := by
  obtain ⟨⟨-, way⟩, -⟩ := place_eq_ok.mp h
  have last := Leads.getLast?_eq rooted way (temporaryName_ne path _) rooted.root
  exact seen_eq_none.mpr (find?_of_isFreeName (isFreeName_freeAttempt fs path) last)

/-- The temporary file has a name of its own. -/
theorem temporary_named (rooted : Rooted fs.seen) {place : List String}
    (h : fs.Reaches false cwd (fs.temporaryPath cwd path) place) :
    ∃ name, place.getLast? = some name ∧ name ≠ path.name := by
  refine ⟨_, h.2.getLast?_eq rooted (temporaryName_ne path _) rooted.root, fun same => ?_⟩
  have longer := length_temporaryName path (fs.freeAttempt path)
  rw [same] at longer
  exact Nat.lt_irrefl _ longer

/-- The tree while the temporary file is there. -/
theorem seen_put_put {place : List String} (missing : fs.seen place = none) (first second : Node)
    (parts : List String) :
    ((fs.put place first).put place second).seen parts =
      if parts = place then some second.unstamped else fs.seen parts := by
  have inner : place ≠ [] := by
    rintro rfl
    simp at missing
  rw [seen_put _ inner, seen_put _ inner]
  split <;> rfl

/-- What was put where nothing was, and is taken away again, leaves no trace. -/
theorem seen_eraseTree_of_missing {after : Files} {place : List String} {node : Node}
    (rooted : Rooted fs.seen) (missing : fs.seen place = none)
    (seen : ∀ parts, after.seen parts = if parts = place then some node else fs.seen parts) :
    (after.eraseTree place).seen = fs.seen := by
  have inner : place ≠ [] := by
    rintro rfl
    simp at missing
  funext parts
  rw [seen_eraseTree inner]
  by_cases below : place <+: parts
  · rw [if_pos below]
    refine (Decidable.byContradiction fun there => ?_)
    exact rooted.of_prefix below (Ne.symm there) missing
  · have other : parts ≠ place := by
      rintro rfl
      exact below (List.prefix_refl _)
    rw [if_neg below, seen, if_neg other]

/-- A write that fails leaves what can be read at its path as it was. -/
theorem content_of_writeAtomic_failed {text : String} (rooted : Rooted fs.seen)
    (settled : path.Settled) (failed : (fs.writeAtomic cwd path text).error ≠ none) :
    (((fs.writeAtomic cwd path text).files fs).content cwd path).toOption =
      (fs.content cwd path).toOption := by
  have made := made_makeDirectories cwd rooted settled.parent
  have kept := content_makeDirectories cwd rooted settled
  rw [writeAtomic] at failed ⊢
  generalize fs.makeDirectories cwd path.parent = run at made kept failed ⊢
  dsimp only at failed ⊢
  revert failed
  split
  · exact fun _ => kept
  · split
    · exact fun _ => kept
    · split
      · exact fun _ => kept
      · rename_i place found
        split
        · exact fun failed => absurd rfl failed
        · intro _
          have missing := temporary_missing made.rooted found
          rw [← kept]
          exact content_congr
            (seen_eraseTree_of_missing made.rooted missing (seen_put_put missing _ _)) cwd path

/-- A path that leads to no link before a write does not lead to one once the directories above it
are made. -/
theorem no_link_after_making (rooted : Rooted fs.seen) (settled : path.Settled)
    (inner : path.parts ≠ []) (no_link : ∀ place target, fs.Reaches false cwd path place →
      fs.seen place ≠ some (.link target)) {place : List String} {target : Path}
    (made : (fs.makeDirectories cwd path.parent).error = none)
    (h : ((fs.makeDirectories cwd path.parent).files fs).Reaches false cwd path place) :
    ((fs.makeDirectories cwd path.parent).files fs).seen place ≠ some (.link target) := by
  have all := made_makeDirectories cwd rooted settled.parent
  generalize hr : fs.makeDirectories cwd path.parent = run at all made h ⊢
  rcases all.new made with still | ⟨directory, reaches, empty⟩
  · simp only [Run.files, still, List.head?_nil, Option.getD_none] at h ⊢
    exact no_link place target h
  · obtain ⟨left, other, above, -, last⟩ := h.parent all.rooted settled.absolute inner
    cases reaches.unique above
    rw [last.eq_of_missing (settled.name_ne inner) (empty _), empty]
    simp

/-- What replacing comes to, where it succeeds. -/
theorem replace_ok {source : Path} {replaced : Files}
    (h : fs.replace cwd source path = .ok replaced) :
    (path.parts ≠ [] ∧ path.name ≠ "..") ∧ ∃ origin goal node, fs.Reaches false cwd source origin ∧
      fs.find? origin = some node ∧ fs.Reaches false cwd path goal ∧
      (∀ stamp, fs.seen goal ≠ some (.directory stamp)) ∧
      replaced = (fs.eraseTree origin).put goal node := by
  rw [replace] at h
  split at h
  · cases h
  · rename_i named
    refine ⟨not_or.mp named, ?_⟩
    split at h
    · cases h
    · cases h
    · rename_i here there hf ht
      obtain ⟨reaches, node⟩ := place_eq_ok.mp hf
      obtain ⟨reaches', node'⟩ := place_eq_ok.mp ht
      split at h
      · cases h
      · cases h
      · rename_i moved found not_directory
        cases h
        refine ⟨here.parts, there.parts, moved, reaches, node ▸ found, reaches', ?_, rfl⟩
        intro stamp hs
        cases eq_zero_of_seen hs
        obtain ⟨stamp, hd⟩ := seen_eq_directory.mp hs
        exact not_directory stamp (node' ▸ hd)

/-- A file leads nobody anywhere: each way there was one before it came. -/
theorem Reaches.without_file {filled : Files} {place goal : List String} {bytes : List UInt8}
    {executable : Bool} {stamp : Stamp} (way : filled.Reaches false cwd path goal)
    (seen : ∀ parts, filled.seen parts =
      if parts = place then some (.file bytes executable stamp) else fs.seen parts) :
    fs.Reaches false cwd path goal := by
  refine way.carry (fun parts node there folder => ?_) (.inl rfl)
  rw [seen] at there
  split at there
  · cases there
    exact absurd rfl (folder _ _ _)
  · exact there

/-- It takes the place of nothing that is on a way, either. -/
theorem Reaches.with_file {filled : Files} {place goal : List String} {node : Node}
    (way : fs.Reaches false cwd path goal) (missing : fs.seen place = none)
    (seen : ∀ parts, filled.seen parts = if parts = place then some node else fs.seen parts) :
    filled.Reaches false cwd path goal := by
  refine way.carry (fun parts node there _ => ?_) (.inl rfl)
  rw [seen, if_neg, there]
  rintro rfl
  rw [missing] at there
  cases there

/-- A file put where nothing was, and then moved, stands where its new path leads. No other place
looks different from before. -/
theorem seen_replace (rooted : Rooted fs.seen)
    (inside : fs.seen (if path.isAbsolute then [] else cwd) = some (.directory 0))
    {temporary : Path} {place : List String} {bytes : List UInt8} {executable : Bool}
    {stamp : Stamp} {filled replaced : Files} (found : fs.Reaches false cwd temporary place)
    (missing : fs.seen place = none) (apart : place.getLast? ≠ some path.name)
    (seen : ∀ parts, filled.seen parts =
      if parts = place then some (.file bytes executable stamp) else fs.seen parts)
    (h : filled.replace cwd temporary path = .ok replaced) :
    path.parts ≠ [] ∧ ∃ goal, fs.Reaches false cwd path goal ∧
      (∀ stamp, fs.seen goal ≠ some (.directory stamp)) ∧
      ∀ parts, replaced.seen parts =
        if parts = goal then some (.file bytes executable stamp) else fs.seen parts := by
  have there : filled.seen place = some (.file bytes executable stamp) := by
    rw [seen, if_pos rfl]
  have other {parts : List String} (h : parts ≠ place) : filled.seen parts = fs.seen parts := by
    rw [seen, if_neg h]
  obtain ⟨⟨inner, named⟩, origin, goal, node, reaches, moved, reaches', not_directory, rfl⟩ :=
    replace_ok h
  -- The temporary file is found again where it was put.
  obtain rfl : origin = place := reaches.unique (found.with_file missing seen)
  rw [seen_eq_file.mp there] at moved
  cases moved
  have reached : fs.Reaches false cwd path goal := reaches'.without_file seen
  have goal_ne : goal ≠ origin := by
    rintro rfl
    have way := reached.2
    rw [Path.parts_eq_parent inner] at way
    exact apart (way.getLast?_eq rooted named inside)
  have goal_inner : goal ≠ [] := by
    rintro rfl
    exact not_directory 0 (by simp)
  have origin_inner : origin ≠ [] := by
    rintro rfl
    simp at missing
  refine ⟨inner, goal, reached, fun stamp => other goal_ne ▸ not_directory stamp, fun parts => ?_⟩
  rw [seen_put _ goal_inner, seen_eraseTree origin_inner]
  by_cases at_goal : parts = goal
  · rw [if_pos at_goal, if_pos at_goal]
    rfl
  · rw [if_neg at_goal, if_neg at_goal]
    by_cases below : origin <+: parts
    · rw [if_pos below]
      exact (Decidable.byContradiction fun some => rooted.of_prefix below (Ne.symm some) missing)
    · rw [if_neg below, other]
      rintro rfl
      exact below (List.prefix_refl _)

/-- What a write that succeeds comes to: its text stands where its path leads once the directories
above it are made, and no other place looks different. -/
theorem seen_writeAtomic {text : String} (rooted : Rooted fs.seen) (settled : path.Settled)
    (h : (fs.writeAtomic cwd path text).error = none) :
    (fs.makeDirectories cwd path.parent).error = none ∧ path.parts ≠ [] ∧ ∃ goal stamp,
      ((fs.makeDirectories cwd path.parent).files fs).Reaches false cwd path goal ∧
      (∀ stamp, ((fs.makeDirectories cwd path.parent).files fs).seen goal ≠
        some (.directory stamp)) ∧
      ∀ parts, ((fs.writeAtomic cwd path text).files fs).seen parts =
        if parts = goal then some (.file (Text.encodeUtf8 text.toList) false stamp)
        else ((fs.makeDirectories cwd path.parent).files fs).seen parts := by
  have rooted := (made_makeDirectories cwd rooted settled.parent).rooted
  rw [writeAtomic] at h ⊢
  generalize fs.makeDirectories cwd path.parent = run at rooted h ⊢
  dsimp only at h ⊢
  revert h
  split
  · exact fun h => by cases h
  · rename_i fine
    split
    · exact fun h => by cases h
    · split
      · exact fun h => by cases h
      · rename_i place found
        split
        · rename_i replaced moved
          intro _
          have reaches := (place_eq_ok.mp found).1
          obtain ⟨name, last, apart⟩ := temporary_named rooted reaches
          have missing := temporary_missing rooted found
          obtain ⟨inner, goal, reached, not_directory, seen⟩ := seen_replace rooted
            (by simp [settled.absolute]) reaches missing (by simp [last, apart])
            (seen_put_put missing _ _) moved
          exact ⟨fine, inner, goal, _, reached, not_directory, seen⟩
        · exact fun h => by cases h

/-- A path leads on to a file that was put where it led, if no link stood there. -/
theorem Reaches.replaced {later : Files} {goal : List String} {content : List UInt8}
    {executable : Bool} {stamp : Stamp} (h : fs.Reaches false cwd path goal)
    (not_directory : ∀ stamp, fs.seen goal ≠ some (.directory stamp))
    (no_link : ∀ target, fs.seen goal ≠ some (.link target))
    (seen : ∀ parts, later.seen parts =
      if parts = goal then some (.file content executable stamp) else fs.seen parts) :
    later.Reaches true cwd path goal := by
  refine h.carry (fun parts node there folder => ?_) (.inr (by simp [seen]))
  rw [seen, if_neg, there]
  rintro rfl
  cases node with
  | file content executable stamp => exact folder content executable stamp rfl
  | directory stamp => exact not_directory stamp there
  | link target => exact no_link target there

/-- A write that succeeds leaves its text at its path, if no link stood there. -/
theorem content_of_writeAtomic {text : String} (rooted : Rooted fs.seen) (settled : path.Settled)
    (no_link : ∀ place target, fs.Reaches false cwd path place →
      fs.seen place ≠ some (.link target))
    (h : (fs.writeAtomic cwd path text).error = none) :
    (((fs.writeAtomic cwd path text).files fs).content cwd path).toOption =
      some (Text.encodeUtf8 text.toList) := by
  obtain ⟨made, inner, goal, stamp, reached, not_directory, seen⟩ :=
    seen_writeAtomic rooted settled h
  have goal_link (target : Path) :
      ((fs.makeDirectories cwd path.parent).files fs).seen goal ≠ some (.link target) :=
    no_link_after_making rooted settled inner no_link made reached
  exact content_iff.mpr ⟨goal, false, stamp, reached.replaced not_directory goal_link seen,
    by rw [seen, if_pos rfl]⟩

end Files
end ThemeSheet
