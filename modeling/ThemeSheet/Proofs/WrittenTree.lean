import ThemeSheet.Proofs.AtomicWrite

/-! What a write leaves alone: every file and every link but the one at its own place. -/

namespace ThemeSheet.Files

variable {fs : Files} {cwd : List String} {path : Path}

/-- The same files and links, but for the places that are set apart. Directories may have come. -/
def SameFiles (apart : List String → Prop) (before after : Files) : Prop :=
  ∀ parts node, ¬ apart parts → (∀ stamp, node ≠ .directory stamp) →
    (after.seen parts = some node ↔ before.seen parts = some node)

theorem SameFiles.refl (apart : List String → Prop) (fs : Files) : SameFiles apart fs fs :=
  fun _ _ _ _ => Iff.rfl

theorem SameFiles.trans {apart : List String → Prop} {first second third : Files}
    (h : SameFiles apart first second) (h' : SameFiles apart second third) :
    SameFiles apart first third :=
  fun parts node other folder => (h' parts node other folder).trans (h parts node other folder)

theorem sameFiles_of_seen {before after : Files} (h : after.seen = before.seen) :
    SameFiles (fun _ => False) before after :=
  fun _ _ _ _ => by rw [h]

theorem sameFiles_makeDirectory {made : Files} (h : fs.makeDirectory cwd path = .ok made) :
    SameFiles (fun _ => False) fs made := by
  obtain ⟨place, inner, -, nothing, rfl⟩ := makeDirectory_eq_ok h
  intro parts node _ folder
  rw [seen_put _ inner]
  split
  · rename_i same
    rw [same, nothing]
    simpa [Node.unstamped] using (folder 0).symm
  · rfl

/-- Making directories makes nothing else, whether it succeeds or not. -/
theorem sameFiles_makeDirectories (fs : Files) (cwd : List String) (path : Path) :
    SameFiles (fun _ => False) fs ((fs.makeDirectories cwd path).files fs) := by
  fun_induction makeDirectories fs cwd path with
  | case2 path _ made h => exact sameFiles_makeDirectory h
  | case4 path _ _ _ _ above error h ih => exact ih
  | case5 path _ _ _ _ above h made hm ih => exact ih.trans (sameFiles_makeDirectory hm)
  | case6 path _ _ _ _ above h errno hm present ih => exact ih
  | case7 path _ _ _ _ above h errno hm absent ih => exact ih
  | case1 | case3 | case8 | case9 => exact .refl _ _

/-- A write that fails changes no file. -/
theorem sameFiles_of_writeAtomic_failed {text : String} (rooted : Rooted fs.seen)
    (settled : path.Settled) (failed : (fs.writeAtomic cwd path text).error ≠ none) :
    SameFiles (fun _ => False) fs ((fs.writeAtomic cwd path text).files fs) := by
  have rooted := (made_makeDirectories cwd rooted settled.parent).rooted
  have kept := sameFiles_makeDirectories fs cwd path.parent
  rw [writeAtomic] at failed ⊢
  generalize fs.makeDirectories cwd path.parent = run at rooted kept failed ⊢
  dsimp only at failed ⊢
  revert failed
  split
  · exact fun _ => kept
  · split
    · exact fun _ => kept
    · split
      · exact fun _ => kept
      · rename_i place found
        split
        · exact fun failed => absurd rfl failed
        · intro _
          have missing := temporary_missing rooted found
          exact kept.trans (sameFiles_of_seen
            (seen_eraseTree_of_missing rooted missing (seen_put_put missing _ _)))

/-- A way to a place at whose end no link is followed stays on its course once a file has taken that
place: if it still leads anywhere, then to the file. -/
theorem Leads.eq_of_file {view later : List String → Option Node} {links links' : Nat}
    {here parts goal place : List String} {content : List UInt8} {executable : Bool} {stamp : Stamp}
    (way : Leads later true links here parts place)
    (before : Leads view false links' here parts goal)
    (file : later goal = some (.file content executable stamp))
    (other : ∀ parts, parts ≠ goal → later parts = view parts) : place = goal := by
  induction way generalizing links' with
  | stop =>
    cases before
    rfl
  | up _ ih =>
    cases before with
    | up tail => exact ih tail
    | last named => exact absurd rfl named
    | through named => exact absurd rfl named
    | into named => exact absurd rfl named
  | @last links here part named _ ends =>
    by_cases same : here ++ [part] = goal
    · exact same
    · rw [other _ same] at ends
      cases before with
      | up => exact absurd rfl named
      | last => rfl
      | through _ _ there => simp [there] at ends
      | into _ _ there => simp [there] at ends
  | @through links here part rest target place named _ there _ _ ih =>
    have apart : here ++ [part] ≠ goal := by
      rintro rfl
      rw [there] at file
      cases file
    rw [other _ apart] at there
    cases before with
    | up => exact absurd rfl named
    | last => exact absurd rfl apart
    | through _ _ there' _ tail =>
      rw [there] at there'
      cases there'
      exact ih tail
    | into _ _ there' =>
      rw [there] at there'
      cases there'
  | @into links here part rest place named _ there _ ih =>
    have apart : here ++ [part] ≠ goal := by
      rintro rfl
      rw [there] at file
      cases file
    rw [other _ apart] at there
    cases before with
    | up => exact absurd rfl named
    | last => exact absurd rfl apart
    | through _ _ there' =>
      rw [there] at there'
      cases there'
    | into _ _ _ tail => exact ih tail

/-- Where the last part of a path stands once the directories above it are made. -/
def Goal (fs : Files) (cwd : List String) (path : Path) (goal : List String) : Prop :=
  ((fs.makeDirectories cwd path.parent).files fs).Reaches false cwd path goal

/-- A file that has taken the place its path led to is what is read at the path, unless a link stood
at that place and the path, which passed it on its way, leads nowhere now. -/
theorem content_of_seen {later : Files} {goal : List String} {bytes : List UInt8}
    {executable : Bool} {stamp : Stamp} (reached : fs.Reaches false cwd path goal)
    (not_directory : ∀ stamp, fs.seen goal ≠ some (.directory stamp))
    (seen : ∀ parts, later.seen parts =
      if parts = goal then some (.file bytes executable stamp) else fs.seen parts) :
    (later.content cwd path).toOption = some bytes ∨
      (∃ target, fs.seen goal = some (.link target)) ∧
        ∀ place, ¬ later.Reaches true cwd path place := by
  have file : later.seen goal = some (.file bytes executable stamp) := by
    rw [seen, if_pos rfl]
  by_cases anywhere : ∃ place, later.Reaches true cwd path place
  · obtain ⟨place, reaches⟩ := anywhere
    have same : place = goal := reaches.2.eq_of_file reached.2 file fun parts apart => by
      rw [seen, if_neg apart]
    exact .inl (content_iff.mpr ⟨goal, executable, stamp, same ▸ reaches, file⟩)
  · refine .inr ⟨?_, not_exists.mp anywhere⟩
    by_contra no_link
    have plain (target : Path) : fs.seen goal ≠ some (.link target) := fun linked =>
      no_link ⟨target, linked⟩
    exact anywhere ⟨goal, reached.replaced not_directory plain seen⟩

/-- A write that succeeds leaves its text at the place that its path names, and no other file or link
is changed. The text is what is read at the path, unless a link stood at that place and the path,
which passed it on its way, leads nowhere now. -/
theorem written_of_writeAtomic {text : String} (rooted : Rooted fs.seen) (settled : path.Settled)
    (h : (fs.writeAtomic cwd path text).error = none) :
    let after := (fs.writeAtomic cwd path text).files fs
    ∃ goal stamp, Goal fs cwd path goal ∧
      after.find? goal = some (.file (Text.encodeUtf8 text.toList) false stamp) ∧
      SameFiles (· = goal) fs after ∧
      ((after.content cwd path).toOption = some (Text.encodeUtf8 text.toList) ∨
        (∃ target, fs.find? goal = some (.link target)) ∧
          ∀ place, ¬ after.Reaches true cwd path place) := by
  intro after
  obtain ⟨made, inner, goal, stamp, reached, not_directory, seen⟩ :=
    seen_writeAtomic rooted settled h
  have kept := sameFiles_makeDirectories fs cwd path.parent
  have file : after.seen goal = some (.file (Text.encodeUtf8 text.toList) false stamp) := by
    rw [seen, if_pos rfl]
  refine ⟨goal, stamp, reached, seen_eq_file.mp file, fun parts node apart folder => ?_, ?_⟩
  · rw [seen, if_neg apart]
    exact kept parts node (fun none => none) folder
  · refine (content_of_seen reached not_directory seen).imp_right ?_
    rintro ⟨⟨target, linked⟩, nowhere⟩
    have before := (kept goal (.link target) (fun none => none) (by simp)).mp linked
    exact ⟨⟨target, seen_eq_link.mp before⟩, nowhere⟩

end ThemeSheet.Files
