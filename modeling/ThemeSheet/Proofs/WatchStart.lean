import ThemeSheet.Proofs.WatchedEdits

/-! The start of a watch command. Between the first cycle and the first look at the source the file
may change, and nothing is told of that. -/

namespace ThemeSheet

/-! A history is only added to. -/

namespace Engine.Recorded

variable {cwd : List String} {past : List Incident} {world : Clock × Recorded}

end Engine.Recorded

namespace CommandLine.Watching

open Engine (Beginning CycleRun Incident)

/-- A watch command that starts: it runs its first cycle, and when the files have been changed so
and so, it looks at the source for the first time. -/
def startUp (setting : Setting) (engine : Engine) (changes : List (Files → Files)) :
    Except FileError Observed :=
  let begun : Clock × Engine.Recorded :=
    (.initial, ⟨(engine.start setting.cwd).1, [.ran ⟨engine, "start"⟩]⟩)
  let (clock, r) := changes.foldl (fun world change => Engine.Recorded.edit change world) begun
  (Watcher.make r.engine.files setting.cwd r.engine.config.source).map fun watcher =>
    ⟨⟨setting, clock, r.engine, watcher⟩, r.incidents⟩

/-- The watch command starts so, with no time for a change, where its engine works with the source
that it watches. -/
theorem startUp_of_startWatch {setting : Setting} {fs : Files} {given : Given} {w : Watching}
    {chunks : List Chunk} (h : startWatch setting fs given = .ok (.watching w chunks)) :
    ∃ delay config controlled, configOf fs setting.host given delay = .ok config ∧
      configSeen fs setting.host config = .ok controlled ∧
      (controlled.source = config.source →
        ∃ o, startUp setting (engineFor setting fs controlled) [] = .ok o ∧
          w = o.watching.flush.1) := by
  simp only [startWatch, bind, Except.bind] at h
  split at h
  · cases h
  · rename_i config configured
    split at h
    · cases h
    · rename_i controlled seen
      split at h
      · cases h
      · rename_i watcher made
        cases h
        refine ⟨_, config, controlled, configured, seen, fun same => ?_⟩
        let engine := engineFor setting fs controlled
        have source : (engine.start setting.cwd).1.config.source = config.source := by
          obtain ⟨-, kept, -⟩ := Engine.regenerate_follows setting.cwd "start" engine
          exact (congrArg Config.source kept).trans same
        have started : startUp setting engine [] = .ok
            ⟨⟨setting, .initial, (engine.start setting.cwd).1, watcher⟩,
              [.ran ⟨engine, "start"⟩]⟩ := by
          simp only [startUp, List.foldl_nil, source]
          rw [show Watcher.make (engine.start setting.cwd).1.files setting.cwd config.source =
            .ok watcher from made]
          rfl
        exact ⟨_, started, rfl⟩

variable {setting : Setting} {engine : Engine} {changes : List (Files → Files)} {o : Observed}

end CommandLine.Watching
end ThemeSheet
