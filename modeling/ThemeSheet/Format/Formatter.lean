import ThemeSheet.Config
import ThemeSheet.Format.Tools

namespace ThemeSheet

inductive FormatterKind
  | idle
  | tools
  | custom
deriving DecidableEq, Repr

/-- Changes a file in place. It may fail with the file changed all the same. -/
structure Formatter where
  kind : FormatterKind
  format : Path → Files → Files × Except Format.Fault Unit

namespace Formatter

/-- Leaves files alone. -/
def idle : Formatter :=
  ⟨.idle, fun _ fs => (fs, .ok ())⟩

def ofTools (host : Format.Host) (launch : Format.Launcher) (tools : Format.Tools) : Formatter :=
  ⟨.tools, Format.format launch host tools⟩

end Formatter

/-- Makes a formatter when one is needed. What comes of it can depend on how often it was asked
before and on the files. -/
abbrev FormatterSource := Nat → Files → List LogRecord × Except Format.Fault Formatter

namespace FormatterSource

def unformattedNote (logger : String) : LogRecord :=
  ⟨.info, logger, "No formatter configured; output is written unformatted"⟩

/-- The tools that are installed and configured, if a configuration wants its output formatted. -/
def installed (host : Format.Host) (launch : Format.Launcher) (logger : String) (config : Config) :
    FormatterSource := fun _ fs =>
  if config.format then
    match Format.load host fs (.absolute host.cwd) config.prettierConfig config.eslintConfig with
    | (logs, .error error) => (logs, .error (.file error))
    | (logs, .ok tools) =>
      if tools.enabled then (logs, .ok (.ofTools host launch tools))
      else (logs ++ [unformattedNote logger], .ok .idle)
  else ([], .ok .idle)

end FormatterSource
end ThemeSheet
