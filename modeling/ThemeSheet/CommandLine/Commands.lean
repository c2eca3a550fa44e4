import ThemeSheet.ClassifierSpec
import ThemeSheet.CommandLine.Help

namespace ThemeSheet.CommandLine

namespace Switch

def name : Switch :=
  ⟨"--name", some 'n', .text, true, none, "Name of the constant holding the object literal."⟩

def output : Switch :=
  ⟨"--output", some 'o', .file, true, none, "Stylesheet to write."⟩

def space : Switch :=
  ⟨"--prefix", some 'p', .text, false, some "", "Variable prefix, e.g. 'app'."⟩

def classifier : Switch :=
  ⟨"--classifier", none, .text, false, some ClassifierSpec.default,
    "Syntax classifier as 'module:function'."⟩

def prettierConfig : Switch :=
  ⟨"--prettier-config", none, .file, false, none, "Prettier config file."⟩

def eslintConfig : Switch :=
  ⟨"--eslint-config", none, .file, false, none, "ESLint config file."⟩

def noFormat : Switch :=
  ⟨"--no-format", none, .none, false, none, "Skip the external formatters."⟩

def descriptors : Switch :=
  ⟨"--descriptors", none, .none, false, none,
    "Print css name, value and syntax for every entry."⟩

def debounce : Switch :=
  ⟨"--debounce", none, .real, false, some "0.1",
    "Seconds to wait for further changes before regenerating."⟩

def interval : Switch :=
  ⟨"--interval", none, .real, false, some "0.25", "Polling interval in seconds."⟩

def version : Switch :=
  ⟨"--version", none, .none, false, none, "Show the version and exit."⟩

def verbose : Switch :=
  ⟨"--verbose", some 'v', .none, false, none, "Enable debug logging."⟩

end Switch

def outputSwitches : List Switch :=
  [.output, .space, .classifier, .prettierConfig, .eslintConfig, .noFormat]

namespace Command

def generate : Command where
  name := "generate"
  summary := "Extract a constant from SOURCE and write its stylesheet."
  description := ["Extract a constant from SOURCE and write its stylesheet.",
    "Exits with code 0 on success, or code 1 if the constant cannot be found, " ++
      "evaluated, or written."]
  switches := Switch.name :: outputSwitches

def watch : Command where
  name := "watch"
  summary := "Generate the stylesheet, then regenerate on every change to..."
  description := ["Generate the stylesheet, then regenerate on every change to SOURCE.",
    "Runs until interrupted with Ctrl-C."]
  switches := Switch.name :: outputSwitches ++ [.debounce, .interval]

def inspect : Command where
  name := "inspect"
  summary := "Print the key/value mapping extracted from SOURCE as JSON."
  description := ["Print the key/value mapping extracted from SOURCE as JSON."]
  switches := [.name, .space, .classifier, .descriptors]

/-- Every command, in the order of their names. -/
def all : List Command := [generate, inspect, watch]

def find? (name : String) : Option Command :=
  all.find? (·.name == name)

/-- The names of commands that may be meant by one that no command has. -/
def closeNames (name : String) : List String :=
  Text.closeTexts name (all.map (·.name))

end Command

/-- Switches that stand before the command. -/
def generalSwitches : List Switch := [.version, .verbose]

def generalUsage : String := "Usage: cssvars [OPTIONS] COMMAND [ARGS]..."

def generalHelp : String :=
  "\n".intercalate
    ([generalUsage, "",
      "  cssvars - generate typed CSS custom properties from a JS object literal.", ""] ++
      switchLines generalSwitches ++
      "" :: "Commands:" :: definitions (Command.all.map fun c => (c.name, c.summary))) ++ "\n"

def versionText : String := "cssvars, version 0.1.0\n"

/-- What is written when a command line is refused; `program` is what was called. -/
def refusal (usage program : String) (fault : UsageFault) : String :=
  let reminder := if fault.showsUsage then s!"{usage}\nTry '{program} --help' for help.\n\n" else ""
  reminder ++ s!"Error: {fault.message}\n"

end ThemeSheet.CommandLine
