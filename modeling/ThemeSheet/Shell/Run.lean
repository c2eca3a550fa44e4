import ThemeSheet.Shell.Arithmetic
import ThemeSheet.Shell.Programs

namespace ThemeSheet.Shell

def splitFields (text : List Char) : List (List Char) :=
  (text.splitBy fun a b => isBlankChar a == isBlankChar b).filter fun field =>
    !field.head?.any isBlankChar
where
  isBlankChar (c : Char) : Bool := c == ' ' || c == '\t' || c == '\n'

/-- Fields under construction, last first. The open one is still to be ended. -/
structure Fields where
  closed : List (List Char)
  current : Option (List Char)

namespace Fields

def empty : Fields := ⟨[], none⟩

def append (f : Fields) (text : List Char) : Fields :=
  { f with current := some (f.current.getD [] ++ text) }

/-- Ends the open field. -/
def cut (f : Fields) : Fields :=
  ⟨f.current.toList ++ f.closed, none⟩

/-- Adds several fields: the first continues the open one, the last stays open. -/
def extend (f : Fields) : List (List Char) → Fields
  | [] => f
  | [field] => f.append field
  | field :: rest => extend (f.append field).cut rest

/-- Adds text that was not quoted, so that blanks divide it. -/
def divide (f : Fields) (text : List Char) : Fields :=
  let before := if text.head?.any splitFields.isBlankChar then f.cut else f
  let added := before.extend (splitFields text)
  if text.getLast?.any splitFields.isBlankChar then added.cut else added

def toList (f : Fields) : List (List Char) :=
  (f.current.toList ++ f.closed).reverse

end Fields

/-- Where text goes. -/
inductive Outlet
  | output
  | errors
  | file (name : List Char)
  | nowhere

def outletOf (target : List Char) : Outlet :=
  if target == "/dev/null".toList then .nowhere
  else if target == "/dev/stderr".toList then .errors
  else if target == "/dev/stdout".toList then .output
  else .file target

/-- The streams of a command: what it reads, if that is its own, and where its outputs go. -/
structure Streams where
  input : Option (List Char)
  output : Outlet
  errors : Outlet

def deliver (streams : Streams) (m : Machine) (w : Written) : Machine :=
  match if w.toErrors then streams.errors else streams.output with
  | .output => { m with written := m.written ++ [{ w with toErrors := false }] }
  | .errors => { m with written := m.written ++ [{ w with toErrors := true }] }
  | .nowhere => m
  | .file name => m.append name w.text

/-- Opens one file for a command. What is refused is said in the script's own words. -/
def openFile (m : Machine) (streams : Streams) (number : Nat) (kind : RedirectKind)
    (target : List Char) : Except (List Char) (Machine × Streams) :=
  let put (outlet : Outlet) : Streams :=
    if number = 1 then { streams with output := outlet }
    else if number = 2 then { streams with errors := outlet }
    else streams
  let refused (action : String) (reason : String) : List Char :=
    ofText action ++ target ++ ofText (": " ++ reason)
  match kind with
  | .document => .ok (m, { streams with input := some target })
  | .duplicate =>
    if target == ['1'] then .ok (m, put streams.output)
    else if target == ['2'] then .ok (m, put streams.errors)
    else if target == ['-'] then
      .ok (m, if number = 0 then { streams with input := some [] } else put .nowhere)
    else .ok (m, streams)
  | .read =>
    if target == "/dev/null".toList then .ok (m, { streams with input := some [] })
    else if m.files.isDirectory m.cwd (pathOf target) then
      .ok (m, { streams with input := some [] })
    else
      match m.read target with
      | .ok text => .ok (m, { streams with input := some text })
      | .error errno =>
        .error (refused "cannot open " (match errno with
          | .noEntry | .notDirectory => "No such file"
          | errno => errno.text))
  | kind =>
    match outletOf target with
    | .file name =>
      match m.create? name (kind = .append) with
      | .ok m => .ok (m, put (.file name))
      | .error errno =>
        .error (refused "cannot create " (match errno with
          | .noEntry | .notDirectory => "Directory nonexistent"
          | errno => errno.text))
    | outlet => .ok (m, put outlet)

/-- Signals by their numbers. -/
def signals : List (String × Int) :=
  [("HUP", 1), ("INT", 2), ("QUIT", 3), ("ILL", 4), ("TRAP", 5), ("ABRT", 6), ("BUS", 7),
    ("FPE", 8), ("KILL", 9), ("USR1", 10), ("SEGV", 11), ("USR2", 12), ("PIPE", 13), ("ALRM", 14),
    ("TERM", 15)]

/-- Sends a signal, which ends the script if it is sent to the script itself. -/
def kill (m : Machine) (line : Nat) (words : List (List Char)) : Machine :=
  let (given, words) := takeOption 's' words
  let options := Options.ofArguments words
  let name := given.getD options.letters
  if "SIG".toList.isPrefixOf name && given.isNone then
    (m.report line "kill: Illegal option -S".toList).done 2
  else
  let signal : Int :=
    if name.isEmpty then 15
    else ((integer? name).or (signals.lookup (String.ofList name))).getD 15
  if options.words.contains ['$'] && signal != 0 then
    { m with flow := .exited, status := -signal }
  else m.done 0

/-- Reads a line into names. The last name takes what is left of it. -/
def readLine (m : Machine) (words : List (List Char)) : Machine :=
  let options := Options.ofArguments words
  let line := m.input.takeWhile (· != '\n')
  let ended := line.length < m.input.length
  let rest := m.input.drop (line.length + 1)
  let trimmed (text : List Char) : List Char :=
    text.dropWhile fun c => c == ' ' || c == '\t'
  let line := (trimmed (trimmed line).reverse).reverse
  let rec fill (m : Machine) (line : List Char) : List (List Char) → Machine
    | [] => m
    | [name] => m.assign (String.ofList name) line
    | name :: names =>
      let word := line.takeWhile fun c => c != ' ' && c != '\t'
      fill (m.assign (String.ofList name) word) (trimmed (line.drop word.length)) names
  (fill { m with input := rest } line options.words).done (if ended then 0 else 1)

/-- Sets options and positional arguments. -/
def setOptions (m : Machine) (words : List (List Char)) : Machine :=
  let m := m.done 0
  match words with
  | ['-', '-'] :: rest => { m with arguments := rest }
  | ('-' :: letters) :: rest =>
    let m := if letters.contains 'e' then { m with careful := true } else m
    if rest.isEmpty then m else { m with arguments := rest }
  | ('+' :: letters) :: _ => if letters.contains 'e' then { m with careful := false } else m
  | [] => m
  | words => { m with arguments := words }

/-- Assigns in words of the form `name=value`. -/
def assignWords (m : Machine) (words : List (List Char)) : Machine :=
  (words.foldl (fun m word =>
    match Script.assignment? word with
    | some (name, value) => m.assign name value
    | none => m) m).done 0

def changeDirectory (m : Machine) (line : Nat) (target : List Char) : Machine :=
  match m.files.place true m.cwd (pathOf target) with
  | .ok ⟨parts, some (.directory _)⟩ => { m.done 0 with cwd := parts }
  | _ => (m.report line ("cd: can't cd to ".toList ++ target)).done 2

/-- The commands that act on the script that runs them. -/
def builtin? (m : Machine) (line : Nat) (name : String) (words : List (List Char)) :
    Option Machine :=
  let count : Nat := ((words.head?.bind integer?).getD 1).toNat
  let given := words.head?.map fun word => (String.ofList word).toNat?
  let status : Int := match given with
    | some (some n) => n % 256
    | _ => m.status
  match name with
  | ":" => some (m.done 0)
  | "exit" | "return" =>
    if given == some none then
      let fault := ofText name ++ ": Illegal number: ".toList ++ words.headD []
      some { (m.report line fault).done 2 with flow := .exited }
    else some { m with flow := if name == "exit" then .exited else .returned, status }
  | "break" =>
    some { m.done 0 with flow := if m.loops = 0 then .normal else .broken (min count m.loops) }
  | "continue" =>
    some { m.done 0 with flow := if m.loops = 0 then .normal else .continued (min count m.loops) }
  | "shift" =>
    if count ≤ m.arguments.length then
      some { m.done 0 with arguments := m.arguments.drop count }
    else some { (m.report line "shift: can't shift that many".toList).done 2 with flow := .exited }
  | "set" => some (setOptions m words)
  | "export" | "readonly" => some (assignWords m words)
  | "local" =>
    let names := words.map fun word => String.ofList (word.takeWhile (· != '='))
    let hidden := names.map fun name => (name, m.value? name)
    some (assignWords { m with hidden := hidden ++ m.hidden } words)
  | "unset" =>
    let names := words.map String.ofList
    some { m.done 0 with values := m.values.filter fun (name, _) => !names.contains name }
  | "read" => some (readLine m words)
  | "cd" => some (changeDirectory m line (words.headD []))
  | "kill" => some (kill m line words)
  | "trap" | "umask" | "wait" | "ulimit" => some (m.done 0)
  | "test" => some (runTest m line "test" words)
  | "[" =>
    if words.getLast? == some [']'] then some (runTest m line "[" words.dropLast)
    else some ((m.report line "[: missing ]".toList).done 2)
  | _ => none

/-- What a part of a script that runs apart leaves behind: files, outputs and its status. A
signal that it sends ends the whole script. -/
def Machine.rejoin (m ran : Machine) : Machine :=
  { m with
    files := ran.files
    written := ran.written
    input := ran.input
    status := ran.status
    flow := if ran.status < 0 then .exited else m.flow }

/-- A shell of its own, started by its arguments: with the text that is its script, if it is found.
The script is in a file or, after `-c`, an argument itself. -/
def Machine.enter (m : Machine) : List (List Char) → Machine × List Char
  | [] => (m, [])
  | ['-', 'c'] :: text :: rest =>
    ({ m with script := rest.headD m.script, arguments := rest.drop 1 }, text)
  | ('-' :: option) :: rest => enter { m with careful := m.careful || option.contains 'e' } rest
  | name :: rest =>
    match m.read name with
    | .ok text => ({ m with script := name, arguments := rest }, text)
    | .error _ => ((m.report 0 ("cannot open ".toList ++ name ++ ": No such file".toList)).done 2, [])

/-- A shell that knows nothing of the one that starts it. -/
def Machine.fresh (m : Machine) : Machine :=
  { m with
    values := []
    functions := []
    careful := false
    loops := 0
    hidden := []
    status := 0
    flow := .normal }

/-- Goes on after a shell of its own. If a signal ended that one, its number shows. -/
def Machine.resume (m ran : Machine) : Machine :=
  m.rejoin (if ran.status < 0 then ran.done (128 - ran.status) else ran)

/-- The names a shell goes by. -/
def shells : List (List Char) := ["sh".toList, "dash".toList, "bash".toList]

/-- A name without the directory of the tools that every script may count on. -/
def bareName (name : List Char) : List Char :=
  (["/bin/", "/usr/bin/"].findSome? fun place => place.toList.isPrefixOf? name).getD name

/-- Ends a careful script whose last command failed, unless that was only being asked about. -/
def Machine.heed (m : Machine) (asked : Bool) : Machine :=
  if m.careful && !asked && m.status != 0 && m.flow = .normal then { m with flow := .exited }
  else m

/-- A script's text behind a name, if the file may be run. -/
def Machine.scriptText? (m : Machine) (name : List Char) : Except Errno (List Char) :=
  match m.files.place true m.cwd (pathOf name) with
  | .error errno => .error errno
  | .ok ⟨_, none⟩ => .error .noEntry
  | .ok ⟨_, some (.file content true _)⟩ => .ok (charsOf content)
  | .ok _ => .error .denied

/-- Whether a part is written out and special in a pattern. -/
def Part.isPattern : Part → Bool
  | .literal text false => text.any fun c => c == '*' || c == '?' || c == '['
  | _ => false

/-- The names that a pattern's part accepts in a directory, in order. -/
def Machine.namesIn (m : Machine) (directory : List Char) (pattern : List Char) :
    List (List Char) :=
  match m.files.place true m.cwd (pathOf (if directory.isEmpty then ['.'] else directory)) with
  | .ok ⟨parts, some (.directory _)⟩ =>
    let children := m.files.entries.filterMap fun (path, _) =>
      if path.dropLast == parts && !path.isEmpty then path.getLast?.map ofText else none
    let accepted := children.filter fun name =>
      (name.head? != some '.' || pattern.head? == some '.') &&
        Glob.accepts (Glob.ofPattern pattern) name
    accepted.mergeSort fun a b => String.ofList a ≤ String.ofList b
  | _ => []

/-- A pattern as plain text. -/
def unpatterned : List Char → List Char
  | '\\' :: c :: rest => c :: unpatterned rest
  | c :: rest => c :: unpatterned rest
  | [] => []

/-- The files whose names a pattern accepts, or else the pattern itself. -/
def Machine.fileNames (m : Machine) (pattern : List Char) : List (List Char) :=
  let parts := (pattern.splitBy fun a b => (a == '/') == (b == '/'))
  let found := parts.foldl (fun (found : List (List Char)) part =>
    if part.head? == some '/' then found.map (· ++ part)
    else if part.any fun c => c == '*' || c == '?' || c == '[' then
      found.flatMap fun directory => (m.namesIn directory part).map (directory ++ ·)
    else found.map (· ++ unpatterned part)) [[]]
  let found := found.filter fun name => (m.node? name).isSome
  if found.isEmpty then [unpatterned pattern] else found

def isSpecial (c : Char) : Bool := "*?[]\\".contains c

mutual

/-- Adds what a word's parts expand to. In a pattern, what is quoted is kept from being special. -/
def expand (fuel : Nat) (pattern : Bool) (m : Machine) (fields : Fields) :
    List Part → Machine × Fields
  | [] => (m, fields)
  | part :: rest =>
    match fuel with
    | 0 => (m, fields)
    | fuel + 1 =>
      let plain (text : List Char) : List Char :=
        if pattern then text.flatMap fun c => if isSpecial c then ['\\', c] else [c] else text
      let insert (fields : Fields) (quoted : Bool) (text : List Char) : Fields :=
        if quoted then fields.append (plain text)
        else if pattern then fields.append text
        else fields.divide text
      match part with
      | .literal text quoted =>
        expand fuel pattern m (fields.append (if quoted then plain text else text)) rest
      | .variable name quoted =>
        expand fuel pattern m (insert fields quoted (m.value name)) rest
      | .size name =>
        expand fuel pattern m (fields.append (toString (m.value name).length).toList) rest
      | .changed name change word quoted =>
        let value := m.value name
        let isSet (ifEmpty : Bool) : Bool :=
          if ifEmpty then !value.isEmpty else (m.value? name).isSome
        let (asked, other) := expand fuel change.takesPattern m .empty word
        let other := joinWords other.toList
        match change with
        | .default ifEmpty =>
          if isSet ifEmpty then expand fuel pattern m (insert fields quoted value) rest
          else expand fuel pattern asked (insert fields quoted other) rest
        | .assign ifEmpty =>
          if isSet ifEmpty then expand fuel pattern m (insert fields quoted value) rest
          else expand fuel pattern (asked.assign name other) (insert fields quoted other) rest
        | .alternative ifEmpty =>
          if isSet ifEmpty then expand fuel pattern asked (insert fields quoted other) rest
          else expand fuel pattern m (insert fields quoted []) rest
        | .dropFront longest =>
          let value := Glob.dropFront (Glob.ofPattern other) longest value
          expand fuel pattern asked (insert fields quoted value) rest
        | .dropBack longest =>
          let value := Glob.dropBack (Glob.ofPattern other) longest value
          expand fuel pattern asked (insert fields quoted value) rest
      | .arguments joined quoted =>
        let added :=
          if quoted then
            if joined then fields.append (joinWords m.arguments) else fields.extend m.arguments
          else fields.extend (m.arguments.flatMap splitFields)
        expand fuel pattern m added rest
      | .output body quoted =>
        let ran := runAll fuel false { m with written := [] } body
        let text := ran.writtenTo false
        let text := (text.reverse.dropWhile (· == '\n')).reverse
        let errors := ran.written.filter (·.toErrors)
        let m := { m.rejoin ran with written := m.written ++ errors }
        expand fuel pattern m (insert fields quoted text) rest
      | .arithmetic expression =>
        let (m, inner) := expand fuel false m .empty expression
        let value := Arithmetic.evaluate
          (fun name => (integer? (m.value (String.ofList name))).getD 0) (joinWords inner.toList)
        expand fuel pattern m (fields.append (toString value).toList) rest

/-- Expands words one after another. A word with a bare pattern in it stands for the names of
files that the pattern accepts, if there are any. -/
def expandAll (fuel : Nat) (m : Machine) : List (List Part) → Machine × List (List Char)
  | [] => (m, [])
  | word :: rest =>
    match fuel with
    | 0 => (m, [])
    | fuel + 1 =>
      let globs := word.any Part.isPattern
      let (m, fields) := expand fuel globs m .empty word
      let words := if globs then fields.toList.flatMap m.fileNames else fields.toList
      let (m, more) := expandAll fuel m rest
      (m, words ++ more)

/-- Expands a word that is not divided into fields. -/
def expandOne (fuel : Nat) (pattern : Bool) (m : Machine) (word : List Part) :
    Machine × List Char :=
  match fuel with
  | 0 => (m, [])
  | fuel + 1 =>
    let (m, fields) := expand fuel pattern m .empty word
    (m, joinWords fields.toList)

def assignAll (fuel : Nat) (m : Machine) : List (String × List Part) → Machine
  | [] => m
  | (name, word) :: rest =>
    match fuel with
    | 0 => m
    | fuel + 1 =>
      let (m, value) := expandOne fuel false m word
      assignAll fuel (m.assign name value) rest

/-- Opens files from left to right. -/
def openAll (fuel : Nat) (m : Machine) (streams : Streams) :
    List (Nat × RedirectKind × List Part) → Except (List Char) (Machine × Streams)
  | [] => .ok (m, streams)
  | (number, kind, word) :: rest =>
    match fuel with
    | 0 => .ok (m, streams)
    | fuel + 1 =>
      let (m, target) := expandOne fuel false m word
      match openFile m streams number kind target with
      | .ok (m, streams) => openAll fuel m streams rest
      | .error refusal => .error refusal

/-- Finds the case that a word belongs to. -/
def selectCase (fuel : Nat) (m : Machine) (word : List Char) :
    List (List (List Part) × List Command) → Machine × List Command
  | [] => (m.done 0, [])
  | (patterns, body) :: rest =>
    match fuel with
    | 0 => (m, [])
    | fuel + 1 =>
      let (m, accepted) := accepts fuel m word patterns
      if accepted then (m, body) else selectCase fuel m word rest

def accepts (fuel : Nat) (m : Machine) (word : List Char) : List (List Part) → Machine × Bool
  | [] => (m, false)
  | pattern :: rest =>
    match fuel with
    | 0 => (m, false)
    | fuel + 1 =>
      let (m, pattern) := expandOne fuel true m pattern
      if Glob.accepts (Glob.ofPattern pattern) word then (m, true) else accepts fuel m word rest

/-- Runs a command by its name: one of the script's functions, a builtin, a tool or a script. -/
def call (fuel : Nat) (asked : Bool) (m : Machine) (line : Nat) (name : List Char)
    (words : List (List Char)) : Machine :=
  match fuel with
  | 0 => m
  | fuel + 1 =>
    let title := String.ofList name
    match m.functions.lookup title with
    | some body =>
      let ran := runCommand fuel asked { m with arguments := words, hidden := [] } body
      let ran := ran.hidden.foldl (fun m (name, value) => m.restore name value) ran
      { ran with
        arguments := m.arguments
        hidden := m.hidden
        flow := if ran.flow = .returned then .normal else ran.flow }
    | none =>
      if title = "eval" then runAll fuel asked (m.done 0) (Script.parse (joinWords words))
      else if title = "." then
        match m.read (words.headD []) with
        | .ok text => runAll fuel asked m (Script.parse text)
        | .error _ =>
          { (m.report line (".: cannot open ".toList ++ words.headD [] ++ ": No such file".toList)).done
            2 with flow := .exited }
      else if title = "exec" then
        match words with
        | [] => m
        | name :: words => { call fuel asked m line name words with flow := .exited }
      else if title = "command" then
        match words with
        | [] => m
        | name :: words => call fuel asked m line name words
      else
        match builtin? m line title words with
        | some m => m
        | none =>
          match tool? (String.ofList (bareName name)) with
          | some run => run m words
          | none =>
            if shells.contains (bareName name) then
              let (inner, text) := { m.fresh with script := name }.enter words
              m.resume (runAll fuel false inner (Script.parse text))
            else if name.contains '/' then
              match m.scriptText? name with
              | .ok text =>
                let inner := { m.fresh with script := name, arguments := words }
                m.resume (runAll fuel false inner (Script.parse text))
              | .error .denied => (m.report line (name ++ ": Permission denied".toList)).done 126
              | .error _ => (m.report line (name ++ ": not found".toList)).done 127
            else (m.report line (name ++ ": not found".toList)).done 127

/-- Runs a command. `asked` says that a failure is only being asked about. -/
def runCommand (fuel : Nat) (asked : Bool) (m : Machine) (command : Command) : Machine :=
  match fuel with
  | 0 => m
  | fuel + 1 =>
    match command with
    | .simple line assignments words =>
      let (m, words) := expandAll fuel m words
      match words with
      | [] =>
        -- An assignment has the status of what it runs to find its value.
        let set := assignAll fuel (m.done 0) assignments
        set.heed asked
      | name :: words =>
        if assignments.isEmpty then (call fuel asked m line name words).heed asked
        else
          let ran := call fuel asked (assignAll fuel m assignments) line name words
          { ran with values := m.values }.heed asked
    | .redirected line command opened =>
      -- The words of a command are known before any file is opened.
      let (m, command) := match command with
        | .simple line assignments words =>
          let (m, words) := expandAll fuel m words
          (m, Command.simple line assignments (words.map fun word => [.literal word true]))
        | command => (m, command)
      match openAll fuel m ⟨none, .output, .errors⟩ opened with
      | .error refusal => ((m.report line refusal).done 2).heed asked
      | .ok (m, streams) =>
        let ran := runCommand fuel asked
          { m with written := [], input := streams.input.getD m.input } command
        let after := { ran with
          written := m.written
          input := if streams.input.isSome then m.input else ran.input }
        ran.written.foldl (deliver streams) after
    | .pipe first second =>
      let left := runCommand fuel true { m with written := [] } first
      let errors := left.written.filter (·.toErrors)
      let middle := { m with
        files := left.files
        written := m.written ++ errors
        input := left.writtenTo false }
      let ran := runCommand fuel true middle second
      ({ m.rejoin ran with input := m.input }).heed asked
    | .both first second =>
      let m := runCommand fuel true m first
      if m.flow = .normal ∧ m.status = 0 then runCommand fuel asked m second else m
    | .either first second =>
      let m := runCommand fuel true m first
      if m.flow = .normal ∧ m.status ≠ 0 then runCommand fuel asked m second else m
    | .negate command =>
      let m := runCommand fuel true m command
      if m.flow = .normal then m.done (if m.status = 0 then 1 else 0) else m
    | .group body => runAll fuel asked m body
    | .apart body =>
      let ran := runAll fuel asked m body
      (m.rejoin ran).heed asked
    | .define name body => { m.done 0 with functions := (name, body) :: m.functions }
    | .choose condition body otherwise =>
      let m := runAll fuel true m condition
      if m.flow ≠ .normal then m
      else if m.status = 0 then runAll fuel asked m body
      else runAll fuel asked (m.done 0) otherwise
    | .select word cases =>
      let (m, word) := expandOne fuel false m word
      let (m, body) := selectCase fuel m word cases
      if body.isEmpty then m.done 0 else runAll fuel asked m body
    | .each name words body =>
      let (m, values) := match words with
        | some words => expandAll fuel m words
        | none => (m, m.arguments)
      let inside := { m.done 0 with loops := m.loops + 1 }
      { eachValue fuel asked name body inside values with loops := m.loops }
    | .loop untilDone condition body =>
      let inside := { m with loops := m.loops + 1 }
      { turn fuel asked untilDone condition body inside 0 with loops := m.loops }

/-- Runs a body for one value after another. -/
def eachValue (fuel : Nat) (asked : Bool) (name : String) (body : List Command) (m : Machine) :
    List (List Char) → Machine
  | [] => m
  | value :: rest =>
    match fuel with
    | 0 => m
    | fuel + 1 =>
      let m := runAll fuel asked (m.assign name value) body
      match m.flow with
      | .normal => eachValue fuel asked name body m rest
      | .continued levels =>
        if levels ≤ 1 then eachValue fuel asked name body { m with flow := .normal } rest
        else { m with flow := .continued (levels - 1) }
      | .broken levels =>
        { m with flow := if levels ≤ 1 then .normal else .broken (levels - 1) }
      | _ => m

/-- Takes a turn of a loop if its condition says so. `status` is that of the turn before. -/
def turn (fuel : Nat) (asked untilDone : Bool) (condition body : List Command) (m : Machine)
    (status : Int) : Machine :=
  match fuel with
  | 0 => m
  | fuel + 1 =>
    let m := runAll fuel true m condition
    if m.flow ≠ .normal then m
    else if (m.status = 0) = (untilDone = true) then m.done status
    else
      let m := runAll fuel asked m body
      match m.flow with
      | .normal => turn fuel asked untilDone condition body m m.status
      | .continued levels =>
        if levels ≤ 1 then
          turn fuel asked untilDone condition body { m with flow := .normal } m.status
        else { m with flow := .continued (levels - 1) }
      | .broken levels =>
        { m with flow := if levels ≤ 1 then .normal else .broken (levels - 1) }
      | _ => m

/-- Runs commands in order while nothing breaks off. -/
def runAll (fuel : Nat) (asked : Bool) (m : Machine) : List Command → Machine
  | [] => m
  | command :: rest =>
    match fuel with
    | 0 => m
    | fuel + 1 =>
      let m := runCommand fuel asked m command
      if m.flow = .normal then runAll fuel asked m rest else m

end

/-- How deep commands may nest and how often a loop may turn. -/
def maxTurns : Nat := 100000

/-- A script before its first command. -/
def Machine.start (fs : Files) (cwd : List String) (script : List Char)
    (arguments : List (List Char)) : Machine :=
  { files := fs, cwd := cwd, script := script, arguments := arguments
    values := [], functions := [], status := 0, flow := .normal, careful := false
    loops := 0, hidden := [], input := [], written := [] }

/-- Runs a program that is not a file of its own. -/
def Machine.runTool? (m : Machine) (name : List Char) (words : List (List Char)) :
    Option Machine :=
  if shells.contains (bareName name) then
    let (m, text) := m.enter words
    some (runAll maxTurns false m (Script.parse text))
  else (tool? (String.ofList (bareName name))).map fun run => run m words

end ThemeSheet.Shell
