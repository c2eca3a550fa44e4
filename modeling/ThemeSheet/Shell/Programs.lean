import ThemeSheet.Shell.Formatted
import ThemeSheet.Shell.Machine
import ThemeSheet.Shell.Sed

namespace ThemeSheet.Shell

/-- The words of a command that are options, and the others. -/
structure Options where
  letters : List Char
  words : List (List Char)

namespace Options

def isOption (word : List Char) : Bool :=
  word.head? == some '-' && word.length > 1

/-- Takes options apart up to a lone double dash. -/
def ofArguments : List (List Char) → Options
  | [] => ⟨[], []⟩
  | ['-', '-'] :: rest => ⟨[], rest⟩
  | word :: rest =>
    let options := ofArguments rest
    if isOption word then { options with letters := word.drop 1 ++ options.letters }
    else { options with words := word :: options.words }

def has (options : Options) (letter : Char) : Bool := options.letters.contains letter

end Options

/-- Takes out an option that has a value, in the same word or the next. -/
def takeOption (letter : Char) : List (List Char) → Option (List Char) × List (List Char)
  | [] => (none, [])
  | word :: rest =>
    if word == ['-', letter] then (rest.head?, rest.drop 1)
    else if ['-', letter].isPrefixOf word then (some (word.drop 2), rest)
    else
      let (value, rest) := takeOption letter rest
      (value, word :: rest)

def quotedName (name : List Char) : List Char := '\'' :: name ++ ['\'']

namespace Machine

/-- A message of a tool about a file. -/
def refuse (m : Machine) (tool : String) (name : List Char) (errno : Errno) : Machine :=
  (m.write true (ofText tool ++ name ++ ofText s!": {errno.text}\n")).done 1

/-- What each file holds, or the input where none is named. A file that cannot be read is reported
by `report` and left out. -/
def contents (m : Machine) (report : Machine → List Char → Errno → Machine)
    (names : List (List Char)) : Machine × List (List Char × List Char) :=
  let names := if names.isEmpty then [['-']] else names
  names.foldl (fun (m, read) name =>
    if name == ['-'] then ({ m with input := [] }, read ++ [(name, m.input)])
    else
      match m.read name with
      | .ok text => (m, read ++ [(name, text)])
      | .error errno => (report m name errno, read)) (m.done 0, [])

/-- All of that in one. -/
def content (m : Machine) (tool : String) (names : List (List Char)) : Machine × List Char :=
  let (m, read) := m.contents (·.refuse tool) names
  (m, read.flatMap (·.2))

end Machine

def compare? (operator : String) (a b : Int) : Option Bool :=
  match operator with
  | "-lt" => some (a < b)
  | "-le" => some (a ≤ b)
  | "-gt" => some (b < a)
  | "-ge" => some (b ≤ a)
  | "-eq" => some (a = b)
  | "-ne" => some (a ≠ b)
  | _ => none

def testFile? (m : Machine) (operator : String) (name : List Char) : Option Bool :=
  let node? := m.node? name
  match operator with
  | "-e" | "-r" | "-w" => some node?.isSome
  | "-f" => some (m.files.isFile m.cwd (pathOf name))
  | "-d" => some (m.files.isDirectory m.cwd (pathOf name))
  | "-x" => some (match node? with
    | some (.file _ executable _) => executable
    | some _ => true
    | none => false)
  | "-s" => some (match node? with
    | some (.file content ..) => !content.isEmpty
    | some _ => true
    | none => false)
  | "-L" | "-h" => some (match m.files.place false m.cwd (pathOf name) with
    | .ok ⟨_, some (.link _)⟩ => true
    | _ => false)
  | "-n" => some (!name.isEmpty)
  | "-z" => some name.isEmpty
  | _ => none

/-- Whether a test holds, or what is wrong with it. -/
def test (m : Machine) (fuel : Nat) (words : List (List Char)) : Except (List Char) Bool :=
  match fuel with
  | 0 => .ok false
  | fuel + 1 =>
    let number (word : List Char) : Except (List Char) Int :=
      match integer? word with
      | some n => .ok n
      | none => .error ("Illegal number: ".toList ++ word)
    match words with
    | [] => .ok false
    | [word] => .ok !word.isEmpty
    | [a, b] =>
      if a == ['!'] then .ok b.isEmpty
      else
        match testFile? m (String.ofList a) b with
        | some holds => .ok holds
        | none => .error (a ++ ": unexpected operator".toList)
    | a :: operator :: b :: rest =>
      let operator := String.ofList operator
      if rest.isEmpty && operator == "=" then .ok (a == b)
      else if rest.isEmpty && operator == "!=" then .ok (a != b)
      else if rest.isEmpty && operator == "-a" then .ok (!a.isEmpty && !b.isEmpty)
      else if rest.isEmpty && operator == "-o" then .ok (!a.isEmpty || !b.isEmpty)
      else if rest.isEmpty && operator == "<" then .ok (String.ofList a < String.ofList b)
      else if rest.isEmpty && operator == ">" then .ok (String.ofList b < String.ofList a)
      else if rest.isEmpty && (compare? operator 0 0).isSome then do
        let first ← number a
        let second ← number b
        return (compare? operator first second).getD false
      else if a == ['!'] && words.length ≤ 4 then (test m fuel (words.drop 1)).map (!·)
      else
        let split? (mark : String) : Option (List (List Char) × List (List Char)) :=
          let before := words.takeWhile (· != mark.toList)
          if before.length < words.length then some (before, words.drop (before.length + 1))
          else none
        match split? "-o", split? "-a" with
        | some (first, second), _ => do
          return (← test m fuel first) || (← test m fuel second)
        | none, some (first, second) => do
          return (← test m fuel first) && (← test m fuel second)
        | none, none =>
          if a == ['!'] then (test m fuel (words.drop 1)).map (!·)
          else .error (a ++ ": unexpected operator".toList)

def runTest (m : Machine) (line : Nat) (name : String) (words : List (List Char)) : Machine :=
  match test m (words.length + 1) words with
  | .ok holds => m.done (if holds then 0 else 1)
  | .error fault => (m.report line (ofText name ++ [':', ' '] ++ fault)).done 2

def joinWords (words : List (List Char)) : List Char :=
  (words.intersperse [' ']).flatten

def echo (m : Machine) (words : List (List Char)) : Machine :=
  let (words, stop) :=
    if words.head? == some ['-', 'n'] then (words.drop 1, []) else (words, ['\n'])
  let (text, stops) := unescapeText (joinWords words)
  (m.say (if stops then text else text ++ stop)).done 0

def printf (m : Machine) (words : List (List Char)) : Machine :=
  let words := if words.head? == some ['-', '-'] then words.drop 1 else words
  (m.say (formatAll (words.headD []) (words.length + 1) (words.drop 1))).done 0

def countWords (text : List Char) : Nat :=
  let isSpace (c : Char) : Bool := c == ' ' || ('\t' ≤ c && c ≤ '\r')
  ((text.splitBy fun a b => isSpace a == isSpace b).filter fun run =>
    !run.head?.any isSpace).length

def wordCount (m : Machine) (words : List (List Char)) : Machine :=
  let options := Options.ofArguments words
  let (m, read) := m.contents (·.refuse "wc: ") options.words
  let every := !(options.has 'l' || options.has 'w' || options.has 'c')
  let columns (text : List Char) : List Nat :=
    (if every || options.has 'l' then [text.count '\n'] else []) ++
      (if every || options.has 'w' then [countWords text] else []) ++
      (if every || options.has 'c' then [text.length] else [])
  let rows := read.map fun (name, text) => (columns text, if name == ['-'] then [] else ' ' :: name)
  let total := columns (read.flatMap (·.2))
  let rows := if rows.length > 1 then rows ++ [(total, " total".toList)] else rows
  let size := (read.flatMap (·.2)).length
  let width := if total.length ≤ 1 && read.length ≤ 1 then 1
    else if read.any (·.1 == ['-']) then 7 else (toString size).length
  let layout : Layout := ⟨false, false, false, width, none⟩
  m.say (rows.flatMap fun (counts, label) =>
    joinWords (counts.map fun (count : Nat) => layout.number 10 count) ++ label ++ ['\n'])

/-- Lines with their ends. -/
def linesOf (text : List Char) : List (List Char) :=
  text.splitBy fun c _ => c != '\n'

def withEnd (line : List Char) : List Char :=
  if line.getLast? == some '\n' then line else line ++ ['\n']

/-- The number of lines or bytes that is asked for, and the words left. A bare number is one of
lines. -/
def amount (words : List (List Char)) : Bool × List Char × List (List Char) :=
  let (bytes, rest) := takeOption 'c' words
  match bytes with
  | some bytes => (true, bytes, rest)
  | none =>
    let (count, rest) := takeOption 'n' words
    match count with
    | some count => (false, count, rest)
    | none =>
      match words with
      | ('-' :: c :: more) :: rest =>
        if c.isDigit then (false, c :: more, rest) else (false, ['1', '0'], words)
      | words => (false, ['1', '0'], words)

def head (m : Machine) (words : List (List Char)) : Machine :=
  let (bytes, count, names) := amount words
  let report (m : Machine) (name : List Char) (errno : Errno) : Machine :=
    (m.write true ("head: cannot open ".toList ++ quotedName name ++
      ofText s!" for reading: {errno.text}\n")).done 1
  let (m, read) := m.contents report names
  let text := read.flatMap (·.2)
  let take {α : Type} (list : List α) : List α :=
    match (integer? count).getD 0 with
    | .ofNat n => list.take n
    | .negSucc n => list.take (list.length - (n + 1))
  m.say (if bytes then take text else (take (linesOf text)).flatten)

def tail (m : Machine) (words : List (List Char)) : Machine :=
  let (bytes, count, names) := amount words
  let report (m : Machine) (name : List Char) (errno : Errno) : Machine :=
    (m.write true ("tail: cannot open ".toList ++ quotedName name ++
      ofText s!" for reading: {errno.text}\n")).done 1
  let (m, read) := m.contents report names
  let text := read.flatMap (·.2)
  let n := ((integer? count).getD 0).natAbs
  let take {α : Type} (list : List α) : List α :=
    if count.head? == some '+' then list.drop (n - 1) else list.drop (list.length - n)
  m.say (if bytes then take text else (take (linesOf text)).flatten)

def sed (m : Machine) (words : List (List Char)) : Machine :=
  let (first, words) := takeOption 'e' words
  let (second, words) := takeOption 'e' words
  let options := Options.ofArguments words
  let (script, names) := match first, second with
    | none, _ => (options.words.headD [], options.words.drop 1)
    | some first, none => (first, options.words)
    | some first, some second => (first ++ '\n' :: second, options.words)
  let edit := Sed.edit script (options.has 'E' || options.has 'r') (options.has 'n')
  let report (m : Machine) (name : List Char) (errno : Errno) : Machine :=
    (m.write true ("sed: can't read ".toList ++ name ++ ofText s!": {errno.text}\n")).done 2
  if options.has 'i' then
    names.foldl (fun m name =>
      match m.read name with
      | .error errno => report m name errno
      | .ok text =>
        match m.replace? name (edit text) with
        | .ok m => m
        | .error errno => report m name errno) (m.done 0)
  else
    let (m, read) := m.contents report names
    m.say (edit (read.flatMap (·.2)))

/-- All that a regular expression takes of a line, from left to right. -/
def allTaken (regex : Regex) : (fuel : Nat) → Regex.Cursor → List (List Char)
  | 0, _ => []
  | fuel + 1, cursor =>
    match regex.find? (cursor.rest.length + 1) cursor with
    | none => []
    | some found =>
      if found.taken.isEmpty then
        if found.after.rest.isEmpty then [] else allTaken regex fuel (found.after.step 1)
      else found.taken :: allTaken regex fuel found.after

def grep (m : Machine) (words : List (List Char)) : Machine :=
  let (given, words) := takeOption 'e' words
  let options := Options.ofArguments words
  let (pattern, names) := match given with
    | some pattern => (pattern, options.words)
    | none => (options.words.headD [], options.words.drop 1)
  let fold (text : List Char) : List Char :=
    if options.has 'i' then text.map Char.toLower else text
  let pattern := fold pattern
  let regex := if options.has 'F' then
      pattern.foldr (fun c rest => Regex.sequence (.plain c) rest) .empty
    else .parse (options.has 'E') pattern
  let regex := if options.has 'x' then
      .sequence .lineStart (.sequence (.group 0 regex) .lineEnd) else regex
  let selects (line : List Char) : Bool :=
    (regex.search? (fold (line.filter (· != '\n')))).isSome != options.has 'v'
  let (m, read) := m.contents (fun m name errno => m.refuse "grep: " name errno) names
  let failed := m.status != 0
  let label (name text : List Char) : List Char :=
    if names.length > 1 && !options.has 'h' then name ++ ':' :: text else text
  let selected : List (List Char × List (List Char × Nat)) := read.map fun (name, text) =>
    (name, ((linesOf text).zipIdx 1).filter fun (line, _) => selects line)
  let shown := selected.flatMap fun (name, lines) =>
    if options.has 'c' then label name ((toString lines.length).toList ++ ['\n'])
    else if options.has 'l' then (if lines.isEmpty then [] else name ++ ['\n'])
    else if options.has 'o' then
      lines.flatMap fun (line, _) =>
        (allTaken regex (line.length + 1) ⟨[], line.filter (· != '\n'), []⟩).flatMap fun taken =>
          label name (taken ++ ['\n'])
    else lines.flatMap fun (line, number) =>
      label name ((if options.has 'n' then (toString number).toList ++ [':'] else []) ++
        withEnd line)
  let found := selected.any fun (_, lines) => !lines.isEmpty
  let m := if options.has 'q' then m else m.say shown
  m.done (if failed && !(found && options.has 'q') then 2 else if found then 0 else 1)

/-- The characters that an argument of `tr` lists. -/
def characters : (fuel : Nat) → List Char → List Char
  | 0, _ => []
  | _, [] => []
  | fuel + 1, '[' :: ':' :: rest =>
    let name := rest.takeWhile (· != ':')
    (Bracket.named name).flatMap (fun (low, high) => range low high) ++
      characters fuel (rest.drop (name.length + 2))
  | fuel + 1, '\\' :: rest =>
    let (text, rest) := escape false rest
    text ++ characters fuel rest
  | fuel + 1, low :: '-' :: high :: rest => range low high ++ characters fuel rest
  | fuel + 1, c :: rest => c :: characters fuel rest
where
  range (low high : Char) : List Char :=
    (List.range (high.toNat + 1 - low.toNat)).map fun n => Char.ofNat (low.toNat + n)

/-- Leaves one of each run of a character in the set. -/
def squeezed (set : List Char) : List Char → List Char
  | [] => []
  | c :: rest =>
    match squeezed set rest with
    | [] => [c]
    | d :: more => if c == d && set.contains c then d :: more else c :: d :: more

def exchange (m : Machine) (words : List (List Char)) : Machine :=
  let options := Options.ofArguments words
  let set (n : Nat) : List Char :=
    let text := options.words[n]?.getD []
    characters (text.length + 1) text
  let first := set 0
  let second := set 1
  let complement := options.has 'c' || options.has 'C'
  let member (c : Char) : Bool := first.contains c != complement
  let filled := second ++ List.replicate (first.length - second.length) (second.getLastD ' ')
  let pairs := (first.zip filled).reverse
  let (m, read) := m.contents (·.refuse "tr: ") []
  let text := read.flatMap (·.2)
  let changed :=
    if options.has 'd' then text.filter (!member ·)
    else if second.isEmpty then text
    else text.map fun c =>
      if complement then (if member c then second.getLastD c else c)
      else (pairs.lookup c).getD c
  let last := if second.isEmpty then first else second
  m.say (if options.has 's' then squeezed last changed else changed)

def leadingNumber (line : List Char) : Int :=
  let text := line.dropWhile fun c => c == ' ' || c == '\t'
  let (sign, digits) := match text with
    | '-' :: rest => (-1, rest)
    | rest => (1, rest)
  sign * ((String.ofList (digits.takeWhile Char.isDigit)).toNat?.getD 0 : Nat)

def sort (m : Machine) (words : List (List Char)) : Machine :=
  let options := Options.ofArguments words
  let report (m : Machine) (name : List Char) (errno : Errno) : Machine :=
    (m.write true ("sort: cannot read: ".toList ++ name ++ ofText s!": {errno.text}\n")).done 2
  let (m, read) := m.contents report options.words
  let lines := read.flatMap fun (_, text) => (linesOf text).map withEnd
  let least (a b : List Char) : Bool := String.ofList a ≤ String.ofList b
  let before (a b : List Char) : Bool :=
    if options.has 'n' && leadingNumber a != leadingNumber b then
      leadingNumber a < leadingNumber b
    else least (a.filter (· != '\n')) (b.filter (· != '\n'))
  let sorted := lines.mergeSort before
  let sorted := if options.has 'r' then sorted.reverse else sorted
  let sorted := if options.has 'u' then
      (sorted.splitBy fun a b =>
        if options.has 'n' then leadingNumber a == leadingNumber b else a == b).map (·.headD [])
    else sorted
  m.say sorted.flatten

def unique (m : Machine) (words : List (List Char)) : Machine :=
  let options := Options.ofArguments words
  let (m, text) := m.content "uniq: " options.words
  let groups := ((linesOf text).map withEnd).splitBy (· == ·)
  let groups := if options.has 'd' then groups.filter (·.length > 1) else groups
  let layout : Layout := ⟨false, false, false, 7, none⟩
  m.say (groups.flatMap fun group =>
    (if options.has 'c' then layout.number 10 group.length ++ [' '] else []) ++ group.headD [])

/-- The numbers that a list of fields names. -/
def fieldNumbers (text : List Char) (count : Nat) : List Nat :=
  (text.splitBy fun a b => a != ',' && b != ',').flatMap fun part =>
    let low := part.takeWhile Char.isDigit
    let number (digits : List Char) (missing : Nat) : Nat :=
      (String.ofList digits).toNat?.getD missing
    match part.drop low.length with
    | '-' :: high =>
      let first := number low 1
      (List.range (number high count + 1 - first)).map (first + ·)
    | _ => if low.isEmpty then [] else [number low 0]

def cut (m : Machine) (words : List (List Char)) : Machine :=
  let (mark, words) := takeOption 'd' words
  let (fields, words) := takeOption 'f' words
  let (places, words) := takeOption 'c' words
  let options := Options.ofArguments words
  let mark := (mark.bind (·.head?)).getD '\t'
  let (m, text) := m.content "cut: " options.words
  m.say ((linesOf text).flatMap fun line =>
    let line := line.filter (· != '\n')
    match fields, places with
    | some fields, _ =>
      if line.contains mark then
        let parts := (line.foldr (fun c parts =>
          if c == mark then [] :: parts else (c :: parts.headD []) :: parts.drop 1) [[]])
        let wanted := fieldNumbers fields parts.length
        let kept := (parts.zipIdx 1).filter fun (_, n) => wanted.contains n
        ((kept.map (·.1)).intersperse [mark]).flatten ++ ['\n']
      else if options.has 's' then [] else line ++ ['\n']
    | none, places =>
      let wanted := fieldNumbers (places.getD []) line.length
      ((line.zipIdx 1).filter fun (_, n) => wanted.contains n).map (·.1) ++ ['\n'])

def tee (m : Machine) (words : List (List Char)) : Machine :=
  let options := Options.ofArguments words
  let (m, text) := m.content "tee: " []
  let m := m.say text
  options.words.foldl (fun m name =>
    match m.create? name (options.has 'a') with
    | .ok m => m.append name text
    | .error errno => m.refuse "tee: " name errno) m

def sequence (m : Machine) (words : List (List Char)) : Machine :=
  let numbers := words.map fun word => (integer? word).getD 0
  let (first, step, final) := match numbers with
    | [final] => ((1 : Int), (1 : Int), final)
    | [first, final] => (first, 1, final)
    | first :: step :: final :: _ => (first, step, final)
    | [] => (1, 1, 0)
  let count := if step = 0 then 0 else ((final - first) / step + 1).toNat
  let shown := (List.range count).flatMap fun (n : Nat) =>
    (toString (first + step * n)).toList ++ ['\n']
  (m.say shown).done 0

def basename (m : Machine) (words : List (List Char)) : Machine :=
  let path := words.headD []
  let name := (pathOf path).name
  let name := if name.isEmpty then (if path.isEmpty then [] else ['/']) else ofText name
  let ending := words[1]?.getD []
  let name := if ending.isSuffixOf name && ending.length < name.length then
      name.take (name.length - ending.length) else name
  (m.say (name ++ ['\n'])).done 0

def dirname (m : Machine) (words : List (List Char)) : Machine :=
  let path := words.headD []
  let trimmed := (path.reverse.dropWhile (· == '/')).reverse
  let directory := (trimmed.reverse.dropWhile (· != '/')).reverse
  let shown := if path.contains '/' && trimmed.isEmpty then ['/']
    else if directory.isEmpty then ['.']
    else
      let directory := (directory.reverse.dropWhile (· == '/')).reverse
      if directory.isEmpty then ['/'] else directory
  (m.say (shown ++ ['\n'])).done 0

/-- Where a file goes that is copied or moved to a place: into it if it is a directory. -/
def destination (m : Machine) (source target : List Char) : List Char :=
  if m.files.isDirectory m.cwd (pathOf target) then
    target ++ '/' :: ofText (pathOf source).name
  else target

def move (m : Machine) (keep deep : Bool) (source target : List Char) : Machine :=
  let tool := if keep then "cp: " else "mv: "
  let missing (errno : Errno) : Machine :=
    (m.write true (ofText (tool ++ "cannot stat ") ++ quotedName source ++
      ofText s!": {errno.text}\n")).done 1
  let blocked (errno : Errno) : Machine :=
    let action := if keep then "cannot create regular file " else "cannot move "
    let path := if keep then quotedName target
      else quotedName source ++ " to ".toList ++ quotedName target
    (m.write true (ofText (tool ++ action) ++ path ++ ofText s!": {errno.text}\n")).done 1
  match m.files.place keep m.cwd (pathOf source) with
  | .error errno => missing errno
  | .ok ⟨_, none⟩ => missing .noEntry
  | .ok ⟨parts, some node⟩ =>
    let target := destination m source target
    let below := m.files.entries.filter fun entry => parts.isPrefixOf entry.1 && entry.1 != parts
    let moved (place : List String) : List (List String × Node) :=
      below.map fun (path, node) => (place ++ path.drop parts.length, node)
    if keep then
      match node with
      | .file content executable _ =>
        match m.create? target false with
        | .error errno => blocked errno
        | .ok created =>
          let created := created.append target (charsOf content)
          match m.node? target, created.files.place true m.cwd (pathOf target) with
          | none, .ok ⟨place, some (.file content _ stamp)⟩ =>
            { created.done 0 with
              files := created.files.put place (.file content executable stamp) }
          | _, _ => created.done 0
      | .directory _ =>
        if deep then
          match m.files.place false m.cwd (pathOf target) with
          | .error errno => blocked errno
          | .ok place =>
            let files := m.files.put place.parts node
            { m.done 0 with files := { files with entries := files.entries ++ moved place.parts } }
        else
          (m.write true (ofText "cp: -r not specified; omitting directory " ++
            quotedName source ++ ['\n'])).done 1
      | _ =>
        (m.write true (ofText "cp: -r not specified; omitting directory " ++ quotedName source ++
          ['\n'])).done 1
    else
      match m.files.place false m.cwd (pathOf target) with
      | .error errno => blocked errno
      | .ok place =>
        let files := (m.files.eraseTree parts).put place.parts node
        { m.done 0 with files := { files with entries := files.entries ++ moved place.parts } }

def moveAll (m : Machine) (keep : Bool) (words : List (List Char)) : Machine :=
  let options := Options.ofArguments words
  let deep := options.has 'r' || options.has 'R' || options.has 'a'
  let words := options.words
  let target := words.getLastD []
  words.dropLast.foldl (fun m source =>
    let moved := move m keep deep source target
    if m.status = 0 then moved else moved.done m.status) (m.done 0)

def remove (m : Machine) (words : List (List Char)) : Machine :=
  let options := Options.ofArguments words
  let deep := options.has 'r' || options.has 'R'
  options.words.foldl (fun m name =>
    let refused (errno : Errno) : Machine :=
      if options.has 'f' && (errno = .noEntry || errno = .notDirectory) then m
      else
        (m.write true ("rm: cannot remove ".toList ++ quotedName name ++
          ofText s!": {errno.text}\n")).done 1
    match m.files.place false m.cwd (pathOf name) with
    | .error errno => refused errno
    | .ok ⟨_, none⟩ => refused .noEntry
    | .ok ⟨parts, some (.directory _)⟩ =>
      if deep then { m with files := m.files.eraseTree parts } else refused .isDirectory
    | .ok ⟨parts, some _⟩ => { m with files := m.files.eraseTree parts }) (m.done 0)

def makeDirectories (m : Machine) (words : List (List Char)) : Machine :=
  let (_, words) := takeOption 'm' words
  let options := Options.ofArguments words
  let make (m : Machine) (path : Path) : Except Errno Machine :=
    (m.files.makeDirectory m.cwd path).map fun files => { m with files }
  let ancestors (path : Path) : List Path :=
    (List.range path.parts.length).map fun n => { path with parts := path.parts.take (n + 1) }
  options.words.foldl (fun m name =>
    let refused (errno : Errno) : Machine :=
      (m.write true (ofText "mkdir: cannot create directory ‘" ++ name ++
        ofText s!"’: {errno.text}\n")).done 1
    if options.has 'p' then
      let m := (ancestors (pathOf name)).foldl (fun m path => (make m path).toOption.getD m) m
      if m.files.isDirectory m.cwd (pathOf name) then m
      else refused (if (m.node? name).isSome then .occupied else .notDirectory)
    else
      match make m (pathOf name) with
      | .ok m => m
      | .error errno => refused errno) (m.done 0)

def removeDirectories (m : Machine) (words : List (List Char)) : Machine :=
  (Options.ofArguments words).words.foldl (fun m name =>
    let refused (reason : String) : Machine :=
      (m.write true ("rmdir: failed to remove ".toList ++ quotedName name ++
        ofText s!": {reason}\n")).done 1
    match m.files.place false m.cwd (pathOf name) with
    | .error errno => refused errno.text
    | .ok ⟨_, none⟩ => refused Errno.noEntry.text
    | .ok ⟨parts, some (.directory _)⟩ =>
      if m.files.entries.any fun entry => parts.isPrefixOf entry.1 && entry.1 != parts then
        refused "Directory not empty"
      else { m with files := m.files.eraseTree parts }
    | .ok ⟨_, some _⟩ => refused Errno.notDirectory.text) (m.done 0)

def touch (m : Machine) (words : List (List Char)) : Machine :=
  (Options.ofArguments words).words.foldl (fun m name =>
    match m.files.place true m.cwd (pathOf name) with
    | .ok ⟨parts, some (.file content executable _)⟩ =>
      { m with
        files := m.files.put parts (.file content executable m.files.freshStamp) }
    | .ok ⟨_, some _⟩ => m
    | .ok ⟨parts, none⟩ =>
      { m with files := m.files.put parts (.file [] false m.files.freshStamp) }
    | .error errno =>
      (m.write true ("touch: cannot touch ".toList ++ quotedName name ++
        ofText s!": {errno.text}\n")).done 1) (m.done 0)

/-- Makes files executable, or no longer so. -/
def changeMode (m : Machine) (words : List (List Char)) : Machine :=
  let mode := words.headD []
  let executable (old : Bool) : Bool :=
    if mode.contains '+' then old || mode.contains 'x'
    else if mode.contains '-' then old && !mode.contains 'x'
    else mode.any fun c => c == '1' || c == '3' || c == '5' || c == '7'
  (words.drop 1).foldl (fun m name =>
    match m.files.place true m.cwd (pathOf name) with
    | .ok ⟨parts, some (.file content old stamp)⟩ =>
      { m with files := m.files.put parts (.file content (executable old) stamp) }
    | .ok ⟨_, some _⟩ => m
    | _ =>
      (m.write true ("chmod: cannot access ".toList ++ quotedName name ++
        ofText s!": {Errno.noEntry.text}\n")).done 1) (m.done 0)

def link (m : Machine) (words : List (List Char)) : Machine :=
  let options := Options.ofArguments words
  let source := options.words.headD []
  let target := destination m source (options.words.getLastD [])
  match m.files.place false m.cwd (pathOf target) with
  | .ok ⟨parts, none⟩ => { m.done 0 with files := m.files.put parts (.link (pathOf source)) }
  | .ok ⟨parts, some _⟩ =>
    if options.has 'f' then
      { m.done 0 with files := (m.files.eraseTree parts).put parts (.link (pathOf source)) }
    else
      (m.write true ("ln: failed to create symbolic link ".toList ++ quotedName target ++
        ofText s!": {Errno.occupied.text}\n")).done 1
  | .error errno =>
    (m.write true ("ln: failed to create symbolic link ".toList ++ quotedName target ++
      ofText s!": {errno.text}\n")).done 1

/-- Compares two files byte by byte. -/
def compare (m : Machine) (words : List (List Char)) : Machine :=
  let options := Options.ofArguments words
  let (m, read) := m.contents (·.refuse "cmp: ") options.words
  match read with
  | [(first, a), (second, b)] =>
    let same := (a.zip b).takeWhile fun (c, d) => c == d
    let say (m : Machine) (toErrors : Bool) (text : List Char) : Machine :=
      if options.has 's' then m.done 1 else (m.write toErrors text).done 1
    let ended := (same.map (·.1)).count '\n'
    if a == b then m.done 0
    else if same.length < min a.length b.length then
      say m false (first ++ ' ' :: second ++ ofText s!" differ: byte {same.length + 1}, line {ended + 1}\n")
    else
      let short := if a.length < b.length then first else second
      let line := if same.getLast?.any fun (c, _) => c == '\n' then
          s!", line {ended}"
        else s!", in line {ended + 1}"
      if same.isEmpty then
        say m true (ofText "cmp: EOF on " ++ short ++ ofText " which is empty\n")
      else
        say m true (ofText "cmp: EOF on " ++ short ++
          ofText s!" after byte {same.length}{line}\n")
  | _ => m.done 2

/-- Lists names: those of the files and then those in the directories. -/
def list (m : Machine) (words : List (List Char)) : Machine :=
  let options := Options.ofArguments words
  let names := if options.words.isEmpty then [['.']] else options.words
  let least (a b : List Char) : Bool := String.ofList a ≤ String.ofList b
  let inside (name : List Char) : Option (List (List Char)) :=
    match m.files.place true m.cwd (pathOf name) with
    | .ok ⟨parts, some (.directory _)⟩ =>
      let children := m.files.entries.filterMap fun (path, _) =>
        if path.dropLast == parts && !path.isEmpty then path.getLast?.map ofText else none
      let hidden := options.has 'a' || options.has 'A'
      let around := if options.has 'a' then [['.'], ['.', '.']] else []
      some (around ++
        (children.filter fun name => hidden || name.head? != some '.').mergeSort least)
    | _ => none
  let (missing, present) := names.partition fun name => (m.node? name).isNone
  let m := missing.foldl (fun m name =>
    (m.write true ("ls: cannot access ".toList ++ quotedName name ++
      ofText s!": {Errno.noEntry.text}\n")).done 2) (m.done 0)
  let (directories, files) := present.partition fun name =>
    !options.has 'd' && (inside name).isSome
  let title (name : List Char) : List Char :=
    if names.length > 1 then name ++ [':', '\n'] else []
  let blocks := directories.map fun name =>
    title name ++ ((inside name).getD []).flatMap (· ++ ['\n'])
  let first := (files.mergeSort least).flatMap (· ++ ['\n'])
  m.say ((((if files.isEmpty then [] else [first]) ++ blocks).intersperse ['\n']).flatten)

/-- The tools that every script may count on. -/
def tool? (name : String) : Option (Machine → List (List Char) → Machine) :=
  match name with
  | "true" | "sleep" | "sync" => some fun m _ => m.done 0
  | "false" => some fun m _ => m.done 1
  | "echo" => some echo
  | "printf" => some printf
  | "cat" => some fun m words =>
    let (m, text) := m.content "cat: " (Options.ofArguments words).words
    m.say text
  | "wc" => some wordCount
  | "head" => some head
  | "tail" => some tail
  | "sed" => some sed
  | "grep" => some grep
  | "tr" => some exchange
  | "sort" => some sort
  | "uniq" => some unique
  | "cut" => some cut
  | "tee" => some tee
  | "seq" => some sequence
  | "basename" => some basename
  | "dirname" => some dirname
  | "cp" => some fun m => moveAll m true
  | "mv" => some fun m => moveAll m false
  | "rm" => some remove
  | "mkdir" => some makeDirectories
  | "rmdir" => some removeDirectories
  | "touch" => some touch
  | "chmod" => some changeMode
  | "ln" => some link
  | "ls" => some list
  | "cmp" => some compare
  | "pwd" => some fun m _ => (m.say (m.value "PWD" ++ ['\n'])).done 0
  | _ => none

end ThemeSheet.Shell
