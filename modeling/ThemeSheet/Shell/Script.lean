namespace ThemeSheet.Shell

inductive RedirectKind
  | read
  | write
  | append
  /-- The text itself is what is read. -/
  | document
  /-- The word names another open file. -/
  | duplicate
deriving DecidableEq, Repr

/-- How a parameter's value is changed where it is used. -/
inductive Change
  | default (ifEmpty : Bool)
  | assign (ifEmpty : Bool)
  | alternative (ifEmpty : Bool)
  | dropFront (longest : Bool)
  | dropBack (longest : Bool)
deriving DecidableEq, Repr

/-- Whether the word of a change is a pattern, in which quotes around the braces do not count. -/
def Change.takesPattern : Change → Bool
  | dropFront _ => true
  | dropBack _ => true
  | _ => false

mutual

/-- A part of a word. What is quoted makes no fields of its own and is no pattern. -/
inductive Part
  | literal (text : List Char) (quoted : Bool)
  | variable (name : String) (quoted : Bool)
  | size (name : String)
  | changed (name : String) (change : Change) (word : List Part) (quoted : Bool)
  | arguments (joined quoted : Bool)
  | output (body : List Command) (quoted : Bool)
  | arithmetic (expression : List Part)

inductive Command
  | simple (line : Nat) (assignments : List (String × List Part)) (words : List (List Part))
  | pipe (first second : Command)
  | both (first second : Command)
  | either (first second : Command)
  | negate (command : Command)
  | each (name : String) (words : Option (List (List Part))) (body : List Command)
  | choose (condition body otherwise : List Command)
  | loop (untilDone : Bool) (condition body : List Command)
  | select (word : List Part) (cases : List (List (List Part) × List Command))
  | group (body : List Command)
  | apart (body : List Command)
  | define (name : String) (body : Command)
  /-- Opens files by their numbers for a command. -/
  | redirected (line : Nat) (command : Command) (opened : List (Nat × RedirectKind × List Part))

end

namespace Script

def isBlank (c : Char) : Bool :=
  c == ' ' || c == '\t'

def endsWord (c : Char) : Bool :=
  isBlank c || c == '\n' || c == ';' || c == '&' || c == '|' || c == '<' || c == '>' ||
    c == '(' || c == ')'

def isNameChar (c : Char) : Bool :=
  c.isAlphanum || c == '_'

/-- Drops blanks, continued lines and a comment. -/
def skipBlanks : List Char → List Char
  | ' ' :: rest => skipBlanks rest
  | '\t' :: rest => skipBlanks rest
  | '\\' :: '\n' :: rest => skipBlanks rest
  | '#' :: rest => rest.dropWhile (· != '\n')
  | rest => rest

/-- Drops all that may stand between commands. -/
def skipLines : (fuel : Nat) → List Char → List Char
  | 0, text => text
  | fuel + 1, text =>
    match skipBlanks text with
    | '\n' :: rest => skipLines fuel rest
    | ';' :: ';' :: rest => ';' :: ';' :: rest
    | ';' :: rest => skipLines fuel rest
    | '&' :: '&' :: rest => '&' :: '&' :: rest
    | '&' :: rest => skipLines fuel rest
    | rest => rest

/-- What follows a reserved word. -/
def afterReserved? (word : String) (text : List Char) : Option (List Char) :=
  (word.toList.isPrefixOf? text).filter fun rest => rest.head?.all endsWord

def afterReserved (word : String) (text : List Char) : List Char :=
  (afterReserved? word text).getD text

/-- The words that end a list of commands. -/
def enders : List String := ["done", "then", "elif", "else", "fi", "do", "esac", "\x7d"]

def endsCommands (text : List Char) : Bool :=
  match text with
  | [] => true
  | ')' :: _ => true
  | ';' :: ';' :: _ => true
  | _ => enders.any fun word => (afterReserved? word text).isSome

/-- A name, or one of the special parameters, at the front. -/
def parameterName (text : List Char) : List Char :=
  match text with
  | [] => []
  | c :: _ =>
    if "@*#?$!-".contains c || c.isDigit then [c] else text.takeWhile isNameChar

/-- The change that a parameter's braces ask for, before its word. -/
def change? (text : List Char) : Option (Change × List Char) :=
  match text with
  | ':' :: '-' :: rest => some (.default true, rest)
  | ':' :: '=' :: rest => some (.assign true, rest)
  | ':' :: '+' :: rest => some (.alternative true, rest)
  | '-' :: rest => some (.default false, rest)
  | '=' :: rest => some (.assign false, rest)
  | '+' :: rest => some (.alternative false, rest)
  | '#' :: '#' :: rest => some (.dropFront true, rest)
  | '#' :: rest => some (.dropFront false, rest)
  | '%' :: '%' :: rest => some (.dropBack true, rest)
  | '%' :: rest => some (.dropBack false, rest)
  | _ => none

/-- The text of an arithmetic expression up to its two closing parentheses. -/
def spanArithmetic (depth : Nat) : List Char → List Char × List Char
  | [] => ([], [])
  | '(' :: rest =>
    let (inner, rest) := spanArithmetic (depth + 1) rest
    ('(' :: inner, rest)
  | ')' :: rest =>
    if depth = 0 then ([], rest.drop 1)
    else
      let (inner, rest) := spanArithmetic (depth - 1) rest
      (')' :: inner, rest)
  | c :: rest =>
    let (inner, rest) := spanArithmetic depth rest
    (c :: inner, rest)

/-- The script between backticks. -/
def spanBackticks : List Char → List Char × List Char
  | [] => ([], [])
  | '\x60' :: rest => ([], rest)
  | '\\' :: c :: rest =>
    let (inner, rest) := spanBackticks rest
    (if c = '\x60' ∨ c = '\\' ∨ c = '$' then (c :: inner, rest) else ('\\' :: c :: inner, rest))
  | c :: rest =>
    let (inner, rest) := spanBackticks rest
    (c :: inner, rest)

/-- The number of a file, the kind of a redirection and whether a document's tabs are dropped. -/
def redirect? (text : List Char) : Option (Nat × RedirectKind × Bool × List Char) :=
  let operator? (text : List Char) : Option (Nat × RedirectKind × Bool × List Char) :=
    match text with
    | '>' :: '>' :: rest => some (1, .append, false, rest)
    | '>' :: '&' :: rest => some (1, .duplicate, false, rest)
    | '>' :: '|' :: rest => some (1, .write, false, rest)
    | '>' :: rest => some (1, .write, false, rest)
    | '<' :: '<' :: '-' :: rest => some (0, .document, true, rest)
    | '<' :: '<' :: rest => some (0, .document, false, rest)
    | '<' :: '&' :: rest => some (0, .duplicate, false, rest)
    | '<' :: rest => some (0, .read, false, rest)
    | _ => none
  match text with
  | c :: rest =>
    if c.isDigit then
      (operator? rest).map fun (_, found) => (c.toNat - '0'.toNat, found)
    else operator? text
  | [] => none

/-- The name that an assignment sets, and its value's text. -/
def assignment? (text : List Char) : Option (String × List Char) :=
  let name := text.takeWhile isNameChar
  match text.drop name.length with
  | '=' :: rest =>
    if name.isEmpty || name.head?.any Char.isDigit then none else some (String.ofList name, rest)
  | _ => none

/-- The name of a function that is defined here, and what follows its parentheses. -/
def definition? (text : List Char) : Option (String × List Char) :=
  let name := text.takeWhile isNameChar
  match skipBlanks (text.drop name.length) with
  | '(' :: rest =>
    match skipBlanks rest with
    | ')' :: rest => if name.isEmpty then none else some (String.ofList name, rest)
    | _ => none
  | _ => none

/-- The lines up to the one that ends a document, and the lines after that. -/
def spanDocument (fuel : Nat) (dropTabs : Bool) (stop text : List Char) : List Char × List Char :=
  match fuel with
  | 0 => ([], text)
  | fuel + 1 =>
    let whole := text.takeWhile (· != '\n')
    let line := if dropTabs then whole.dropWhile (· == '\t') else whole
    let rest := text.drop (whole.length + 1)
    if line == stop || text.isEmpty then ([], rest)
    else
      let (body, rest) := spanDocument fuel dropTabs stop rest
      (line ++ '\n' :: body, rest)

/-- Where a word is read: bare, between double quotes, in a document or in a parameter's braces. -/
inductive Mode
  | bare
  | quoted
  | document
  | braced (inQuotes : Bool)

def Mode.isQuoted : Mode → Bool
  | bare => false
  | braced inQuotes => inQuotes
  | _ => true

/-- What is left of the text where a character ends the mode. -/
def Mode.ended? (mode : Mode) (c : Char) (rest : List Char) : Option (List Char) :=
  match mode with
  | bare => if endsWord c then some (c :: rest) else none
  | quoted => if c = '"' then some rest else none
  | document => none
  | braced _ => if c = '\x7d' then some rest else none

/-- The number of the line at which a rest of a script begins. -/
def lineOf (lines : Nat) (rest : List Char) : Nat :=
  lines + 1 - rest.count '\n'

mutual

/-- The parts up to where the mode ends. `lines` counts the line feeds of the whole script. -/
def parts (lines fuel : Nat) (mode : Mode) (text : List Char) : List Part × List Char :=
  match fuel with
  | 0 => ([], text)
  | fuel + 1 =>
    match text with
    | [] => ([], [])
    | c :: rest =>
      match mode.ended? c rest with
      | some rest => ([], rest)
      | none =>
        let quotes := match mode with
          | .document => false
          | mode => !mode.isQuoted
        let follow (first : List Part) (rest : List Char) : List Part × List Char :=
          let (more, rest) := parts lines fuel mode rest
          (first ++ more, rest)
        if quotes && c == '"' then
          let (inner, rest) := parts lines fuel .quoted rest
          follow (.literal [] true :: inner) rest
        else if quotes && c == '\'' then
          let inner := rest.takeWhile (· != '\'')
          follow [.literal inner true] (rest.drop (inner.length + 1))
        else if c == '$' then
          let (part, rest) := dollar lines fuel mode.isQuoted rest
          follow [part] rest
        else if c == '\x60' then
          let (inner, rest) := spanBackticks rest
          let (body, _) := commands (inner.count '\n') fuel inner
          follow [.output body mode.isQuoted] rest
        else if c == '\\' then
          match rest with
          | [] => ([.literal ['\\'] true], [])
          | '\n' :: rest => follow [] rest
          | d :: rest =>
            let special := match mode with
              | .document => "\\$\x60".contains d
              | mode => !mode.isQuoted || "\"\\$\x60".contains d
            follow [.literal (if special then [d] else ['\\', d]) true] rest
        else follow [.literal [c] mode.isQuoted] rest

/-- What a dollar sign begins. -/
def dollar (lines fuel : Nat) (quoted : Bool) (text : List Char) : Part × List Char :=
  match fuel with
  | 0 => (.literal ['$'] quoted, text)
  | fuel + 1 =>
    match text with
    | '(' :: '(' :: rest =>
      let (inner, rest) := spanArithmetic 0 rest
      let (expression, _) := parts lines fuel .document inner
      (.arithmetic expression, rest)
    | '(' :: rest =>
      let (body, rest) := commands lines fuel rest
      (.output body quoted, rest.drop 1)
    | '\x7b' :: '#' :: rest =>
      let name := parameterName rest
      if name.isEmpty || rest.head? == some '-' then
        (.variable "#" quoted, (rest.dropWhile (· != '\x7d')).drop 1)
      else (.size (String.ofList name), (rest.dropWhile (· != '\x7d')).drop 1)
    | '\x7b' :: rest =>
      let digits := rest.takeWhile Char.isDigit
      let name := if digits.isEmpty then parameterName rest else digits
      let rest := rest.drop name.length
      match change? rest with
      | some (change, rest) =>
        let (word, rest) := parts lines fuel (.braced (quoted && !change.takesPattern)) rest
        (.changed (String.ofList name) change word quoted, rest)
      | none =>
        let rest := (rest.dropWhile (· != '\x7d')).drop 1
        if name == ['@'] || name == ['*'] then (.arguments (name == ['*']) quoted, rest)
        else (.variable (String.ofList name) quoted, rest)
    | '@' :: rest => (.arguments false quoted, rest)
    | '*' :: rest => (.arguments true quoted, rest)
    | rest =>
      let name := parameterName rest
      if name.isEmpty then (.literal ['$'] quoted, rest)
      else (.variable (String.ofList name) quoted, rest.drop name.length)

/-- The assignments, words and redirections of a simple command. Assignments stand first. -/
def items (lines fuel : Nat) (front : Bool) (text : List Char) :
    List (String × List Part) × List (List Part) × List (Nat × RedirectKind × List Part) ×
      List Char :=
  match fuel with
  | 0 => ([], [], [], text)
  | fuel + 1 =>
    let text := skipBlanks text
    match redirect? text with
    | some (number, .document, dropTabs, rest) =>
      let rest := skipBlanks rest
      let word := rest.takeWhile (!endsWord ·)
      let stop := word.filter fun c => c != '\'' && c != '"' && c != '\\'
      let rest := rest.drop word.length
      let line := rest.takeWhile (· != '\n')
      let (body, after) := spanDocument rest.length dropTabs stop (rest.drop (line.length + 1))
      let document := if stop.length = word.length then (parts lines fuel .document body).1
        else [.literal body true]
      let (assignments, words, opened, rest) := items lines fuel front (line ++ '\n' :: after)
      (assignments, words, (number, .document, document) :: opened, rest)
    | some (number, kind, _, rest) =>
      let (word, rest) := parts lines fuel .bare (skipBlanks rest)
      let (assignments, words, opened, rest) := items lines fuel front rest
      (assignments, words, (number, kind, word) :: opened, rest)
    | none =>
      if text.head?.all endsWord then ([], [], [], text)
      else
        match if front then assignment? text else none with
        | some (name, rest) =>
          let (word, rest) := parts lines fuel .bare rest
          let (assignments, words, opened, rest) := items lines fuel true rest
          ((name, word) :: assignments, words, opened, rest)
        | none =>
          let (word, rest) := parts lines fuel .bare text
          let (assignments, words, opened, rest) := items lines fuel false rest
          (assignments, word :: words, opened, rest)

/-- The redirections after a command that has them outside. -/
def opened (lines fuel : Nat) (command : Command) (text : List Char) : Command × List Char :=
  match fuel with
  | 0 => (command, text)
  | fuel + 1 =>
    if (redirect? (skipBlanks text)).isSome then
      let (_, _, opened, rest) := items lines fuel false text
      (.redirected (lineOf lines text) command opened, rest)
    else (command, text)

/-- The branches of a condition, after the word that begins it. -/
def branches (lines fuel : Nat) (text : List Char) : Command × List Char :=
  match fuel with
  | 0 => (.group [], [])
  | fuel + 1 =>
    let (condition, rest) := commands lines fuel text
    let (body, rest) := commands lines fuel (afterReserved "then" rest)
    match afterReserved? "elif" rest, afterReserved? "else" rest with
    | some rest, _ =>
      let (otherwise, rest) := branches lines fuel rest
      (.choose condition body [otherwise], rest)
    | none, some rest =>
      let (otherwise, rest) := commands lines fuel rest
      (.choose condition body otherwise, afterReserved "fi" rest)
    | none, none => (.choose condition body [], afterReserved "fi" rest)

/-- The patterns of one case, up to the parenthesis. -/
def patterns (lines fuel : Nat) (text : List Char) : List (List Part) × List Char :=
  match fuel with
  | 0 => ([], [])
  | fuel + 1 =>
    let (pattern, rest) := parts lines fuel .bare (skipBlanks text)
    match skipBlanks rest with
    | '|' :: rest =>
      let (more, rest) := patterns lines fuel rest
      (pattern :: more, rest)
    | rest => ([pattern], rest.drop 1)

def cases (lines fuel : Nat) (text : List Char) :
    List (List (List Part) × List Command) × List Char :=
  match fuel with
  | 0 => ([], [])
  | fuel + 1 =>
    let text := skipLines fuel text
    match afterReserved? "esac" text with
    | some rest => ([], rest)
    | none =>
      if text.isEmpty then ([], [])
      else
        let text := if text.head? == some '(' then text.drop 1 else text
        let (patterns, rest) := patterns lines fuel text
        let (body, rest) := commands lines fuel rest
        let rest := match rest with
          | ';' :: ';' :: rest => rest
          | rest => rest
        let (more, rest) := cases lines fuel rest
        ((patterns, body) :: more, rest)

/-- A command with nothing joined to it. -/
def single (lines fuel : Nat) (text : List Char) : Command × List Char :=
  match fuel with
  | 0 => (.group [], [])
  | fuel + 1 =>
    let text := skipBlanks text
    let body (text : List Char) : List Command × List Char :=
      let (body, rest) := commands lines fuel (afterReserved "do" (skipLines fuel text))
      (body, afterReserved "done" rest)
    let keyword := String.ofList (text.takeWhile (!endsWord ·))
    let rest := text.drop keyword.length
    let outside (command : Command × List Char) : Command × List Char :=
      opened lines fuel command.1 command.2
    match keyword with
    | "for" =>
      let rest := skipBlanks rest
      let name := rest.takeWhile isNameChar
      let rest := skipLines fuel (rest.drop name.length)
      let (words, rest) := match afterReserved? "in" rest with
        | some rest =>
          let (_, words, _, rest) := items lines fuel false rest
          (some words, rest)
        | none => (none, rest)
      let (body, rest) := body rest
      outside (.each (String.ofList name) words body, rest)
    | "if" => outside (branches lines fuel rest)
    | "while" | "until" =>
      let (condition, rest) := commands lines fuel rest
      let (body, rest) := body rest
      outside (.loop (keyword == "until") condition body, rest)
    | "case" =>
      let (word, rest) := parts lines fuel .bare (skipBlanks rest)
      let (cases, rest) := cases lines fuel (afterReserved "in" (skipLines fuel rest))
      outside (.select word cases, rest)
    | "\x7b" =>
      let (body, rest) := commands lines fuel rest
      outside (.group body, afterReserved "\x7d" rest)
    | "" =>
      match text with
      | '(' :: rest =>
        let (body, rest) := commands lines fuel rest
        outside (.apart body, rest.drop 1)
      | text => simple lines fuel text
    | _ =>
      match definition? text with
      | some (name, rest) =>
        let (body, rest) := single lines fuel (skipLines fuel rest)
        (.define name body, rest)
      | none => simple lines fuel text

def simple (lines fuel : Nat) (text : List Char) : Command × List Char :=
  match fuel with
  | 0 => (.group [], [])
  | fuel + 1 =>
    let line := lineOf lines text
    let (assignments, words, opened, rest) := items lines fuel true text
    let command := Command.simple line assignments words
    -- What cannot begin a command is passed over.
    let rest := if rest.length < text.length then rest else rest.drop 1
    (if opened.isEmpty then command else .redirected line command opened, rest)

/-- Commands joined by pipes. -/
def pipeline (lines fuel : Nat) (text : List Char) : Command × List Char :=
  match fuel with
  | 0 => (.group [], [])
  | fuel + 1 =>
    match afterReserved? "!" (skipBlanks text) with
    | some rest =>
      let (command, rest) := pipeline lines fuel rest
      (.negate command, rest)
    | none =>
      let (first, rest) := single lines fuel text
      match skipBlanks rest with
      | '|' :: '|' :: rest => (first, '|' :: '|' :: rest)
      | '|' :: rest =>
        let (second, rest) := pipeline lines fuel (skipLines fuel rest)
        (.pipe first second, rest)
      | rest => (first, rest)

/-- Pipelines joined by their outcome, from left to right. -/
def joined (lines fuel : Nat) (first : Command) (text : List Char) : Command × List Char :=
  match fuel with
  | 0 => (first, [])
  | fuel + 1 =>
    match skipBlanks text with
    | '&' :: '&' :: rest =>
      let (second, rest) := pipeline lines fuel (skipLines fuel rest)
      joined lines fuel (.both first second) rest
    | '|' :: '|' :: rest =>
      let (second, rest) := pipeline lines fuel (skipLines fuel rest)
      joined lines fuel (.either first second) rest
    | rest => (first, rest)

/-- The commands up to something that ends them. -/
def commands (lines fuel : Nat) (text : List Char) : List Command × List Char :=
  match fuel with
  | 0 => ([], [])
  | fuel + 1 =>
    let text := skipLines fuel text
    if endsCommands text then ([], text)
    else
      let (first, rest) := pipeline lines fuel text
      let (command, rest) := joined lines fuel first rest
      let (more, rest) := commands lines fuel rest
      (command :: more, rest)

end

/-- Reads a script. Each call spends fuel, and the text bounds the calls that nest. -/
def parse (text : List Char) : List Command :=
  (commands (text.count '\n') (8 * text.length + 16) text).1

end Script
end ThemeSheet.Shell
