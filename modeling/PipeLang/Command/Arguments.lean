/-!
# The command line

`Invocation.ofArguments` reads the words of a command line : a command with a file, options,
or what is wrong with them. Options may stand before or behind the command, but none twice on
one side of it, and behind `--` every word is a file.
-/

namespace PipeLang

/-- What to do. -/
inductive Command where
  | run (path : String)
  | tokenize (path : String)
  | parse (path : String) (json : Bool)
  | prompt
  | version
  | help
deriving DecidableEq

/-- The file that a command reads. -/
def Command.path? : Command → Option String
  | run path => some path
  | tokenize path => some path
  | parse path _ => some path
  | _ => none

/-- What to do, and whether to keep a log. -/
structure Invocation where
  command : Command
  log : Bool
deriving DecidableEq

/-- What is wrong with a command line. -/
inductive UsageError where
  | emptyFile
  | missingFile
  | unknownCommand (word : String)
  | unexpected (word : String)
  | repeated (option : String)
deriving DecidableEq

/-- The text that shows a usage error. -/
def UsageError.text (e : UsageError) : String :=
  let reason :=
    match e with
    | emptyFile => "a value is required for '<FILENAME>' but none was supplied"
    | missingFile =>
      "the following required arguments were not provided:\n  <FILENAME>"
    | unknownCommand word => "unrecognized subcommand '" ++ word ++ "'"
    | unexpected word => "unexpected argument '" ++ word ++ "' found"
    | repeated option => "the argument '" ++ option ++ "' cannot be used multiple times"
  "error: " ++ reason ++ "\n\nFor more information, try '--help'.\n"

namespace Invocation

/-- Whether a word is an option : it starts with a dash and goes on. -/
def isOption (word : String) : Bool :=
  match word.toList with
  | '-' :: _ :: _ => true
  | _ => false

/-- Whether a word is an option by its long name, or starts with its letter behind one dash.
What follows the letter would be more options, and is never reached. -/
def asksFor (long : String) (letter : Char) (word : String) : Bool :=
  word = long ||
    match word.toList with
    | '-' :: c :: _ => c = letter
    | _ => false

/-- The word asks for the version. -/
def asksVersion (word : String) : Bool := asksFor "--version" 'V' word

/-- The word asks for help. -/
def asksHelp (word : String) : Bool := asksFor "--help" 'h' word

/-- What has been read behind a command. -/
structure Operands where
  file : Option String
  json : Bool
  log : Bool
  help : Bool

/-- Nothing has been read yet. -/
def Operands.empty : Operands := ⟨none, false, false, false⟩

/-- The words behind a command. `takesFile` and `takesJson` say what the command knows, and
`literal` that every word is a file, whatever it starts with. Asking for help ends the
reading. -/
def operands (takesFile takesJson literal : Bool) (o : Operands) :
    List String → Except UsageError Operands
  | [] => .ok o
  | word :: words =>
    if !literal && word = "--" then operands takesFile takesJson true o words
    else if !literal && asksHelp word then .ok { o with help := true }
    else if !literal && word = "--log" then
      if o.log then .error (.repeated word)
      else operands takesFile takesJson literal { o with log := true } words
    else if !literal && takesJson && word = "--json" then
      if o.json then .error (.repeated word)
      else operands takesFile takesJson literal { o with json := true } words
    else if !literal && isOption word then .error (.unexpected word)
    else if !takesFile || o.file.isSome then .error (.unexpected word)
    else if word.isEmpty then .error .emptyFile
    else operands takesFile takesJson literal { o with file := some word } words

/-- What a command and the words behind it come to : help, or the command itself. `log` tells
whether a log was asked for before the command. -/
def Operands.invocation (log : Bool) (command : Operands → Except UsageError Command)
    (o : Operands) : Except UsageError Invocation :=
  if o.help then .ok ⟨.help, false⟩ else (command o).map (⟨·, log || o.log⟩)

/-- A command on the file that was read. -/
def Operands.fileCommand (command : String → Command) (o : Operands) :
    Except UsageError Command :=
  match o.file with
  | some path => .ok (command path)
  | none => .error .missingFile

/-- The command line from some word before the command on; `log` tells whether that option
came before. -/
def ofWords (log : Bool) : List String → Except UsageError Invocation
  | [] => .ok ⟨.prompt, log⟩
  | ["--"] => .ok ⟨.prompt, log⟩
  | "--" :: word :: _ => .error (.unexpected word)
  | "--log" :: words => if log then .error (.repeated "--log") else ofWords true words
  | "help" :: _ => .ok ⟨.help, false⟩
  | "run" :: words => do
    (← operands true false false .empty words).invocation log fun o => o.fileCommand .run
  | "tokenize" :: words => do
    (← operands true false false .empty words).invocation log fun o => o.fileCommand .tokenize
  | "parse" :: words => do
    (← operands true true false .empty words).invocation log fun o =>
      o.fileCommand (.parse · o.json)
  | "repl" :: words => do
    (← operands false false false .empty words).invocation log fun _ => .ok .prompt
  | word :: _ =>
    if asksVersion word then .ok ⟨.version, false⟩
    else if asksHelp word then .ok ⟨.help, false⟩
    else if isOption word then .error (.unexpected word)
    else .error (.unknownCommand word)

/-- The command line. -/
def ofArguments (words : List String) : Except UsageError Invocation := ofWords false words

end Invocation

end PipeLang
