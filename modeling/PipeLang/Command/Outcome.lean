import PipeLang.Command.Arguments
import PipeLang.Command.Files
import PipeLang.Prompt
import PipeLang.Syntax.Dump
import PipeLang.Syntax.Sexpr

/-!
# What a command answers

Each command turns a source text, or the lines of standard input, into an `Outcome` : an
exit code and what goes to the two output streams. A file is refused by its extension before
it is read.

The codes : `0` for success, `1` for a file that cannot be read or a program that fails,
`2` for a command line that makes no sense, `65` for a text that is no program.
-/

namespace PipeLang

/-- An exit code and the two output streams. -/
structure Outcome where
  code : Nat
  stdout : ByteArray
  stderr : ByteArray

namespace Outcome

/-- Success with a text. -/
def success (text : String) : Outcome := ⟨0, text.toUTF8, .empty⟩

/-- Failure with a line of explanation. -/
def failure (code : Nat) (line : String) : Outcome := ⟨code, .empty, (line ++ "\n").toUTF8⟩

end Outcome

/-- The code for a text that is no program. -/
def malformed : Nat := 65

/-! ## Commands on a source text -/

/-- Lines, each with a newline behind it. -/
def unlines (lines : List String) : String := String.join (lines.map (· ++ "\n"))

/-- The listing line of an item that is a token. -/
def Item.listing? : Item → Option String
  | .token t => some t.listing
  | .error _ => none

/-- The diagnostic of an item that is an error. -/
def Item.diagnostic? : Item → Option Diagnostic
  | .token _ => none
  | .error e => some e.diagnostic

/-- List every token, and every error beside. -/
def tokenizeSource (source : String) : Outcome :=
  let listing := (items source).filterMap Item.listing?
  let errors := (items source).filterMap Item.diagnostic?
  ⟨if errors.isEmpty then 0 else malformed, (unlines listing).toUTF8,
    (unlines (errors.map Diagnostic.render)).toUTF8⟩

/-- Show the program, as JSON or as prefix expressions. -/
def parseSource (json : Bool) (source : String) : Outcome :=
  match Program.ofSource source with
  | .error d => .failure malformed d.render
  | .ok p => .success ((if json then p.json.pretty else p.sexpr) ++ "\n")

/-- Run the program in a batch session. -/
def runSource (source : String) : Outcome :=
  let (status, s) := (Session.new .batch .unlimited .unlimited).run source
  let code :=
    match status with
    | .proceed => 0
    | .halt code => code
  ⟨code, s.interpreter.out.written, s.diagnostics.written⟩

/-! ## Commands on a file -/

/-- The extension of source files. -/
def sourceExtension : String := "mad"

/-- The text of a source file, or why there is none. `read` answers for the file system. -/
def readSource (read : String → Except FileError ByteArray) (path : String) :
    Except String String :=
  if Path.extension? path ≠ some sourceExtension then
    .error ("Wrong file extension. Expected '." ++ sourceExtension ++ "'")
  else
    match (do FileError.decode (← read path)) with
    | .ok source => .ok source
    | .error e => .error ("Failed to read file " ++ path ++ ": " ++ e.text)

/-- A command on the text of a file. -/
def onFile (read : String → Except FileError ByteArray) (path : String)
    (command : String → Outcome) : Outcome :=
  match readSource read path with
  | .ok source => command source
  | .error line => .failure 1 line

/-! ## Standard input -/

/-- Why the prompt ends early when a line is no text. -/
def unreadableLine : String := "Failed to read input: " ++ FileError.notText.text

/-- A line without its end : a newline, and before it one carriage return. -/
def chomp (line : List UInt8) : List UInt8 :=
  match line.reverse with
  | 10 :: 13 :: rest => rest.reverse
  | 10 :: rest => rest.reverse
  | _ => line

/-- The lines of an input with their ends. `line` holds the bytes read since the last one,
in reverse. -/
def splitLines (line : List UInt8) : List UInt8 → List (List UInt8)
  | [] => if line.isEmpty then [] else [line.reverse]
  | b :: bytes =>
    if b = 10 then (b :: line).reverse :: splitLines [] bytes
    else splitLines (b :: line) bytes

/-- A line of standard input as a text. -/
def lineText? (line : List UInt8) : Option String :=
  String.fromUTF8? ⟨(chomp line).toArray⟩

/-- The prompt after a line of standard input, and whether it goes on. A line that is no text
ends it, with an explanation. -/
def Prompt.feedBytes (p : Prompt) (line : List UInt8) : Status × Prompt :=
  match lineText? line with
  | some text =>
    match p.feed text with
    | some q => (.proceed, q)
    | none => (.halt 0, p)
  | none =>
    let s := p.session
    (.halt 1, { p with session :=
      { s with diagnostics := s.diagnostics.write (unreadableLine ++ "\n").toUTF8 } })

/-- Feed lines to a prompt until it is left or the lines end. -/
def Prompt.feedAll (p : Prompt) : List (List UInt8) → Nat × Prompt
  | [] => (0, p)
  | line :: lines =>
    match p.feedBytes line with
    | (.proceed, q) => q.feedAll lines
    | (.halt code, q) => (code, q)

/-- The prompt on a whole standard input. -/
def promptInput (stdin : ByteArray) : Outcome :=
  let (code, p) :=
    (Prompt.new .unlimited .unlimited).feedAll (splitLines [] stdin.data.toList)
  ⟨code, p.session.interpreter.out.written, p.session.diagnostics.written⟩

/-! ## The whole -/

/-- The name and version of the program. -/
def versionLine : String := "mad-interpreter 0.1.0"

/-- The commands in brief. -/
def helpText : String :=
  unlines
    ["Usage: mad [--log] [COMMAND]", "",
      "Commands:",
      "  run FILE            run a program; the first error stops it",
      "  tokenize FILE       list the tokens of a program",
      "  parse FILE [--json] show the syntax tree of a program",
      "  repl                start the prompt (also without a command)", "",
      "Options:",
      "      --log      write a log to app.log",
      "  -h, --help     show this text",
      "  -V, --version  show the version"]

/-- What a command answers to the files and the standard input it finds. -/
def Command.outcome (read : String → Except FileError ByteArray) (stdin : ByteArray) :
    Command → Outcome
  | run path => onFile read path runSource
  | tokenize path => onFile read path tokenizeSource
  | parse path json => onFile read path (parseSource json)
  | prompt => promptInput stdin
  | version => .success (versionLine ++ "\n")
  | help => .success helpText

/-- The name of the log file. -/
def logFile : String := "app.log"

/-- The line that says that there will be no log. -/
def logFailure (e : FileError) : String := "Failed to create " ++ logFile ++ ": " ++ e.text

/-- What a new log holds. -/
def logOpening : ByteArray := "started\n".toUTF8

/-- What a command line answers in a directory of files, and the directory that it leaves. A
log is started before the command looks at any file, and without one the command runs all the
same. -/
def commandLine (tree : FileTree) (stdin : ByteArray) (words : List String) :
    Outcome × FileTree :=
  match Invocation.ofArguments words with
  | .error e => (⟨2, .empty, e.text.toUTF8⟩, tree)
  | .ok i =>
    if !i.log then (i.command.outcome tree.read stdin, tree)
    else
      match tree.create logFile logOpening with
      | .ok tree => (i.command.outcome tree.read stdin, tree)
      | .error e =>
        let o := i.command.outcome tree.read stdin
        ({ o with stderr := (logFailure e ++ "\n").toUTF8 ++ o.stderr }, tree)

end PipeLang
