import PipeLang.Command.Outcome

/-!
# The program

The outer layer : arguments, files and the three standard streams. What is read goes to
`Command.outcome` or, line by line, to a prompt; what they answer is written out.
-/

namespace PipeLang

/-- The error of the file system that stands behind an exception. Its number may come with
its sign turned, in 32 bits. -/
def FileError.ofException : IO.Error → FileError
  | .noFileOrDirectory .. => .notFound
  | .inappropriateType _ code _ =>
    if code = 21 || code = 4294967275 then .isDirectory else .notDirectory
  | .invalidArgument path code details =>
    if code = 36 || code = 4294967260 then .nameTooLong
    else .other (toString (IO.Error.invalidArgument path code details))
  | e => .other (toString e)

/-- The bytes of a file of the file system. -/
def readFile (path : String) : IO (Except FileError ByteArray) := do
  try
    return .ok (← IO.FS.readBinFile path)
  catch e => return .error (.ofException e)

/-- Start a log. A file that cannot be created is reported, and nothing else changes. -/
def startLog : IO Unit := do
  try
    IO.FS.writeBinFile logFile logOpening
  catch e => IO.eprintln (logFailure (.ofException e))

/-- Write bytes at once. -/
def put (s : IO.FS.Stream) (bytes : ByteArray) : IO Unit := do
  s.write bytes
  s.flush

/-- Write the two streams of an answer. -/
def emit (o : Outcome) : IO UInt32 := do
  put (← IO.getStdout) o.stdout
  put (← IO.getStderr) o.stderr
  return o.code.toUInt32

/-- Bytes up to and with the next newline, or up to the end of the input. -/
partial def readLine (s : IO.FS.Stream) (line : ByteArray) : IO ByteArray := do
  let b ← s.read 1
  if b.isEmpty then return line
  if b.data.contains 10 then return line ++ b
  readLine s (line ++ b)

/-- Write out what a prompt has gathered. -/
def Prompt.emit (p : Prompt) : IO Prompt := do
  let (out, interpreter) := p.session.interpreter.out.drain
  let (diagnostics, kept) := p.session.diagnostics.drain
  put (← IO.getStdout) out
  put (← IO.getStderr) diagnostics
  return { p with session :=
    { p.session with
      interpreter := { p.session.interpreter with out := interpreter }, diagnostics := kept } }

/-- Feed the lines of standard input to a prompt, and answer each at once. -/
partial def serve (p : Prompt) : IO UInt32 := do
  let line ← readLine (← IO.getStdin) .empty
  if line.isEmpty then return 0
  let (next, p) := p.feedBytes line.data.toList
  let p ← p.emit
  match next with
  | .proceed => serve p
  | .halt code => return code.toUInt32

/-- Carry out a command. -/
def Command.perform : Command → IO UInt32
  | prompt => serve (.new .unlimited .unlimited)
  | c => do
    let found ← (c.path?.map readFile).getD (pure (.error .notFound))
    emit (c.outcome (fun _ => found) .empty)

/-- Carry out a command line. -/
def performWords (words : List String) : IO UInt32 := do
  match Invocation.ofArguments words with
  | .error e => emit ⟨2, .empty, e.text.toUTF8⟩
  | .ok i =>
    if i.log then startLog
    i.command.perform

end PipeLang

/-- The arguments are one command line, and its code is the exit code. -/
def main (words : List String) : IO UInt32 := PipeLang.performWords words
