import PipeLang.Main
import PipeLang.Proofs.Syntax.Writing
import PipeLang.Proofs.Syntax.Grammar
import PipeLang.Proofs.Interpreter.Locality
import PipeLang.Proofs.Interpreter.Permanence
import PipeLang.Proofs.Session.Isolation
import PipeLang.Proofs.Session.Joining
import PipeLang.Proofs.Session.Transcript
import PipeLang.Proofs.Interpreter.Truncation
import PipeLang.Proofs.Token.Lexeme
import PipeLang.Proofs.Token.Tiling
import PipeLang.Proofs.Interpreter.Shape
import PipeLang.Proofs.Session.Shape
import PipeLang.Proofs.Prompt.Unfinished
import PipeLang.Proofs.Prompt.Segments
import PipeLang.Proofs.Session.Rejection
import PipeLang.Proofs.Interpreter.WellFormed
import PipeLang.Proofs.Session.Locations
import PipeLang.Proofs.Interpreter.Pipes
import PipeLang.Proofs.Interpreter.Cutoff
import PipeLang.Proofs.Interpreter.TopLevel
import PipeLang.Proofs.Syntax.Blame
import PipeLang.Proofs.Syntax.Concatenation
import PipeLang.Proofs.Syntax.Cursor
import PipeLang.Proofs.Token.Lines
import PipeLang.Proofs.Token.Spacing
import PipeLang.Proofs.Store.Resolution
import PipeLang.Proofs.Syntax.Dump
import PipeLang.Proofs.Session.Sexpr
import PipeLang.Proofs.Command.Agreement
