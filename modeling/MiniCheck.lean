import MiniCheck.FileTree
import MiniCheck.Main
import MiniCheck.Proofs.Grammar.Concatenation
import MiniCheck.Proofs.Grammar.Counting
import MiniCheck.Proofs.Grammar.Height
import MiniCheck.Proofs.Grammar.MissingTokens
import MiniCheck.Proofs.Grammar.ProgramWriting
import MiniCheck.Proofs.Grammar.Progress
import MiniCheck.Proofs.Grammar.Resuming
import MiniCheck.Proofs.Grammar.SyntaxErrors
import MiniCheck.Proofs.Session.Agreement
import MiniCheck.Proofs.Session.Layout
import MiniCheck.Proofs.Session.Truncation
import MiniCheck.Proofs.Token.Matching
import MiniCheck.Proofs.Token.Spacing
import MiniCheck.Proofs.Token.Tokenizing
import MiniCheck.Proofs.Tree.Sketches
import MiniCheck.Proofs.Typing.Appending
import MiniCheck.Proofs.Typing.Bodies
import MiniCheck.Proofs.Typing.FirstDeclarations
import MiniCheck.Proofs.Typing.Inertness
import MiniCheck.Proofs.Typing.Justification
import MiniCheck.Proofs.Typing.MissingDeclarations
import MiniCheck.Proofs.Typing.Pointing
import MiniCheck.Proofs.Typing.ProgramTyping
import MiniCheck.Proofs.Typing.Reports
import MiniCheck.Proofs.Typing.Swapping
import MiniCheck.Proofs.Typing.TableRuns
