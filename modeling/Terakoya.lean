import Terakoya.Source.Scanner
import Terakoya.Diagnostic.Json
import Terakoya.Machine.Bench
import Terakoya.Interpreter
import Terakoya.Emit.Dialect
import Terakoya.Seed.Read
import Terakoya.Session.Completion
import Terakoya.Session.Dialogue
import Terakoya.Settings.Load
import Terakoya.Command.Dispatch
import Terakoya.Main
import Terakoya.Proofs.Bindings
import Terakoya.Proofs.Sharing
import Terakoya.Proofs.Accord
import Terakoya.Proofs.Scope
import Terakoya.Proofs.Safety
import Terakoya.Proofs.Layout
import Terakoya.Proofs.Lexemes
import Terakoya.Proofs.Reading
import Terakoya.Proofs.WrittenExpressions
import Terakoya.Proofs.WrittenPrograms
import Terakoya.Proofs.Passage
import Terakoya.Proofs.Spans
import Terakoya.Proofs.Recovery
import Terakoya.Proofs.Shelter
import Terakoya.Proofs.Trees
import Terakoya.Proofs.Seam
import Terakoya.Proofs.Splice
import Terakoya.Proofs.Decoding
import Terakoya.Proofs.Joined
import Terakoya.Proofs.Targets
import Terakoya.Proofs.Positions
import Terakoya.Proofs.Offsets
import Terakoya.Proofs.Fragments
import Terakoya.Proofs.Waiting
import Terakoya.Proofs.Confinement
import Terakoya.Proofs.Moments
import Terakoya.Proofs.Agreement
import Terakoya.Proofs.Termination
import Terakoya.Proofs.ActiveCalls
import Terakoya.Proofs.LoneNames
import Terakoya.Proofs.Renaming
import Terakoya.Proofs.Clearing
import Terakoya.Proofs.Lockstep
import Terakoya.Proofs.Leaves
import Terakoya.Proofs.BoundNames
import Terakoya.Proofs.Parameters
import Terakoya.Proofs.NameEnds
import Terakoya.Proofs.EmittedWords
import Terakoya.Proofs.BracedWords
import Terakoya.Proofs.IndentedWords
import Terakoya.Proofs.Copies
import Terakoya.Proofs.Hygiene
import Terakoya.Proofs.WrittenCalls
import Terakoya.Proofs.Lines
import Terakoya.Proofs.LineEndings
import Terakoya.Proofs.Placement
import Terakoya.Proofs.Descent
import Terakoya.Proofs.Scripts
import Terakoya.Proofs.Grouping
import Terakoya.Proofs.Alternatives
import Terakoya.Proofs.Transcript
import Terakoya.Proofs.Sameness
import Terakoya.Proofs.Showing
import Terakoya.Proofs.OutputText
import Terakoya.Proofs.Drafts
import Terakoya.Proofs.Indentation
import Terakoya.Proofs.BracedPages
import Terakoya.Proofs.Margins
import Terakoya.Proofs.Hoisting
import Terakoya.Proofs.RandomPicks
import Terakoya.Proofs.Characters
import Terakoya.Proofs.Composed
import Terakoya.Proofs.Settling
import Terakoya.Proofs.NormalNames
import Terakoya.Proofs.Places
import Terakoya.Proofs.ByteOrder
import Terakoya.Proofs.EditDistance
import Terakoya.Proofs.Hints
import Terakoya.Proofs.Completions
import Terakoya.Proofs.Variables
import Terakoya.Proofs.Scanning
