import PageScript.Cursor
import PageScript.Main
import PageScript.Proofs.Token.Kinds
import PageScript.Proofs.Program.Tokens
import PageScript.Proofs.Program.Accepted
import PageScript.Proofs.Program.Invariant
import PageScript.Proofs.Program.NestedLists
import PageScript.Proofs.Program.Alike
import PageScript.Proofs.Parser.Operators
import PageScript.Proofs.Parser.ReadExpression
import PageScript.Proofs.Parser.ReadStatement
import PageScript.Proofs.Parser.ReadBlock
import PageScript.Proofs.Parser.SoundExpression
import PageScript.Proofs.Parser.SoundBlock
import PageScript.Proofs.Parser.Misread
import PageScript.Proofs.RoundTrip
import PageScript.Proofs.Parser.PathStatement
import PageScript.Proofs.Disambiguation
import PageScript.Proofs.Eval.Simulation
import PageScript.Proofs.Eval.Lockstep
import PageScript.Proofs.Eval.Watched
import PageScript.Proofs.StepBudget
import PageScript.Proofs.CallBudget
import PageScript.Proofs.Store.Nested
import PageScript.Proofs.Termination
import PageScript.Proofs.Store.Alike
import PageScript.Proofs.Spelling
import PageScript.Proofs.FunctionsStay
import PageScript.Proofs.LiveScopes
import PageScript.Proofs.ExplicitMode
import PageScript.Proofs.Store.Building
import PageScript.Proofs.Store.Hoisting
import PageScript.Proofs.Store.Reach
import PageScript.Proofs.Locality
import PageScript.Proofs.Instances
import PageScript.Proofs.Receiver
import PageScript.Proofs.Parser.Alike
import PageScript.Proofs.Parser.AlikeBlock
import PageScript.Proofs.Layout
import PageScript.Proofs.Positions
import PageScript.Proofs.Program.OfJson
import PageScript.Proofs.Serialization
import PageScript.Proofs.Targets
import PageScript.Proofs.Templates
import PageScript.Proofs.Parser.Progress
import PageScript.Proofs.Parser.Counted
import PageScript.Proofs.Parser.CountedBlock
import PageScript.Proofs.Program.Nesting
import PageScript.Proofs.NestingLimit
import PageScript.Proofs.Analysis
import PageScript.Proofs.Assignment
import PageScript.Proofs.ByValue
import PageScript.Proofs.Value.Ordering
import PageScript.Proofs.Value.Numerals
import PageScript.Proofs.Json.Rereading
import PageScript.Proofs.Configuration
import PageScript.Proofs.Token.Stepwise
import PageScript.Proofs.Token.Lexemes
import PageScript.Proofs.Traversal
