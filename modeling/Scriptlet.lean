import Scriptlet.Main
import Scriptlet.Proofs.Grammar.Rules
import Scriptlet.Proofs.Token.Lexical
import Scriptlet.Proofs.Grammar.Reading
import Scriptlet.Proofs.Grammar.Sound.Expression
import Scriptlet.Proofs.Grammar.Sound.Statement
import Scriptlet.Proofs.Grammar.Complete.Expression
import Scriptlet.Proofs.Grammar.Complete.Statement
import Scriptlet.Proofs.Grammar.Exact
import Scriptlet.Proofs.Analysis.Accepted
import Scriptlet.Proofs.Analysis.Levels
import Scriptlet.Proofs.Grammar.Names
import Scriptlet.Proofs.Target.Lowered
import Scriptlet.Proofs.Binding.Nesting
import Scriptlet.Proofs.Binding.Legality
import Scriptlet.Proofs.Binding.Agreement
import Scriptlet.Proofs.Grammar.Numbering
import Scriptlet.Proofs.Target.Semantics
import Scriptlet.Proofs.Simulation.Image
import Scriptlet.Proofs.Simulation.Quotient
import Scriptlet.Proofs.Simulation.Arithmetic
import Scriptlet.Proofs.Simulation.Operator
import Scriptlet.Proofs.Simulation.Expression
import Scriptlet.Proofs.Analysis.Files
import Scriptlet.Proofs.Scope.Flat
import Scriptlet.Proofs.Simulation.Statement
import Scriptlet.Proofs.Simulation.Program
import Scriptlet.Proofs.Tree.Nodes
import Scriptlet.Proofs.Analysis.Reduced
import Scriptlet.Proofs.Analysis.Growth
import Scriptlet.Proofs.Analysis.Annotation
import Scriptlet.Proofs.Scope.Frames
import Scriptlet.Proofs.Scoping.Rules
import Scriptlet.Proofs.Scoping.Reflection
import Scriptlet.Proofs.Scoping.Exact
import Scriptlet.Proofs.Value.Refinement
import Scriptlet.Proofs.Value.Folding
import Scriptlet.Proofs.Typing.Tags
import Scriptlet.Proofs.Typing.Inference
import Scriptlet.Proofs.Typing.Specialisation
import Scriptlet.Proofs.Token.Tiling
import Scriptlet.Proofs.Scope.Stack
import Scriptlet.Proofs.Target.Template
import Scriptlet.Proofs.Tree.Payloads
import Scriptlet.Proofs.Typing.Payloads
import Scriptlet.Proofs.Grammar.Break
import Scriptlet.Proofs.Grammar.Progress.Expression
import Scriptlet.Proofs.Grammar.Progress.Statement
import Scriptlet.Proofs.Grammar.Refusal.Expression
import Scriptlet.Proofs.Grammar.Refusal.Statement
import Scriptlet.Proofs.Grammar.FirstFault
import Scriptlet.Proofs.Token.Lines
import Scriptlet.Proofs.Analysis.Actions
import Scriptlet.Proofs.Analysis.Stability
import Scriptlet.Proofs.Scoping.Namespace
import Scriptlet.Proofs.Target.Texts
import Scriptlet.Proofs.Target.Indentation
import Scriptlet.Proofs.Token.Written
import Scriptlet.Proofs.Tree.Moved
import Scriptlet.Proofs.Grammar.Moved.Expression
import Scriptlet.Proofs.Grammar.Moved.Statement
import Scriptlet.Proofs.Grammar.Below
import Scriptlet.Proofs.Grammar.Literals
import Scriptlet.Proofs.Grammar.Numerals
import Scriptlet.Proofs.Point.Finite
import Scriptlet.Proofs.Point.Rounding
import Scriptlet.Proofs.Value.Finite
import Scriptlet.Proofs.Analysis.Throughout
import Scriptlet.Proofs.Analysis.Finite
import Scriptlet.Proofs.Grammar.PostOrder
import Scriptlet.Proofs.Command.Agreement
import Scriptlet.Proofs.Tree.Phrases
import Scriptlet.Proofs.Grammar.Spans
import Scriptlet.Proofs.Grammar.Ending.Loops
import Scriptlet.Proofs.Grammar.Ending.Expression
import Scriptlet.Proofs.Grammar.Ending.Statement
import Scriptlet.Proofs.Analysis.Abbreviation
import Scriptlet.Proofs.Target.CallOrder
import Scriptlet.Proofs.Target.Compound
import Scriptlet.Proofs.Point.Shortest
import Scriptlet.Proofs.Point.Sign
import Scriptlet.Proofs.Point.Spelling
import Scriptlet.Proofs.Target.Readable
import Scriptlet.Proofs.Target.Script
import Scriptlet.Proofs.Target.Recovered
import Scriptlet.Proofs.Target.Reading
import Scriptlet.Proofs.Target.Canonical
import Scriptlet.Proofs.Target.Source
import Scriptlet.Proofs.Value.Remainder
import Scriptlet.Proofs.Value.Order
import Scriptlet.Proofs.Value.Decimal
import Scriptlet.Proofs.Target.StringLiteral
import Scriptlet.Proofs.Token.Lexemes
import Scriptlet.Proofs.Token.Offence
import Scriptlet.Proofs.Token.Longest
import Scriptlet.Proofs.Source.Caret
import Scriptlet.Proofs.Analysis.Places
import Scriptlet.Proofs.Analysis.Walk
import Scriptlet.Proofs.Grammar.Words
