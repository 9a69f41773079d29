import LittleLang.Main
import LittleLang.Proofs.Acceptance
import LittleLang.Proofs.Accounting
import LittleLang.Proofs.Analysis.Accepted
import LittleLang.Proofs.Analysis.Chains
import LittleLang.Proofs.Analysis.Declarations
import LittleLang.Proofs.Analysis.Enclosing
import LittleLang.Proofs.Analysis.Finds
import LittleLang.Proofs.Analysis.Identities
import LittleLang.Proofs.Analysis.Invariants
import LittleLang.Proofs.Analysis.Isolation
import LittleLang.Proofs.Analysis.Live
import LittleLang.Proofs.Analysis.Moments
import LittleLang.Proofs.Analysis.Objections
import LittleLang.Proofs.Analysis.Paths
import LittleLang.Proofs.Analysis.Release
import LittleLang.Proofs.Analysis.Rules
import LittleLang.Proofs.Analysis.Typing
import LittleLang.Proofs.Analysis.Walk
import LittleLang.Proofs.Blame.Continuation
import LittleLang.Proofs.Blame.Decided
import LittleLang.Proofs.Blame.Expressions
import LittleLang.Proofs.Blame.Misfit
import LittleLang.Proofs.Blame.Programs
import LittleLang.Proofs.Blame.Repetition
import LittleLang.Proofs.Blame.Statements
import LittleLang.Proofs.Blame.Viable
import LittleLang.Proofs.Blame.Vouching
import LittleLang.Proofs.Completeness.Expressions
import LittleLang.Proofs.Completeness.Programs
import LittleLang.Proofs.Forms
import LittleLang.Proofs.Grammar
import LittleLang.Proofs.Layout
import LittleLang.Proofs.Lexemes
import LittleLang.Proofs.Likeness.Analysis
import LittleLang.Proofs.Likeness.Parsing
import LittleLang.Proofs.Likeness.Run
import LittleLang.Proofs.Likeness.Stages
import LittleLang.Proofs.Likeness.Steps
import LittleLang.Proofs.Likeness.Trees
import LittleLang.Proofs.Literals
import LittleLang.Proofs.Memo.Following
import LittleLang.Proofs.Memo.Operands
import LittleLang.Proofs.Memo.Rules
import LittleLang.Proofs.Operators
import LittleLang.Proofs.Outcomes
import LittleLang.Proofs.Outline
import LittleLang.Proofs.Positions
import LittleLang.Proofs.Printing
import LittleLang.Proofs.Provenance
import LittleLang.Proofs.Reading
import LittleLang.Proofs.Recovery
import LittleLang.Proofs.RoundTrip
import LittleLang.Proofs.Run.Balance
import LittleLang.Proofs.Run.Contracts
import LittleLang.Proofs.Run.Frames
import LittleLang.Proofs.Run.Fresh
import LittleLang.Proofs.Run.Logic
import LittleLang.Proofs.Run.Mirroring
import LittleLang.Proofs.Run.Moments
import LittleLang.Proofs.Run.Purity
import LittleLang.Proofs.Run.Scoped
import LittleLang.Proofs.Run.Steady
import LittleLang.Proofs.Run.Steps
import LittleLang.Proofs.Run.Trace
import LittleLang.Proofs.Run.Unreached
import LittleLang.Proofs.Run.Walk
import LittleLang.Proofs.Safety.Declared
import LittleLang.Proofs.Safety.Definedness
import LittleLang.Proofs.Safety.Names
import LittleLang.Proofs.Safety.Resolution
import LittleLang.Proofs.Safety.Types
import LittleLang.Proofs.Scope.History
import LittleLang.Proofs.Scope.Lookups
import LittleLang.Proofs.Session
import LittleLang.Proofs.Shape
import LittleLang.Proofs.Soundness.Expressions
import LittleLang.Proofs.Soundness.Programs
import LittleLang.Proofs.Spelling
import LittleLang.Proofs.Steps
import LittleLang.Proofs.Verbosity
