import NormalForm.Binary64.Pattern
import NormalForm.Cli.Memory
import NormalForm.Game.Samples
import NormalForm.Game.Workspace
import NormalForm.Main
import NormalForm.Payoff
import NormalForm.Proofs.Dimensions.Numbering
import NormalForm.Proofs.Dimensions.Order
import NormalForm.Proofs.Profile.Odometer
import NormalForm.Proofs.Profile.Moves
import NormalForm.Proofs.Fault.Sequence
import NormalForm.Proofs.Ranking.Validity
import NormalForm.Proofs.Ranking.Inverse
import NormalForm.Proofs.Ranking.Sorting
import NormalForm.Proofs.Mixed.Walk
import NormalForm.Proofs.Mixed.Reading
import NormalForm.Proofs.Path.Equations
import NormalForm.Proofs.Path.Safety
import NormalForm.Proofs.Game.Operations
import NormalForm.Proofs.Game.Indexing
import NormalForm.Proofs.Path.Start
import NormalForm.Proofs.Solver.Safety
import NormalForm.Proofs.Exact.Arithmetic
import NormalForm.Proofs.Exact.Cofactor
import NormalForm.Proofs.Exact.Mass
import NormalForm.Proofs.Exact.Kernel
import NormalForm.Proofs.Exact.Predictor
import NormalForm.Proofs.Game.Store
import NormalForm.Proofs.Game.Answers
import NormalForm.Proofs.Decimal.Digits
import NormalForm.Proofs.Decimal.RoundTrip
import NormalForm.Proofs.File.Tokens
import NormalForm.Proofs.File.Written
import NormalForm.Proofs.File.Parsing
import NormalForm.Proofs.File.RoundTrip
import NormalForm.Proofs.Path.Order
import NormalForm.Proofs.Exact.Multilinear
import NormalForm.Proofs.Exact.Crossing
import NormalForm.Proofs.Exact.Derivative
import NormalForm.Proofs.Exact.Order
import NormalForm.Proofs.Solver.Account
import NormalForm.Proofs.Solver.Course
import NormalForm.Proofs.Solver.Independence
import NormalForm.Proofs.Solver.Cadence
import NormalForm.Proofs.File.Grammar
import NormalForm.Proofs.File.Lexing
import NormalForm.Proofs.File.Acceptance
import NormalForm.Proofs.File.Loading
import NormalForm.Proofs.File.Sentences
import NormalForm.Proofs.File.Denotation
import NormalForm.Proofs.Path.Ledger
import NormalForm.Proofs.Solver.Ledger
import NormalForm.Proofs.Rescaling.Values
import NormalForm.Proofs.Rescaling.Equations
import NormalForm.Proofs.Rescaling.Repair
import NormalForm.Proofs.Rescaling.Run
import NormalForm.Proofs.Solver.Representation
import NormalForm.Proofs.Exact.Units
import NormalForm.Proofs.Exact.Reversal
import NormalForm.Proofs.Solver.Units
import NormalForm.Proofs.File.Cut
import NormalForm.Proofs.File.Truncation
import NormalForm.Proofs.File.Limits
import NormalForm.Proofs.Game.Refreshing
import NormalForm.Proofs.Game.Handles
import NormalForm.Proofs.Game.Lineage
import NormalForm.Proofs.File.Unsaved
import NormalForm.Proofs.Binary64.Rounding
import NormalForm.Proofs.Binary64.Packing
import NormalForm.Proofs.Binary64.Operations
import NormalForm.Proofs.Binary64.Sizes
import NormalForm.Proofs.Binary64.Comparison
import NormalForm.Proofs.Binary64.Nearest
import NormalForm.Proofs.Binary64.Signs
import NormalForm.Proofs.Mixed.Sizes
import NormalForm.Proofs.Mixed.Duplicates
import NormalForm.Proofs.Path.Length
import NormalForm.Proofs.Path.Feasible
import NormalForm.Proofs.Ranking.Ties
import NormalForm.Proofs.Solver.Feasibility
import NormalForm.Proofs.Solver.Duplicates
import NormalForm.Proofs.Path.Leaders
import NormalForm.Proofs.Exact.Leaders
import NormalForm.Proofs.Path.Turning
import NormalForm.Proofs.Path.Splitting
import NormalForm.Proofs.Path.Scan
import NormalForm.Proofs.Exact.Heading
import NormalForm.Proofs.Exact.Strict
import NormalForm.Proofs.Exact.Falling
import NormalForm.Proofs.Exact.Expectation
import NormalForm.Proofs.Exact.Regret
import NormalForm.Proofs.Exact.Ranking
import NormalForm.Proofs.Decimal.Forms
import NormalForm.Proofs.Decimal.Grammar
import NormalForm.Proofs.File.Lines
import NormalForm.Proofs.File.Layout
import NormalForm.Proofs.File.Delivery
import NormalForm.Proofs.File.Tables
import NormalForm.Proofs.Ranking.Admission
import NormalForm.Proofs.Random.Draws
import NormalForm.Proofs.File.Drawn
import NormalForm.Proofs.Binary64.Largest
import NormalForm.Proofs.Cli.Sweep
import NormalForm.Proofs.File.Blame
import NormalForm.Proofs.File.Refusal
import NormalForm.Proofs.File.Places
