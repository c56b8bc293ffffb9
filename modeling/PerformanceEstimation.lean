import PerformanceEstimation.Numeric.Solver
import PerformanceEstimation.Session.Solve
import PerformanceEstimation.Session.Step
import PerformanceEstimation.Text.Message
import PerformanceEstimation.Text.Report
import PerformanceEstimation.Proofs.Algebra.Expressions
import PerformanceEstimation.Proofs.Packing.Matrices
import PerformanceEstimation.Proofs.Algebra.Realizations
import PerformanceEstimation.Proofs.Conic.Operators
import PerformanceEstimation.Proofs.Program.Layout
import PerformanceEstimation.Proofs.Program.Lowering
import PerformanceEstimation.Proofs.Program.Feasibility
import PerformanceEstimation.Proofs.Program.Rays
import PerformanceEstimation.Proofs.Certificate.Identity
import PerformanceEstimation.Proofs.Certificate.Soundness
import PerformanceEstimation.Proofs.Certificate.ConicDual
import PerformanceEstimation.Proofs.Session.Effects
import PerformanceEstimation.Proofs.Session.Calls
import PerformanceEstimation.Proofs.Classes.Conditions
import PerformanceEstimation.Proofs.Session.Compilation
import PerformanceEstimation.Proofs.Classes.Inequalities
import PerformanceEstimation.Proofs.Classes.Inclusions
import PerformanceEstimation.Proofs.Classes.Members
import PerformanceEstimation.Proofs.Classes.Envelopes
import PerformanceEstimation.Proofs.Algebra.Equality
import PerformanceEstimation.Proofs.Algebra.NormalForm
import PerformanceEstimation.Proofs.Algebra.Supports
import PerformanceEstimation.Proofs.Session.History
import PerformanceEstimation.Proofs.Session.Discipline
import PerformanceEstimation.Proofs.Session.Poisoning
import PerformanceEstimation.Proofs.Session.Status
import PerformanceEstimation.Proofs.Session.Steps
import PerformanceEstimation.Proofs.Session.Evaluation
import PerformanceEstimation.Proofs.Session.Interface
import PerformanceEstimation.Proofs.Session.Recall
import PerformanceEstimation.Proofs.Session.Uniqueness
import PerformanceEstimation.Proofs.Session.Extension
import PerformanceEstimation.Proofs.Store.Conflicts
import PerformanceEstimation.Proofs.Algebra.Sums
import PerformanceEstimation.Proofs.Session.Leaves
import PerformanceEstimation.Proofs.Session.Stationary
import PerformanceEstimation.Proofs.Session.Values
import PerformanceEstimation.Proofs.Session.Paths
import PerformanceEstimation.Proofs.Session.Flattening
import PerformanceEstimation.Proofs.Program.Multipliers
import PerformanceEstimation.Proofs.Session.Identifiers
import PerformanceEstimation.Proofs.Program.Assembly
import PerformanceEstimation.Proofs.Conic.Representation
import PerformanceEstimation.Proofs.Session.Acceptance
import PerformanceEstimation.Proofs.Session.Indices
import PerformanceEstimation.Proofs.Session.BuiltIn
import PerformanceEstimation.Proofs.Classes.Degeneration
import PerformanceEstimation.Proofs.Solution.Points
import PerformanceEstimation.Proofs.PartialReals
import PerformanceEstimation.Proofs.Certificate.Numbers
import PerformanceEstimation.Proofs.Session.Recursion
import PerformanceEstimation.Proofs.Classes.Exchange
