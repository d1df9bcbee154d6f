import DeferredReward.Config.Writing
import DeferredReward.Main
import DeferredReward.Proofs.Arithmetic.Doubles
import DeferredReward.Proofs.Arithmetic.Exact
import DeferredReward.Proofs.Arithmetic.Order
import DeferredReward.Proofs.BlockAverage
import DeferredReward.Proofs.Catalog
import DeferredReward.Proofs.CommandLine.Episodes
import DeferredReward.Proofs.CommandLine.Program
import DeferredReward.Proofs.CommandLine.Training
import DeferredReward.Proofs.Config
import DeferredReward.Proofs.Config.LastValues
import DeferredReward.Proofs.Config.RoundTrip
import DeferredReward.Proofs.Decimal.Doubles
import DeferredReward.Proofs.Decimal.Nearest
import DeferredReward.Proofs.Decimal.Shortest
import DeferredReward.Proofs.Evidence
import DeferredReward.Proofs.Fault
import DeferredReward.Proofs.Generator.Choice
import DeferredReward.Proofs.Json.Alike
import DeferredReward.Proofs.Json.Containers
import DeferredReward.Proofs.Json.Decimals
import DeferredReward.Proofs.Json.Grammar
import DeferredReward.Proofs.Json.Numbers
import DeferredReward.Proofs.Json.Spellings
import DeferredReward.Proofs.Json.Strings
import DeferredReward.Proofs.Json.Values
import DeferredReward.Proofs.Loss
import DeferredReward.Proofs.Loss.Tangent
import DeferredReward.Proofs.Matrix.Operations
import DeferredReward.Proofs.Matrix.Pairing
import DeferredReward.Proofs.Matrix.Rows
import DeferredReward.Proofs.Network.Adjoint
import DeferredReward.Proofs.Network.Batches
import DeferredReward.Proofs.Network.Drawn
import DeferredReward.Proofs.Network.Form
import DeferredReward.Proofs.Network.Inference
import DeferredReward.Proofs.Network.Loading
import DeferredReward.Proofs.Network.Minibatch
import DeferredReward.Proofs.Network.Names
import DeferredReward.Proofs.Network.Passes
import DeferredReward.Proofs.Network.Rows
import DeferredReward.Proofs.Network.Shapes
import DeferredReward.Proofs.Network.Waiting
import DeferredReward.Proofs.Optimizer
import DeferredReward.Proofs.Optimizer.Bounds
import DeferredReward.Proofs.Optimizer.Course
import DeferredReward.Proofs.Optimizer.Elements
import DeferredReward.Proofs.Optimizer.Outcome
import DeferredReward.Proofs.Optimizer.Scalar
import DeferredReward.Proofs.Optimizer.Separate
import DeferredReward.Proofs.Optimizer.StepSize
import DeferredReward.Proofs.Optimizer.Turns
import DeferredReward.Proofs.Parameters.Blend
import DeferredReward.Proofs.Parameters.Blendable
import DeferredReward.Proofs.Parameters.Elements
import DeferredReward.Proofs.Parameters.Suited
import DeferredReward.Proofs.ReplayMemory
import DeferredReward.Proofs.ReplayMemory.Draws
import DeferredReward.Proofs.Snapshot.Matrices
import DeferredReward.Proofs.Snapshot.RoundTrip
import DeferredReward.Proofs.StagingArea
import DeferredReward.Proofs.StagingArea.Revisions
import DeferredReward.Proofs.Storage.Folder
import DeferredReward.Proofs.Storage.Tree
import DeferredReward.Proofs.Trainer.Agreement
import DeferredReward.Proofs.Trainer.Atomicity
import DeferredReward.Proofs.Trainer.Batches
import DeferredReward.Proofs.Trainer.Bounds
import DeferredReward.Proofs.Trainer.Checkpoints
import DeferredReward.Proofs.Trainer.Exact
import DeferredReward.Proofs.Trainer.Files
import DeferredReward.Proofs.Trainer.Following
import DeferredReward.Proofs.Trainer.Horizon
import DeferredReward.Proofs.Trainer.Ledger
import DeferredReward.Proofs.Trainer.Milestones
import DeferredReward.Proofs.Trainer.Minibatch
import DeferredReward.Proofs.Trainer.Moments
import DeferredReward.Proofs.Trainer.Predictions
import DeferredReward.Proofs.Trainer.Probabilities
import DeferredReward.Proofs.Trainer.Readiness
import DeferredReward.Proofs.Trainer.Runs
import DeferredReward.Proofs.Trainer.Saving
import DeferredReward.Proofs.Trainer.Start
import DeferredReward.Proofs.Trainer.Step
import DeferredReward.Proofs.Trainer.Twins
import DeferredReward.Storage.Tree
