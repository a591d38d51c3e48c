import ResidualHarness.Dsm.Lease
import ResidualHarness.Dsm.TornWrites
import ResidualHarness.Dsm.Convergence
import ResidualHarness.Attempts.Cancellation
import ResidualHarness.Attempts.Causes
import ResidualHarness.Attempts.Termination
import ResidualHarness.Loop.Bounds
import ResidualHarness.LoopRuntime.Control
import ResidualHarness.Cic.Elimination
import ResidualHarness.Engine.Guarantees
import ResidualHarness.ControlPlane.Coordinator
import ResidualHarness.Quarantine.Protocol
import ResidualHarness.Engine.ReceiptCodec
import ResidualHarness.Runtime.Cancellation
import ResidualHarness.Marketplace.Install
import ResidualHarness.Tenancy.Delegation
import ResidualHarness.Crypto.Rotation
import ResidualHarness.Iam.Mfa
import ResidualHarness.Iam.Access
import ResidualHarness.Hadr.Degraded
import ResidualHarness.Station.Budget
import ResidualHarness.Station.TaskMachine
import ResidualHarness.Compliance.Integrity
import ResidualHarness.Compliance.Siem
import ResidualHarness.Mesh.Safety
import ResidualHarness.Cic.Search
import ResidualHarness.AiProviders.Modular
import ResidualHarness.Station.ObservationStore
import ResidualHarness.Study.Accounting
import ResidualHarness.Eval.Derivation
import ResidualHarness.Factory.Attribution
import ResidualHarness.Factory.Compiler
import ResidualHarness.Factory.Replan
import ResidualHarness.Factory.Selection
import ResidualHarness.Tenancy.Lifecycle
import ResidualHarness.Otx.Selection
import ResidualHarness.Tenancy.Scheduler
import ResidualHarness.Hadr.Restore
import ResidualHarness.Eval.RankTests
import ResidualHarness.Factory.Paths
import ResidualHarness.Core.Dependencies
import ResidualHarness.Soak.Resume
