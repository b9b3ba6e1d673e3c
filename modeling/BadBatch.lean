import BadBatch.Lib.StepSys
import BadBatch.Lib.Linearizability
import BadBatch.Lib.RingWindow
import BadBatch.Lib.BitRange
import BadBatch.Lib.CheckedArith
import BadBatch.Lib.Observer
import BadBatch.Sequence
import BadBatch.Wiring
import BadBatch.Sequencer.Ledger
import BadBatch.Sequencer.Availability
import BadBatch.Sequencer.BitmapScan
import BadBatch.RingBuffer
import BadBatch.Sequencer.RangePublication
import BadBatch.Sequencer.Multi
import BadBatch.Sequencer.MultiClaims
import BadBatch.Sequencer.MultiAvailability
import BadBatch.Sequencer.Single
import BadBatch.Sequencer.Books
import BadBatch.Sequencer.SingleClaims
import BadBatch.Sequencer.SingleVisibility
import BadBatch.Sequencer.SharedSingle
import BadBatch.Sequencer.ClaimLock
import BadBatch.Sequencer.Close
import BadBatch.Sequencer.World
import BadBatch.Sequencer.GatingCache
import BadBatch.Sequencer.Capacity
import BadBatch.Sequencer.GatingSet
import BadBatch.Producer.Batch
import BadBatch.Producer.TryPublish
import BadBatch.Producer.Agreement
import BadBatch.Sequencer.Ungated
import BadBatch.SequenceBarrier
import BadBatch.ConsumerEngine.Loops
import BadBatch.ConsumerEngine.Batch
import BadBatch.ConsumerEngine.Sequential
import BadBatch.ConsumerEngine.WorkerPool
import BadBatch.EventProcessor.Probe
import BadBatch.EventProcessor.Ownership
import BadBatch.Producer.Feed
import BadBatch.Producer.Invariant
import BadBatch.WaitStrategy.Blocking
import BadBatch.WaitStrategy.Wakeup
import BadBatch.WaitStrategy.Methods
import BadBatch.WaitStrategy.Policy
import BadBatch.Producer.Writes
import BadBatch.Producer.Poison
import BadBatch.Builder.Core
import BadBatch.Builder.Chain
import BadBatch.Dsl.Assembly
import BadBatch.Pipeline.System
import BadBatch.Pipeline.Invariant
import BadBatch.Pipeline.Steps
import BadBatch.Pipeline.Failures
import BadBatch.Pipeline.Runs
import BadBatch.Pipeline.Windows
import BadBatch.Pipeline.Delivery
import BadBatch.Pipeline.Events
import BadBatch.Pipeline.Handled
import BadBatch.Pipeline.Progress
import BadBatch.Pipeline.Values
import BadBatch.Pipeline.Trail
import BadBatch.Pipeline.Panic
import BadBatch.Pipeline.Ownership
import BadBatch.Builder.Shutdown
import BadBatch.Dsl.Windows
import BadBatch.Dsl.Lifecycle
import BadBatch.Dsl.Handshake
import BadBatch.Dsl.Registration
import BadBatch.Dsl.LateRegistration
import BadBatch.Dsl.Shutdown
import BadBatch.Dsl.Restart
import BadBatch.Dsl.PublishLock
import BadBatch.Dsl.Reentrancy
import BadBatch.FirstFailure
import BadBatch.EventPoller
import BadBatch.Verification.Refinement
import BadBatch.Liveness.Waiting
