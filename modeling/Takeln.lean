import Takeln.Sequential.Rollback
import Takeln.Sequential.Settled
import Takeln.Sequential.CrashResume
import Takeln.Sequential.ResumedInput
import Takeln.Sequential.StepLimit
import Takeln.Sequential.Pairing
import Takeln.Sequential.Recovery
import Takeln.Concurrent.SingleWinner
import Takeln.Concurrent.LiveClaim
import Takeln.Concurrent.Isolation
import Takeln.Concurrent.Chain
import Takeln.Concurrent.LostUpdate
import Takeln.Concurrent.PostgresClaim
import Takeln.Waves.Merged
import Takeln.Waves.Yielded
import Takeln.Waves.Scheduler
import Takeln.Waves.Determinism
import Takeln.Waves.Segments
import Takeln.Waves.Completion
import Takeln.Threads.ExecutionIds
import Takeln.Threads.Gates
import Takeln.Threads.Snapshots
import Takeln.Threads.Budget
import Takeln.Threads.Answers
import Takeln.Threads.Reports
import Takeln.Waves.Requests
import Takeln.Threads.Soundness
import Takeln.Waves.EventOrder
import Takeln.Stores.Agreement
import Takeln.Stores.History
import Takeln.Stores.Pruning
import Takeln.Waves.Finished
import Takeln.Waves.Failures
import Takeln.Waves.Retries
import Takeln.Time.Backoff
import Takeln.Sequential.InputSchema
import Takeln.Threads.Records
import Takeln.Threads.Seeds
import Takeln.Builder.Repeats
import Takeln.Builder.Rejections
import Takeln.Effect.Progress
import Takeln.Waves.Permits
import Takeln.Waves.JoinSet
import Takeln.Threads.Launches
import Takeln.Threads.Continuity
import Takeln.Stores.SqliteEngine
import Takeln.Concurrent.PostgresWinner
import Takeln.Waves.Built
import Takeln.Waves.Pipeline
import Takeln.Stores.PostgresAgreement
import Takeln.Concurrent.PostgresResumes
import Takeln.Stores.Retention
import Takeln.Threads.Termination
