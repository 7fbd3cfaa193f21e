import MatrixRuntime.AdmissionRace
import MatrixRuntime.CommitRace
import MatrixRuntime.QuotaBalance
import MatrixRuntime.AdmissionRevocation
import MatrixRuntime.LiveContexts
import MatrixRuntime.EndedContexts
import MatrixRuntime.PinnedOperations
import MatrixRuntime.InflightLimit
import MatrixRuntime.DependencyResults
import MatrixRuntime.DisposalFrame
import MatrixRuntime.LedgerRuns
import MatrixRuntime.Supervision
import MatrixRuntime.RuntimeGrants
import MatrixRuntime.ResourceViews
import MatrixRuntime.JournalFile
import MatrixRuntime.LegLimit
import MatrixRuntime.OperationRows
import MatrixRuntime.SessionFrames
import MatrixRuntime.RouteWatch
import MatrixRuntime.StreamRelay
import MatrixRuntime.AttachRound
import MatrixRuntime.DuplicateRequests
import MatrixRuntime.SessionSenders
import MatrixRuntime.ReplyRouting
import MatrixRuntime.ChildProcesses
import MatrixRuntime.ConsumerClosure
import MatrixRuntime.SyscallFilter
import MatrixRuntime.RestartWindows
import MatrixRuntime.InstanceNames
import MatrixRuntime.EventDispatch
import MatrixRuntime.WaiterRecords
