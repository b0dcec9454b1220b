import AccessPoint.ClassAd
import AccessPoint.Literal
import AccessPoint.Core.KeyMap
import AccessPoint.Core.Runs
import AccessPoint.Core.Text
import AccessPoint.Queue.Store
import AccessPoint.Queue.Identity
import AccessPoint.Queue.Txn
import AccessPoint.Queue.Commit
import AccessPoint.Queue.TxnRun
import AccessPoint.Queue.Factory
import AccessPoint.Queue.System
import AccessPoint.Queue.Isolation
import AccessPoint.Queue.EditFrame
import AccessPoint.Queue.ReadYourWrites
import AccessPoint.Factory.Digest
import AccessPoint.Factory.Engine
import AccessPoint.Factory.MadeIdentity
import AccessPoint.Qmgmt.Handler
import AccessPoint.Factory.SpoolFiles
import AccessPoint.Core.Prog
import AccessPoint.Sched.Command
import AccessPoint.Queue.Actions
import AccessPoint.Policy
import AccessPoint.Sched.Core
import AccessPoint.Sched.World
import AccessPoint.Sched.Bookkeeping
import AccessPoint.Sched.Discipline
import AccessPoint.Sched.Archive
import AccessPoint.Core.Serial
import AccessPoint.Queue.JobUpdates
import AccessPoint.Spool
import AccessPoint.Queue.ReadModifyWrite
import AccessPoint.Queue.CommitCrash
import AccessPoint.Queue.Restart
import AccessPoint.Queue.ClusterDestroy
import AccessPoint.Sched.Conduct
import AccessPoint.Factory.Production
import AccessPoint.Factory.ExactlyOnce
import AccessPoint.Factory.Reclaim
import AccessPoint.Sched.LeaseSweep
import AccessPoint.Sched.OneRun
import AccessPoint.Sched.Abandoned
import AccessPoint.Shadow
import AccessPoint.Sched.ExitReceived
import AccessPoint.Sched.Outstanding
import AccessPoint.Sched.HoldWins
import AccessPoint.Userlog.Manager
import AccessPoint.Userlog.Ownership
import AccessPoint.Userlog.Capacity
import AccessPoint.Userlog.Order
import AccessPoint.Userlog.Conservation
import AccessPoint.Queue.FactorySet
import AccessPoint.Qmgmt.Barred
import AccessPoint.Sched.Scheme
import AccessPoint.Sched.Record
import AccessPoint.Spool.Transfers
import AccessPoint.Sched.ClaimSecret
import AccessPoint.Spool.OwnHold
import AccessPoint.Core.Tokens
import AccessPoint.Spool.InputList
import AccessPoint.Qmgmt.ReadPaths
import AccessPoint.Sched.PeriodicPolicy
import AccessPoint.Queue.OwnerNames
import AccessPoint.Sched.ExitReason
import AccessPoint.Sched.Recovery
import AccessPoint.Sched.Channels
import AccessPoint.Sched.FailureBudget
import AccessPoint.Shadow.Syscalls
import AccessPoint.Negotiate.Round
import AccessPoint.Factory.QueueStatement
import AccessPoint.Factory.Independence
import AccessPoint.Factory.RowBounds
import AccessPoint.Queue.ActOnJobs
import AccessPoint.Core.Path
import AccessPoint.Spool.Sinks
import AccessPoint.Shadow.Reconnect
import AccessPoint.Sched.ClaimConservation
import AccessPoint.Match.Keepalive
import AccessPoint.Core.Tree
import AccessPoint.Spool.Sandbox
import AccessPoint.Spool.Output
import AccessPoint.Shadow.InputPlan
import AccessPoint.Qmgmt.Pipelining
import AccessPoint.Factory.TopUp
import AccessPoint.Shadow.Endpoint
import AccessPoint.Shadow.OutputReturn
