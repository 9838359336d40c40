import EventBase.Proofs.AuditTrail
import EventBase.Proofs.BatchClaims
import EventBase.Proofs.BroadcastRetry
import EventBase.Proofs.CrashRecovery
import EventBase.Proofs.DeathReasons
import EventBase.Proofs.DelayAgreement
import EventBase.Proofs.DelayConsumers
import EventBase.Proofs.DelayScheduler
import EventBase.Proofs.DispatchDeadlock
import EventBase.Proofs.DispatcherCount
import EventBase.Proofs.FailedCreation
import EventBase.Proofs.FailedFetch
import EventBase.Proofs.FanoutReach
import EventBase.Proofs.FirstStage
import EventBase.Proofs.GracefulInterruption
import EventBase.Proofs.HopCap
import EventBase.Proofs.IdleWorkers
import EventBase.Proofs.InventedMessages
import EventBase.Proofs.LiveTarget
import EventBase.Proofs.LostOnError
import EventBase.Proofs.LostProgress
import EventBase.Proofs.NeverEarly
import EventBase.Proofs.NodeProgress
import EventBase.Proofs.NonBlockingCalls
import EventBase.Proofs.OperatorShutdown
import EventBase.Proofs.PipelineOnion
import EventBase.Proofs.PublishIsolation
import EventBase.Proofs.QueueAccounts
import EventBase.Proofs.RecordLinearization
import EventBase.Proofs.RecordNumbers
import EventBase.Proofs.RecoveryOrder
import EventBase.Proofs.RecvAccounting
import EventBase.Proofs.RegistryAgreement
import EventBase.Proofs.RelayChains
import EventBase.Proofs.RelayedBudget
import EventBase.Proofs.ReplayAccounting
import EventBase.Proofs.ReplayDeadlock
import EventBase.Proofs.RoundRobin
import EventBase.Proofs.RouteCreation
import EventBase.Proofs.RouterCalls
import EventBase.Proofs.RouterDeadlock
import EventBase.Proofs.SingleStore
import EventBase.Proofs.StaleCleanup
import EventBase.Proofs.StreamDelivery
import EventBase.Proofs.TargetAgreement
import EventBase.Proofs.TempFiles
import EventBase.Proofs.TokenExactness
import EventBase.Proofs.TopicArgument
import EventBase.Proofs.TopicConfinement
import EventBase.Proofs.TopicConvergence
import EventBase.Proofs.TopicIsolation
import EventBase.Proofs.TraceFeedback
import EventBase.Proofs.UndecodableEntries
import EventBase.Proofs.WalDeadlock
import EventBase.Proofs.WalSync
import EventBase.Proofs.WorkerLeases
import EventBase.Proofs.WorkerRemoval
