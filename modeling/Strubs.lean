import Strubs.ByteBuffer
import Strubs.MessageDigest
import Strubs.ErasureCode
import Strubs.ChunkPlan
import Strubs.SliceFile
import Strubs.FileObjectBase
import Strubs.FileObjectWriter
import Strubs.FileObjectReader
import Strubs.ReadSession
import Strubs.ObjectRoundTrip
import Strubs.WriterTotals
import Strubs.ReadQuorum
import Strubs.VolumeSlice
import Strubs.SliceRepairer
import Strubs.FileObjectLifecycle
import Strubs.NewlineLog
import Strubs.PluralityClasses
import Strubs.JournalSegments
import Strubs.JournalElection
import Strubs.StateMachine
import Strubs.Journal
import Strubs.JournalRollback
import Strubs.JournalLockstep
import Strubs.JournalColdStart
import Strubs.InsertionMap
import Strubs.NamespaceRecord
import Strubs.ContentRepository
import Strubs.SnapshotFile
import Strubs.SnapshotWriter
import Strubs.RecordSynthesis
import Strubs.NamespaceReplay
import Strubs.NamespaceRestore
import Strubs.BootstrapManifest
import Strubs.ManifestWriter
import Strubs.FleetRecovery
import Strubs.JournalLocation
import Strubs.RecoveryGate
import Strubs.LiveNamespace
import Strubs.BucketPolicy
import Strubs.RestoredPaths
import Strubs.StorageStats
import Strubs.StatsTracker
import Strubs.CredentialCache
import Strubs.DeviceIdentityProbe
import Strubs.CursorPaging
import Strubs.StaleObjects
import Strubs.VerificationState
import Strubs.ParityEvidence
import Strubs.CooperativeTasks
import Strubs.DeviceProvisioner
import Strubs.DriftScrub
import Strubs.Tally
import Strubs.RelocationSpace
import Strubs.PriorityHolds
import Strubs.KeyedWrites
import Strubs.RemediationService
import Strubs.RepairWorker
import Strubs.AwaitedCalls
import Strubs.DrainVolumeJob
import Strubs.RebalanceJob
import Strubs.VerifyVolumesJob
import Strubs.VerifyRuns
import Strubs.FailedUpload
import Strubs.ObjectAuthz
import Strubs.NamedFiles
import Strubs.SliceRelocation
import Strubs.DrainPasses
import Strubs.SliceHeaderCodec
import Strubs.SliceVoting
import Strubs.FirstOfClass
import Strubs.RoundRobin
import Strubs.Planner
import Strubs.ReplicaChoice
import Strubs.SegmentUnion
import Strubs.JournalRelocation
import Strubs.JournalSelection
import Strubs.TornTail
import Strubs.ManifestReconciliation
import Strubs.ManifestPasses
import Strubs.VerificationMerge
import Strubs.SliceVerifier
import Strubs.ParityVerification
import Strubs.PassphraseFleet
import Strubs.ObjectIdGenerator
import Strubs.StatsConservation
import Strubs.VolumeIdentity
import Strubs.NotificationService
import Strubs.EffectLog
import Strubs.ContainerCreation
import Strubs.SystemLogWatcher
import Strubs.AdminAuth
import Strubs.VolumeFleet
import Strubs.ProvisionPreflight
import Strubs.VolumeNumbering
import Strubs.VolumeRetirement
import Strubs.ParentChains
import Strubs.ParentsFirst
import Strubs.BucketBackfill
import Strubs.ScrubLocks
import Strubs.RestoredRows
import Strubs.ReplayedJournal
import Strubs.WorkQueue
import Strubs.SliceIndex
import Strubs.SnapshotCopy
import Strubs.SnapshotJob
import Strubs.AdminDispatch
import Strubs.LoginThrottle
import Strubs.ObjectGetRequest
import Strubs.ObjectPutRequest
import Strubs.DurableDirectories
import Strubs.BrowseSession
import Strubs.RebalanceMoves
import Strubs.PrefixClusters
import Strubs.DeviceDiscovery
