import Warmup.LookupMemo
import Warmup.SiteTable
import Warmup.CodeTable
import Warmup.ProcessTable
import Warmup.TrapHistory
import Warmup.Database.File
import Warmup.FeedbackTree.Evidence
import Warmup.Engine.Trap
import Warmup.Engine.Replace
import Warmup.Main
import Warmup.Proofs.Lookup
import Warmup.Proofs.Definitions
import Warmup.Proofs.Inlining
import Warmup.Proofs.CacheEntries
import Warmup.Proofs.CodeVersions
import Warmup.Proofs.UpToDate
import Warmup.Proofs.Run
import Warmup.Proofs.Sends
import Warmup.Proofs.Redefinition
import Warmup.Proofs.Coherence
import Warmup.Proofs.Journal
import Warmup.Proofs.Cascade
import Warmup.Proofs.Rewriting
import Warmup.Proofs.ScopeChains
import Warmup.Proofs.Deoptimization
import Warmup.Proofs.StandIns
import Warmup.Proofs.Attempts
import Warmup.Proofs.Expansion
import Warmup.Proofs.PolicyFaults
import Warmup.Proofs.Decisions
import Warmup.Proofs.Limits
import Warmup.Proofs.TreeGrowth
import Warmup.Proofs.Reconstruction
import Warmup.Proofs.Retention
import Warmup.Proofs.Speculation
import Warmup.Proofs.Learning
import Warmup.Proofs.TrapEvidence
import Warmup.Proofs.LiteScopes
import Warmup.Proofs.CallSites
import Warmup.Proofs.CacheHistory
import Warmup.Proofs.SuperSends
import Warmup.Proofs.StaleCode
import Warmup.Proofs.CacheStates
import Warmup.Proofs.CodeHistory
import Warmup.Proofs.PicLedger
import Warmup.Proofs.Upkeep
import Warmup.Proofs.PicAccounts
import Warmup.Proofs.CandidateSearch
import Warmup.Proofs.Requests
import Warmup.Proofs.VersionLimit
import Warmup.Proofs.OptimizationLevels
import Warmup.Proofs.TrapLog
import Warmup.Proofs.BinaryFields
import Warmup.Proofs.DatabaseEntries
import Warmup.Proofs.DatabaseBytes
import Warmup.Proofs.DatabaseJson
import Warmup.Proofs.SettingsText
import Warmup.Proofs.Findings
import Warmup.Proofs.NativeFindings
import Warmup.Proofs.SendPositions
import Warmup.Proofs.KeyNames
import Warmup.Proofs.RecordedFindings
import Warmup.Proofs.Capture
import Warmup.Proofs.CarriedFeedback
import Warmup.Proofs.CacheContents
import Warmup.Proofs.InliningBounds
import Warmup.Proofs.InliningTree
import Warmup.Proofs.SearchReach
import Warmup.Proofs.Emission
import Warmup.Proofs.TreeShape
import Warmup.Proofs.SiteFeedback
import Warmup.Proofs.FailedTraps
import Warmup.Proofs.Backoff
import Warmup.Proofs.InvocationCounts
import Warmup.Proofs.CapturedEntries
import Warmup.Proofs.BlockCalls
import Warmup.Proofs.DefinitionLog
import Warmup.Proofs.CompileLimits
