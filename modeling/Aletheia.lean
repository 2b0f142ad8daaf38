import Aletheia.AcknowledgedDurable
import Aletheia.AdjacencyAtTime
import Aletheia.AuditEvidence
import Aletheia.BufferedLookup
import Aletheia.ChainRebuild
import Aletheia.ClockIsolation
import Aletheia.ColdCandidates
import Aletheia.ColdRoundTrip
import Aletheia.CommitLogReopen
import Aletheia.CommitPrefix
import Aletheia.CommitProgress
import Aletheia.DeltaSearch
import Aletheia.EpochOutcome
import Aletheia.FirstCommitter
import Aletheia.FlushAtomicity
import Aletheia.HybridClock
import Aletheia.InternerRuns
import Aletheia.MigrationOutcome
import Aletheia.PatternMatches
import Aletheia.ReadOnlyGuard
import Aletheia.RotationRuns
import Aletheia.SealedRuns
import Aletheia.SealerState
import Aletheia.TemporalJoin
import Aletheia.TemporalWindow
import Aletheia.TornFrames
import Aletheia.TransparentRuns
import Aletheia.TwoPhaseAgreement
import Aletheia.UpdateSemantics
import Aletheia.WalRetention
import Aletheia.WalRotationRuns
