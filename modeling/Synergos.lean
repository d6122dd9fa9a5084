import Synergos.JsonText
import Synergos.Jcs
import Synergos.Base64url
import Synergos.Caveat
import Synergos.CaveatText
import Synergos.Envelope
import Synergos.ProfileRules
import Synergos.Lct
import Synergos.LctText
import Synergos.LctVerify
import Synergos.TokenWorld
import Synergos.CapabilityGate
import Synergos.RequestLimits
import Synergos.ByteText
import Synergos.Identity
import Synergos.Gossip
import Synergos.GossipNodes
import Synergos.Logs
import Synergos.Runs
import Synergos.GossipWorld
import Synergos.PeerHello
import Synergos.Dialling
import Synergos.JournalRow
import Synergos.Journal
import Synergos.JournalWorld
import Synergos.Faults
import Synergos.SafePath
import Synergos.HistoryFiles
import Synergos.HistoryTags
import Synergos.HistoryRetention
import Synergos.HistoryStore
import Synergos.HistorySteps
import Synergos.HistoryWorld
import Synergos.HistoryRecovery
import Synergos.HistoryRebuild
import Synergos.RetentionPolicy
import Synergos.JsonGrammar
import Synergos.CanonicalForm
import Synergos.Machines
import Synergos.FileExchange
import Synergos.FetchRequests
import Synergos.ProjectIsolation
import Synergos.ServedWants
import Synergos.OpenProjects
import Synergos.FaultRuns
import Synergos.Manifest
import Synergos.HistoryArchive
import Synergos.PublishUpdate
import Synergos.ControlStore
import Synergos.ControlWorld
import Synergos.RegistryUpdates
import Synergos.Reconciliation
import Synergos.LedgerMatches
import Synergos.TransferStates
import Synergos.Conflicts
import Synergos.UntrustedBackend
import Synergos.TakenSteps
import Synergos.HistoryLeftovers
import Synergos.HistoryCollection
import Synergos.PinnedReceives
import Synergos.IncomingFiles
import Synergos.PeerLinks
import Synergos.ConnectionPresence
import Synergos.PeerRemoval
import Synergos.PrefixRows
import Synergos.NativeVersions
import Synergos.NativePaths
import Synergos.PathGlob
import Synergos.SeenMessages
import Synergos.BitswapReplies
import Synergos.Stun
import Synergos.CustodyStore
import Synergos.RegistryConsistency
