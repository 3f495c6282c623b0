import Netcatty.AiPrivacy
import Netcatty.AliasStreams
import Netcatty.ApprovalSettlement
import Netcatty.ContextCuts
import Netcatty.ConvergentResolution
import Netcatty.FlowPauseArbiter
import Netcatty.GroupRenames
import Netcatty.HostKeyAnswers
import Netcatty.LogRuns
import Netcatty.ManifestDigests
import Netcatty.Osc133Prompt
import Netcatty.OutputTriggerEcho
import Netcatty.PluginSidecarMerge
import Netcatty.PtyJobRuns
import Netcatty.PtyOutputDrops
import Netcatty.RepairExact
import Netcatty.ScpRoundTrip
import Netcatty.SessionBootRuns
import Netcatty.SessionExecutionQueue
import Netcatty.SftpHistoryRuns
import Netcatty.SftpSessionLeases
import Netcatty.SshAliases
import Netcatty.SshConfigRoundTrip
import Netcatty.SshDialSettlement
import Netcatty.SshTransportLookup
import Netcatty.SyncBlockDeletions
import Netcatty.SyncBlockPending
import Netcatty.SyncRekey
import Netcatty.SyncSurvivors
import Netcatty.SystemTrust
import Netcatty.TelnetConversations
import Netcatty.TerminalWriteRuns
import Netcatty.TerminalWriteSlices
import Netcatty.TransferCenter
import Netcatty.TransferSchedulerRuns
import Netcatty.VaultDeletion
import Netcatty.VaultTrust
import Netcatty.WorkspaceLayout
import Netcatty.YmodemTransfers
import Netcatty.ZmodemExact
