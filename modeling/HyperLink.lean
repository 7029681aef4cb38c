import HyperLink.Program
import HyperLink.Interleaving
import HyperLink.Runs
import HyperLink.Observation
import HyperLink.Scheduling
import HyperLink.CommandLine
import HyperLink.Shell
import HyperLink.Wire
import HyperLink.Path
import HyperLink.FileSystem
import HyperLink.Resolution
import HyperLink.Options
import HyperLink.Connection
import HyperLink.HeaderCodec
import HyperLink.Receiver
import HyperLink.Reference
import HyperLink.SingleReceiver
import HyperLink.Sender
import HyperLink.Records
import HyperLink.Partition
import HyperLink.NearOptimal
import HyperLink.Framing
import HyperLink.FileTransfer
import HyperLink.PartBounds
import HyperLink.Preparation
import HyperLink.SourceTree
import HyperLink.DirectoryListing
import HyperLink.RelativePaths
import HyperLink.DirectoryTransfer
import HyperLink.Truncation
import HyperLink.Confinement
import HyperLink.Selection
import HyperLink.Advertisement
import HyperLink.AdvertisementGrammar
import HyperLink.Responder
import HyperLink.ProbeServer
import HyperLink.PeerSelection
import HyperLink.AutoConfig
import HyperLink.Session
import HyperLink.TcpTransport
import HyperLink.Arguments
import HyperLink.NumericArguments
import HyperLink.ArgumentOrder
import HyperLink.Bench
import HyperLink.Cli
import HyperLink.ShellCommands
import HyperLink.TarSender
import HyperLink.FileHeaders
import HyperLink.RankingOrder
import HyperLink.WindowsArguments
import HyperLink.WindowsCommands
import HyperLink.BytePipe
import HyperLink.SymlinkFallback
import HyperLink.DiscoveryTargets
import HyperLink.ResponderThreads
import HyperLink.ResponderShutdown
import HyperLink.Search
import HyperLink.Discovery
import HyperLink.ProbeClient
import HyperLink.PartialTransfer
import HyperLink.Foretelling
import HyperLink.LiveReceiver
import HyperLink.LiveTransfer
import HyperLink.Evidence
import HyperLink.LiveSender
import HyperLink.EndOfStream
import HyperLink.CleanTransfer
import HyperLink.BothEnds
import HyperLink.EndToEnd
