import HathRs.PcacheJavaExporter
import HathRs.MigrationAtomicity
import HathRs.SnapshotLifetimes
import HathRs.SnapshotValidation
import HathRs.ProxyFinalization
import HathRs.ProxyProtocol
import HathRs.CacheAccounting
import HathRs.RangeEntries
import HathRs.ShutdownRun
import HathRs.RequestSignatures
import HathRs.FloodControl
import HathRs.BandwidthMonitor
import HathRs.SessionAccounting
import HathRs.RpcRouter
import HathRs.CertRefresh
import HathRs.GalleryDownload
import HathRs.FileDownloads
import HathRs.PrunePasses
import HathRs.PruneDecision
import HathRs.StartupCleanup
import HathRs.GalleryDirectories
import HathRs.FileBodies
import HathRs.QuotaPayments
import HathRs.AttemptBudget
import HathRs.CertificateChains
import HathRs.PeerLocality
import HathRs.CanonicalIds
import HathRs.PublishedCounts
import HathRs.LogRotation
import HathRs.LruSweep
import HathRs.ConfigUpdates
import HathRs.GallerySupervisor
import HathRs.RequestHandling
import HathRs.ResponseDelivery
import HathRs.ProxiedTransfers
import HathRs.RpcCalls
import HathRs.FileVerification
