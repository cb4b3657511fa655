import NixHomeServer.AiGate.Queue
import NixHomeServer.Browsertrix.CaptureRules
import NixHomeServer.Browsertrix.Captures
import NixHomeServer.Browsertrix.Closure
import NixHomeServer.Browsertrix.Digests
import NixHomeServer.Browsertrix.Discard
import NixHomeServer.Browsertrix.Estimates
import NixHomeServer.Browsertrix.Framing
import NixHomeServer.Browsertrix.Materialize
import NixHomeServer.Browsertrix.Metadata
import NixHomeServer.Browsertrix.ProfileReaders
import NixHomeServer.Browsertrix.Publication
import NixHomeServer.Browsertrix.Removal
import NixHomeServer.Browsertrix.Repair
import NixHomeServer.Browsertrix.Selection
import NixHomeServer.Browsertrix.Stranded
import NixHomeServer.Browsertrix.UriDecoding
import NixHomeServer.Downloader.Endings
import NixHomeServer.Downloader.Published
import NixHomeServer.Downloader.SafeNames
import NixHomeServer.Downloader.Wakeups
import NixHomeServer.Filesync.Estimate
import NixHomeServer.Filesync.HashReuse
import NixHomeServer.Groundwater.AckOrder
import NixHomeServer.Groundwater.AlertReplay
import NixHomeServer.Groundwater.ClockRange
import NixHomeServer.Groundwater.Duplicates
import NixHomeServer.Groundwater.WakeWindow
import NixHomeServer.HomelabCommon.Ranges
import NixHomeServer.Homepage.Guesses
import NixHomeServer.Homepage.SetupCache
import NixHomeServer.MailArchive.HandoffRecords
import NixHomeServer.MailArchive.HeaderDecoding
import NixHomeServer.MailArchive.RefreshRuns
import NixHomeServer.MailArchive.SavedFilters
import NixHomeServer.MailArchive.SyncLock
import NixHomeServer.MediaManager.ArtworkLevels
import NixHomeServer.MediaManager.FailedReplace
import NixHomeServer.MediaManager.Naming
import NixHomeServer.MediaManager.PlaylistOrder
import NixHomeServer.MediaManager.SubtitleRoundTrip
import NixHomeServer.MediaManager.SubtitleRows
import NixHomeServer.MkvMaker.NaturalOrder
import NixHomeServer.Search.Clauses
import NixHomeServer.Search.Digests
import NixHomeServer.Search.Highlights
import NixHomeServer.Search.Indexer
import NixHomeServer.Search.Parts
import NixHomeServer.ShareGate.Gate
