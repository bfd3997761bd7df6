import Scryd.Foundation.Table
import Scryd.Foundation.Run
import Scryd.Foundation.Autocommit
import Scryd.Foundation.Grown
import Scryd.Foundation.Migration
import Scryd.Foundation.Overlay
import Scryd.Foundation.Publish
import Scryd.Foundation.Wakeup
import Scryd.Foundation.Ranking
import Scryd.Foundation.Selection
import Scryd.Foundation.Overfetch
import Scryd.Foundation.Tiling
import Scryd.Foundation.Text
import Scryd.Foundation.Trim
import Scryd.Foundation.Utf8
import Scryd.Foundation.Pattern
import Scryd.Foundation.Scan
import Scryd.Foundation.Replace
import Scryd.Search.Document
import Scryd.Search.Boundary
import Scryd.Search.Coverage
import Scryd.Search.Segmenter
import Scryd.Search.Snippet
import Scryd.Search.Render
import Scryd.Search.RenderChars
import Scryd.Search.Highlight
import Scryd.Search.Witchcraft
import Scryd.Search.Indexer
import Scryd.Search.Query
import Scryd.Search.Dedup
import Scryd.Search.BestHits
import Scryd.Search.Drainer
import Scryd.Search.Retry
import Scryd.Search.Sanitize
import Scryd.Search.Cadence
import Scryd.Storage.Schema
import Scryd.Storage.Messages
import Scryd.Storage.SyncState
import Scryd.Storage.Queue
import Scryd.Storage.Raw
import Scryd.Storage.RawWriters
import Scryd.Storage.Migrations
import Scryd.Storage.DaemonRuns
import Scryd.Storage.Reconcile
import Scryd.Storage.Mirror
import Scryd.Storage.History
import Scryd.Storage.Atomicity
import Scryd.Storage.Threading
import Scryd.Storage.Reenqueue
import Scryd.Mime.Message
import Scryd.Mime.References
import Scryd.Mime.NormalForm
import Scryd.Mime.Caps
import Scryd.Mime.HtmlClean
import Scryd.Mime.TinyImage
import Scryd.Mime.Nodes
import Scryd.Mime.OnePass
import Scryd.Mime.TrackingPixel
import Scryd.Mime.Email
import Scryd.Mime.InlineImages
import Scryd.Mime.Body
import Scryd.Mime.Parse
import Scryd.Config.Loader
import Scryd.Imap.Sink
import Scryd.Imap.Client
import Scryd.Imap.Tombstone
import Scryd.Imap.Fetch
import Scryd.Imap.Supervisor
import Scryd.Imap.Watermark
import Scryd.Imap.Monotone
import Scryd.Imap.Backfill
import Scryd.Imap.Offered
import Scryd.Imap.Idle
import Scryd.Imap.Scheduler
import Scryd.Imap.Supervision
import Scryd.Imap.Backoff
import Scryd.Imap.Health
import Scryd.Imap.Resume
import Scryd.Mcp.Scope
import Scryd.Mcp.Dto
import Scryd.Mcp.Read
import Scryd.Mcp.Thread
import Scryd.Mcp.Noninterference
import Scryd.Mcp.Status
import Scryd.Mcp.Search
import Scryd.Mcp.SearchNoninterference
import Scryd.Mcp.SearchResult
import Scryd.Mcp.SearchBest
import Scryd.Runtime.Sink
import Scryd.Runtime.Ingest
import Scryd.Runtime.MailIngest
import Scryd.Runtime.Delivery
import Scryd.Runtime.Wakeup
import Scryd.Runtime.Teardown
import Scryd.Runtime.RawConsistency
import Scryd.Runtime.TombstoneScan
import Scryd.Runtime.Watermark
import Scryd.Runtime.CrashBackoff
import Scryd.Runtime.SegmentIds
import Scryd.Runtime.MessageIds
import Scryd.Runtime.Health
import Scryd.Runtime.IdleScans
import Scryd.Runtime.Folders
import Scryd.Runtime.StartupFilter
import Scryd.Runtime.Resubmit
import Scryd.Runtime.ServedMailbox
import Scryd.Runtime.Indexed
import Scryd.Runtime.CatchUp
import Scryd.Runtime.SearchServed
