import Omnibus.Annotations.CaughtUp
import Omnibus.Annotations.Deleted
import Omnibus.Annotations.Fingerprint
import Omnibus.Audiobooks.Group
import Omnibus.Audiobooks.Id3
import Omnibus.Audiobooks.SampleTables
import Omnibus.BookPages.ClientAgreement
import Omnibus.Cleanup.Reversed
import Omnibus.Cleanup.SplitTags
import Omnibus.CrossFormat.AudioOrder
import Omnibus.CrossFormat.Interleavings
import Omnibus.CrossFormat.Piecewise
import Omnibus.CrossFormat.Timeline
import Omnibus.Downloads.OwnBytes
import Omnibus.Downloads.Survives
import Omnibus.Downloads.Swap
import Omnibus.KoboPosition.ElementAnchor
import Omnibus.KoboPosition.ResumePosition
import Omnibus.KoboPosition.SpineMatch
import Omnibus.KoboPosition.TextSpans
import Omnibus.KoboPosition.TocAnchors
import Omnibus.KoboSync.Heard
import Omnibus.KoboSync.Holdings
import Omnibus.Koreader.Accounted
import Omnibus.Koreader.Agreement
import Omnibus.Koreader.Requests
import Omnibus.KoreaderPosition.RoundTrip
import Omnibus.LibraryMirror.Whole
import Omnibus.Merge.ChosenStatus
import Omnibus.Merge.CurationUndone
import Omnibus.Merge.Undo
import Omnibus.Outbox.Dependants
import Omnibus.Outbox.Landed
import Omnibus.Outbox.Stalled
import Omnibus.Placement.Located
import Omnibus.Progress.Rejected
import Omnibus.Requests.Picks
import Omnibus.ReviewReplica.Settles
import Omnibus.Scan.OneOwner
import Omnibus.Scan.OneScan
import Omnibus.Scan.Rescanned
import Omnibus.Scan.Returned
import Omnibus.Search.Query
import Omnibus.Shelves.Predicate
import Omnibus.Stats.Pages
import Omnibus.Stats.Sittings
