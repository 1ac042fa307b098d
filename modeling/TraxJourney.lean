import TraxJourney.Access.Isolation
import TraxJourney.Access.MailLimit
import TraxJourney.Access.Removal
import TraxJourney.Activity.Ciphertext
import TraxJourney.Activity.Converged
import TraxJourney.Activity.EditedMark
import TraxJourney.Activity.FamilyRuns
import TraxJourney.Activity.PlaintextColumn
import TraxJourney.Activity.SplitShares
import TraxJourney.Billing.Orders
import TraxJourney.Billing.PreviewLimit
import TraxJourney.Billing.RefundOnce
import TraxJourney.Billing.TripDays
import TraxJourney.Crypto.ContentKey
import TraxJourney.Days.Exportable
import TraxJourney.Days.Filters
import TraxJourney.Days.Merge
import TraxJourney.Device.Freshness
import TraxJourney.Geo.Cache
import TraxJourney.Geo.Decimation
import TraxJourney.Geo.Tolerance
import TraxJourney.Geo.TripFeatures
import TraxJourney.Geo.Viewport
import TraxJourney.Gpx.Extensions
import TraxJourney.Gpx.FormTimes
import TraxJourney.Gpx.MovingTime
import TraxJourney.Gpx.Preview
import TraxJourney.Imports.Insertion
import TraxJourney.Imports.Once
import TraxJourney.Imports.Ownership
import TraxJourney.Imports.RestoredFamilies
import TraxJourney.Imports.StravaQuota
import TraxJourney.Jobs.UpstreamSlots
import TraxJourney.Memories.Threads
import TraxJourney.Overpass.RelationGeometry
import TraxJourney.People.Together
import TraxJourney.Photos.OrderRuns
import TraxJourney.Poster.PerimeterPlacement
import TraxJourney.Poster.TileFetch
import TraxJourney.Rail.NearestNode
import TraxJourney.Routes.Coherent
import TraxJourney.Routes.Ends
import TraxJourney.Routes.HandDrawn
import TraxJourney.Routes.Pending
import TraxJourney.Routes.Sweeps
import TraxJourney.Stats.Tags
import TraxJourney.Timeline.Gaps
import TraxJourney.Timeline.PayloadWrites
import TraxJourney.Timeline.Reconcile
import TraxJourney.Timeline.Sorting
import TraxJourney.Track.Dropout
import TraxJourney.Track.LowRes
import TraxJourney.Track.PolylineCodec
import TraxJourney.Track.Terrain
import TraxJourney.Track.TrimWindow
import TraxJourney.Transfer.DocumentScan
import TraxJourney.Transfer.Elevations
import TraxJourney.Transfer.Provenance
import TraxJourney.Video.Basemaps
import TraxJourney.Video.Follow
import TraxJourney.Video.Unwrapped
