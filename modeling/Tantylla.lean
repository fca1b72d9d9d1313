import Tantylla.Lib.Register
import Tantylla.Node.Step
import Tantylla.Node.Cell
import Tantylla.Node.Deletes
import Tantylla.Node.Held
import Tantylla.Node.Durable
import Tantylla.Node.Cells
import Tantylla.Node.Replay
import Tantylla.Node.Retry
import Tantylla.Node.Consistent
import Tantylla.Node.Upserts
import Tantylla.Ingestor.Batch
import Tantylla.Ingestor.Cql
import Tantylla.Ingestor.Router
import Tantylla.Ingestor.InOrder
import Tantylla.Ingestor.RangeDelete
import Tantylla.Lib.Pool
import Tantylla.Ingestor.Delivery
import Tantylla.Ingestor.Checkpoint
import Tantylla.Ingestor.Ids
import Tantylla.Ingestor.Ranges
import Tantylla.Ingestor.Pairing
import Tantylla.Ingestor.RangeReads
import Tantylla.Ingestor.Arrivals
import Tantylla.Ingestor.FlushRun
import Tantylla.Ingestor.Backpressure
import Tantylla.Gateway.Page
import Tantylla.Gateway.Facets
import Tantylla.Node.Expiry
import Tantylla.Node.Counts
import Tantylla.Node.Listing
import Tantylla.Node.Pruning
import Tantylla.Ingestor.MapDeltas
import Tantylla.Ingestor.PostImage
import Tantylla.Lib.Cut
import Tantylla.Node.MergeLaws
import Tantylla.Node.Generations
import Tantylla.Node.Matches
import Tantylla.Node.Query
import Tantylla.Node.SpecialQuery
import Tantylla.Node.Expansion
import Tantylla.Node.Facets
import Tantylla.Gateway.DeepPages
import Tantylla.Lib.TextOrder
import Tantylla.Ingestor.KeyTexts
import Tantylla.Ingestor.KeyOrder
import Tantylla.Cluster.Answers
import Tantylla.Cluster.Complete
import Tantylla.Cluster.View
import Tantylla.Ingestor.TableView
import Tantylla.Ingestor.Capacity
import Tantylla.Gateway.Degraded
import Tantylla.Node.LastRow
import Tantylla.Node.SetColumns
import Tantylla.Node.Snapshots
import Tantylla.Node.Batching
import Tantylla.Cluster.RangeEffect
import Tantylla.Cluster.Shutdown
import Tantylla.Cluster.Recovery
