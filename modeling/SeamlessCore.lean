import SeamlessCore.Expression.Path
import SeamlessCore.Expression.PathCodec
import SeamlessCore.Cache.BufferCache
import SeamlessCore.Cache.Accounting
import SeamlessCore.Cache.Effects
import SeamlessCore.Cache.Publication
import SeamlessCore.Expression.Shared
import SeamlessCore.Expression.Waiters
import SeamlessCore.Checksum.Libraries
import SeamlessCore.HashType.Word
import SeamlessCore.HashType.Classify
import SeamlessCore.Checksum.Parse
import SeamlessCore.Checksum.Laws
import SeamlessCore.HashType.Agreement
import SeamlessCore.Checksum.Serialize
import SeamlessCore.Conversion.Engine
import SeamlessCore.Conversion.Content
import SeamlessCore.Conversion.Validity
import SeamlessCore.Conversion.Refinement
import SeamlessCore.Conversion.Written
import SeamlessCore.Checksum.Small
import SeamlessCore.Lib.Tighten
import SeamlessCore.HashType.Store
import SeamlessCore.Conversion.Soundness
import SeamlessCore.Expression.Evaluations
import SeamlessCore.Expression.Claims
import SeamlessCore.Expression.Discipline
import SeamlessCore.Expression.Scratch
import SeamlessCore.Checksum.SerializeCache
import SeamlessCore.Lib.SortKeys
import SeamlessCore.Mixed.Value
import SeamlessCore.Mixed.Form
import SeamlessCore.Mixed.Stream
import SeamlessCore.Mixed.Canonical
import SeamlessCore.Mixed.Addressing
import SeamlessCore.Celljoin.Parse
import SeamlessCore.Celljoin.Evaluate
import SeamlessCore.Celljoin.Small
import SeamlessCore.Cells.Standalone
import SeamlessCore.Cells.Staleness
import SeamlessCore.Expression.Evaluate
import SeamlessCore.Expression.Materialize
import SeamlessCore.Expression.Reachable
import SeamlessCore.Cache.EvictionCost
import SeamlessCore.Cache.Release
import SeamlessCore.Cache.Registry
import SeamlessCore.Cache.Costs
import SeamlessCore.Cache.Interest
import SeamlessCore.Cache.InForce
import SeamlessCore.Cache.Owners
import SeamlessCore.Cells.Refholds
import SeamlessCore.Cells.DeepIndex
import SeamlessCore.Recovery.Attempts
import SeamlessCore.Recovery.Fingertip
import SeamlessCore.Conversion.Feasible
import SeamlessCore.Expression.LocalEvaluation
import SeamlessCore.Cache.Eviction
import SeamlessCore.Cache.Raises
import SeamlessCore.Cache.Retention
import SeamlessCore.Cache.BufferSource
import SeamlessCore.Cache.BufferWriter
import SeamlessCore.Cache.WriterInvariant
import SeamlessCore.Cache.WriterDurability
import SeamlessCore.Cache.WriterRetry
import SeamlessCore.Errors.Envelope
import SeamlessCore.Celljoin.Codec
import SeamlessCore.Celljoin.Reading
import SeamlessCore.Expression.Identity
import SeamlessCore.Checksum.ChecksumCache
import SeamlessCore.Conversion.Verdicts
import SeamlessCore.Conversion.Knowledge
import SeamlessCore.Lib.Ring
import SeamlessCore.Util.Pylru
import SeamlessCore.Util.PylruRuns
import SeamlessCore.Mixed.Reader
import SeamlessCore.Mixed.Pieces
import SeamlessCore.Mixed.Proper
import SeamlessCore.Mixed.Descriptions
import SeamlessCore.Mixed.RoundTrip
import SeamlessCore.Mixed.Buffers
import SeamlessCore.Checksum.ParseCache
