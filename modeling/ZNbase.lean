import ZNbase.Tablet.MvccMonotone
import ZNbase.Consensus.RetryableRequestsOnce
import ZNbase.Tablet.RetentionPolicy
import ZNbase.Docdb.LockExclusion
import ZNbase.Tablet.PendingAnswers
import ZNbase.Tablet.ResolveIntents
import ZNbase.Docdb.WriteIntents
import ZNbase.Docdb.ConflictResolution
import ZNbase.Tablet.WalReplay
import ZNbase.Server.HybridClockMonotone
import ZNbase.Common.PartitionTiling
import ZNbase.Docdb.SubDocKey
import ZNbase.Redisserver.PacketBoundaries
import ZNbase.Consensus.ConfigChange
import ZNbase.Consensus.PrecedingId
import ZNbase.Consensus.ElectionDecision
import ZNbase.Consensus.PropagatedSafeTime
import ZNbase.Docdb.KeyDecoding
import ZNbase.Lib.UnaryLength
import ZNbase.Redisserver.Expiry
import ZNbase.Docdb.ExternalIntents
import ZNbase.Consensus.RetryableRanges
import ZNbase.Docdb.ReverseIndex
