import MatchingEngine.Foundation.Chain
import MatchingEngine.Foundation.LevelBook
import MatchingEngine.Foundation.Levels
import MatchingEngine.Foundation.LinearProbing
import MatchingEngine.Foundation.Outcome
import MatchingEngine.Foundation.PriceTime
import MatchingEngine.Core.FillOrKill
import MatchingEngine.Core.FlatHashMap
import MatchingEngine.Core.FlatHashMapLaws
import MatchingEngine.Core.Invariant
import MatchingEngine.Core.Leaving
import MatchingEngine.Core.Matching
import MatchingEngine.Core.Order
import MatchingEngine.Core.OrderBookV2
import MatchingEngine.Core.PriceAxis
import MatchingEngine.Core.Reference
import MatchingEngine.Core.Refinement
import MatchingEngine.Core.Resting
import MatchingEngine.Core.Runs
import MatchingEngine.Core.Surgery
import MatchingEngine.Core.Correctness
import MatchingEngine.Core.Conservation
import MatchingEngine.Foundation.LevelMap
import MatchingEngine.V1.Agreement
import MatchingEngine.Core.LimitOrders
import MatchingEngine.Feed.Accounting
import MatchingEngine.Feed.MoldUdp64Session
import MatchingEngine.Feed.Recovery
import MatchingEngine.Feed.SelfTrade
import MatchingEngine.Core.AllOrNothing
import MatchingEngine.Feed.Mirror
import MatchingEngine.Feed.Rejections
import MatchingEngine.Feed.Sharding
import MatchingEngine.Core.FlatHashMapRuns
import MatchingEngine.Core.SpscRing
import MatchingEngine.Feed.ItchParser
import MatchingEngine.Feed.MoldUdp64Framing
import MatchingEngine.Core.Emptied
import MatchingEngine.Sidecar.Risk
import MatchingEngine.Sidecar.Fix
import MatchingEngine.Feed.Acceptance
import MatchingEngine.Feed.ItchSimdNeon
import MatchingEngine.V1.EmptyOrders
import MatchingEngine.Feed.GapRequests
import MatchingEngine.Core.ReusedIds
import MatchingEngine.Core.Arithmetic
import MatchingEngine.Feed.SelfTradePrecision
import MatchingEngine.Core.HotPath
import MatchingEngine.Foundation.FairRuns
import MatchingEngine.Feed.Retransmission
import MatchingEngine.Feed.RetransmissionRuns
import MatchingEngine.Feed.TcpSocket
import MatchingEngine.Feed.SnapshotRecovery
import MatchingEngine.Core.Pipeline
import MatchingEngine.Core.PriceBand
import MatchingEngine.Core.ThreadedMatcher
import MatchingEngine.V1.Fuzz
import MatchingEngine.Foundation.FairDispatch
import MatchingEngine.Foundation.Framing
import MatchingEngine.Feed.ItchRoundTrip
import MatchingEngine.Feed.BinaryFile
import MatchingEngine.Feed.ConcurrentPipeline
import MatchingEngine.Tools.LobsterFile
import MatchingEngine.Tools.LobsterReplay
import MatchingEngine.Sidecar.Engine
import MatchingEngine.Feed.MarketDataFeed
