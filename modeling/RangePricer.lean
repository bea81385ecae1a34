import RangePricer.Server.Prices
import RangePricer.Client.Reply
import RangePricer.Process.Signals
import RangePricer.Process.Joins
import RangePricer.Server.Slicing
import RangePricer.Server.Positive
import RangePricer.Pricing.Coverage
import RangePricer.Client.RequestHash
import RangePricer.Client.GridValues
import RangePricer.Server.Completion
import RangePricer.Network.Machine
import RangePricer.Network.Delivery
import RangePricer.Network.Liveness
import RangePricer.Codec.CheckedReads
import RangePricer.Server.MemorySafety
import RangePricer.Process.Shutdown
import RangePricer.Process.Service
import RangePricer.FlatBuffers.VectorCalls
import RangePricer.Server.Building
import RangePricer.Client.Program
import RangePricer.Network.Grids
