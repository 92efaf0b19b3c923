import Skywing.Core.LTS
import Skywing.Core.Types
import Skywing.Core.Ends
import Skywing.Core.Maps
import Skywing.Core.Idempotent
import Skywing.Core.WaitGraph
import Skywing.Core.Frexp
import Skywing.Core.ZipIter
import Skywing.Core.Verdict
import Skywing.Core.Simulation
import Skywing.Core.Windows
import Skywing.Core.Templates
import Skywing.L1Encoding.Framing
import Skywing.L1Encoding.Text
import Skywing.L1Encoding.PubSubConverter
import Skywing.L1Encoding.PubSubRoundTrip
import Skywing.L1Encoding.PubSubLanguage
import Skywing.L1Encoding.PublishValue
import Skywing.L1Encoding.ReadBounds
import Skywing.L1Encoding.ReceivedSizes
import Skywing.L1Encoding.TupleComponents
import Skywing.L1Encoding.CarriedSizes
import Skywing.L1Encoding.AddressText
import Skywing.L1Encoding.SplitViews
import Skywing.L1Encoding.ConfigFile
import Skywing.L1Encoding.Interpolation
import Skywing.L2Machine.TagBuffer
import Skywing.L2Machine.Socket
import Skywing.L2Machine.FifoOrder
import Skywing.L2Machine.ReadChunked
import Skywing.L3Protocol.Job
import Skywing.L3Protocol.Receive
import Skywing.L3Protocol.ReduceGroup
import Skywing.L3Protocol.GroupEpochs
import Skywing.L3Protocol.ReduceTree
import Skywing.L3Protocol.ExternalManager
import Skywing.L3Protocol.Manager
import Skywing.L3Protocol.ManagerMessages
import Skywing.L3Protocol.TagFrame
import Skywing.L3Protocol.Feed
import Skywing.L3Protocol.SearchFrame
import Skywing.L3Protocol.SearchReplies
import Skywing.L3Protocol.NeighborList
import Skywing.L3Protocol.ReduceWaiters
import Skywing.L3Protocol.TypedValues
import Skywing.L3Protocol.RecordFrame
import Skywing.L3Protocol.ValueFrame
import Skywing.L3Protocol.PendingTags
import Skywing.L3Protocol.Delivery
import Skywing.L3Protocol.Rebuild
import Skywing.L3Protocol.ParallelLists
import Skywing.L3Protocol.Backoff
import Skywing.L4App.PushSum
import Skywing.L4App.Iterative
import Skywing.L4App.MainLoop
import Skywing.L4App.TagSteps
import Skywing.L4App.FreshUpdates
import Skywing.L4App.GroupMembers
import Skywing.L4App.SearchSteps
import Skywing.L4App.OneReply
import Skywing.L4App.Waiting
import Skywing.L4App.Orphans
import Skywing.L4App.Turns
import Skywing.L4App.Jacobi
import Skywing.L4App.JacobiOwners
import Skywing.L4App.JacobiGenerations
import Skywing.L4App.PushSumHull
import Skywing.L4App.PushSumConsensus
import Skywing.L4App.CutOff
import Skywing.L4App.References
import Skywing.L4App.PublisherChoice
import Skywing.L4App.Subscriptions
import Skywing.L4App.TagKinds
import Skywing.L4App.OneNotice
import Skywing.L4App.BigFloat
import Skywing.L4App.Pow2
import Skywing.L4App.AssociativeVector
import Skywing.L4App.PushFlow
import Skywing.L4App.Connected
import Skywing.L4App.IpSubscribe
import Skywing.L4App.ConvertBack
import Skywing.L4App.PolicyTuple
import Skywing.L4App.Parts
import Skywing.L5Concurrency.Lockstep
import Skywing.L5Concurrency.Disconnection
import Skywing.L5Concurrency.ReduceRounds
import Skywing.L5Concurrency.Gossip
import Skywing.L5Concurrency.PublisherKnowledge
import Skywing.L5Concurrency.CircularWait
import Skywing.L5Concurrency.CollectiveCount
import Skywing.L5Concurrency.Wakeups
import Skywing.L5Concurrency.UpdateOrder
import Skywing.L5Concurrency.JacobiNetwork
import Skywing.L5Concurrency.PublishedValues
