import LibOp.Balloc.StaleMagazines
import LibOp.Balloc.Threads
import LibOp.Base64.RoundTrip
import LibOp.Bloom.Filter
import LibOp.Cidr.PrefixCounts
import LibOp.Clock.HlcDrift
import LibOp.Clock.VclockWire
import LibOp.Commio.Writev
import LibOp.Crdt.ContextDenotation
import LibOp.Crdt.ForgottenDots
import LibOp.Crdt.LwwConvergence
import LibOp.Crdt.ObservedRemove
import LibOp.Event.Deletion
import LibOp.Graph.Bookkeeping
import LibOp.HashTable.Compaction
import LibOp.HashTable.Merging
import LibOp.Hll.Registers
import LibOp.Itree.Invariants
import LibOp.Linebuf.CutIndependence
import LibOp.Linebuf.WholeLines
import LibOp.Lru.KeyOwnership
import LibOp.Merkle.Buckets
import LibOp.Queues.Mpmc
import LibOp.Queues.ShmDelivery
import LibOp.Queues.SingleProducer
import LibOp.Ratelimit.Retries
import LibOp.Rbt.Invariants
import LibOp.Rbt.Iteration
import LibOp.Sendbuf.EnqueueOrder
import LibOp.Sendbuf.InboxOrder
import LibOp.Skiplist.OrderedMap
import LibOp.Strings.ComposedStrings
import LibOp.Strings.Parameters
import LibOp.Toml.RoundTrip
import LibOp.Trie.Walks
import LibOp.Websocket.ClientFrames
import LibOp.Websocket.CloseLast
import LibOp.Websocket.Delivery
import LibOp.Websocket.RawbufFifo
import LibOp.Websocket.WriteLedger
import LibOp.Wm.Window
