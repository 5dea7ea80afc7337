import MegaKV.Hash.Table
import MegaKV.Hash.Kernel
import MegaKV.Hash.Conservation
import MegaKV.Hash.Placement
import MegaKV.Library.Transition
import MegaKV.Scheduler.HandOff
import MegaKV.Scheduler.Rotation
import MegaKV.Library.Clock
import MegaKV.Slab.Bitmap
import MegaKV.Slab.ClockRefinement
import MegaKV.Library.LinkedList
import MegaKV.Slab.Slabs
import MegaKV.Slab.BatchAlloc
import MegaKV.Slab.FreeLists
import MegaKV.Slab.ChunkSize
import MegaKV.Slab.DeleteJobs
import MegaKV.Sender.Destination
import MegaKV.Sender.KeyMatch
import MegaKV.Library.View
import MegaKV.Receiver.Packet
import MegaKV.Receiver.Bounds
import MegaKV.Receiver.Framing
import MegaKV.Hash.Operations
import MegaKV.Hash.Search
import MegaKV.Hash.Phantom
import MegaKV.Hash.ReadBack
import MegaKV.Hash.Chains
import MegaKV.Hash.SingleEntry
import MegaKV.Hash.Regions
import MegaKV.Hash.InsertBlocks
import MegaKV.Slab.Calls
import MegaKV.Sender.Codec
import MegaKV.Library.Buffers
import MegaKV.Receiver.Encode
import MegaKV.Receiver.RoundTrip
import MegaKV.Receiver.Preload
import MegaKV.Library.Period
import MegaKV.Scheduler.Countdown
import MegaKV.Library.Ledger
import MegaKV.Scheduler.Jobs
import MegaKV.Scheduler.JobLedger
import MegaKV.Scheduler.JobOrder
import MegaKV.Scheduler.StartUp
import MegaKV.Scheduler.Streams
import MegaKV.Scheduler.LockFree
import MegaKV.Receiver.Signature
import MegaKV.Sender.Completeness
import MegaKV.Slab.Exhaustion
import MegaKV.Slab.EvictedJobs
import MegaKV.Store.Node
import MegaKV.Library.Strided
import MegaKV.Hash.Launches
import MegaKV.Library.Runs
import MegaKV.Receiver.Compact
import MegaKV.Receiver.Swap
import MegaKV.Receiver.Capacity
import MegaKV.Sender.PrefetchRun
import MegaKV.Sender.Records
import MegaKV.Sender.PlainRun
import MegaKV.Sender.SameAnswers
import MegaKV.Sender.Recency
import MegaKV.Library.Packing
import MegaKV.Sender.Transmission
import MegaKV.Sender.Responses
import MegaKV.Receiver.Writes
import MegaKV.Receiver.WrongLengths
import MegaKV.Library.Cyclic
import MegaKV.Hash.Lanes
import MegaKV.Hash.CyclicInsert
import MegaKV.Slab.SingleEvict
import MegaKV.Slab.SingleClock
import MegaKV.Library.History
import MegaKV.Store.Recorded
import MegaKV.Store.Ownership
import MegaKV.Store.KernelOrder
import MegaKV.Store.Reuse
import MegaKV.Library.Threads
import MegaKV.Hash.Threads
import MegaKV.Hash.Provenance
import MegaKV.Hash.Progress
import MegaKV.Hash.Alone
import MegaKV.Hash.Apart
import MegaKV.Library.Sequenced
import MegaKV.Hash.Lookup
import MegaKV.Store.Index
import MegaKV.Store.Server
import MegaKV.Store.Commands
import MegaKV.Store.Underway
import MegaKV.Store.Results
import MegaKV.Store.Serving
import MegaKV.Store.Rounds
import MegaKV.Store.Answers
import MegaKV.Store.Tally
import MegaKV.Store.Conserved
