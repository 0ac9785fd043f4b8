import Provework.Lib.Bytes
import Provework.Lib.BitField
import Provework.Lib.HashChain
import Provework.Lib.Slice
import Provework.Lib.Sampling
import Provework.Lib.Simulation
import Provework.Lib.Loop
import Provework.Lib.Text
import Provework.Lib.Tally
import Provework.Lib.Attempt
import Provework.Lib.History
import Provework.Lib.Delivery
import Provework.Lib.Reactive
import Provework.Lib.Quota
import Provework.Isa.Rv64
import Provework.Isa.Rv64C
import Provework.Isa.Zicsr
import Provework.Rvcore.Mem
import Provework.Rvcore.MemInv
import Provework.Rvcore.MemRefine
import Provework.Rvcore.Cpu
import Provework.Rvcore.Interp
import Provework.Rvcore.Alu
import Provework.Rvcore.Decode
import Provework.Rvcore.Conform
import Provework.Rvcore.Division
import Provework.Rvcore.Compressed
import Provework.Rvcore.Hints
import Provework.Rvcore.Hash
import Provework.Rvcore.Snapshot
import Provework.Rvcore.SnapshotFormat
import Provework.Rvcore.Run
import Provework.Rvcore.Chain
import Provework.Rvcore.Budget
import Provework.Rvcore.Twin
import Provework.Rvcore.Chunk
import Provework.Rvcore.ChunkBound
import Provework.Rvcore.Resume
import Provework.Rvcore.Elf
import Provework.Rvcore.ElfFormat
import Provework.Rvcore.ElfLoad
import Provework.Rvcore.Effects
import Provework.Rvcore.Tohost
import Provework.Rvcore.Csr
import Provework.Rvcore.Execution
import Provework.Rvcore.History
import Provework.Jobfmt
import Provework.Jobfmt.SigningMessage
import Provework.Jobfmt.Paths
import Provework.Contentstore
import Provework.Contentstore.Put
import Provework.Wire
import Provework.Wire.Pow
import Provework.Wire.Framing
import Provework.Coordinator.Dispute
import Provework.Coordinator.HexDecoders
import Provework.Coordinator.Judge
import Provework.Coordinator.Verdicts
import Provework.Coordinator.Quorum
import Provework.Coordinator.Majority
import Provework.Coordinator.Serve
import Provework.Coordinator.NetJudge
import Provework.Coordinator.ReceiptClaims
import Provework.Coordinator.Moves
import Provework.Coordinator.Deals
import Provework.Coordinator.ServeAuth
import Provework.Coordinator.ServeVotes
import Provework.Coordinator.ServeCounted
import Provework.Coordinator.ServeNotices
import Provework.Coordinator.ServeReceipt
import Provework.Coordinator.ServePool
import Provework.Coordinator.ServePanics
import Provework.Coordinator.ServeEscalation
import Provework.Coordinator.Timeliness
import Provework.Coordinator.ServeVerifier
import Provework.Coordinator.Round1
import Provework.Coordinator.ServeOwners
import Provework.Coordinator.Scan
import Provework.Coordinator.Ledger
import Provework.Sp1Host
import Provework.Coordinator.ProveQueue
import Provework.Coordinator.NamedFiles
import Provework.Worker.Daemon
import Provework.Contentstore.Publish
import Provework.Worker.Verdict
import Provework.Worker.Session
import Provework.Worker.Fetch
import Provework.Worker.CommandLine
import Provework.Coordinator.LocalRun
import Provework.Coordinator.HonestMajority
import Provework.Coordinator.Bystanders
import Provework.Coordinator.Uploads
import Provework.Coordinator.Sessions
import Provework.Coordinator.Conversations
import Provework.Worker.Client
import Provework.Worker.Conversation
import Provework.Jobkit.Submit
import Provework.Jobkit.Arrival
