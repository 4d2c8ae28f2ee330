import DogeConnect.Lib.Digits
import DogeConnect.Lib.Merkle
import DogeConnect.Lib.Framing
import DogeConnect.Lib.Layout
import DogeConnect.Lib.Run
import DogeConnect.Lib.Writes
import DogeConnect.Lib.Tally
import DogeConnect.Lib.RoundDown
import DogeConnect.Lib.Source
import DogeConnect.Lib.Window
import DogeConnect.Lib.Fixed
import DogeConnect.Lib.Absorb
import DogeConnect.Lib.Sha2
import DogeConnect.Lib.Loop
import DogeConnect.Lib.Kdf
import DogeConnect.Lib.Salsa
import DogeConnect.Lib.RoMix
import DogeConnect.Lib.ArrayLayout
import DogeConnect.Lib.PrefixCode
import DogeConnect.Lib.TxFormat
import DogeConnect.Lib.ScriptReader
import DogeConnect.Lib.MergedProof
import DogeConnect.Lib.Batches
import DogeConnect.Bytes
import DogeConnect.PacketDedup
import DogeConnect.HashUtil
import DogeConnect.HexText
import DogeConnect.Difficulty
import DogeConnect.CompactTarget
import DogeConnect.HashDifficulty
import DogeConnect.KeyUtils
import DogeConnect.Json
import DogeConnect.Concurrency
import DogeConnect.Structs
import DogeConnect.TaskDist
import DogeConnect.PoolAccept
import DogeConnect.TaskPacket
import DogeConnect.DogeTaskParser
import DogeConnect.QubicRecv
import DogeConnect.PeerCounts
import DogeConnect.SolutionPacket
import DogeConnect.ShareValid
import DogeConnect.TaskBounds
import DogeConnect.TaskRuns
import DogeConnect.TaskDrops
import DogeConnect.DistLoop
import DogeConnect.MalformedMessages
import DogeConnect.MessageShapes
import DogeConnect.Coalescing
import DogeConnect.JobTargets
import DogeConnect.ShareDedup
import DogeConnect.ShareBooks
import DogeConnect.ShareHeader
import DogeConnect.Pool
import DogeConnect.HeaderAgree
import DogeConnect.ShareRoot
import DogeConnect.QubicLoop
import DogeConnect.PeerCover
import DogeConnect.Reconnects
import DogeConnect.QubicHandshake
import DogeConnect.HandshakeBoundary
import DogeConnect.StratumRecv
import DogeConnect.StratumLoop
import DogeConnect.JsonText
import DogeConnect.PoolStream
import DogeConnect.Handshake
import DogeConnect.Dispatcher
import DogeConnect.Verdicts
import DogeConnect.LiveJobs
import DogeConnect.Session
import DogeConnect.JobManager
import DogeConnect.ManagerShare
import DogeConnect.BlockPolling
import DogeConnect.TipPolling
import DogeConnect.AuxProof
import DogeConnect.HeaderCredit
import DogeConnect.PoolStats
import DogeConnect.StatsBooks
import DogeConnect.LiveFeed
import DogeConnect.Vardiff
import DogeConnect.ClientStream
import DogeConnect.DogeSlice
import DogeConnect.Sha256
import DogeConnect.Pbkdf
import DogeConnect.Scrypt
import DogeConnect.WorkHash
import DogeConnect.AddressScript
import DogeConnect.Generation
import DogeConnect.PoolBlock
import DogeConnect.AuxPow
import DogeConnect.PoolClient
import DogeConnect.PoolServer
import DogeConnect.ServerRuns
import DogeConnect.Lib.Firsts
import DogeConnect.DaemonInterface
import DogeConnect.BlockSubmission
import DogeConnect.Lib.ProRata
import DogeConnect.Payments
