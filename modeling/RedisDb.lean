import RedisDb.Lib.Decimal
import RedisDb.Lib.Incremental
import RedisDb.Cpp
import RedisDb.Protocol.RespTypes
import RedisDb.Protocol.RespParser
import RedisDb.Protocol.RespSerializer
import RedisDb.Protocol.ParserStable
import RedisDb.Networking.ClientInput
import RedisDb.Protocol.RespCodec
import RedisDb.Lib.Probe
import RedisDb.Storage.HashTable
import RedisDb.Storage.HashTableRefine
import RedisDb.Storage.HashTableClone
import RedisDb.Lib.Chain
import RedisDb.Storage.SkipList
import RedisDb.Storage.SkipListLinks
import RedisDb.Storage.SkipListInv
import RedisDb.Storage.SkipListOps
import RedisDb.Storage.SkipListRuns
import RedisDb.Lib.Slice
import RedisDb.Storage.SkipListSearch
import RedisDb.Storage.SkipListQueries
import RedisDb.Storage.SortedSet
import RedisDb.Storage.SortedSetInv
import RedisDb.Storage.ScoreValues
import RedisDb.Storage.LinkedList
import RedisDb.Storage.LinkedListInv
import RedisDb.Storage.LinkedListRuns
import RedisDb.Lib.UnorderedMap
import RedisDb.Storage.RedisObject
import RedisDb.Server.MemoryManager
import RedisDb.Storage.Database
import RedisDb.Lib.LittleEndian
import RedisDb.Storage.Crc64
import RedisDb.Lib.Crc
import RedisDb.Storage.Crc64Bursts
import RedisDb.Storage.RdbPersistence
import RedisDb.Storage.DatabaseInv
import RedisDb.Storage.Keyspace
import RedisDb.Storage.DatabaseExpiry
import RedisDb.Storage.RdbFormat
import RedisDb.Storage.RdbReader
import RedisDb.Storage.RdbRoundTrip
import RedisDb.Lib.Program
import RedisDb.Lib.Index
import RedisDb.Networking.Client
import RedisDb.Storage.WatchedKeys
import RedisDb.Storage.RdbLoad
import RedisDb.Storage.DatabaseCalls
import RedisDb.Server.Server
import RedisDb.Lib.Ring
import RedisDb.Server.ReplicationBacklog
import RedisDb.Server.ServerProgram
import RedisDb.Commands.StringCommands
import RedisDb.Commands.KeyCommands
import RedisDb.Commands.ListCommands
import RedisDb.Commands.HashCommands
import RedisDb.Commands.SetCommands
import RedisDb.Commands.ZsetCommands
import RedisDb.Commands.PubsubCommands
import RedisDb.Commands.TransactionCommands
import RedisDb.Commands.ReplicationCommands
import RedisDb.Commands.ServerCommands
import RedisDb.Commands.BlockingCommands
import RedisDb.Commands.CommandRegistry
import RedisDb.Server.EventLoop
import RedisDb.Server.Tables
import RedisDb.Server.Runs
import RedisDb.Server.AofFile
import RedisDb.Server.Startup
import RedisDb.Server.ClientTables
import RedisDb.Server.OutputScheduling
import RedisDb.Server.Subscriptions
import RedisDb.Server.PubsubRuns
import RedisDb.Server.PubsubDelivery
import RedisDb.Server.ChannelPatterns
import RedisDb.Server.BackgroundJobs
import RedisDb.Protocol.InlineRequests
import RedisDb.Protocol.RespGrammar
import RedisDb.Protocol.StuckFrames
import RedisDb.Server.CommandLog
import RedisDb.Commands.ObjectSpecs
import RedisDb.Commands.Collections
import RedisDb.Server.CollectionRuns
import RedisDb.Server.RequestStream
import RedisDb.Server.Waiting
import RedisDb.Server.RequestOrder
import RedisDb.Lib.Coupling
import RedisDb.Commands.Replays
import RedisDb.Lib.Glob
import RedisDb.Storage.KeyPatterns
import RedisDb.Storage.Rename
import RedisDb.Commands.Counters
import RedisDb.Commands.Deadlines
import RedisDb.Server.Promotion
import RedisDb.Server.MemoryUse
import RedisDb.Commands.WriteReplies
import RedisDb.Server.ReplicationLink
import RedisDb.Storage.AofRewrite
import RedisDb.Storage.RdbFewer
import RedisDb.Storage.SnapshotDeadlines
import RedisDb.Storage.SortedSetQueries
import RedisDb.Commands.EvictionChoice
import RedisDb.Server.OnDatabase
import RedisDb.Server.Eviction
import RedisDb.Server.BlockingTimeouts
import RedisDb.Commands.OneKey
import RedisDb.Commands.SetsAndMaps
import RedisDb.Server.Lists
import RedisDb.Commands.AcceptedScores
import RedisDb.Server.SpuriousAborts
import RedisDb.Server.LetterCase
import RedisDb.Server.OutputStream
import RedisDb.Commands.Refusals
import RedisDb.Server.Refusals
import RedisDb.Commands.ReadCommands
import RedisDb.Server.ReadOnly
import RedisDb.Commands.Lasting
import RedisDb.Server.Executions
import RedisDb.Server.Lasting
import RedisDb.Server.LogReplay
import RedisDb.Server.Durability
import RedisDb.Commands.RewriteCommands
import RedisDb.Server.AofReload
