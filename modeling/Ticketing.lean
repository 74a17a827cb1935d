import Ticketing.Lib.Bytes
import Ticketing.Lib.OrderedTable
import Ticketing.Lib.ExchangeSort
import Ticketing.Lib.HashChains
import Ticketing.Lib.LinearProbing
import Ticketing.Lib.ThreadedList
import Ticketing.Lib.LinkedQueue
import Ticketing.Lib.LruCache
import Ticketing.Lib.ThreadLists
import Ticketing.Lib.Channel
import Ticketing.Lib.Runs
import Ticketing.Lib.PagedList
import Ticketing.Lib.CText
import Ticketing.Lib.Delimiter
import Ticketing.Common.Types
import Ticketing.Storage.Io
import Ticketing.Storage.Page
import Ticketing.Storage.BufferPool
import Ticketing.Storage.BufferPoolCache
import Ticketing.Storage.PoolMap
import Ticketing.Storage.PoolFaults
import Ticketing.Storage.PoolEviction
import Ticketing.Storage.PageList
import Ticketing.Storage.Wal
import Ticketing.Storage.WalRecovery
import Ticketing.Storage.WalReopen
import Ticketing.Storage.WalFailures
import Ticketing.Storage.BTree
import Ticketing.Storage.BTreeInvariant
import Ticketing.Storage.BTreeInsert
import Ticketing.Storage.BTreeRefinement
import Ticketing.Storage.BTreeFile
import Ticketing.Storage.RangeScan
import Ticketing.Storage.BTreeFailures
import Ticketing.Storage.BTreeSave
import Ticketing.Storage.BTreeChecked
import Ticketing.Storage.BTreeReopen
import Ticketing.Storage.BTreeHeight
import Ticketing.Storage.TableCalls
import Ticketing.Txn.TxnManager
import Ticketing.Txn.TxnLog
import Ticketing.Txn.LockManager
import Ticketing.Txn.LockTable
import Ticketing.Txn.LockThreads
import Ticketing.Txn.TxnSystem
import Ticketing.Txn.TwoPhaseLocking
import Ticketing.Txn.CommitDurable
import Ticketing.Auth.Auth
import Ticketing.Auth.UniqueUsernames
import Ticketing.Auth.Rbac
import Ticketing.Auth.Sessions
import Ticketing.Network.TcpServer
import Ticketing.Network.ThreadPool
import Ticketing.Protocol.Parser
import Ticketing.Protocol.Tokens
import Ticketing.Ipc.Stats
import Ticketing.Ipc.Notifier
import Ticketing.Ipc.Logger
import Ticketing.Core.BookingEngine
import Ticketing.Core.BookingLocks
import Ticketing.Core.BookingDeadlock
import Ticketing.Core.BookingCalls
import Ticketing.Core.BookingSafety
import Ticketing.Core.BookingThreads
import Ticketing.Core.BookingConsistency
import Ticketing.Core.BookingWrap
import Ticketing.Core.BookingCancellation
import Ticketing.Core.BookingTurns
import Ticketing.Core.BookingSerial
import Ticketing.Core.BookingRecords
import Ticketing.Core.BookingSerialisable
import Ticketing.Core.BookingSequential
import Ticketing.Core.BookingAlone
import Ticketing.Core.CallReturns
import Ticketing.Core.BookingExact
import Ticketing.Core.CancelExact
import Ticketing.Core.EventManager
import Ticketing.Core.EventCreation
import Ticketing.Core.EventDeletion
import Ticketing.Core.Reports
import Ticketing.Server.CommandRouter
import Ticketing.Server.ClientHandler
import Ticketing.Server.Privileges
import Ticketing.Server.CommandFraming
import Ticketing.Server.ResponseFraming
import Ticketing.Server.RevenueIsolation
import Ticketing.Server.RevenueAgreement
import Ticketing.Server.CancelUndoes
import Ticketing.Server.BookCommand
import Ticketing.Server.CreateCommand
import Ticketing.Server.BusinessStats
import Ticketing.Server.ResponseOffsets
import Ticketing.Server.Listings
import Ticketing.Lib.Programs
import Ticketing.Storage.PoolClient
import Ticketing.Storage.MalformedFiles
import Ticketing.Storage.PrimaryKeys
import Ticketing.Storage.TableRuns
import Ticketing.Storage.TableHeap
import Ticketing.Storage.TableStore
import Ticketing.Storage.TableLayer
import Ticketing.Storage.TableRestart
import Ticketing.Storage.TableHistory
import Ticketing.Storage.SharedPool
import Ticketing.Storage.DirtyPages
import Ticketing.Storage.PinBalance
import Ticketing.Storage.LogMoments
import Ticketing.Storage.StarvedRoot
import Ticketing.Storage.LogPrefix
import Ticketing.Core.StoredRecovery
