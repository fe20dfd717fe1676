import StratumPool.Lib.Runs
import StratumPool.Lib.Table
import StratumPool.Lib.HandOff
import StratumPool.Lib.HexText
import StratumPool.Lib.Binary64
import StratumPool.Lib.Hysteresis
import StratumPool.Lib.Rounding
import StratumPool.Lib.Decay
import StratumPool.Lib.Nearest
import StratumPool.Text
import StratumPool.Json
import StratumPool.Kaspa
import StratumPool.DiffEngine
import StratumPool.Telemetry
import StratumPool.Ledger
import StratumPool.LedgerRuns
import StratumPool.Averages
import StratumPool.FailedFlush
import StratumPool.Views
import StratumPool.WorkScale
import StratumPool.Listener
import StratumPool.Provider
import StratumPool.Treasury
import StratumPool.Decimals
import StratumPool.Router
import StratumPool.Oracle
import StratumPool.OracleRuns
import StratumPool.Yield
import StratumPool.Reflection
import StratumPool.TaxLedger
import StratumPool.Delivery
import StratumPool.EndToEnd
import StratumPool.Isolation
import StratumPool.Lib.Channel
import StratumPool.Lib.Collected
import StratumPool.Jobs
import StratumPool.Submit
import StratumPool.OneWork
import StratumPool.Server
import StratumPool.Registry
import StratumPool.Feed
import StratumPool.Acceptance
import StratumPool.BlockRelay
import StratumPool.Crossing
import StratumPool.Vardiff
import StratumPool.Credit
import StratumPool.Nonce
import StratumPool.Session
import StratumPool.Retarget
import StratumPool.Lib.Expiring
import StratumPool.Liquidity
import StratumPool.Status
import StratumPool.Gauges
import StratumPool.BlockRecord
import StratumPool.Swap
import StratumPool.Accounting
import StratumPool.KaspadClient
import StratumPool.Collector
import StratumPool.Outage
import StratumPool.Lib.Tasks
import StratumPool.SwapService
import StratumPool.Reader
import StratumPool.Wire
import StratumPool.Document
import StratumPool.IterationOrder
import StratumPool.Vampire
import StratumPool.VampireRuns
import StratumPool.Lib.KeyStore
import StratumPool.Keyspace
import StratumPool.Lib.HandOffBooks
import StratumPool.Settlement
import StratumPool.BlockTable
import StratumPool.Eviction
import StratumPool.Lib.Serial
import StratumPool.Reissue
import StratumPool.Lib.FairGame
import StratumPool.Fairness
