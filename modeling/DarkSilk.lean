import DarkSilk.LimitedMap
import DarkSilk.TextCodecs
import DarkSilk.MoneySupply
import DarkSilk.TipIndependence
import DarkSilk.WalletSync
import DarkSilk.MemPoolInputs
import DarkSilk.TxnMap
import DarkSilk.MainChain
import DarkSilk.SandstormClient
import DarkSilk.PaymentVotes
import DarkSilk.StormnodeRank
import DarkSilk.StormnodeChoice
import DarkSilk.BudgetRuns
import DarkSilk.Stealth
import DarkSilk.SmsgReads
import DarkSilk.SandstormCollateral
import DarkSilk.SandstormSession
import DarkSilk.MemPoolIndex
import DarkSilk.InstantXRequests
import DarkSilk.Spork
import DarkSilk.BudgetPayout
import DarkSilk.SyncCheckpoint
import DarkSilk.AddressIndex
import DarkSilk.BlockDownload
import DarkSilk.OrphanBlocks
import DarkSilk.KeyPool
import DarkSilk.SandstormRounds
import DarkSilk.AddrManLoad
import DarkSilk.TimeData
import DarkSilk.SignatureCache
import DarkSilk.ScriptOps
import DarkSilk.SignedBytes
import DarkSilk.ScriptSigOps
import DarkSilk.CleanUp
import DarkSilk.Destinations
import DarkSilk.MerkleTree
