import StellarTimelock.Semantics.Execution
import StellarTimelock.Contract.XlmVault
import StellarTimelock.Contract.Effects
import StellarTimelock.Contract.World
import StellarTimelock.Contract.Allocation
import StellarTimelock.Contract.Lifecycle
import StellarTimelock.Contract.Solvency
import StellarTimelock.Contract.History
import StellarTimelock.Semantics.Calendar
import StellarTimelock.Client.Events
import StellarTimelock.Client.Replay
import StellarTimelock.Client.Mirror
import StellarTimelock.Client.StatusSoundness
import StellarTimelock.Client.VaultList
import StellarTimelock.Client.AutoHeal
import StellarTimelock.Client.Errors
import StellarTimelock.Client.InvokeContract
import StellarTimelock.Client.RetrySafety
import StellarTimelock.Notebook.Crypto
import StellarTimelock.Notebook.KeyInUse
import StellarTimelock.Notebook.KeyCache
import StellarTimelock.Client.ReplayRefinement
import StellarTimelock.Client.FetchEvents
import StellarTimelock.Client.NetworkSwitch
import StellarTimelock.Client.FetchCompletion
import StellarTimelock.Contract.Independence
import StellarTimelock.Keystore.LockEffect
import StellarTimelock.Keystore.Durability
import StellarTimelock.Keystore.Removal
import StellarTimelock.Notebook.MasterKey
import StellarTimelock.Keystore.Biometric
import StellarTimelock.Notebook.Record
import StellarTimelock.Keystore.LockSpoiling
import StellarTimelock.Keystore.RemovalSpoiling
import StellarTimelock.Contract.ChecksFirst
import StellarTimelock.Notebook.RecordFormat
import StellarTimelock.Client.Failover
import StellarTimelock.Client.Snapshots
import StellarTimelock.Client.StreamCompleteness
import StellarTimelock.Client.WakeUp
import StellarTimelock.Keystore.IdleLock
import StellarTimelock.Client.Invalidation
import StellarTimelock.Client.ListAndDetail
import StellarTimelock.Client.WholeStream
import StellarTimelock.Client.ReadYourWrites
import StellarTimelock.Contract.TopUp
import StellarTimelock.Client.DeliveryOrder
import StellarTimelock.Client.Listing
import StellarTimelock.Client.Receipts
import StellarTimelock.Keystore.LockListeners
import StellarTimelock.Client.TransactionHistory
import StellarTimelock.Client.MetaStore
import StellarTimelock.Wallet.Horizon
import StellarTimelock.Notebook.SeedBytes
import StellarTimelock.Notebook.SeedCopies
import StellarTimelock.Keystore.HkdfSha256
import StellarTimelock.Contract.BookRefinement
import StellarTimelock.Contract.Journal
import StellarTimelock.Contract.Portfolio
import StellarTimelock.Contract.Wealth
import StellarTimelock.Semantics.FloatingPoint
import StellarTimelock.Client.Amounts
import StellarTimelock.Client.Summary
import StellarTimelock.Client.DeviceHistory
import StellarTimelock.Client.Statement
import StellarTimelock.Client.Network
import StellarTimelock.Client.WriteScripts
import StellarTimelock.Client.WriteRules
import StellarTimelock.Client.ExactlyOnce
