import Chainring.Base.Allocation
import Chainring.Base.Appending
import Chainring.Base.Bytes
import Chainring.Base.CheckedWord
import Chainring.Base.Codec
import Chainring.Base.Cursor
import Chainring.Base.EventLog
import Chainring.Base.Exec
import Chainring.Base.Image
import Chainring.Base.Ledger
import Chainring.Base.Linked
import Chainring.Base.Places
import Chainring.Base.Pointwise
import Chainring.Base.Region
import Chainring.Base.Simulation
import Chainring.Base.TwoPhase
import Chainring.Evm.Balances
import Chainring.Evm.CoinProxy
import Chainring.Evm.CoinProxyAuthority
import Chainring.Evm.CoinProxyLedger
import Chainring.Evm.CoinProxyReplay
import Chainring.Evm.CoinProxyRollback
import Chainring.Evm.CoinProxyRun
import Chainring.Evm.CoinProxyWithdrawals
import Chainring.Evm.Exchange
import Chainring.Evm.ExchangeAuthority
import Chainring.Evm.ExchangeEffects
import Chainring.Evm.ExchangeLedger
import Chainring.Evm.ExchangeRequests
import Chainring.Evm.ExchangeRun
import Chainring.Evm.ExchangeSolvency
import Chainring.Evm.Settlement
import Chainring.Evm.SettlementChecks
import Chainring.Evm.SettlementLifecycle
import Chainring.Evm.SettlementNetting
import Chainring.Evm.SettlementSubmission
import Chainring.Evm.SovereignExit
import Chainring.Evm.SovereignRequests
import Chainring.Evm.SovereignTiming
import Chainring.Evm.TokenBook
import Chainring.Evm.Types
import Chainring.Evm.WithdrawalAuthority
import Chainring.Evm.WithdrawalBatches
import Chainring.Evm.WithdrawalReplay
import Chainring.Arch.Accessors
import Chainring.Arch.Account
import Chainring.Arch.Amounts
import Chainring.Arch.BalanceLedger
import Chainring.Arch.BatchAccounts
import Chainring.Arch.BatchHashes
import Chainring.Arch.DataWrites
import Chainring.Arch.DepositOrder
import Chainring.Arch.Deposits
import Chainring.Arch.EventLog
import Chainring.Arch.Footprint
import Chainring.Arch.FreshProgram
import Chainring.Arch.Growth
import Chainring.Arch.Initialisation
import Chainring.Arch.InputSigners
import Chainring.Arch.InstructionReach
import Chainring.Arch.Isolation
import Chainring.Arch.LedCalls
import Chainring.Arch.Lifecycle
import Chainring.Arch.NewWallets
import Chainring.Arch.PendingBatch
import Chainring.Arch.Program
import Chainring.Arch.ProgramRecord
import Chainring.Arch.RollbackTotals
import Chainring.Arch.RoundTrip
import Chainring.Arch.Run
import Chainring.Arch.RuneDelivery
import Chainring.Arch.Serialization
import Chainring.Arch.SettlementClosedForm
import Chainring.Arch.SettlementCompletion
import Chainring.Arch.SettlementConservation
import Chainring.Arch.SettlementFees
import Chainring.Arch.SettlementPosting
import Chainring.Arch.SettlementPreparation
import Chainring.Arch.State
import Chainring.Arch.StateCodecs
import Chainring.Arch.StateRefinement
import Chainring.Arch.StateWriters
import Chainring.Arch.TokenAccounts
import Chainring.Arch.TokenFields
import Chainring.Arch.TokenHistory
import Chainring.Arch.TokenRegistry
import Chainring.Arch.Truncation
import Chainring.Arch.Types
import Chainring.Arch.UnusedSlots
import Chainring.Arch.Validation
import Chainring.Arch.Verification
import Chainring.Arch.WalletSlots
import Chainring.Arch.WithdrawalBatch
import Chainring.Arch.WithdrawalChain
import Chainring.Arch.WithdrawalPayouts
import Chainring.Arch.WithdrawalPosting
import Chainring.Arch.WithdrawalPreparation
import Chainring.Arch.WithdrawalReports
import Chainring.Arch.WithdrawalRollback
import Chainring.Arch.WithdrawalTotals
import Chainring.Arch.WithdrawalTransaction
import Chainring.Arch.WithdrawalVerification
import Chainring.Arch.WriteAuthority
import Chainring.Arch.Writers
import Chainring.Sdk.AccountMemory
import Chainring.Sdk.Bip322
import Chainring.Sdk.Deployment
import Chainring.Sdk.Heap
import Chainring.Sdk.Hex
import Chainring.Sdk.InputBuffer
import Chainring.Sdk.ProcessedTransactions
import Chainring.Sdk.SignedMessages
import Chainring.Sdk.SigningRequests
import Chainring.Sdk.Transactions
