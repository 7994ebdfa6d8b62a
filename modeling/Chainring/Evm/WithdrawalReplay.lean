import Chainring.Evm.ExchangeAuthority

/-! How often a signed withdrawal is executed. A batch is compared with the last one only and no nonce is
remembered, so a message is executed each time that an entry carries it and the balance covers it, unless
the batches by themselves carry each message once. -/

namespace Chainring.Evm.Exchange

open CheckedWord (bind_eq_ok exists_eq_ok)

/-- What is signed of a withdrawal; all amounts are one amount for a `WithdrawAll`. -/
structure Message where
  sender : Address
  token : Address
  amount : Uint256
  nonce : UInt64
  deriving DecidableEq

def message (txType : TransactionType) (tx : Withdraw) : Message where
  sender := tx.sender
  token := tx.token
  amount := if txType = .withdrawAll then 0 else tx.amount
  nonce := tx.nonce

variable {E : Type}

section Runs

variable (host : Host) (tokens : Tokens E) (origin : World E) (inputs : List (Input E))

/-- The hash of the batch stands in the register, or did at some time before. -/
def Recorded (n : Nat) (withdrawals : List Bytes) : Prop :=
  ∃ k ≤ n, (worldAt host tokens origin inputs k).state.lastWithdrawalBatchHash =
    calculateWithdrawalBatchHash host withdrawals

variable {host tokens origin inputs}

end Runs

def signingWallet : Address := 0xe05fcc23807536bee418f142d19fa0d21bb0cff7

def signedTx : WithdrawWithSignature where
  sequence := 1
  tx := { sender := signingWallet, token := 0, amount := 4, nonce := 1, feeAmount := 1 }
  signature :=
    abiWord 0xd47644539acec3da5e3ecf5fe8863c628a9c97e8b71e9ea9167a6f4f83c03c32 ++
      abiWord 0x7d34f90fc371defd544f4ee0872d2a7b29a96b0be4320a3c4d62d7b4823a1b63 ++ [27]

end Chainring.Evm.Exchange
