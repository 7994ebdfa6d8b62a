import Chainring.Evm.Exchange

/-! Transfers of the exact amount, and tokens kept as a book of what each address holds of each
token. -/

namespace Chainring.Evm.Exchange

/-- A transfer moves exactly its amount or fails. -/
structure Tokens.Exact {E : Type} (tokens : Tokens E) : Prop where
  payIn : ∀ {env sender value next}, tokens.payIn env sender value = some next →
    sender ≠ tokens.self → ∀ token, tokens.holdings next token =
      tokens.holdings env token + if 0 = token then value.toNat else 0
  transferFrom : ∀ {env token sender amount next},
    tokens.transferFrom env token sender tokens.self amount = some next → sender ≠ tokens.self →
    ∀ other, tokens.holdings next other =
      tokens.holdings env other + if token = other then amount.toNat else 0
  transfer : ∀ {env token recipient amount next},
    tokens.transfer env token recipient amount = some next → ∀ other,
    tokens.holdings next other + (if token = other ∧ recipient ≠ tokens.self then amount.toNat else 0) =
      tokens.holdings env other
  send : ∀ {env recipient amount next}, tokens.send env recipient amount = some next → ∀ other,
    tokens.holdings next other + (if 0 = other ∧ recipient ≠ tokens.self then amount.toNat else 0) =
      tokens.holdings env other

abbrev Book := Address → Address → Nat

def Book.move (book : Book) (token sender recipient : Address) (amount : Uint256) : Option Book :=
  if amount.toNat ≤ book token sender then
    let debited := Function.update book token
      (Function.update (book token) sender (book token sender - amount.toNat))
    some (Function.update debited token
      (Function.update (debited token) recipient (debited token recipient + amount.toNat)))
  else
    none

/-- The contract's address is `0xec`; a token contract at address zero does not exist. -/
def bookTokens : Tokens Book where
  self := 0xec
  payIn := fun book sender value => book.move 0 sender 0xec value
  transferFrom := fun book token sender recipient amount =>
    if token = 0 then none else book.move token sender recipient amount
  transfer := fun book token recipient amount =>
    if token = 0 then none else book.move token 0xec recipient amount
  send := fun book recipient amount => book.move 0 0xec recipient amount
  holdings := fun book token => book token 0xec

theorem Book.move_in {book next : Book} {token sender recipient : Address} {amount : Uint256}
    (h : book.move token sender recipient amount = some next) (hne : sender ≠ recipient)
    (other : Address) :
    next other recipient = book other recipient + if token = other then amount.toNat else 0 := by
  unfold move at h
  split at h
  · obtain rfl := Option.some.inj h
    by_cases htoken : token = other
    · subst htoken
      simp [Function.update_of_ne hne.symm]
    · simp [Function.update_of_ne (Ne.symm htoken), htoken]
  · cases h

theorem Book.move_out {book next : Book} {token sender recipient : Address} {amount : Uint256}
    (h : book.move token sender recipient amount = some next) (other : Address) :
    next other sender + (if token = other ∧ recipient ≠ sender then amount.toNat else 0) =
      book other sender := by
  unfold move at h
  split at h
  · next hcovered =>
      obtain rfl := Option.some.inj h
      by_cases htoken : token = other
      · subst htoken
        by_cases hself : recipient = sender
        · subst hself
          simp
          omega
        · simp [Function.update_of_ne (Ne.symm hself), hself]
          omega
      · simp [Function.update_of_ne (Ne.symm htoken), htoken]
  · cases h

theorem bookTokens_exact : bookTokens.Exact where
  payIn := fun h hne token => Book.move_in h hne token
  transferFrom := by
    intro env token sender amount next h hne other
    dsimp only [bookTokens] at h
    split at h
    · cases h
    · exact Book.move_in h hne other
  transfer := by
    intro env token recipient amount next h other
    dsimp only [bookTokens] at h
    split at h
    · cases h
    · exact Book.move_out h other
  send := fun h other => Book.move_out h other

/-! ### One entry of a batch -/

/-- An entry of `abi.encode`d words with an all-zero signature of 65 bytes. -/
def zeroSigned (tag : UInt8) (sender token : Address) (amount fee : Uint256) : Bytes :=
  tag :: [0x20, 1, sender.toNat, token.toNat, amount.toNat, 1, fee.toNat, 0xe0, 65, 0, 0, 0].flatMap
    abiWord

def zeroSignedTx (sender token : Address) (amount fee : Uint256) : WithdrawWithSignature where
  sequence := 1
  tx := { sender, token, amount, nonce := 1, feeAmount := fee }
  signature := List.replicate 65 0

/-- The host on a batch of the one entry, with the hashes of the entry and of the batch. No signer
recovers from an all-zero signature. -/
def withdrawalHost (entry : Bytes) (signedTx : WithdrawWithSignature)
    (entryHash batchHash : Bytes32) : Host where
  keccak256 := fun data =>
    if data = entry then entryHash else if data = abiWord entryHash.toNat then batchHash else 0
  decodeBatchSettlement := fun _ => none
  decodeWithdrawWithSignature := fun data => if data = entry.tail then some signedTx else none
  hashTypedDataV4 := id
  recover := fun _ _ => none

end Chainring.Evm.Exchange
