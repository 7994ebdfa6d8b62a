import Chainring.Arch.Amounts
import Chainring.Arch.BatchHashes

/-! A settlement as a posting to the ledger of all balances: what the entries of a batch post, when the
submission of a batch goes through, and what its preparation has established by then. -/

namespace Chainring.Arch

open Exec (Posts Admits posts_pure posts_when posts_forM admits_when admits_forM Silent
  silent_pure silent_query silent_ensure silent_when silent_forM silent_foldlM)
open Ledger (Entry)

/-! ### Entries -/

def credits (key : Pubkey) (adjustments : List Adjustment) : List (Entry (Pubkey × Nat)) :=
  adjustments.flatMap fun adjustment =>
    [.credit (key, adjustment.addressIndex.index.toNat) adjustment.amount.toNat]

def debits (key : Pubkey) (adjustments : List Adjustment) : List (Entry (Pubkey × Nat)) :=
  adjustments.flatMap fun adjustment =>
    [.debit (key, adjustment.addressIndex.index.toNat) adjustment.amount.toNat]

/-- What one entry of a batch posts to the wallets of its account. -/
def SettlementAdjustments.entries (key : Pubkey) (tokenSettlements : SettlementAdjustments) :
    List (Entry (Pubkey × Nat)) :=
  (if 0 < tokenSettlements.feeAmount then [.credit (key, 0) tokenSettlements.feeAmount.toNat] else []) ++
    (credits key tokenSettlements.increments ++ debits key tokenSettlements.decrements)

/-- The key of the account at a position. -/
def keyAt (accounts : List AccountInfo) (index : UInt8) : Option Pubkey :=
  (accounts[index.toNat]?).map AccountInfo.key

/-- What an entry posts by the account at its position. -/
def entriesOf (accounts : List AccountInfo) (tokenSettlements : SettlementAdjustments) :
    List (Entry (Pubkey × Nat)) :=
  match keyAt accounts tokenSettlements.accountIndex with
  | some key => tokenSettlements.entries key
  | none => []

/-! ### Readiness -/

/-- The wallet slot is in use, its address ends in the four given characters and its amount lies in
the data. -/
def Ready (addressIndex : AddressIndex) (data : Bytes) : Prop :=
  Wallet addressIndex data ∧ HasAmount data addressIndex.index.toNat

/-- The wallet that fees go to is in use, and its address and amount lie in the data. -/
def FeeReady (data : Bytes) : Prop :=
  0 < numBalances data ∧ (∃ last4, Balance.getWalletAddressLast4 0 data = .ok last4) ∧ HasAmount data 0

/-- What the submission of one entry needs of the account it names. -/
structure AdjustmentsReady (tokenSettlements : SettlementAdjustments) (data : Bytes) : Prop where
  fee : 0 < tokenSettlements.feeAmount → FeeReady data
  increments : ∀ adjustment ∈ tokenSettlements.increments, Ready adjustment.addressIndex data
  decrements : ∀ adjustment ∈ tokenSettlements.decrements, Ready adjustment.addressIndex data

def SettlementReady (accounts : List AccountInfo) (m : Memory)
    (tokenSettlements : SettlementAdjustments) : Prop :=
  Validated accounts tokenSettlements.accountIndex false true (some .token) (some 0) m ∧
    ∀ key, keyAt accounts tokenSettlements.accountIndex = some key →
      AdjustmentsReady tokenSettlements (m key).data

section Submission

variable {m₀ : Memory} {accounts : List AccountInfo}

/-! ### Adjustments -/

theorem posts_handleAdjustment (account : AccountInfo) (increment : Bool) (adjustment : Adjustment) :
    Posts amountModulus (AmountsOnly m₀) balances
      (account.read (getValidatedIndex adjustment.addressIndex) >>= fun index =>
        if increment then account.write (Balance.incrementWalletBalance index adjustment.amount)
        else account.write (Balance.decrementWalletBalance index adjustment.amount))
      (fun _ => True)
      [if increment then .credit (account.key, adjustment.addressIndex.index.toNat) adjustment.amount.toNat
        else .debit (account.key, adjustment.addressIndex.index.toNat) adjustment.amount.toNat] := by
  have hindex : Posts amountModulus (AmountsOnly m₀) balances
      (account.read (getValidatedIndex adjustment.addressIndex))
      (fun index => index = adjustment.addressIndex.index.toNat) [] :=
    posts_read fun m _ index hget => (getValidatedIndex_eq_ok.mp hget).2
  refine hindex.bind fun index heq => ?_
  subst heq
  cases increment with
  | true => exact posts_increment account _ adjustment.amount
  | false => exact posts_decrement account _ adjustment.amount

theorem admits_handleAdjustment (account : AccountInfo) (increment : Bool) (adjustment : Adjustment) :
    Admits amountModulus (AmountsOnly m₀) balances
      (account.read (getValidatedIndex adjustment.addressIndex) >>= fun index =>
        if increment then account.write (Balance.incrementWalletBalance index adjustment.amount)
        else account.write (Balance.decrementWalletBalance index adjustment.amount))
      (Ready adjustment.addressIndex (m₀ account.key).data)
      [if increment then .credit (account.key, adjustment.addressIndex.index.toNat) adjustment.amount.toNat
        else .debit (account.key, adjustment.addressIndex.index.toNat) adjustment.amount.toNat] := by
  have hindex : Posts amountModulus (AmountsOnly m₀) balances
      (account.read (getValidatedIndex adjustment.addressIndex))
      (fun index => index = adjustment.addressIndex.index.toNat) [] :=
    posts_read fun m _ index hget => (getValidatedIndex_eq_ok.mp hget).2
  have hread : Admits amountModulus (AmountsOnly m₀) balances
      (account.read (getValidatedIndex adjustment.addressIndex))
      (Wallet adjustment.addressIndex (m₀ account.key).data) [] := by
    apply admits_read
    intro m hm
    rw [← hm.wallet_iff]
    constructor
    · rintro ⟨index, hget⟩
      exact (getValidatedIndex_eq_ok.mp hget).1
    · exact fun hwallet => ⟨_, getValidatedIndex_eq_ok.mpr ⟨hwallet, rfl⟩⟩
  refine Admits.bind hindex hread fun index heq => ?_
  subst heq
  cases increment with
  | true => exact admits_increment account _ adjustment.amount
  | false => exact admits_decrement account _ adjustment.amount

theorem posts_handleIncrements (account : AccountInfo) (adjustments : List Adjustment) :
    Posts amountModulus (AmountsOnly m₀) balances (handleIncrements account adjustments)
      (fun _ => True) (credits account.key adjustments) :=
  posts_forM fun adjustment _ => posts_handleAdjustment account true adjustment

theorem posts_handleDecrements (account : AccountInfo) (adjustments : List Adjustment) :
    Posts amountModulus (AmountsOnly m₀) balances (handleDecrements account adjustments)
      (fun _ => True) (debits account.key adjustments) :=
  posts_forM fun adjustment _ => posts_handleAdjustment account false adjustment

theorem admits_handleIncrements (account : AccountInfo) (adjustments : List Adjustment) :
    Admits amountModulus (AmountsOnly m₀) balances (handleIncrements account adjustments)
      (∀ adjustment ∈ adjustments, Ready adjustment.addressIndex (m₀ account.key).data)
      (credits account.key adjustments) :=
  admits_forM (fun adjustment _ => posts_handleAdjustment account true adjustment)
    fun adjustment _ => admits_handleAdjustment account true adjustment

theorem admits_handleDecrements (account : AccountInfo) (adjustments : List Adjustment) :
    Admits amountModulus (AmountsOnly m₀) balances (handleDecrements account adjustments)
      (∀ adjustment ∈ adjustments, Ready adjustment.addressIndex (m₀ account.key).data)
      (debits account.key adjustments) :=
  admits_forM (fun adjustment _ => posts_handleAdjustment account false adjustment)
    fun adjustment _ => admits_handleAdjustment account false adjustment

/-! ### One entry of a batch -/

/-- The fee of an entry, credited to the wallet at 0. -/
def creditFee (account : AccountInfo) (feeAmount : UInt64) : Prog Unit := do
  let last4 ← account.read (Balance.getWalletAddressLast4 feeAddressIndex.toNat)
  handleIncrements account
    [{ addressIndex := { index := feeAddressIndex, last4 := last4 }, amount := feeAmount }]

theorem posts_creditFee (account : AccountInfo) (feeAmount : UInt64) :
    Posts amountModulus (AmountsOnly m₀) balances (creditFee account feeAmount) (fun _ => True)
      [.credit (account.key, 0) feeAmount.toNat] := by
  have hread : Posts amountModulus (AmountsOnly m₀) balances
      (account.read (Balance.getWalletAddressLast4 feeAddressIndex.toNat)) (fun _ => True) [] :=
    posts_read fun _ _ _ _ => trivial
  exact hread.bind fun last4 _ => posts_handleIncrements account _

theorem admits_creditFee (account : AccountInfo) (feeAmount : UInt64) :
    Admits amountModulus (AmountsOnly m₀) balances (creditFee account feeAmount)
      (FeeReady (m₀ account.key).data) [.credit (account.key, 0) feeAmount.toNat] := by
  have hposts : Posts amountModulus (AmountsOnly m₀) balances
      (account.read (Balance.getWalletAddressLast4 feeAddressIndex.toNat))
      (fun last4 => Balance.getWalletAddressLast4 0 (m₀ account.key).data = .ok last4) [] := by
    apply posts_read
    intro m hm last4 hget
    rw [← hm.getWalletLast4_eq]
    exact hget
  have hread : Admits amountModulus (AmountsOnly m₀) balances
      (account.read (Balance.getWalletAddressLast4 feeAddressIndex.toNat))
      (∃ last4, Balance.getWalletAddressLast4 0 (m₀ account.key).data = .ok last4) [] := by
    apply admits_read
    intro m hm
    rw [← hm.getWalletLast4_eq]
    rfl
  have hcredit : ∀ last4, Balance.getWalletAddressLast4 0 (m₀ account.key).data = .ok last4 →
      Admits amountModulus (AmountsOnly m₀) balances
        (handleIncrements account
          [{ addressIndex := { index := feeAddressIndex, last4 := last4 }, amount := feeAmount }])
        (0 < numBalances (m₀ account.key).data ∧ HasAmount (m₀ account.key).data 0)
        [.credit (account.key, 0) feeAmount.toNat] := by
    intro last4 hlast4
    refine (admits_handleIncrements account _).congr ⟨fun hready => ?_, ?_⟩
    · obtain ⟨hwallet, hamount⟩ := hready _ (List.mem_singleton.mpr rfl)
      exact ⟨hwallet.inUse, hamount⟩
    · rintro ⟨hinUse, hamount⟩ adjustment hmem
      obtain rfl := List.mem_singleton.mp hmem
      exact ⟨⟨hinUse, hlast4⟩, hamount⟩
  refine (Admits.bind hposts hread hcredit).congr ?_
  exact ⟨fun h => ⟨h.2.1, h.1, h.2.2⟩, fun h => ⟨h.2.1, h.1, h.2.2⟩⟩

theorem keyAt_of_listed {index : UInt8} {account : AccountInfo}
    (h : accounts[index.toNat]? = some account) : keyAt accounts index = some account.key := by
  rw [keyAt, h]
  rfl

theorem Validated.type_of_keyAt {index : UInt8} {isSigner isWritable : Bool} {accountType : AccountType}
    {related : Option UInt8} {m : Memory} {key : Pubkey}
    (h : Validated accounts index isSigner isWritable (some accountType) related m)
    (hkey : keyAt accounts index = some key) : getType (m key).data = .ok accountType := by
  obtain ⟨account, haccount, -, -, hfits⟩ := h
  obtain rfl := Option.some.inj (hkey.symm.trans (keyAt_of_listed haccount))
  exact hfits.type_eq

theorem entriesOf_listed {tokenSettlements : SettlementAdjustments} {account : AccountInfo}
    (h : accounts[tokenSettlements.accountIndex.toNat]? = some account) :
    entriesOf accounts tokenSettlements = tokenSettlements.entries account.key := by
  rw [entriesOf, keyAt_of_listed h]

/-- The part of an entry that follows the validation of its account. -/
theorem posts_adjustments (account : AccountInfo) (tokenSettlements : SettlementAdjustments) :
    Posts amountModulus (AmountsOnly m₀) balances
      (Exec.when (0 < tokenSettlements.feeAmount) (creditFee account tokenSettlements.feeAmount) >>= fun _ =>
        handleIncrements account tokenSettlements.increments >>= fun _ =>
        handleDecrements account tokenSettlements.decrements)
      (fun _ => True) (tokenSettlements.entries account.key) :=
  (posts_when fun _ => posts_creditFee account _).bind fun _ _ =>
    (posts_handleIncrements account _).bind fun _ _ => posts_handleDecrements account _

theorem admits_adjustments (account : AccountInfo) (tokenSettlements : SettlementAdjustments) :
    Admits amountModulus (AmountsOnly m₀) balances
      (Exec.when (0 < tokenSettlements.feeAmount) (creditFee account tokenSettlements.feeAmount) >>= fun _ =>
        handleIncrements account tokenSettlements.increments >>= fun _ =>
        handleDecrements account tokenSettlements.decrements)
      (AdjustmentsReady tokenSettlements (m₀ account.key).data) (tokenSettlements.entries account.key) := by
  refine (Admits.bind (posts_when fun _ => posts_creditFee account _)
    (admits_when fun _ => admits_creditFee account _) fun _ _ =>
      Admits.bind (posts_handleIncrements account _) (admits_handleIncrements account _) fun _ _ =>
        admits_handleDecrements account _).congr ?_
  exact ⟨fun ⟨hfee, hincrements, hdecrements⟩ => ⟨hfee, hincrements, hdecrements⟩,
    fun ⟨hfee, hincrements, hdecrements⟩ => ⟨hfee, hincrements, hdecrements⟩⟩

theorem posts_applySettlement (tokenSettlements : SettlementAdjustments) :
    Posts amountModulus (AmountsOnly m₀) balances (applySettlement accounts tokenSettlements)
      (fun _ => True) (entriesOf accounts tokenSettlements) := by
  refine (posts_validate _ _ _ _ _).bind_nil fun _ _ => ?_
  refine (posts_accountAt _).bind_nil fun account haccount => ?_
  rw [entriesOf_listed haccount]
  exact posts_adjustments account tokenSettlements

theorem admits_applySettlement (tokenSettlements : SettlementAdjustments) :
    Admits amountModulus (AmountsOnly m₀) balances (applySettlement accounts tokenSettlements)
      (SettlementReady accounts m₀ tokenSettlements) (entriesOf accounts tokenSettlements) := by
  refine Admits.bind_nil (posts_validate _ _ _ _ _) (admits_validate _ _ _ _ _) fun _ hvalidated => ?_
  obtain ⟨account, haccount, -, -, -⟩ := hvalidated
  rw [entriesOf_listed haccount]
  refine (Admits.bind_nil (posts_accountAt _) (admits_accountAt _) fun account' haccount' => ?_).congr
    (and_iff_right ⟨account, haccount⟩)
  obtain rfl : account = account' := Option.some.inj (haccount.symm.trans haccount')
  refine (admits_adjustments account tokenSettlements).congr ⟨fun hready key hkey => ?_, fun hready => ?_⟩
  · obtain rfl := Option.some.inj (hkey.symm.trans (keyAt_of_listed haccount))
    exact hready
  · exact hready account.key (keyAt_of_listed haccount)

/-! ### The whole batch -/

theorem posts_settlements (settlements : List SettlementAdjustments) :
    Posts amountModulus (AmountsOnly m₀) balances (settlements.forM (applySettlement accounts))
      (fun _ => True) (settlements.flatMap (entriesOf accounts)) :=
  posts_forM fun tokenSettlements _ => posts_applySettlement tokenSettlements

theorem admits_settlements (settlements : List SettlementAdjustments) :
    Admits amountModulus (AmountsOnly m₀) balances (settlements.forM (applySettlement accounts))
      (∀ tokenSettlements ∈ settlements, SettlementReady accounts m₀ tokenSettlements)
      (settlements.flatMap (entriesOf accounts)) :=
  admits_forM (fun tokenSettlements _ => posts_applySettlement tokenSettlements)
    fun tokenSettlements _ => admits_applySettlement tokenSettlements

end Submission

/-! ### Calls -/

/-- The call that runs a settlement instruction on the raw data of a batch. -/
def settlementCall (instrType : UInt8) (programId : Pubkey) (accounts : List AccountInfo)
    (rawParamsData : Bytes) : Call where
  programId := programId
  accounts := accounts
  instructionData := instrType :: rawParamsData

theorem settlementCall_prepare {rawParamsData : Bytes} {params : SettlementBatchParams}
    (hparams : decodeFromSlice SettlementBatchParams.decode rawParamsData = .ok params)
    (programId : Pubkey) (accounts : List AccountInfo) :
    (settlementCall 5 programId accounts rawParamsData).instruction =
      .ok (.prepareBatchSettlement params) := by
  rw [Call.instruction, settlementCall, decode_cons]
  show decodeFromSlice (ProgramInstruction.prepareBatchSettlement <$> SettlementBatchParams.decode) _ = _
  rw [decodeFromSlice_map, hparams]
  rfl

theorem settlementCall_submit {rawParamsData : Bytes} {params : SettlementBatchParams}
    (hparams : decodeFromSlice SettlementBatchParams.decode rawParamsData = .ok params)
    (programId : Pubkey) (accounts : List AccountInfo) :
    (settlementCall 6 programId accounts rawParamsData).instruction =
      .ok (.submitBatchSettlement params) := by
  rw [Call.instruction, settlementCall, decode_cons]
  show decodeFromSlice (ProgramInstruction.submitBatchSettlement <$> SettlementBatchParams.decode) _ = _
  rw [decodeFromSlice_map, hparams]
  rfl

/-- Two calls name the same token account at every position that a batch uses. -/
def SameTokenAccounts (settlements : List SettlementAdjustments) (accounts accounts' : List AccountInfo) :
    Prop :=
  ∀ tokenSettlements ∈ settlements,
    keyAt accounts' tokenSettlements.accountIndex = keyAt accounts tokenSettlements.accountIndex

instance (settlements : List SettlementAdjustments) (accounts accounts' : List AccountInfo) :
    Decidable (SameTokenAccounts settlements accounts accounts') :=
  inferInstanceAs (Decidable (∀ _ ∈ settlements, _))

theorem SameTokenAccounts.flatMap_entriesOf {settlements : List SettlementAdjustments}
    {accounts accounts' : List AccountInfo} (h : SameTokenAccounts settlements accounts accounts') :
    settlements.flatMap (entriesOf accounts') = settlements.flatMap (entriesOf accounts) := by
  apply List.flatMap_congr
  intro tokenSettlements hmem
  rw [entriesOf, entriesOf, h tokenSettlements hmem]

end Chainring.Arch
