import Chainring.Arch.WithdrawalVerification

/-! Withdrawals as postings to the ledger of all balances. Their preparation debits the wallets and moves
the fees, and builds what is paid out; their rollback posts the opposite entries in the same order. -/

namespace Chainring.Arch

open CheckedWord (bind_eq_ok)
open Exec (Keeps Posts Admits keeps_when keeps_when_imp keeps_ensure keeps_foldlM_forall₂ posts_when
  posts_forM posts_foldlM admits_when admits_forM admits_foldlM)
open Ledger (Entry)

/-! ### Entries -/

/-- The fee goes to the wallet at 0 of the fee account. The paying wallet is debited on its own only where
the fee account is another account. -/
def Withdrawal.feeEntries (accounts : List AccountInfo) (key : Pubkey) (withdrawal : Withdrawal) :
    List (Entry (Pubkey × Nat)) :=
  match keyAt accounts withdrawal.feeAccountIndex with
  | some feeKey =>
      .credit (feeKey, 0) withdrawal.feeAmount.toNat ::
        if feeKey ≠ key then
          [.debit (feeKey, withdrawal.feeAddressIndex.index.toNat) withdrawal.feeAmount.toNat]
        else []
  | none => []

/-- What a withdrawal from the account of the key posts. -/
def Withdrawal.entries (accounts : List AccountInfo) (key : Pubkey) (withdrawal : Withdrawal) :
    List (Entry (Pubkey × Nat)) :=
  .debit (key, withdrawal.addressIndex.index.toNat) withdrawal.amount.toNat ::
    if 0 < withdrawal.feeAmount then withdrawal.feeEntries accounts key else []

def TokenWithdrawals.entries (accounts : List AccountInfo) (tokenWithdrawals : TokenWithdrawals) :
    List (Entry (Pubkey × Nat)) :=
  match keyAt accounts tokenWithdrawals.accountIndex with
  | some key => tokenWithdrawals.withdrawals.flatMap (Withdrawal.entries accounts key)
  | none => []

theorem TokenWithdrawals.entries_listed {accounts : List AccountInfo} {tokenWithdrawals : TokenWithdrawals}
    {account : AccountInfo} (h : accounts[tokenWithdrawals.accountIndex.toNat]? = some account) :
    tokenWithdrawals.entries accounts =
      tokenWithdrawals.withdrawals.flatMap (Withdrawal.entries accounts account.key) := by
  rw [TokenWithdrawals.entries, keyAt_of_listed h]

theorem Withdrawal.feeEntries_listed {accounts : List AccountInfo} {withdrawal : Withdrawal} {key : Pubkey}
    {feeAccount : AccountInfo} (h : accounts[withdrawal.feeAccountIndex.toNat]? = some feeAccount) :
    withdrawal.feeEntries accounts key =
      .credit (feeAccount.key, 0) withdrawal.feeAmount.toNat ::
        if feeAccount.key ≠ key then
          [.debit (feeAccount.key, withdrawal.feeAddressIndex.index.toNat) withdrawal.feeAmount.toNat]
        else [] := by
  rw [Withdrawal.feeEntries, keyAt_of_listed h]

/-! ### Payouts -/

/-- What one withdrawal is paid: an output and, for a rune, the id and amount of an edict. -/
structure Payout where
  txOut : TxOut
  edict : Option (RuneId × UInt64)
  deriving DecidableEq

/-- The payout of a withdrawal, from the data of its account. -/
def payoutOf (rt : Runtime) (networkType : NetworkType) (withdrawal : Withdrawal) (data : Bytes) :
    Except Fault Payout := do
  let isRune ← TokenState.isRuneAccount rt data
  if isRune then do
    let runeId ← TokenState.getRuneId rt data
    let address ← Balance.getWalletAddress withdrawal.addressIndex.index.toNat data
    let scriptBuf ← getBitcoinAddress rt address networkType
    pure { txOut := { value := dustThreshold, scriptPubkey := scriptBuf }, edict := some (runeId, withdrawal.amount) }
  else do
    let address ← Balance.getWalletAddress withdrawal.addressIndex.index.toNat data
    let scriptBuf ← getBitcoinAddress rt address networkType
    pure { txOut := { value := withdrawal.amount - withdrawal.feeAmount, scriptPubkey := scriptBuf }, edict := none }

/-- The output, and the edict that points at it. -/
def Outputs.pay (outputs : Outputs) (payout : Payout) : Outputs where
  txOuts := outputs.txOuts ++ [payout.txOut]
  edicts := outputs.edicts ++
    (payout.edict.toList.map fun edict =>
      { id := edict.1, amount := edict.2.toNat, output := UInt32.ofNat outputs.txOuts.length })

section Payouts

variable {rt : Runtime} {networkType : NetworkType} {withdrawal : Withdrawal} {m₀ m m' : Memory}

/-- The output branch appends the payout. -/
theorem addWithdrawalOutput_eq_ok {account : AccountInfo} {outputs outputs' : Outputs}
    (h : (addWithdrawalOutput rt account withdrawal networkType outputs).run m = .ok outputs' m') :
    m' = m ∧ ∃ payout, payoutOf rt networkType withdrawal (m account.key).data = .ok payout ∧
      outputs' = outputs.pay payout := by
  obtain ⟨isRune, hisRune, h⟩ := read_bind_eq_ok.mp h
  cases isRune with
  | true =>
      obtain ⟨runeId, hruneId, h⟩ := read_bind_eq_ok.mp h
      obtain ⟨address, haddress, h⟩ := read_bind_eq_ok.mp h
      obtain ⟨scriptBuf, hscript, h⟩ := Exec.query_bind_eq_ok.mp h
      obtain ⟨hpay, hsame⟩ := Exec.pure_eq_ok.mp h
      refine ⟨hsame, { txOut := ⟨dustThreshold, scriptBuf⟩, edict := some (runeId, withdrawal.amount) }, ?_, hpay⟩
      apply bind_eq_ok.mpr
      refine ⟨true, hisRune, bind_eq_ok.mpr ⟨runeId, hruneId, bind_eq_ok.mpr ⟨address, haddress, ?_⟩⟩⟩
      exact bind_eq_ok.mpr ⟨scriptBuf, hscript, rfl⟩
  | false =>
      obtain ⟨address, haddress, h⟩ := read_bind_eq_ok.mp h
      obtain ⟨scriptBuf, hscript, h⟩ := Exec.query_bind_eq_ok.mp h
      obtain ⟨hpay, hsame⟩ := Exec.pure_eq_ok.mp h
      refine ⟨hsame, { txOut := ⟨withdrawal.amount - withdrawal.feeAmount, scriptBuf⟩, edict := none }, ?_, ?_⟩
      · apply bind_eq_ok.mpr
        refine ⟨false, hisRune, bind_eq_ok.mpr ⟨address, haddress, ?_⟩⟩
        exact bind_eq_ok.mpr ⟨scriptBuf, hscript, rfl⟩
      · rw [hpay, Outputs.pay]
        simp

theorem AmountsOnly.getTokenId_eq (h : AmountsOnly m₀ m) (key : Pubkey) :
    TokenState.getTokenId (m key).data = TokenState.getTokenId (m₀ key).data := by
  unfold TokenState.getTokenId
  rw [readBlock_congr fun o ho => h.bytes key o ?_]
  rintro ⟨index, hamount⟩
  have hge := hamount.ge
  have hhigh : o < 37 + 32 := ho.2
  omega

/-- A payout does not depend on amounts held. -/
theorem AmountsOnly.payoutOf_eq (h : AmountsOnly m₀ m) (key : Pubkey) :
    payoutOf rt networkType withdrawal (m key).data = payoutOf rt networkType withdrawal (m₀ key).data := by
  unfold payoutOf TokenState.isRuneAccount TokenState.getRuneId
  rw [h.getTokenId_eq, h.getWalletAddress_eq]

/-- The output branch succeeds where there is a payout. -/
theorem addWithdrawalOutput_isOk {account : AccountInfo} {outputs : Outputs} :
    (∃ outputs' m', (addWithdrawalOutput rt account withdrawal networkType outputs).run m = .ok outputs' m') ↔
      ∃ payout, payoutOf rt networkType withdrawal (m account.key).data = .ok payout := by
  constructor
  · rintro ⟨outputs', m', h⟩
    obtain ⟨-, payout, hpayout, -⟩ := addWithdrawalOutput_eq_ok h
    exact ⟨payout, hpayout⟩
  · rintro ⟨payout, h⟩
    obtain ⟨isRune, hisRune, h⟩ := bind_eq_ok.mp h
    cases isRune with
    | true =>
        obtain ⟨runeId, hruneId, h⟩ := bind_eq_ok.mp h
        obtain ⟨address, haddress, h⟩ := bind_eq_ok.mp h
        obtain ⟨scriptBuf, hscript, -⟩ := bind_eq_ok.mp h
        refine ⟨addEdictAndOutput runeId scriptBuf withdrawal.amount outputs, m, ?_⟩
        refine read_bind_eq_ok.mpr ⟨true, hisRune, read_bind_eq_ok.mpr ⟨runeId, hruneId, ?_⟩⟩
        exact read_bind_eq_ok.mpr ⟨address, haddress, Exec.query_bind_eq_ok.mpr ⟨scriptBuf, hscript, rfl⟩⟩
    | false =>
        obtain ⟨address, haddress, h⟩ := bind_eq_ok.mp h
        obtain ⟨scriptBuf, hscript, -⟩ := bind_eq_ok.mp h
        refine ⟨{ outputs with txOuts := outputs.txOuts ++ [⟨withdrawal.amount - withdrawal.feeAmount, scriptBuf⟩] },
          m, ?_⟩
        refine read_bind_eq_ok.mpr ⟨false, hisRune, read_bind_eq_ok.mpr ⟨address, haddress, ?_⟩⟩
        exact Exec.query_bind_eq_ok.mpr ⟨scriptBuf, hscript, rfl⟩

theorem builds_addWithdrawalOutput (account : AccountInfo) (outputs : Outputs) :
    Keeps (AmountsOnly m₀) (addWithdrawalOutput rt account withdrawal networkType outputs)
      fun outputs' => ∃ payout, payoutOf rt networkType withdrawal (m₀ account.key).data = .ok payout ∧
        outputs' = outputs.pay payout := by
  apply (keeps_addWithdrawalOutput rt account withdrawal networkType outputs).strengthen
  intro m outputs' m' hm hok
  rw [← hm.payoutOf_eq]
  exact (addWithdrawalOutput_eq_ok hok).2

end Payouts

section Preparation

variable {rt : Runtime} {networkType : NetworkType} {accounts : List AccountInfo} {m₀ : Memory}

/-! ### The preparation -/

theorem keeps_amountsOnly_write {account : AccountInfo} {put : Bytes → Except Fault Bytes} {index : Nat}
    (hw : Writes put (AmountBytes index)) :
    Keeps (AmountsOnly m₀) (account.write put) fun _ => True := by
  apply Exec.keeps_modify
  intro m hm m' hput
  cases hdata : put (m account.key).data with
  | error fault =>
      rw [hdata] at hput
      cases hput
  | ok data =>
      rw [hdata] at hput
      cases hput
      exact ⟨hm.setData hw hdata, trivial⟩

/-- The wallet at 0 has the fee address, and its amount lies in the data. -/
structure CollectsFee (feeAccountAddress : Utf8String) (data : Bytes) : Prop where
  address : Balance.getWalletAddress 0 data = .ok feeAccountAddress
  hasAmount : HasAmount data 0

/-- A withdrawal is paid its payout, and its fee goes to the fee wallet of the fee account. -/
structure Paid (rt : Runtime) (networkType : NetworkType) (accounts : List AccountInfo) (m : Memory)
    (key : Pubkey) (feeAccountAddress : Utf8String) (withdrawal : Withdrawal) (payout : Payout) : Prop where
  payout : payoutOf rt networkType withdrawal (m key).data = .ok payout
  fee : 0 < withdrawal.feeAmount → ∀ feeKey, keyAt accounts withdrawal.feeAccountIndex = some feeKey →
    CollectsFee feeAccountAddress (m feeKey).data

/-- The payouts of the withdrawals from one account. -/
def PaidOut (rt : Runtime) (networkType : NetworkType) (accounts : List AccountInfo) (m : Memory)
    (program : AccountInfo) (tokenWithdrawals : TokenWithdrawals) (payouts : List Payout) : Prop :=
  ∃ key feeAccountAddress, keyAt accounts tokenWithdrawals.accountIndex = some key ∧
    ProgramState.getFeeAccountAddress (m program.key).data = .ok feeAccountAddress ∧
    List.Forall₂ (Paid rt networkType accounts m key feeAccountAddress) tokenWithdrawals.withdrawals payouts

theorem AmountsOnly.getFeeAccountAddress_eq {m : Memory} (h : AmountsOnly m₀ m) (key : Pubkey) :
    ProgramState.getFeeAccountAddress (m key).data = ProgramState.getFeeAccountAddress (m₀ key).data := by
  apply getFeeAccountAddress_congr
  intro o ho
  apply h.bytes
  rintro ⟨index, hamount⟩
  have hge := hamount.ge
  have hhigh : o < 129 := ho
  omega

theorem keeps_amountsOnly_increment (account : AccountInfo) (index : Nat) (amount : UInt64) :
    Keeps (AmountsOnly m₀) (account.write (Balance.incrementWalletBalance index amount))
      fun _ => HasAmount (m₀ account.key).data index := by
  apply (keeps_amountsOnly_write (writes_incrementWalletBalance index amount)).strengthen
  intro m u m' hm hok
  obtain ⟨data, hput, -⟩ := write_eq_ok.mp hok
  exact (hm.hasAmount_iff account.key index).mp (incrementWalletBalance_isOk.mp ⟨data, hput⟩)

theorem builds_handlePrepareWithdrawal (account : AccountInfo) (feeAccountAddress : Utf8String)
    (outputs : Outputs) (withdrawal : Withdrawal) :
    Keeps (AmountsOnly m₀)
      (handlePrepareWithdrawal rt accounts account feeAccountAddress networkType outputs withdrawal)
      fun outputs' => ∃ payout,
        Paid rt networkType accounts m₀ account.key feeAccountAddress withdrawal payout ∧
        outputs' = outputs.pay payout := by
  refine (keeps_amountsOnly_write (writes_decrementWalletBalance _ _)).bind fun _ _ => ?_
  refine Keeps.bind (keeps_when_imp (P := ∀ feeKey, keyAt accounts withdrawal.feeAccountIndex = some feeKey →
    CollectsFee feeAccountAddress (m₀ feeKey).data) fun _ => ?_) fun _ hfee => ?_
  · refine keeps_accountAt.bind fun feeAccount hfeeAccount => ?_
    have haddress : Keeps (AmountsOnly m₀) (feeAccount.read (Balance.getWalletAddress feeAddressIndex.toNat))
        fun address => Balance.getWalletAddress 0 (m₀ feeAccount.key).data = .ok address := by
      apply keeps_read
      intro m hm address hget
      rw [← hm.getWalletAddress_eq]
      exact hget
    refine haddress.bind fun address haddress => keeps_ensure.bind fun _ hequal => ?_
    refine (keeps_amountsOnly_increment feeAccount _ _).bind fun _ hamount => ?_
    refine Keeps.weaken (keeps_when fun _ => keeps_amountsOnly_write (writes_decrementWalletBalance _ _)) ?_
    intro _ _ feeKey hfeeKey
    obtain rfl := Option.some.inj ((keyAt_of_listed hfeeAccount).symm.trans hfeeKey)
    rw [hequal] at haddress
    exact ⟨haddress, hamount⟩
  · refine (builds_addWithdrawalOutput account outputs).weaken ?_
    rintro outputs' ⟨payout, hpayout, hpay⟩
    exact ⟨payout, ⟨hpayout, hfee⟩, hpay⟩

variable (rt networkType) in
theorem builds_tokenWithdrawals (program : AccountInfo) (tokenWithdrawals : TokenWithdrawals)
    (outputs : Outputs) :
    Keeps (AmountsOnly m₀)
      (do
        let feeAccountAddress ← program.read ProgramState.getFeeAccountAddress
        handlePrepareWithdrawals rt accounts tokenWithdrawals feeAccountAddress networkType outputs)
      fun outputs' => ∃ payouts, PaidOut rt networkType accounts m₀ program tokenWithdrawals payouts ∧
        outputs' = payouts.foldl Outputs.pay outputs := by
  have haddress : Keeps (AmountsOnly m₀) (program.read ProgramState.getFeeAccountAddress)
      fun address => ProgramState.getFeeAccountAddress (m₀ program.key).data = .ok address := by
    apply keeps_read
    intro m hm address hget
    rw [← hm.getFeeAccountAddress_eq]
    exact hget
  refine haddress.bind fun feeAccountAddress hfeeAddress => keeps_accountAt.bind fun account haccount => ?_
  refine (keeps_foldlM_forall₂ fun outputs withdrawal _ =>
    builds_handlePrepareWithdrawal account feeAccountAddress outputs withdrawal).weaken ?_
  rintro outputs' ⟨payouts, hpayouts, hpay⟩
  exact ⟨payouts, ⟨account.key, feeAccountAddress, keyAt_of_listed haccount, hfeeAddress, hpayouts⟩, hpay⟩

theorem posts_addWithdrawalOutput (account : AccountInfo) (withdrawal : Withdrawal) (outputs : Outputs) :
    Posts amountModulus (AmountsOnly m₀) balances
      (addWithdrawalOutput rt account withdrawal networkType outputs) (fun _ => True) [] := by
  intro m outputs' m' hm hok
  obtain ⟨rfl, -⟩ := addWithdrawalOutput_eq_ok hok
  exact ⟨trivial, hm, rfl⟩

theorem posts_ensure {c : Prop} [Decidable c] {e : ProgramError} :
    Posts amountModulus (AmountsOnly m₀) balances (Exec.ensure c e) (fun _ => c) [] := by
  intro m u m' hm hok
  obtain ⟨hc, rfl⟩ := Exec.ensure_eq_ok.mp hok
  exact ⟨hc, hm, rfl⟩

/-- The fee of a withdrawal, taken to the fee wallet. -/
def takeFee (accounts : List AccountInfo) (account : AccountInfo) (feeAccountAddress : Utf8String)
    (withdrawal : Withdrawal) : Prog Unit := do
  let feeAccount ← accountAt accounts withdrawal.feeAccountIndex.toNat
  let feeAddress ← feeAccount.read (Balance.getWalletAddress feeAddressIndex.toNat)
  Exec.ensure (feeAddress = feeAccountAddress) (.custom errorAddressMismatch)
  feeAccount.write (Balance.incrementWalletBalance feeAddressIndex.toNat withdrawal.feeAmount)
  Exec.when (feeAccount.key ≠ account.key) (feeAccount.write
    (Balance.decrementWalletBalance withdrawal.feeAddressIndex.index.toNat withdrawal.feeAmount))

theorem posts_takeFee (account : AccountInfo) (feeAccountAddress : Utf8String) (withdrawal : Withdrawal) :
    Posts amountModulus (AmountsOnly m₀) balances (takeFee accounts account feeAccountAddress withdrawal)
      (fun _ => True) (withdrawal.feeEntries accounts account.key) := by
  refine (posts_accountAt _).bind_nil fun feeAccount hfeeAccount => ?_
  refine Posts.bind_nil (posts_read fun _ _ _ _ => trivial) fun feeAddress _ => ?_
  refine posts_ensure.bind_nil fun _ _ => ?_
  rw [Withdrawal.feeEntries_listed hfeeAccount]
  exact (posts_increment feeAccount _ _).bind fun _ _ => posts_when fun _ => posts_decrement feeAccount _ _

theorem posts_handlePrepareWithdrawal (account : AccountInfo) (feeAccountAddress : Utf8String)
    (outputs : Outputs) (withdrawal : Withdrawal) :
    Posts amountModulus (AmountsOnly m₀) balances
      (handlePrepareWithdrawal rt accounts account feeAccountAddress networkType outputs withdrawal)
      (fun _ => True) (withdrawal.entries accounts account.key) := by
  refine Posts.bind (posts_decrement account _ _) fun _ _ => ?_
  exact Posts.then_nil (posts_when fun _ => posts_takeFee account feeAccountAddress withdrawal) fun _ _ =>
    posts_addWithdrawalOutput account withdrawal outputs

variable (rt networkType) in
theorem posts_tokenWithdrawals (program : AccountInfo) (tokenWithdrawals : TokenWithdrawals)
    (outputs : Outputs) :
    Posts amountModulus (AmountsOnly m₀) balances
      (do
        let feeAccountAddress ← program.read ProgramState.getFeeAccountAddress
        handlePrepareWithdrawals rt accounts tokenWithdrawals feeAccountAddress networkType outputs)
      (fun _ => True) (tokenWithdrawals.entries accounts) := by
  refine Posts.bind_nil (posts_read fun _ _ _ _ => trivial) fun feeAccountAddress _ => ?_
  refine (posts_accountAt _).bind_nil fun account haccount => ?_
  rw [TokenWithdrawals.entries_listed haccount]
  exact posts_foldlM fun outputs withdrawal _ =>
    posts_handlePrepareWithdrawal account feeAccountAddress outputs withdrawal

theorem posts_feeAddress (feeAccount : AccountInfo) :
    Posts amountModulus (AmountsOnly m₀) balances
      (feeAccount.read (Balance.getWalletAddress feeAddressIndex.toNat))
      (fun address => Balance.getWalletAddress 0 (m₀ feeAccount.key).data = .ok address) [] := by
  apply posts_read
  intro m hm address hget
  rw [← hm.getWalletAddress_eq]
  exact hget

theorem admits_feeAddress (feeAccount : AccountInfo) :
    Admits amountModulus (AmountsOnly m₀) balances
      (feeAccount.read (Balance.getWalletAddress feeAddressIndex.toNat))
      (∃ address, Balance.getWalletAddress 0 (m₀ feeAccount.key).data = .ok address) [] := by
  apply admits_read
  intro m hm
  rw [← hm.getWalletAddress_eq]
  rfl

theorem admits_ensure {c : Prop} [Decidable c] {e : ProgramError} :
    Admits amountModulus (AmountsOnly m₀) balances (Exec.ensure c e) c [] := by
  intro m _
  constructor
  · rintro ⟨_, _, hok⟩
    exact ⟨(Exec.ensure_eq_ok.mp hok).1, rfl⟩
  · rintro ⟨hc, -⟩
    exact ⟨(), m, Exec.ensure_eq_ok.mpr ⟨hc, rfl⟩⟩

/-- A fee is moved once the fee wallet is known to have the fee address. -/
theorem admits_checkedFee {move : Prog Unit} {ready : Prop} {entries : List (Entry (Pubkey × Nat))}
    (feeAccount : AccountInfo) (feeAccountAddress : Utf8String)
    (hmove : Admits amountModulus (AmountsOnly m₀) balances move
      (HasAmount (m₀ feeAccount.key).data 0 ∧ ready) entries) :
    Admits amountModulus (AmountsOnly m₀) balances
      (do
        let feeAddress ← feeAccount.read (Balance.getWalletAddress feeAddressIndex.toNat)
        Exec.ensure (feeAddress = feeAccountAddress) (.custom errorAddressMismatch)
        move)
      (CollectsFee feeAccountAddress (m₀ feeAccount.key).data ∧ ready) entries := by
  have hchecked : ∀ address, Balance.getWalletAddress 0 (m₀ feeAccount.key).data = .ok address →
      Admits amountModulus (AmountsOnly m₀) balances
        (Exec.ensure (address = feeAccountAddress) (.custom errorAddressMismatch) >>= fun _ => move)
        (Balance.getWalletAddress 0 (m₀ feeAccount.key).data = .ok feeAccountAddress ∧
          HasAmount (m₀ feeAccount.key).data 0 ∧ ready) entries := by
    intro address haddress
    apply (Admits.bind_nil posts_ensure admits_ensure fun _ _ => hmove).congr
    apply and_congr_left
    intro _
    rw [haddress, Except.ok.injEq]
  apply (Admits.bind_nil (posts_feeAddress feeAccount) (admits_feeAddress feeAccount) hchecked).congr
  constructor
  · rintro ⟨-, haddress, hamount, hready⟩
    exact ⟨⟨haddress, hamount⟩, hready⟩
  · rintro ⟨⟨haddress, hamount⟩, hready⟩
    exact ⟨⟨_, haddress⟩, haddress, hamount, hready⟩

/-- What taking a fee needs of the accounts. -/
structure FeeTakeable (accounts : List AccountInfo) (m : Memory) (key : Pubkey) (feeAccountAddress : Utf8String)
    (withdrawal : Withdrawal) : Prop where
  listed : ∃ feeAccount, accounts[withdrawal.feeAccountIndex.toNat]? = some feeAccount
  collects : ∀ feeKey, keyAt accounts withdrawal.feeAccountIndex = some feeKey →
    CollectsFee feeAccountAddress (m feeKey).data
  payer : ∀ feeKey, keyAt accounts withdrawal.feeAccountIndex = some feeKey → feeKey ≠ key →
    HasAmount (m feeKey).data withdrawal.feeAddressIndex.index.toNat

theorem admits_takeFee (account : AccountInfo) (feeAccountAddress : Utf8String) (withdrawal : Withdrawal) :
    Admits amountModulus (AmountsOnly m₀) balances (takeFee accounts account feeAccountAddress withdrawal)
      (FeeTakeable accounts m₀ account.key feeAccountAddress withdrawal)
      (withdrawal.feeEntries accounts account.key) := by
  have hparts : ((∃ feeAccount, accounts[withdrawal.feeAccountIndex.toNat]? = some feeAccount) ∧
      (∀ feeKey, keyAt accounts withdrawal.feeAccountIndex = some feeKey →
        CollectsFee feeAccountAddress (m₀ feeKey).data) ∧
      ∀ feeKey, keyAt accounts withdrawal.feeAccountIndex = some feeKey → feeKey ≠ account.key →
        HasAmount (m₀ feeKey).data withdrawal.feeAddressIndex.index.toNat) ↔
      FeeTakeable accounts m₀ account.key feeAccountAddress withdrawal :=
    ⟨fun ⟨hlisted, hcollects, hpayer⟩ => ⟨hlisted, hcollects, hpayer⟩,
      fun ⟨hlisted, hcollects, hpayer⟩ => ⟨hlisted, hcollects, hpayer⟩⟩
  refine Admits.congr ?_ hparts
  refine Admits.bind_nil (posts_accountAt _) (admits_accountAt _) fun feeAccount hfeeAccount => ?_
  rw [Withdrawal.feeEntries_listed hfeeAccount]
  simp only [keyAt_of_listed hfeeAccount, Option.some.injEq, forall_eq']
  exact admits_checkedFee feeAccount feeAccountAddress <|
    Admits.bind (posts_increment feeAccount _ _) (admits_increment feeAccount _ _) fun _ _ =>
      admits_when fun _ => admits_decrement feeAccount _ _

theorem admits_addWithdrawalOutput (account : AccountInfo) (withdrawal : Withdrawal) (outputs : Outputs) :
    Admits amountModulus (AmountsOnly m₀) balances
      (addWithdrawalOutput rt account withdrawal networkType outputs)
      (∃ payout, payoutOf rt networkType withdrawal (m₀ account.key).data = .ok payout) [] := by
  intro m hm
  rw [← hm.payoutOf_eq, addWithdrawalOutput_isOk]
  exact (and_iff_left rfl).symm

/-- What the preparation of a withdrawal needs of the accounts, apart from the amounts. -/
structure WithdrawalReady (rt : Runtime) (networkType : NetworkType) (accounts : List AccountInfo) (m : Memory)
    (key : Pubkey) (feeAccountAddress : Utf8String) (withdrawal : Withdrawal) : Prop where
  hasAmount : HasAmount (m key).data withdrawal.addressIndex.index.toNat
  fee : 0 < withdrawal.feeAmount → FeeTakeable accounts m key feeAccountAddress withdrawal
  payout : ∃ payout, payoutOf rt networkType withdrawal (m key).data = .ok payout

theorem admits_handlePrepareWithdrawal (account : AccountInfo) (feeAccountAddress : Utf8String)
    (outputs : Outputs) (withdrawal : Withdrawal) :
    Admits amountModulus (AmountsOnly m₀) balances
      (handlePrepareWithdrawal rt accounts account feeAccountAddress networkType outputs withdrawal)
      (WithdrawalReady rt networkType accounts m₀ account.key feeAccountAddress withdrawal)
      (withdrawal.entries accounts account.key) := by
  refine (Admits.bind (posts_decrement account _ _) (admits_decrement account _ _) fun _ _ =>
    Admits.then_nil (posts_when fun _ => posts_takeFee account feeAccountAddress withdrawal)
      (admits_when fun _ => admits_takeFee account feeAccountAddress withdrawal) fun _ _ =>
        admits_addWithdrawalOutput account withdrawal outputs).congr ?_
  exact ⟨fun ⟨hamount, hfee, hpayout⟩ => ⟨hamount, hfee, hpayout⟩,
    fun ⟨hamount, hfee, hpayout⟩ => ⟨hamount, hfee, hpayout⟩⟩

/-- What the preparation of the withdrawals from one account needs. -/
structure TokenWithdrawalsReady (rt : Runtime) (networkType : NetworkType) (accounts : List AccountInfo) (m : Memory)
    (feeAccountAddress : Utf8String) (tokenWithdrawals : TokenWithdrawals) : Prop where
  listed : ∃ account, accounts[tokenWithdrawals.accountIndex.toNat]? = some account
  withdrawals : ∀ key, keyAt accounts tokenWithdrawals.accountIndex = some key →
    ∀ withdrawal ∈ tokenWithdrawals.withdrawals,
      WithdrawalReady rt networkType accounts m key feeAccountAddress withdrawal

variable (rt networkType) in
theorem admits_tokenWithdrawals (program : AccountInfo) {feeAccountAddress : Utf8String}
    (haddress : ProgramState.getFeeAccountAddress (m₀ program.key).data = .ok feeAccountAddress)
    (tokenWithdrawals : TokenWithdrawals) (outputs : Outputs) :
    Admits amountModulus (AmountsOnly m₀) balances
      (do
        let feeAccountAddress ← program.read ProgramState.getFeeAccountAddress
        handlePrepareWithdrawals rt accounts tokenWithdrawals feeAccountAddress networkType outputs)
      (TokenWithdrawalsReady rt networkType accounts m₀ feeAccountAddress tokenWithdrawals)
      (tokenWithdrawals.entries accounts) := by
  have hposts : Posts amountModulus (AmountsOnly m₀) balances (program.read ProgramState.getFeeAccountAddress)
      (fun address => address = feeAccountAddress) [] := by
    apply posts_read
    intro m hm address hget
    rw [hm.getFeeAccountAddress_eq] at hget
    exact Except.ok.inj (hget.symm.trans haddress)
  have hread : Admits amountModulus (AmountsOnly m₀) balances (program.read ProgramState.getFeeAccountAddress)
      True [] := by
    apply admits_read
    intro m hm
    rw [hm.getFeeAccountAddress_eq]
    exact iff_of_true ⟨_, haddress⟩ trivial
  have hrest : ∀ address, address = feeAccountAddress →
      Admits amountModulus (AmountsOnly m₀) balances
        (handlePrepareWithdrawals rt accounts tokenWithdrawals address networkType outputs)
        (TokenWithdrawalsReady rt networkType accounts m₀ feeAccountAddress tokenWithdrawals)
        (tokenWithdrawals.entries accounts) := by
    rintro _ rfl
    refine (Admits.bind_nil (posts_accountAt _) (admits_accountAt _) fun account haccount => ?_).congr
      ⟨fun ⟨hlisted, hready⟩ => ⟨hlisted, hready⟩, fun ⟨hlisted, hready⟩ => ⟨hlisted, hready⟩⟩
    rw [TokenWithdrawals.entries_listed haccount]
    refine (admits_foldlM (fun outputs withdrawal _ => posts_handlePrepareWithdrawal account _ outputs withdrawal)
      fun outputs withdrawal _ => admits_handlePrepareWithdrawal account _ outputs withdrawal).congr ?_
    simp only [keyAt_of_listed haccount, Option.some.injEq, forall_eq']
  exact (Admits.bind_nil hposts hread hrest).congr (and_iff_right trivial)

end Preparation

/-! ### The rollback -/

section Rollback

variable {accounts : List AccountInfo} {m₀ : Memory}

/-- What the rollback of a withdrawal needs of the accounts. -/
structure RollbackReady (accounts : List AccountInfo) (m : Memory) (key : Pubkey)
    (feeAccountAddress : Utf8String) (withdrawal : Withdrawal) : Prop where
  payer : Ready withdrawal.addressIndex (m key).data
  feeAccount : 0 < withdrawal.feeAmount →
    Validated accounts withdrawal.feeAccountIndex false true (some .token) (some 0) m
  fee : 0 < withdrawal.feeAmount → ∀ feeKey, keyAt accounts withdrawal.feeAccountIndex = some feeKey →
    CollectsFee feeAccountAddress (m feeKey).data ∧
      (feeKey ≠ key → HasAmount (m feeKey).data withdrawal.feeAddressIndex.index.toNat)

theorem Withdrawal.entries_opposite (key : Pubkey) (withdrawal : Withdrawal) :
    (withdrawal.entries accounts key).map Entry.opposite =
      .credit (key, withdrawal.addressIndex.index.toNat) withdrawal.amount.toNat ::
        if 0 < withdrawal.feeAmount then (withdrawal.feeEntries accounts key).map Entry.opposite else [] := by
  rw [Withdrawal.entries, List.map_cons, apply_ite (List.map Entry.opposite), List.map_nil]
  rfl

theorem Withdrawal.feeEntries_opposite {withdrawal : Withdrawal} {key : Pubkey} {feeAccount : AccountInfo}
    (h : accounts[withdrawal.feeAccountIndex.toNat]? = some feeAccount) :
    (withdrawal.feeEntries accounts key).map Entry.opposite =
      .debit (feeAccount.key, 0) withdrawal.feeAmount.toNat ::
        if feeAccount.key ≠ key then
          [.credit (feeAccount.key, withdrawal.feeAddressIndex.index.toNat) withdrawal.feeAmount.toNat]
        else [] := by
  rw [Withdrawal.feeEntries_listed h, List.map_cons, apply_ite (List.map Entry.opposite), List.map_nil]
  rfl

theorem posts_validatedIndex (account : AccountInfo) (addressIndex : AddressIndex) :
    Posts amountModulus (AmountsOnly m₀) balances (account.read (getValidatedIndex addressIndex))
      (fun index => index = addressIndex.index.toNat) [] :=
  posts_read fun _ _ _ hget => (getValidatedIndex_eq_ok.mp hget).2

theorem admits_validatedIndex (account : AccountInfo) (addressIndex : AddressIndex) :
    Admits amountModulus (AmountsOnly m₀) balances (account.read (getValidatedIndex addressIndex))
      (Wallet addressIndex (m₀ account.key).data) [] := by
  apply admits_read
  intro m hm
  rw [← hm.wallet_iff]
  constructor
  · rintro ⟨index, hget⟩
    exact (getValidatedIndex_eq_ok.mp hget).1
  · exact fun hwallet => ⟨_, getValidatedIndex_eq_ok.mpr ⟨hwallet, rfl⟩⟩

theorem posts_handleRollbackWithdrawal (account : AccountInfo) (feeAccountAddress : Utf8String)
    (withdrawal : Withdrawal) :
    Posts amountModulus (AmountsOnly m₀) balances
      (handleRollbackWithdrawal accounts account feeAccountAddress withdrawal) (fun _ => True)
      ((withdrawal.entries accounts account.key).map Entry.opposite) := by
  rw [Withdrawal.entries_opposite]
  refine (posts_validatedIndex account _).bind_nil fun index hindex => ?_
  rw [hindex]
  refine Posts.bind (posts_increment account _ _) fun _ _ => posts_when fun _ => ?_
  refine (posts_validate _ _ _ _ _).bind_nil fun _ _ => ?_
  refine (posts_accountAt _).bind_nil fun feeAccount hfeeAccount => ?_
  rw [Withdrawal.feeEntries_opposite hfeeAccount]
  refine (posts_feeAddress feeAccount).bind_nil fun feeAddress _ => posts_ensure.bind_nil fun _ _ => ?_
  exact (posts_decrement feeAccount _ _).bind fun _ _ => posts_when fun _ => posts_increment feeAccount _ _

/-- The fee goes back from the fee wallet. -/
theorem admits_returnFee (account feeAccount : AccountInfo) (feeAccountAddress : Utf8String)
    (withdrawal : Withdrawal) :
    Admits amountModulus (AmountsOnly m₀) balances
      (do
        let feeAddress ← feeAccount.read (Balance.getWalletAddress feeAddressIndex.toNat)
        Exec.ensure (feeAddress = feeAccountAddress) (.custom errorAddressMismatch)
        feeAccount.write (Balance.decrementWalletBalance feeAddressIndex.toNat withdrawal.feeAmount)
        Exec.when (feeAccount.key ≠ account.key) (feeAccount.write
          (Balance.incrementWalletBalance withdrawal.feeAddressIndex.index.toNat withdrawal.feeAmount)))
      (CollectsFee feeAccountAddress (m₀ feeAccount.key).data ∧ (feeAccount.key ≠ account.key →
        HasAmount (m₀ feeAccount.key).data withdrawal.feeAddressIndex.index.toNat))
      (.debit (feeAccount.key, 0) withdrawal.feeAmount.toNat ::
        if feeAccount.key ≠ account.key then
          [.credit (feeAccount.key, withdrawal.feeAddressIndex.index.toNat) withdrawal.feeAmount.toNat]
        else []) :=
  admits_checkedFee feeAccount feeAccountAddress <|
    Admits.bind (posts_decrement feeAccount _ _) (admits_decrement feeAccount _ _) fun _ _ =>
      admits_when fun _ => admits_increment feeAccount _ _

/-- The fee part of a rollback. -/
theorem admits_rollbackFee (account : AccountInfo) (feeAccountAddress : Utf8String) (withdrawal : Withdrawal) :
    Admits amountModulus (AmountsOnly m₀) balances
      (do
        validateAccount accounts withdrawal.feeAccountIndex false true (some .token) (some 0)
        let feeAccount ← accountAt accounts withdrawal.feeAccountIndex.toNat
        let feeAddress ← feeAccount.read (Balance.getWalletAddress feeAddressIndex.toNat)
        Exec.ensure (feeAddress = feeAccountAddress) (.custom errorAddressMismatch)
        feeAccount.write (Balance.decrementWalletBalance feeAddressIndex.toNat withdrawal.feeAmount)
        Exec.when (feeAccount.key ≠ account.key) (feeAccount.write
          (Balance.incrementWalletBalance withdrawal.feeAddressIndex.index.toNat withdrawal.feeAmount)))
      (Validated accounts withdrawal.feeAccountIndex false true (some .token) (some 0) m₀ ∧
        ∀ feeKey, keyAt accounts withdrawal.feeAccountIndex = some feeKey →
          CollectsFee feeAccountAddress (m₀ feeKey).data ∧
          (feeKey ≠ account.key → HasAmount (m₀ feeKey).data withdrawal.feeAddressIndex.index.toNat))
      ((withdrawal.feeEntries accounts account.key).map Entry.opposite) := by
  refine Admits.bind_nil (posts_validate _ _ _ _ _) (admits_validate _ _ _ _ _) fun _ hvalidated => ?_
  obtain ⟨feeAccount, hfeeAccount, -, -, -⟩ := hvalidated
  rw [Withdrawal.feeEntries_opposite hfeeAccount]
  refine (Admits.bind_nil (posts_accountAt _) (admits_accountAt _) fun feeAccount' hfeeAccount' => ?_).congr
    (and_iff_right ⟨feeAccount, hfeeAccount⟩)
  obtain rfl : feeAccount = feeAccount' := Option.some.inj (hfeeAccount.symm.trans hfeeAccount')
  apply (admits_returnFee account feeAccount feeAccountAddress withdrawal).congr
  constructor
  · intro h feeKey hfeeKey
    obtain rfl := Option.some.inj ((keyAt_of_listed hfeeAccount).symm.trans hfeeKey)
    exact h
  · exact fun h => h feeAccount.key (keyAt_of_listed hfeeAccount)

theorem admits_handleRollbackWithdrawal (account : AccountInfo) (feeAccountAddress : Utf8String)
    (withdrawal : Withdrawal) :
    Admits amountModulus (AmountsOnly m₀) balances
      (handleRollbackWithdrawal accounts account feeAccountAddress withdrawal)
      (RollbackReady accounts m₀ account.key feeAccountAddress withdrawal)
      ((withdrawal.entries accounts account.key).map Entry.opposite) := by
  have hrest : Admits amountModulus (AmountsOnly m₀) balances
      (handleRollbackWithdrawal accounts account feeAccountAddress withdrawal)
      (Wallet withdrawal.addressIndex (m₀ account.key).data ∧
        HasAmount (m₀ account.key).data withdrawal.addressIndex.index.toNat ∧
        (0 < withdrawal.feeAmount →
          Validated accounts withdrawal.feeAccountIndex false true (some .token) (some 0) m₀ ∧
          ∀ feeKey, keyAt accounts withdrawal.feeAccountIndex = some feeKey →
            CollectsFee feeAccountAddress (m₀ feeKey).data ∧
            (feeKey ≠ account.key → HasAmount (m₀ feeKey).data withdrawal.feeAddressIndex.index.toNat)))
      ((withdrawal.entries accounts account.key).map Entry.opposite) := by
    rw [Withdrawal.entries_opposite]
    refine Admits.bind_nil (posts_validatedIndex account _) (admits_validatedIndex account _)
      fun index hindex => ?_
    rw [hindex]
    exact Admits.bind (posts_increment account _ _) (admits_increment account _ _) fun _ _ =>
      admits_when fun _ => admits_rollbackFee account feeAccountAddress withdrawal
  apply hrest.congr
  constructor
  · rintro ⟨hwallet, hamount, hfee⟩
    exact ⟨⟨hwallet, hamount⟩, fun hpos => (hfee hpos).1, fun hpos => (hfee hpos).2⟩
  · rintro ⟨⟨hwallet, hamount⟩, hvalidated, hfee⟩
    exact ⟨hwallet, hamount, fun hpos => ⟨hvalidated hpos, hfee hpos⟩⟩

/-- The rollback of the withdrawals from one account. -/
theorem posts_rollbackTokenWithdrawals (program : AccountInfo) (tokenWithdrawals : TokenWithdrawals) :
    Posts amountModulus (AmountsOnly m₀) balances
      (do
        validateAccount accounts tokenWithdrawals.accountIndex false true (some .token) (some 0)
        let feeAccountAddress ← program.read ProgramState.getFeeAccountAddress
        let account ← accountAt accounts tokenWithdrawals.accountIndex.toNat
        tokenWithdrawals.withdrawals.forM (handleRollbackWithdrawal accounts account feeAccountAddress))
      (fun _ => True) ((tokenWithdrawals.entries accounts).map Entry.opposite) := by
  refine (posts_validate _ _ _ _ _).bind_nil fun _ _ => ?_
  refine Posts.bind_nil (posts_read fun _ _ _ _ => trivial) fun feeAccountAddress _ => ?_
  refine (posts_accountAt _).bind_nil fun account haccount => ?_
  rw [TokenWithdrawals.entries_listed haccount, List.map_flatMap]
  exact posts_forM fun withdrawal _ => posts_handleRollbackWithdrawal account feeAccountAddress withdrawal

/-- What the rollback of the withdrawals from one account needs. -/
def TokenRollbackReady (accounts : List AccountInfo) (m : Memory) (program : AccountInfo)
    (tokenWithdrawals : TokenWithdrawals) : Prop :=
  Validated accounts tokenWithdrawals.accountIndex false true (some .token) (some 0) m ∧
    ∃ feeAccountAddress, ProgramState.getFeeAccountAddress (m program.key).data = .ok feeAccountAddress ∧
      ∀ key, keyAt accounts tokenWithdrawals.accountIndex = some key →
        ∀ withdrawal ∈ tokenWithdrawals.withdrawals,
          RollbackReady accounts m key feeAccountAddress withdrawal

theorem admits_rollbackTokenWithdrawals (program : AccountInfo) (tokenWithdrawals : TokenWithdrawals) :
    Admits amountModulus (AmountsOnly m₀) balances
      (do
        validateAccount accounts tokenWithdrawals.accountIndex false true (some .token) (some 0)
        let feeAccountAddress ← program.read ProgramState.getFeeAccountAddress
        let account ← accountAt accounts tokenWithdrawals.accountIndex.toNat
        tokenWithdrawals.withdrawals.forM (handleRollbackWithdrawal accounts account feeAccountAddress))
      (TokenRollbackReady accounts m₀ program tokenWithdrawals)
      ((tokenWithdrawals.entries accounts).map Entry.opposite) := by
  have hposts : Posts amountModulus (AmountsOnly m₀) balances (program.read ProgramState.getFeeAccountAddress)
      (fun address => ProgramState.getFeeAccountAddress (m₀ program.key).data = .ok address) [] := by
    apply posts_read
    intro m hm address hget
    rw [← hm.getFeeAccountAddress_eq]
    exact hget
  have hadmits : Admits amountModulus (AmountsOnly m₀) balances
      (program.read ProgramState.getFeeAccountAddress)
      (∃ address, ProgramState.getFeeAccountAddress (m₀ program.key).data = .ok address) [] := by
    apply admits_read
    intro m hm
    rw [hm.getFeeAccountAddress_eq]
  refine Admits.bind_nil (posts_validate _ _ _ _ _) (admits_validate _ _ _ _ _) fun _ hvalidated => ?_
  obtain ⟨account, haccount, -, -, -⟩ := hvalidated
  rw [TokenWithdrawals.entries_listed haccount, List.map_flatMap]
  have hloop : ∀ address, ProgramState.getFeeAccountAddress (m₀ program.key).data = .ok address →
      Admits amountModulus (AmountsOnly m₀) balances
        (accountAt accounts tokenWithdrawals.accountIndex.toNat >>= fun account =>
          tokenWithdrawals.withdrawals.forM (handleRollbackWithdrawal accounts account address))
        (∃ feeAccountAddress, ProgramState.getFeeAccountAddress (m₀ program.key).data = .ok feeAccountAddress ∧
          ∀ key, keyAt accounts tokenWithdrawals.accountIndex = some key →
            ∀ withdrawal ∈ tokenWithdrawals.withdrawals,
              RollbackReady accounts m₀ key feeAccountAddress withdrawal)
        (tokenWithdrawals.withdrawals.flatMap fun withdrawal =>
          (withdrawal.entries accounts account.key).map Entry.opposite) := by
    intro address haddress
    refine (Admits.bind_nil (posts_accountAt _) (admits_accountAt _) fun account' haccount' => ?_).congr
      (and_iff_right ⟨account, haccount⟩)
    obtain rfl : account = account' := Option.some.inj (haccount.symm.trans haccount')
    apply (admits_forM (fun withdrawal _ => posts_handleRollbackWithdrawal account address withdrawal)
      fun withdrawal _ => admits_handleRollbackWithdrawal account address withdrawal).congr
    constructor
    · intro h
      refine ⟨address, haddress, fun key hkey => ?_⟩
      obtain rfl := Option.some.inj ((keyAt_of_listed haccount).symm.trans hkey)
      exact h
    · rintro ⟨address', haddress', h⟩
      obtain rfl := Except.ok.inj (haddress.symm.trans haddress')
      exact h account.key (keyAt_of_listed haccount)
  apply (Admits.bind_nil hposts hadmits hloop).congr
  exact and_iff_right_of_imp fun ⟨address, haddress, _⟩ => ⟨address, haddress⟩

end Rollback

end Chainring.Arch
