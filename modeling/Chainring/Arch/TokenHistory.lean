import Chainring.Arch.BatchHashes

/-! What runs keep of a token account: its owner, and the wallets that were in use. New wallets, new
amounts and a new token id are all that any call writes to it. -/

namespace Chainring.Arch

/-- The wallets of `data` as a later state of the account has them. -/
structure Kept (data data' : Bytes) : Prop where
  header : ∀ o < 37, data'[o]? = data[o]?
  length_le : data.length ≤ data'.length
  counts : numBalances data ≤ numBalances data'
  addresses : ∀ index < numBalances data, ∀ o, AddressBytes index o → o < data.length → data'[o]? = data[o]?

namespace Kept

theorem refl (data : Bytes) : Kept data data where
  header := fun _ _ => rfl
  length_le := Nat.le_refl _
  counts := Nat.le_refl _
  addresses := fun _ _ _ _ _ => rfl

variable {data data' data'' : Bytes}

theorem trans (h : Kept data data') (h' : Kept data' data'') : Kept data data'' where
  header := fun o ho => (h'.header o ho).trans (h.header o ho)
  length_le := Nat.le_trans h.length_le h'.length_le
  counts := Nat.le_trans h.counts h'.counts
  addresses := fun index hindex o ho hlt =>
    (h'.addresses index (Nat.lt_of_lt_of_le hindex h.counts) o ho (Nat.lt_of_lt_of_le hlt h.length_le)).trans
      (h.addresses index hindex o ho hlt)

theorem getType_eq (h : Kept data data') : getType data' = getType data := getType_congr h.header

theorem bound (h : Kept data data') {accountType : AccountType} {owner : Pubkey}
    (hbound : Bound accountType owner data) : Bound accountType owner data' :=
  (bound_congr h.header).mpr hbound

theorem wallet (h : Kept data data') {addressIndex : AddressIndex} (hwallet : Wallet addressIndex data) :
    Wallet addressIndex data' :=
  hwallet.mono h.counts (h.addresses _ hwallet.inUse)

theorem hasAmount (h : Kept data data') {index : Nat} (hamount : HasAmount data index) :
    HasAmount data' index :=
  Nat.le_trans hamount h.length_le

/-- The address of a wallet in use is what it was. -/
theorem walletAddress (h : Kept data data') {index : Nat} (hindex : index < numBalances data)
    {address : Utf8String} (haddress : Balance.getWalletAddress index data = .ok address) :
    Balance.getWalletAddress index data' = .ok address := by
  obtain ⟨tmp, htmp, hparse⟩ := CheckedWord.bind_eq_ok.mp haddress
  have hslice := Bytes.slice_mono (fun o hlow hhigh ho => h.addresses index hindex o ⟨hlow, hhigh⟩ ho)
    (readBlock_eq_ok.mp htmp)
  exact CheckedWord.bind_eq_ok.mpr ⟨tmp, readBlock_eq_ok.mpr hslice, hparse⟩

end Kept

/-- What any instruction may write to a token account. -/
theorem ProgramInstruction.reach_token {instruction : ProgramInstruction} {data : Bytes} {o : Nat}
    (h : instruction.reach.token data o) : Within 37 69 o ∨ NewWallets data o ∨ AnyAmount o := by
  cases instruction with
  | initWalletBalances _ => exact Or.inr (Or.inl h)
  | setTokeRuneId _ => exact Or.inl h
  | batchDeposit _ => exact Or.inr (Or.inr h)
  | prepareBatchWithdraw _ => exact Or.inr (Or.inr h)
  | submitBatchSettlement _ => exact Or.inr (Or.inr h)
  | rollbackBatchWithdraw _ => exact Or.inr (Or.inr h)
  | _ => exact False.elim h

theorem reachOf_token {instructionData data : Bytes} {o : Nat}
    (h : (reachOf instructionData).token data o) : Within 37 69 o ∨ NewWallets data o ∨ AnyAmount o := by
  unfold reachOf at h
  split at h
  · exact ProgramInstruction.reach_token h
  · exact False.elim h

section Calls

variable {rt : Runtime} {w : World} {call : Call}

/-- A byte of a token account that a step changes lies in what its instruction may write there. -/
theorem step_token_byte {token : Pubkey} (htoken : getType (w token).data = .ok .token) {o : Nat}
    (hchanged : (step rt w call token).data[o]? ≠ (w token).data[o]?) :
    (reachOf call.instructionData).token (w token).data o := by
  obtain ⟨m, htouches, hstep⟩ := step_touches rt w call
  rw [hstep token] at hchanged
  obtain ⟨-, hempty | ⟨first, -, -, hprogram, ⟨rfl, -⟩ | ⟨-, hreach⟩ | ⟨hwithdraw, -⟩⟩⟩ :=
    htouches.bytes token o hchanged
  · exact absurd hempty (ne_nil_of_getType htoken)
  · have hkind := htoken.symm.trans hprogram
    cases hkind
  · exact hreach
  · have hkind := htoken.symm.trans hwithdraw.1
    cases hkind

/-- A step keeps the wallets of a token account. -/
theorem step_kept (rt : Runtime) (w : World) (call : Call) {token : Pubkey}
    (htoken : getType (w token).data = .ok .token) : Kept (w token).data (step rt w call token).data where
  header := step_header (ne_nil_of_getType htoken)
  length_le := step_length_le rt w call token
  counts := by
    obtain ⟨m, htouches, hstep⟩ := step_touches rt w call
    rw [hstep token]
    exact htouches.counts token htoken
  addresses := by
    intro index hindex o ho hlt
    by_contra hchanged
    have hge := ho.ge
    rcases reachOf_token (step_token_byte htoken hchanged) with
      hid | ⟨-, hcount | ⟨index', hnew, hin⟩ | hpast⟩ | ⟨index', hin⟩
    · have hhigh := hid.2
      omega
    · have hhigh := hcount.2
      omega
    · have hne : index' ≠ index := by omega
      exact addressBytes_disjoint hne hin ho
    · omega
    · exact addressBytes_disjoint_amountBytes ho hin

/-- The addresses, the network and the withdraw account of a program account never change. -/
theorem step_program_byte {program : Pubkey} (hprogram : getType (w program).data = .ok .program) {o : Nat}
    (ho : o < settlementHashOffset) : (step rt w call program).data[o]? = (w program).data[o]? := by
  obtain ⟨m, htouches, hstep⟩ := step_touches rt w call
  rw [hstep program]
  by_contra hchanged
  obtain ⟨-, hempty | ⟨first, -, -, -, ⟨-, hreach⟩ | ⟨htoken, -⟩ | ⟨hwithdraw, -⟩⟩⟩ :=
    htouches.bytes program o hchanged
  · exact absurd hempty (ne_nil_of_getType hprogram)
  · have hge := (reachOf call.instructionData).program_ge o hreach
    omega
  · have hkind := hprogram.symm.trans htoken.1
    cases hkind
  · have hkind := hprogram.symm.trans hwithdraw.1
    cases hkind

end Calls

theorem worldAt_program_byte {rt : Runtime} {start : World} {calls : List Call} {n k : Nat} (hnk : n ≤ k)
    (hk : k ≤ calls.length) {program : Pubkey}
    (hprogram : getType (worldAt rt start calls n program).data = .ok .program) {o : Nat}
    (ho : o < settlementHashOffset) :
    (worldAt rt start calls k program).data[o]? = (worldAt rt start calls n program).data[o]? := by
  have hkept := worldAt_relates rt start calls
    (R := fun w w' => getType (w program).data = .ok .program →
      ∀ o < settlementHashOffset, (w' program).data[o]? = (w program).data[o]?)
    (fun w _ _ _ => rfl)
    (fun w w' call ih hw o ho => by
      have htype : getType (w' program).data = .ok .program :=
        (getType_congr fun o ho => ih hw o (Nat.lt_trans ho (by decide))).trans hw
      exact (step_program_byte htype ho).trans (ih hw o ho))
    hnk hk
  exact hkept hprogram o ho

/-- A run keeps the wallets of the token accounts. -/
theorem worldAt_kept {rt : Runtime} {start : World} {calls : List Call} {n k : Nat} (hnk : n ≤ k)
    (hk : k ≤ calls.length) {token : Pubkey}
    (htoken : getType (worldAt rt start calls n token).data = .ok .token) :
    Kept (worldAt rt start calls n token).data (worldAt rt start calls k token).data := by
  have hkept := worldAt_relates rt start calls
    (R := fun w w' => getType (w token).data = .ok .token → Kept (w token).data (w' token).data)
    (fun w _ => Kept.refl _)
    (fun w w' call ih hw => (ih hw).trans (step_kept rt w' call ((ih hw).getType_eq.trans hw)))
    hnk hk
  exact hkept htoken

end Chainring.Arch
