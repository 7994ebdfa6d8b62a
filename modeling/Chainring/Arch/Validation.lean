import Chainring.Arch.Accessors

/-! What the validation of an account checks: it leaves the memory alone and succeeds exactly when the
account is listed with the given flags and its data fits. -/

namespace Chainring.Arch

open Exec (Leaves Keeps keeps_pure keeps_ensure keeps_query)

/-- What validation requires of the data of an account. -/
def Fits (accounts : List AccountInfo) (accountType : Option AccountType)
    (relatedAccountIndex : Option UInt8) (data : Bytes) : Prop :=
  match accountType, relatedAccountIndex with
  | some accountType, some index =>
      ∃ related, accounts[index.toNat]? = some related ∧ Bound accountType related.key data
  | some accountType, none => getType data = .ok accountType
  | none, _ => data = []

/-- Only data of a type fits it. -/
theorem Fits.type_eq {accounts : List AccountInfo} {accountType : AccountType}
    {relatedAccountIndex : Option UInt8} {data : Bytes}
    (h : Fits accounts (some accountType) relatedAccountIndex data) : getType data = .ok accountType := by
  cases relatedAccountIndex with
  | none => exact h
  | some index =>
      obtain ⟨related, -, hbound⟩ := h
      exact hbound.1

def Validated (accounts : List AccountInfo) (index : UInt8) (isSigner isWritable : Bool)
    (accountType : Option AccountType) (relatedAccountIndex : Option UInt8) (m : Memory) : Prop :=
  ∃ account, accounts[index.toNat]? = some account ∧ account.isSigner = isSigner ∧
    account.isWritable = isWritable ∧ Fits accounts accountType relatedAccountIndex (m account.key).data

/-- What was validated at an index is the account listed there. -/
theorem Validated.of_listed {accounts : List AccountInfo} {index : UInt8} {isSigner isWritable : Bool}
    {accountType : Option AccountType} {relatedAccountIndex : Option UInt8} {m : Memory} {account : AccountInfo}
    (h : Validated accounts index isSigner isWritable accountType relatedAccountIndex m)
    (haccount : accounts[index.toNat]? = some account) :
    account.isSigner = isSigner ∧ account.isWritable = isWritable ∧
      Fits accounts accountType relatedAccountIndex (m account.key).data := by
  obtain ⟨account', haccount', hfits⟩ := h
  obtain rfl : account' = account := Option.some.inj (haccount'.symm.trans haccount)
  exact hfits

theorem Validated.type_eq {accounts : List AccountInfo} {index : UInt8} {isSigner isWritable : Bool}
    {accountType : AccountType} {relatedAccountIndex : Option UInt8} {m : Memory} {account : AccountInfo}
    (h : Validated accounts index isSigner isWritable (some accountType) relatedAccountIndex m)
    (haccount : accounts[index.toNat]? = some account) : getType (m account.key).data = .ok accountType := by
  obtain ⟨-, -, hfits⟩ := h.of_listed haccount
  exact hfits.type_eq

section Accounts

variable {accounts : List AccountInfo}

theorem keeps_accountAt {I : Memory → Prop} {i : Nat} :
    Keeps I (accountAt accounts i) fun account => accounts[i]? = some account := by
  apply keeps_query
  intro m _ account hget
  cases haccount : accounts[i]? with
  | none =>
      rw [haccount] at hget
      cases hget
  | some account' =>
      rw [haccount] at hget
      cases hget
      rfl

theorem keeps_read {α : Type} {I : Memory → Prop} {account : AccountInfo} {get : Bytes → Except Fault α}
    {Q : α → Prop} (h : ∀ m, I m → ∀ a, get (m account.key).data = .ok a → Q a) :
    Keeps I (account.read get) Q :=
  keeps_query h

end Accounts

variable (accounts : List AccountInfo) (index : UInt8) (isSigner isWritable : Bool)
  (accountType : Option AccountType) (relatedAccountIndex : Option UInt8)

/-- A validation leaves the memory alone and establishes what it checks. -/
theorem validateAccount_leaves (m : Memory) :
    Leaves (· = m) (fun _ => Validated accounts index isSigner isWritable accountType relatedAccountIndex m)
      ((validateAccount accounts index isSigner isWritable accountType relatedAccountIndex).run m) := by
  have hkeeps : Keeps (· = m)
      (validateAccount accounts index isSigner isWritable accountType relatedAccountIndex)
      fun _ => Validated accounts index isSigner isWritable accountType relatedAccountIndex m := by
    unfold validateAccount
    refine keeps_ensure.bind fun _ _ => ?_
    refine keeps_accountAt.bind fun account haccount => ?_
    refine keeps_ensure.bind fun _ hflags => ?_
    cases accountType with
    | none =>
        have hempty : Keeps (· = m) account.dataIsEmpty fun b => b = (m account.key).data.isEmpty := by
          apply keeps_read
          rintro _ rfl b hb
          exact (Except.ok.inj hb).symm
        refine hempty.bind fun isEmpty hisEmpty => ?_
        refine keeps_ensure.weaken fun _ htrue => ?_
        rw [hisEmpty, List.isEmpty_iff] at htrue
        exact ⟨account, haccount, hflags.1, hflags.2, htrue⟩
    | some accountType =>
        have hread : Keeps (· = m) (account.read getType) fun t => getType (m account.key).data = .ok t := by
          apply keeps_read
          rintro _ rfl t ht
          exact ht
        refine hread.bind fun actualType hactual => ?_
        refine keeps_ensure.bind fun _ htype => ?_
        subst htype
        cases relatedAccountIndex with
        | none => exact keeps_pure ⟨account, haccount, hflags.1, hflags.2, hactual⟩
        | some relatedAccountIndex =>
            have hkey : Keeps (· = m) (account.read (relatedAccountKey actualType)) fun key =>
                relatedAccountKey actualType (m account.key).data = .ok key := by
              apply keeps_read
              rintro _ rfl key hkey
              exact hkey
            refine hkey.bind fun relatedKey hrelatedKey => ?_
            refine keeps_accountAt.bind fun related hrelated => ?_
            refine keeps_ensure.weaken fun _ hequal => ?_
            rw [hequal] at hrelatedKey
            exact ⟨account, haccount, hflags.1, hflags.2, related, hrelated, hactual, hrelatedKey⟩
  exact hkeeps m rfl

variable {accounts index isSigner isWritable accountType relatedAccountIndex}

theorem keeps_validate {I : Memory → Prop} {Q : Prop}
    (h : ∀ m, I m → Validated accounts index isSigner isWritable accountType relatedAccountIndex m → Q) :
    Keeps I (validateAccount accounts index isSigner isWritable accountType relatedAccountIndex)
      fun _ => Q := by
  intro m hm
  apply (validateAccount_leaves accounts index isSigner isWritable accountType relatedAccountIndex m).mono
  · rintro m' rfl
    exact hm
  · exact fun _ hvalidated => h m hm hvalidated

/-- A validation succeeds exactly when what it checks holds. -/
theorem validateAccount_eq_ok {m m' : Memory} {u : Unit} :
    (validateAccount accounts index isSigner isWritable accountType relatedAccountIndex).run m = .ok u m' ↔
      Validated accounts index isSigner isWritable accountType relatedAccountIndex m ∧ m' = m := by
  constructor
  · intro hok
    have hleaves :=
      validateAccount_leaves accounts index isSigner isWritable accountType relatedAccountIndex m
    rw [hok] at hleaves
    exact ⟨hleaves.of_ok.2, hleaves.of_ok.1⟩
  · rintro ⟨⟨account, haccount, hsigner, hwritable, hfits⟩, rfl⟩
    have hindex := (List.getElem?_eq_some_iff.mp haccount).1
    unfold validateAccount
    refine Exec.bind_eq_ok.mpr ⟨(), m', Exec.ensure_eq_ok.mpr ⟨hindex, rfl⟩, ?_⟩
    refine Exec.bind_eq_ok.mpr ⟨account, m', accountAt_eq_ok.mpr ⟨haccount, rfl⟩, ?_⟩
    refine Exec.bind_eq_ok.mpr ⟨(), m', Exec.ensure_eq_ok.mpr ⟨⟨hsigner, hwritable⟩, rfl⟩, ?_⟩
    cases accountType with
    | none =>
        refine Exec.bind_eq_ok.mpr ⟨true, m', read_eq_ok.mpr ⟨?_, rfl⟩, Exec.ensure_eq_ok.mpr ⟨rfl, rfl⟩⟩
        rw [show (m' account.key).data = [] from hfits]
        rfl
    | some accountType =>
        cases relatedAccountIndex with
        | none =>
            refine Exec.bind_eq_ok.mpr ⟨accountType, m', read_eq_ok.mpr ⟨hfits, rfl⟩, ?_⟩
            exact Exec.bind_eq_ok.mpr ⟨(), m', Exec.ensure_eq_ok.mpr ⟨rfl, rfl⟩, rfl⟩
        | some relatedAccountIndex =>
            obtain ⟨related, hrelated, htype, hkey⟩ := hfits
            refine Exec.bind_eq_ok.mpr ⟨accountType, m', read_eq_ok.mpr ⟨htype, rfl⟩, ?_⟩
            refine Exec.bind_eq_ok.mpr ⟨(), m', Exec.ensure_eq_ok.mpr ⟨rfl, rfl⟩, ?_⟩
            refine Exec.bind_eq_ok.mpr ⟨related.key, m', read_eq_ok.mpr ⟨hkey, rfl⟩, ?_⟩
            refine Exec.bind_eq_ok.mpr ⟨related, m', accountAt_eq_ok.mpr ⟨hrelated, rfl⟩, ?_⟩
            exact Exec.ensure_eq_ok.mpr ⟨rfl, rfl⟩

theorem validate_bind_eq_ok {β : Type} {f : Unit → Prog β} {b : β} {m m' : Memory} :
    (validateAccount accounts index isSigner isWritable accountType relatedAccountIndex >>= f).run m =
        .ok b m' ↔
      Validated accounts index isSigner isWritable accountType relatedAccountIndex m ∧
        (f ()).run m = .ok b m' := by
  rw [Exec.bind_eq_ok]
  constructor
  · rintro ⟨_, t, hvalidate, hrest⟩
    obtain ⟨hvalidated, rfl⟩ := validateAccount_eq_ok.mp hvalidate
    exact ⟨hvalidated, hrest⟩
  · rintro ⟨hvalidated, hrest⟩
    exact ⟨(), m, validateAccount_eq_ok.mpr ⟨hvalidated, rfl⟩, hrest⟩

end Chainring.Arch
