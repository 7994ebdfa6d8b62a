import Chainring.Arch.Types

/-! Reads and writes of account data, which stop the program when they leave the data, and the
operations on an account of a call. -/

namespace Chainring.Arch

open Bytes (slice patch slice_eq_some patch_eq_some patch_isSome)

/-! ### Blocks of data -/

/-- The bytes `data[offset..offset + len]`. -/
def readBlock (offset len : Nat) (data : Bytes) : Except Fault Bytes :=
  match slice data offset len with
  | some block => .ok block
  | none => .error .panic

def readArray (offset len : Nat) (data : Bytes) : Except Fault (FixedBytes len) :=
  match slice data offset len with
  | some block =>
      if h : block.length = len then .ok ⟨block, h⟩ else .error (.error .invalidAccountData)
  | none => .error .panic

/-- Copy a block over the bytes from `offset` on. -/
def writeBlock (offset : Nat) (block data : Bytes) : Except Fault Bytes :=
  match patch data offset block with
  | some data' => .ok data'
  | none => .error .panic

theorem readBlock_eq_ok {offset len : Nat} {data block : Bytes} :
    readBlock offset len data = .ok block ↔ slice data offset len = some block := by
  unfold readBlock
  cases slice data offset len <;> simp

theorem readArray_eq_ok {offset len : Nat} {data : Bytes} {block : FixedBytes len} :
    readArray offset len data = .ok block ↔ slice data offset len = some block.1 := by
  unfold readArray
  cases hslice : slice data offset len with
  | none => simp
  | some block' =>
      have hlen := (slice_eq_some.mp hslice).1
      simp only [hlen, dite_true, Except.ok.injEq, Option.some.injEq, Subtype.ext_iff]

theorem writeBlock_eq_ok {offset : Nat} {block data data' : Bytes} :
    writeBlock offset block data = .ok data' ↔ patch data offset block = some data' := by
  unfold writeBlock
  cases patch data offset block <;> simp

theorem writeBlock_run {offset : Nat} {block data : Bytes} (hle : offset + block.length ≤ data.length) :
    ∃ data', writeBlock offset block data = .ok data' := by
  obtain ⟨data', hpatch⟩ := patch_isSome hle
  exact ⟨data', writeBlock_eq_ok.mpr hpatch⟩

theorem writeBlock_panic {offset : Nat} {block data : Bytes} (hpos : 0 < block.length)
    (hlt : data.length < offset + block.length) : writeBlock offset block data = .error .panic := by
  unfold writeBlock
  cases hpatch : patch data offset block with
  | none => rfl
  | some data' =>
      obtain ⟨⟨old, hold⟩, -⟩ := patch_eq_some hpatch
      exact absurd (Bytes.slice_le hpos hold) (by omega)

/-! ### Accounts -/

section Accounts

variable {α : Type}

def accountAt (accounts : List AccountInfo) (index : Nat) : Prog AccountInfo :=
  Exec.query fun _ =>
    match accounts[index]? with
    | some account => .ok account
    | none => .error .panic

def AccountInfo.read (account : AccountInfo) (get : Bytes → Except Fault α) : Prog α :=
  Exec.query fun m => get (m account.key).data

def AccountInfo.write (account : AccountInfo) (put : Bytes → Except Fault Bytes) : Prog Unit :=
  Exec.modify fun m => (put (m account.key).data).map (m.setData account.key)

def AccountInfo.dataLen (account : AccountInfo) : Prog Nat :=
  account.read fun data => .ok data.length

def AccountInfo.dataIsEmpty (account : AccountInfo) : Prog Bool :=
  account.read fun data => .ok data.isEmpty

def AccountInfo.originalDataLen (account : AccountInfo) : Prog Nat :=
  Exec.query fun m => .ok (m account.key).originalDataLen

/-- A new length for the data, with zeros where it grows. -/
def AccountInfo.realloc (account : AccountInfo) (newLen : Nat) : Prog Unit :=
  Exec.modify fun m =>
    if newLen = (m account.key).data.length then .ok m
    else if maxPermittedDataIncrease < newLen - (m account.key).originalDataLen then
      .error (.error .invalidRealloc)
    else .ok (m.setData account.key (Bytes.resize (m account.key).data newLen))

def AccountInfo.getUtxo (account : AccountInfo) : Prog UtxoMeta :=
  Exec.query fun m => .ok (m account.key).utxo

def AccountInfo.setUtxo (account : AccountInfo) (utxo : UtxoMeta) : Prog Unit :=
  Exec.modify fun m => .ok (m.setUtxo account.key utxo)

theorem accountAt_eq_ok {accounts : List AccountInfo} {index : Nat} {account : AccountInfo}
    {m m' : Memory} :
    (accountAt accounts index).run m = .ok account m' ↔ accounts[index]? = some account ∧ m' = m := by
  rw [accountAt, Exec.query_eq_ok]
  cases accounts[index]? <;> simp

theorem read_eq_ok {account : AccountInfo} {get : Bytes → Except Fault α} {a : α} {m m' : Memory} :
    (account.read get).run m = .ok a m' ↔ get (m account.key).data = .ok a ∧ m' = m :=
  Exec.query_eq_ok

theorem write_eq_ok {account : AccountInfo} {put : Bytes → Except Fault Bytes} {u : Unit}
    {m m' : Memory} :
    (account.write put).run m = .ok u m' ↔
      ∃ data, put (m account.key).data = .ok data ∧ m' = m.setData account.key data := by
  rw [AccountInfo.write, Exec.modify_eq_ok]
  cases put (m account.key).data with
  | error e => simp [Except.map]
  | ok data => simp [Except.map, eq_comm]

section Write

variable {account : AccountInfo} {put : Bytes → Except Fault Bytes} {m : Memory}

theorem write_run {data : Bytes} (h : put (m account.key).data = .ok data) :
    (account.write put).run m = .ok () (m.setData account.key data) :=
  write_eq_ok.mpr ⟨data, h, rfl⟩

theorem write_run_of_error {e : ProgramError} (h : put (m account.key).data = .error (.error e)) :
    (account.write put).run m = .error e m := by
  simp only [AccountInfo.write, Exec.modify, h, Except.map]

theorem write_run_of_panic (h : put (m account.key).data = .error .panic) : (account.write put).run m = .panic := by
  simp only [AccountInfo.write, Exec.modify, h, Except.map]

end Write

/-! What comes after a look at the accounts runs on the same memory. -/

variable {β : Type} {b : β} {m m' : Memory}

theorem accountAt_bind_eq_ok {accounts : List AccountInfo} {index : Nat} {f : AccountInfo → Prog β} :
    (accountAt accounts index >>= f).run m = .ok b m' ↔
      ∃ account, accounts[index]? = some account ∧ (f account).run m = .ok b m' := by
  rw [accountAt, Exec.query_bind_eq_ok]
  cases accounts[index]? <;> simp

theorem read_bind_eq_ok {account : AccountInfo} {get : Bytes → Except Fault α} {f : α → Prog β} :
    (account.read get >>= f).run m = .ok b m' ↔
      ∃ a, get (m account.key).data = .ok a ∧ (f a).run m = .ok b m' :=
  Exec.query_bind_eq_ok

end Accounts

end Chainring.Arch
