import Chainring.Arch.Account
import Chainring.Base.Region
import Chainring.Base.Simulation

/-! The memory that a program is called with. The accounts of the call are pointers into it, and what the program does
through them is what it does to accounts that are known by their keys. -/

namespace Chainring.Sdk

open Arch (Account AccountInfo Memory Prog Pubkey ProgramError UtxoMeta maxPermittedDataIncrease accountAt)
open Bytes (ofWord toWord)

/-! ### Reading the input -/

/-- An account of the call: where its parts are in the input. -/
structure AccountPointers where
  key : Nat
  utxo : Nat
  data : Nat
  owner : Nat
  isSigner : Bool
  isWritable : Bool
  isExecutable : Bool
  deriving DecidableEq

structure Input where
  programId : Nat
  accounts : List AccountPointers
  instructionData : Nat
  instructionDataLen : Nat

def readU64 (region : Region) (address : Nat) : Nat := toWord (region.readBytes address 8)

def nonDupMarker : UInt8 := 255

/-- How far the next multiple of 8 is. -/
def alignOffset (offset : Nat) : Nat := (8 - offset % 8) % 8

/-- An account that is not a duplicate, after its marker. -/
def deserializeAccount (region : Region) (offset : Nat) : AccountPointers :=
  let key := offset + 7
  let data := key + 48
  let tail := data + readU64 region (key + 40) + maxPermittedDataIncrease
  let owner := tail + alignOffset tail
  { key, data, owner, utxo := owner + 32, isSigner := region (offset + 4) != 0,
    isWritable := region (offset + 5) != 0, isExecutable := region (offset + 6) != 0 }

/-- The accounts from an offset on, after those before it, and the offset after them. -/
def deserializeAccounts (region : Region) : Nat → Nat → List AccountPointers → Option (Nat × List AccountPointers)
  | 0, offset, accounts => some (offset, accounts)
  | count + 1, offset, accounts =>
      let dupInfo := region offset
      if dupInfo = nonDupMarker then
        let account := deserializeAccount region (offset + 1)
        deserializeAccounts region count (account.utxo + 36 + 4) (accounts ++ [account])
      else
        match accounts[dupInfo.toNat]? with
        | none => none
        | some account => deserializeAccounts region count (offset + 8) (accounts ++ [account])

def deserialize (region : Region) : Option Input := do
  let (offset, accounts) ← deserializeAccounts region (readU64 region 0) 8 []
  let instructionDataLen := readU64 region offset
  let instructionData := offset + 8
  pure { programId := instructionData + instructionDataLen, accounts, instructionData, instructionDataLen }

/-! ### Working on the accounts -/

/-- The memory of a call and the lengths of the slices of account data, by where they begin. -/
structure Buffer where
  region : Region
  lens : Nat → Nat

/-- What the accounts are deserialized into. -/
def Buffer.start (region : Region) : Buffer where
  region := region
  lens data := readU64 region (data - 8)

def AccountPointers.originalDataLen (account : AccountPointers) (buffer : Buffer) : Nat :=
  readU64 buffer.region (account.key + 32)

/-- Copy a block into the data. -/
def AccountPointers.write (account : AccountPointers) (offset : Nat) (block : Bytes) : Exec ProgramError Buffer Unit :=
  Exec.modify fun buffer =>
    if offset + block.length ≤ buffer.lens account.data then
      .ok { buffer with region := buffer.region.writeBytes (account.data + offset) block }
    else .error .panic

def AccountPointers.realloc (account : AccountPointers) (newLen : UInt64) (zeroInit : Bool) :
    Exec ProgramError Buffer Unit :=
  Exec.modify fun buffer =>
    let oldLen := buffer.lens account.data
    if newLen.toNat = oldLen then .ok buffer
    else if maxPermittedDataIncrease < newLen.toNat - account.originalDataLen buffer then
      .error (.error .invalidRealloc)
    else
      let region := buffer.region.writeBytes (account.data - 8) (ofWord 8 newLen.toNat)
      let zeros := if zeroInit then List.replicate (newLen.toNat - oldLen) 0 else []
      .ok { region := region.writeBytes (account.data + oldLen) zeros
            lens := Function.update buffer.lens account.data newLen.toNat }

def AccountPointers.setOwner (account : AccountPointers) (owner : Pubkey) : Exec ProgramError Buffer Unit :=
  Exec.modify fun buffer => .ok { buffer with region := buffer.region.writeBytes account.owner owner.1 }

def AccountPointers.setUtxo (account : AccountPointers) (utxo : UtxoMeta) : Exec ProgramError Buffer Unit :=
  Exec.modify fun buffer => .ok { buffer with region := buffer.region.writeBytes account.utxo utxo.1 }

/-- A change of the account at an index of the call. -/
inductive AccountCommand where
  | write (index offset : Nat) (block : Bytes) (nonempty : block ≠ [])
  | realloc (index : Nat) (newLen : UInt64) (zeroInit : Bool)
  | setOwner (index : Nat) (owner : Pubkey)
  | setUtxo (index : Nat) (utxo : UtxoMeta)

/-- The bytes that are added to data are zeroed. -/
def AccountCommand.ZeroInits : AccountCommand → Prop
  | .realloc _ _ zeroInit => zeroInit = true
  | _ => True

/-- The account at an index, or a panic. -/
def entryAt {σ α : Type} (accounts : List α) (index : Nat) : Exec ProgramError σ α :=
  Exec.query fun _ =>
    match accounts[index]? with
    | some account => .ok account
    | none => .error .panic

/-- The change through the pointers of the call. -/
def AccountCommand.perform (accounts : List AccountPointers) : AccountCommand → Exec ProgramError Buffer Unit
  | .write index offset block _ => do
      let account ← entryAt accounts index
      account.write offset block
  | .realloc index newLen zeroInit => do
      let account ← entryAt accounts index
      account.realloc newLen zeroInit
  | .setOwner index owner => do
      let account ← entryAt accounts index
      account.setOwner owner
  | .setUtxo index utxo => do
      let account ← entryAt accounts index
      account.setUtxo utxo

/-! ### Accounts by their keys -/

/-- An account of the call and the bytes after its data, which the data may grow by. -/
structure Room where
  account : Account
  spare : Bytes

/-- The accounts of a call with their room. -/
abbrev Rooms := Pubkey → Room

/-- The data with a new length. What is added is zeroed, or it is what the room has. -/
def Room.resize (room : Room) (newLen : Nat) (zeroInit : Bool) : Room where
  account :=
    { room.account with
      data := if zeroInit then Bytes.resize room.account.data newLen
        else (room.account.data ++ room.spare).take newLen }
  spare := (room.account.data ++ room.spare).drop newLen

def Room.realloc (room : Room) (newLen : Nat) (zeroInit : Bool) : Except (Failure ProgramError) Room :=
  if newLen = room.account.data.length then .ok room
  else if maxPermittedDataIncrease < newLen - room.account.originalDataLen then .error (.error .invalidRealloc)
  else .ok (room.resize newLen zeroInit)

/-- A change of one room. -/
def Rooms.modify (key : Pubkey) (change : Room → Except (Failure ProgramError) Room) : Exec ProgramError Rooms Unit :=
  Exec.modify fun rooms => (change (rooms key)).map (Function.update rooms key)

/-- The change of accounts that are known by their keys, which have room but no owner. -/
def AccountCommand.runRooms (accounts : List AccountInfo) : AccountCommand → Exec ProgramError Rooms Unit
  | .write index offset block _ => do
      let account ← entryAt accounts index
      Rooms.modify account.key fun room =>
        (Arch.writeBlock offset block room.account.data).map fun data =>
          { room with account := { room.account with data } }
  | .realloc index newLen zeroInit => do
      let account ← entryAt accounts index
      Rooms.modify account.key fun room => room.realloc newLen.toNat zeroInit
  | .setOwner index _ => do
      let _ ← entryAt accounts index
      pure ()
  | .setUtxo index utxo => do
      let account ← entryAt accounts index
      Rooms.modify account.key fun room => .ok { room with account := { room.account with utxo } }

/-- The change of the accounts without their room, as the handlers make it. -/
def AccountCommand.run (accounts : List AccountInfo) : AccountCommand → Prog Unit
  | .write index offset block _ => do
      let account ← accountAt accounts index
      account.write (Arch.writeBlock offset block)
  | .realloc index newLen _ => do
      let account ← accountAt accounts index
      account.realloc newLen.toNat
  | .setOwner index _ => do
      let _ ← accountAt accounts index
      pure ()
  | .setUtxo index utxo => do
      let account ← accountAt accounts index
      account.setUtxo utxo

/-! ### What is seen of the memory -/

def AccountPointers.keyAt (account : AccountPointers) (region : Region) : Bytes := region.readBytes account.key 32

/-- The block of a length at an address. -/
def blockAt (region : Region) (address len : Nat) : FixedBytes len :=
  ⟨region.readBytes address len, Region.readBytes_length ..⟩

def AccountPointers.view (account : AccountPointers) (buffer : Buffer) : Account where
  data := buffer.region.readBytes account.data (buffer.lens account.data)
  utxo := blockAt buffer.region account.utxo 36
  originalDataLen := account.originalDataLen buffer

def AccountPointers.room (account : AccountPointers) (buffer : Buffer) : Room where
  account := account.view buffer
  spare := buffer.region.readBytes (account.data + buffer.lens account.data)
    (account.originalDataLen buffer + maxPermittedDataIncrease - buffer.lens account.data)

def AccountPointers.info (account : AccountPointers) (region : Region) : AccountInfo where
  key := blockAt region account.key 32
  isSigner := account.isSigner
  isWritable := account.isWritable

def noUtxo : Bytes := List.replicate 36 0

theorem noUtxo_length : noUtxo.length = 36 := List.length_replicate

/-- An account that is not in the call. -/
def noAccount : Account where
  data := []
  utxo := ⟨noUtxo, noUtxo_length⟩
  originalDataLen := 0

def noRoom : Room where
  account := noAccount
  spare := []

/-- The accounts of the call by their keys, with their room. -/
def Buffer.rooms (accounts : List AccountPointers) (buffer : Buffer) : Rooms := fun key =>
  ((accounts.find? fun account => account.keyAt buffer.region = key.1).map (·.room buffer)).getD noRoom

/-- The accounts without their room. -/
def Rooms.memory (rooms : Rooms) : Memory := fun key => (rooms key).account

/-- The accounts of the call by their keys. -/
def Buffer.memory (accounts : List AccountPointers) (buffer : Buffer) : Memory := fun key =>
  ((accounts.find? fun account => account.keyAt buffer.region = key.1).map (·.view buffer)).getD noAccount

theorem Buffer.rooms_memory (accounts : List AccountPointers) (buffer : Buffer) :
    (buffer.rooms accounts).memory = buffer.memory accounts := by
  funext key
  rw [Rooms.memory, rooms, memory]
  cases accounts.find? fun account => account.keyAt buffer.region = key.1 <;> rfl

end Chainring.Sdk
