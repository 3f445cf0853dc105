import ContractShell.Bytes.Base58
import ContractShell.Library.Schemas

/-!
The token contract: its address, the two methods that the shell calls, and their message types.
-/

namespace ContractShell.Token

open Descriptor (File Message FieldType)

/-! ## 1. Addresses and names -/

/-- The address of the contract. -/
def contractAddress : String := "15DJN4a8SgrbGhhGksSBASiSYjGnMU8dGL"

/-- The bytes of the address. -/
def contractId : Bytes := (Base58.decode contractAddress.toList).toOption.getD []

/-- The entry point of the method that tells a balance. -/
def balanceEntryPoint : Nat := 0x5C721497

/-- The entry point of the method that transfers tokens. -/
def transferEntryPoint : Nat := 0x27F576CA

/-- The package of the message types. -/
def package : String := "koinos.contracts.token"

/-- What the balance method takes. -/
def balanceArguments : String := package ++ ".balance_of_arguments"

/-- What the balance method returns. -/
def balanceResult : String := package ++ ".balance_of_result"

/-- What the transfer method takes. -/
def transferArguments : String := package ++ ".transfer_arguments"

/-- What the transfer method returns. -/
def transferResult : String := package ++ ".transfer_result"

/-! ## 2. Message types -/

/-- A field of the contract's messages. -/
def field (number : Nat) (name : String) (type : FieldType) (options : Option Bytes) : Descriptor.Field :=
  ⟨name, number, some .optional, some type, none, none, none, options, none, some name, false⟩

/-- A field that holds an address. -/
def addressField (number : Nat) (name : String) : Descriptor.Field :=
  field number name .bytes (some BytesHint.address.options)

/-- A field that holds an amount in base units. -/
def valueField (number : Nat) : Descriptor.Field := field number "value" .uint64 none

/-- A message of the contract. -/
def message (name : String) (fields : List Descriptor.Field) : Message := ⟨name, fields, [], [], [], [], [], [], none⟩

/-- The file of the message types. -/
def file : File :=
  { File.blank "koinos/contracts/token/token.proto" package with
    dependencies := [BytesHint.fileName]
    messages := [
      message "balance_of_arguments" [addressField 1 "owner"],
      message "balance_of_result" [valueField 1],
      message "transfer_arguments" [addressField 1 "from", addressField 2 "to", valueField 3],
      message "transfer_result" []]
    dialect := some "proto3" }

/-- The library of the message types. -/
def library : Library := (Library.ofFiles [file]).toOption.getD ⟨[], [], Descriptor.Pool.empty⟩

end ContractShell.Token
