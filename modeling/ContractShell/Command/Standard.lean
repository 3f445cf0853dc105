import ContractShell.Command.Registry

/-!
The built-in commands. Three of them have a second, hidden name.

## Main statements

* `standard_names_nodup`: no two built-in commands share a name.
-/

namespace ContractShell.Command

/-- A required argument. -/
def required (name : String) (kind : Kind) : Arg := ⟨name, kind, false⟩

/-- An optional argument. -/
def optional (name : String) (kind : Kind) : Arg := ⟨name, kind, true⟩

/-- The file that a command works on. -/
def filenameArg : Arg := required "filename" .file

/-- The password of a wallet file. -/
def passwordArg : Arg := optional "password" .string

/-- The arguments of a raw call or read. -/
def rawArgs : List Arg := [required "contract-id" .address, required "entry-point" .string, required "arguments" .string]

/-- The optional flags of an upload: what the contract takes over, and the member of the operation that says so. -/
def overrideFlags : List (String × String) := [
  ("override-authorize-call-contract", "call_contract"),
  ("override-authorize-transaction-application", "transaction_application"),
  ("override-authorize-upload-contract", "upload_contract")]

/-- The declarations of the built-in commands. -/
def standardDeclarations : List Declaration := [
  ⟨"address", "Show the currently opened wallet's address", [], false, .builtin .address, rfl⟩,
  ⟨"balance", "Check the balance at an address (the open wallet if blank)", [optional "address" .address], false,
    .builtin .balance, rfl⟩,
  ⟨"call", "Call a smart contract with base64 encoded arguments", rawArgs, false, .builtin .call, rfl⟩,
  ⟨"close", "Close the currently open wallet (lock also works)", [], false, .builtin .close, rfl⟩,
  ⟨"lock", "Synonym for close", [], true, .builtin .close, rfl⟩,
  ⟨"connect", "Connect to an RPC endpoint", [required "url" .string], false, .builtin .connect, rfl⟩,
  ⟨"create", "Create and open a new wallet file", [filenameArg, passwordArg], false, .builtin .create, rfl⟩,
  ⟨"disconnect", "Disconnect from RPC endpoint", [], false, .builtin .disconnect, rfl⟩,
  ⟨"exit", "Exit the wallet (quit also works)", [], false, .builtin .exit, rfl⟩,
  ⟨"quit", "Synonym for exit", [], true, .builtin .exit, rfl⟩,
  ⟨"generate", "Generate and display a new private key", [], false, .builtin .generate, rfl⟩,
  ⟨"help", "Show help on a given command", [required "command" .commandName], false, .builtin .help, rfl⟩,
  ⟨"import", "Import a WIF private key to a new wallet file", [required "private-key" .string, filenameArg, passwordArg],
    false, .builtin .importKey, rfl⟩,
  ⟨"list", "List available commands", [], false, .builtin .list, rfl⟩,
  ⟨"open", "Open a wallet file (unlock also works)", [filenameArg, passwordArg], false, .builtin .openWallet, rfl⟩,
  ⟨"unlock", "Synonym for open", [filenameArg, passwordArg], true, .builtin .openWallet, rfl⟩,
  ⟨"private", "Show the currently opened wallet's private key", [], false, .builtin .showPrivate, rfl⟩,
  ⟨"public", "Show the currently opened wallet's public key", [], false, .builtin .showPublic, rfl⟩,
  ⟨"read", "Read from a smart contract", rawArgs, false, .builtin .read, rfl⟩,
  ⟨"register", "Register a smart contract's commands",
    [required "name" .string, required "address" .address, required "abi-filename" .file], false,
    .builtin .register, rfl⟩,
  ⟨"transfer", "Transfer KOIN from the open wallet", [required "amount" .amount, required "address" .address], false,
    .builtin .transfer, rfl⟩,
  ⟨"upload", "Upload a smart contract to the open wallet's address",
    filenameArg :: optional "abi-filename" .file :: overrideFlags.map fun f => optional f.1 .bool, false,
    .builtin .upload, rfl⟩]

/-- The table of the built-in commands. -/
def Registry.standard : Registry := .ofDeclarations standardDeclarations

/-- No two built-in commands share a name. -/
theorem standard_names_nodup : Registry.standard.names.Nodup := by decide

end ContractShell.Command
