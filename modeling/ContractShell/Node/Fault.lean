import ContractShell.Bytes.Base64
import ContractShell.Json.Basic
import ContractShell.Number.Integer

/-!
What can go wrong between the shell and a node: the node refuses, does not answer properly, or answers something of an
unexpected form.
-/

namespace ContractShell.Node

/-- An answer of an unexpected form. Kinds are the names of the kinds of JSON values. -/
inductive Misfit where
  /-- An object is expected whose members can be asked for. -/
  | notAnObject (kind : String)
  /-- A list is expected. -/
  | notAList (kind : String)
  /-- A value with members is expected. -/
  | noMembers (kind : String)
  /-- A list's items have no names. -/
  | listIndex
  /-- A text's characters have no names. -/
  | textIndex
  /-- An object lacks a member. -/
  | lacking (member : String)
  /-- Text is expected, and the value has no length. -/
  | noLength (kind : String)
  /-- Text is expected, and the value is a list. -/
  | listForText
  /-- Text is expected, and the value is an object. -/
  | objectForText
  | base64 (fault : Base64.Fault)
  | numeral (fault : Integer.Fault)
  /-- A number is expected. -/
  | notANumber (kind : String)
  | infinite
  | nan
  /-- A number has too many digits to be written into a transaction. -/
  | tooLong
  deriving DecidableEq, Repr

/-- The wording of a misfit. -/
def Misfit.message : Misfit → String
  | .notAnObject kind => s!"'{kind}' object has no attribute 'get'"
  | .notAList kind => s!"'{kind}' object is not iterable"
  | .noMembers kind => s!"'{kind}' object is not subscriptable"
  | .listIndex => "list indices must be integers or slices, not str"
  | .textIndex => "string indices must be integers, not 'str'"
  | .lacking member => Text.quotedString member
  | .noLength kind => s!"object of type '{kind}' has no len()"
  | .listForText => "can only concatenate list (not \"str\") to list"
  | .objectForText => "unsupported operand type(s) for +: 'dict' and 'str'"
  | .base64 f => f.message
  | .numeral f => f.message
  | .notANumber kind =>
    s!"int() argument must be a string, a bytes-like object or a real number, not '{kind}'"
  | .infinite => "cannot convert float infinity to integer"
  | .nan => "cannot convert float NaN to integer"
  | .tooLong => Integer.tooLongToWrite

/-- Why a call has no result. -/
inductive Fault where
  /-- The node refuses the call, with a code, a message and its log. -/
  | refused (code message : Json) (logs : List Json)
  /-- The node cannot be reached. -/
  | unreachable (url : String)
  /-- The answer has a status that stands for a failure. -/
  | httpStatus (status : Nat)
  /-- The answer is not JSON. -/
  | malformed
  /-- The answer is not an object. -/
  | notObject
  /-- The answer to a read is not an object. -/
  | noResult
  | misfit (misfit : Misfit)
  deriving Repr

/-- The wording of a fault. -/
def Fault.message : Fault → String
  | .refused code message _ => s!"RPC error {code.shown}: {message.shown}"
  | .unreachable url => s!"RPC connection to {url} failed. Ensure the node is reachable."
  | .httpStatus _ => "RPC server returned an HTTP error; check the endpoint URL."
  | .malformed => "RPC server returned malformed JSON"
  | .notObject => "RPC server returned a non-object response"
  | .noResult => "read_contract returned no result object"
  | .misfit m => m.message

/-- A fault that commands expect: the node refused, or there is no proper answer. -/
def Fault.isExpected : Fault → Bool
  | .misfit _ => false
  | _ => true

end ContractShell.Node
