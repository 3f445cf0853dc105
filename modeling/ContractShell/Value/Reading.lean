import ContractShell.Json.Writer
import ContractShell.Number.Integer
import ContractShell.Value.Basic

/-!
What a value gives when something else is asked of it than what it is: its truth, its number, its bytes, its text, or one
of its members.
-/

namespace ContractShell

/-! ## 1. Misfits -/

/-- Why a value does not give what is asked of it. Sorts of values go by their names. -/
inductive Misfit where
  /-- A value without members is looked up by a name. -/
  | noMembers (kind : String)
  /-- A text is looked up by a name. -/
  | namedText
  /-- Bytes are looked up by a name. -/
  | namedBytes
  /-- A name is searched in a value that holds nothing. -/
  | notSearchable (kind : String)
  /-- A name is searched in bytes. -/
  | searchInBytes
  /-- The value is no integer. -/
  | noInteger (kind : String)
  /-- The value is no number and no text of one. -/
  | noNumber (kind : String)
  | numeral (fault : Integer.Fault)
  /-- The integer is too long to write. -/
  | tooLong
  /-- A text is asked for its bytes. -/
  | noEncoding
  | negativeCount
  /-- The count of bytes is beyond what can be addressed. -/
  | countTooLarge
  /-- The value has no form in a document. -/
  | notWritable (kind : String)
  /-- The integer is too large for a flag. -/
  | flagTooLarge
  /-- A truth value stands in a field for integers. -/
  | truthForInteger (field : String)
  /-- The integer is not in the range of the field. -/
  | outOfRange (value : Int)
  /-- The value is not bytes. -/
  | notBytes (kind : String)
  /-- The value is not text. -/
  | notText
  /-- A field hides the operation of its name. -/
  | hiddenOperation (kind : String)
  /-- The schema of the field's message is not known. -/
  | noSchema
  deriving DecidableEq, Repr

/-- The wording of a misfit. An integer that is too long to write is not said. -/
def Misfit.message : Misfit → String
  | .noMembers kind => s!"'{kind}' object is not subscriptable"
  | .namedText => "string indices must be integers, not 'str'"
  | .namedBytes => "byte indices must be integers or slices, not str"
  | .notSearchable kind => s!"argument of type '{kind}' is not iterable"
  | .searchInBytes => "a bytes-like object is required, not 'str'"
  | .noInteger kind => s!"'{kind}' object cannot be interpreted as an integer"
  | .noNumber kind => s!"int() argument must be a string, a bytes-like object or a real number, not '{kind}'"
  | .numeral fault => fault.message
  | .tooLong => Integer.tooLongToWrite
  | .noEncoding => "string argument without an encoding"
  | .negativeCount => "negative count"
  | .countTooLarge => "cannot fit 'int' into an index-sized integer"
  | .notWritable kind => s!"Object of type {kind} is not JSON serializable"
  | .flagTooLarge => "Python int too large to convert to C long"
  | .truthForInteger field => s!"Field {field}: Expected an int, got a boolean."
  | .outOfRange n => ((Integer.text? n).map ("Value out of range: " ++ ·)).getD ""
  | .notBytes kind => s!"expected bytes, {kind} found"
  | .notText => "bad argument type for built-in operation"
  | .hiddenOperation kind => s!"'{kind}' object is not callable"
  | .noSchema => "'NoneType' object has no attribute 'fields'"

/-- What is wrong with a value: its sort, its content, or its size. -/
inductive Misfit.Class where
  | sort
  | content
  | size
  deriving DecidableEq, Repr

/-- What is wrong in a misfit. -/
def Misfit.classOf : Misfit → Misfit.Class
  | .numeral _ | .tooLong | .negativeCount | .outOfRange _ => .content
  | .countTooLarge | .flagTooLarge => .size
  | _ => .sort

namespace Value

/-- The name of a value's sort. -/
def kindName : Value → String
  | .bool _ => "bool"
  | .int _ => "int"
  | .text _ => "str"
  | .bytes _ => "bytes"
  | .message _ => "dict"

/-! ## 2. Plain readings -/

/-- The value counts as true: it is not false, zero or empty. -/
def isTruthy : Value → Bool
  | .bool b => b
  | .int n => n != 0
  | .text s => !s.isEmpty
  | .bytes b => !b.isEmpty
  | .message ms => !ms.isEmpty

/-- The value as an integer: a number, or a numeral in a text or in bytes. -/
def integer : Value → Except Misfit Int
  | .bool b => .ok (if b then 1 else 0)
  | .int n => .ok n
  | .text s => (Integer.read 10 s).mapError .numeral
  | .bytes b => (Integer.readBytes b).mapError .numeral
  | .message _ => .error (.noNumber "dict")

theorem integer_int (n : Int) : (Value.int n).integer = .ok n := rfl

/-- The decimal numeral of an integer. -/
def numeral (n : Int) : Except Misfit String :=
  match Integer.text? n with
  | some s => .ok s
  | none => .error .tooLong

/-- The greatest count of bytes, and one. -/
def maxCount : Int := 0x8000000000000000

/-- As many zero bytes as an integer says. -/
def zeroBytes (n : Int) : Except Misfit Bytes :=
  if n < -maxCount ∨ maxCount ≤ n then .error .countTooLarge
  else if n < 0 then .error .negativeCount
  else .ok (List.replicate n.toNat 0)

/-- The value as bytes: a number gives as many zero bytes. -/
def byteString : Value → Except Misfit Bytes
  | .bool b => .ok (if b then [0] else [])
  | .int n => zeroBytes n
  | .text _ => .error .noEncoding
  | .bytes b => .ok b
  | .message [] => .ok []
  | .message (_ :: _) => .error (.noInteger "str")

mutual

/-- The value as a piece of a larger text, with quotes where it is text. -/
def quoted : Value → Except Misfit String
  | .bool b => .ok (if b then "True" else "False")
  | .int n => numeral n
  | .text s => .ok (Text.quotedString s)
  | .bytes b => .ok (Text.quotedBytes b)
  | .message ms => (quotedMembers ms).map fun parts => "\x7b" ++ String.intercalate ", " parts ++ "\x7d"

/-- The members of a message as pieces of a text. -/
def quotedMembers : List (String × Value) → Except Misfit (List String)
  | [] => .ok []
  | (name, v) :: r => do
    let text ← v.quoted
    return (Text.quotedString name ++ ": " ++ text) :: (← quotedMembers r)

end

/-- The value as text: a text is itself. -/
def shown : Value → Except Misfit String
  | .text s => .ok s
  | v => v.quoted

mutual

/-- The value as a document. -/
def document : Value → Except Misfit String
  | .bool b => .ok (if b then "true" else "false")
  | .int n => numeral n
  | .text s => .ok (String.ofList (Json.writeString s))
  | .bytes _ => .error (.notWritable "bytes")
  | .message ms => (documentMembers ms).map fun parts => "\x7b" ++ String.intercalate ", " parts ++ "\x7d"

/-- The members of a message as parts of a document. -/
def documentMembers : List (String × Value) → Except Misfit (List String)
  | [] => .ok []
  | (name, v) :: r => do
    let text ← v.document
    return (String.ofList (Json.writeString name) ++ ": " ++ text) :: (← documentMembers r)

end

/-! ## 3. Members -/

/-- A text occurs in another one. -/
def occursIn (part : List Char) : List Char → Bool
  | [] => part.isEmpty
  | c :: r => part.isPrefixOf (c :: r) || occursIn part r

/-- A name is found in the value: as a member of a message, or as a part of a text. -/
def has (name : String) : Value → Except Misfit Bool
  | .message ms => .ok (member? name ms).isSome
  | .text s => .ok (occursIn name.toList s.toList)
  | .bytes _ => .error .searchInBytes
  | v => .error (.notSearchable v.kindName)

/-- The member of a name, if the value is a message and has it. -/
def lookUp (name : String) : Value → Except Misfit (Option Value)
  | .message ms => .ok (member? name ms)
  | .text _ => .error .namedText
  | .bytes _ => .error .namedBytes
  | v => .error (.noMembers v.kindName)

/-- The member of a name, if the name is found in the value. -/
def memberIn (name : String) (v : Value) : Except Misfit (Option Value) := do
  if ← v.has name then v.lookUp name else return none

theorem memberIn_message (name : String) (ms : List (String × Value)) :
    (Value.message ms).memberIn name = .ok (member? name ms) := by
  cases h : member? name ms <;> simp [memberIn, has, lookUp, h, bind, Except.bind, pure, Except.pure]

end Value

end ContractShell
