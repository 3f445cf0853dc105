import ContractShell.Hash.Sha256

/-!
Bytes as base58 text, plain and with a checksum.

A leading zero byte is written as `1`; the rest is the big-endian number in base 58. The checksum is the first four
bytes of the digest of the digest, written after the data.

## Main statements

* `digitValue?_lt`: the value of a digit is below 58.
-/

namespace ContractShell.Base58

/-! ## 1. The alphabet -/

/-- The digits in order of value: the ten figures and the letters, without `0`, `O`, `I` and `l`. -/
def alphabet : List Char := "123456789ABCDEFGHJKLMNPQRSTUVWXYZabcdefghijkmnopqrstuvwxyz".toList

/-- The alphabet, digit by digit. -/
theorem alphabet_eq :
    alphabet =
      ['1', '2', '3', '4', '5', '6', '7', '8', '9', 'A', 'B', 'C', 'D', 'E', 'F', 'G', 'H', 'J', 'K', 'L', 'M', 'N',
       'P', 'Q', 'R', 'S', 'T', 'U', 'V', 'W', 'X', 'Y', 'Z', 'a', 'b', 'c', 'd', 'e', 'f', 'g', 'h', 'i', 'j', 'k',
       'm', 'n', 'o', 'p', 'q', 'r', 's', 't', 'u', 'v', 'w', 'x', 'y', 'z'] := by
  exact String.toList_ofList

theorem length_alphabet : alphabet.length = 58 := by
  rw [alphabet_eq]
  rfl

/-- The digit of a value below 58. -/
def digit (n : Nat) : Char := alphabet.getD n '1'

/-- The value of a digit. -/
def digitValue? (c : Char) : Option Nat := alphabet.idxOf? c

theorem digitValue?_lt {c : Char} {n : Nat} (h : digitValue? c = some n) : n < 58 := by
  have hf : alphabet.findIdx? (· == c) = some n := by simpa [digitValue?, List.idxOf?] using h
  have hn := (List.findIdx?_eq_some_iff_getElem.mp hf).1
  have hl := length_alphabet
  omega

/-- A digit of the alphabet. -/
def isDigit (c : Char) : Bool := alphabet.contains c

/-! ## 2. Plain text -/

/-- The digits of a number, least significant first, in front of `tail`. Zero has none. -/
def digitsOnto (n : Nat) (tail : List Char) : List Char :=
  if h : n = 0 then tail else digitsOnto (n / 58) (digit (n % 58) :: tail)
termination_by n

/-- The text of a byte string. -/
def encode (b : Bytes) : List Char :=
  List.replicate (b.takeWhile (· = 0)).length '1' ++ digitsOnto (Bytes.toNat b) []

/-- The number of a run of digits, or the first character that is no digit. -/
def readNumber (n : Nat) : List Char → Except Char Nat
  | [] => .ok n
  | c :: r =>
    match digitValue? c with
    | some d => readNumber (n * 58 + d) r
    | none => .error c

theorem readNumber_cons (n : Nat) (c : Char) (r : List Char) :
    readNumber n (c :: r) =
      match digitValue? c with
      | some d => readNumber (n * 58 + d) r
      | none => .error c :=
  rfl

/-- The bytes of a text, or its first character outside the alphabet. -/
def decode (s : List Char) : Except Char Bytes :=
  (readNumber 0 s).map fun n => List.replicate (s.takeWhile (· = '1')).length 0 ++ Bytes.ofNatMinimal n

/-- The text of a byte string, as a string. -/
def toString (b : Bytes) : String := String.ofList (encode b)

/-! ## 3. Text with a checksum -/

/-- The number of bytes of a checksum. -/
def checksumSize : Nat := 4

/-- The checksum of data. -/
def checksum (data : Bytes) : Bytes := (Sha256.digestTwice data).take checksumSize

/-- The text of a version and a payload with their checksum. -/
def encodeCheck (version payload : Bytes) : List Char :=
  let data := version ++ payload
  encode (data ++ checksum data)

/-- Why a text is not base58 with a checksum. -/
inductive Fault where
  /-- A character is outside the alphabet. -/
  | invalidCharacter (c : Char)
  /-- There are fewer bytes than a checksum has. -/
  | tooShort
  /-- The checksum is not the data's. -/
  | checksumMismatch
  deriving DecidableEq, Repr

/-- The wording of a fault. -/
def Fault.message : Fault → String
  | .invalidCharacter c => "Invalid Base58 character: " ++ String.singleton c
  | .tooShort => "Base58Check value is too short"
  | .checksumMismatch => "Base58Check checksum mismatch"

/-- The version and payload of a text with a checksum. -/
def decodeCheck (s : List Char) : Except Fault Bytes :=
  match decode s with
  | .error c => .error (.invalidCharacter c)
  | .ok raw =>
    if raw.length < checksumSize then .error .tooShort
    else
      let data := Bytes.dropLast checksumSize raw
      if checksum data = Bytes.takeLast checksumSize raw then .ok data else .error .checksumMismatch

end ContractShell.Base58
