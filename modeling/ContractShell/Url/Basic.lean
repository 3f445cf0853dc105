import ContractShell.Text.Quoted
import ContractShell.Url.Host

/-!
URLs of node endpoints: a scheme, and the authority that names a host.

Blanks and control characters in front of a URL do not count, nor do tabs and line ends anywhere. A scheme or an authority
that is not there is empty.

## Main statements

* `isEndpoint_iff`: an endpoint has one of two schemes and a host.
-/

namespace ContractShell

/-- The parts of a URL that an endpoint needs. -/
structure Url where
  scheme : String
  authority : List Char
  deriving DecidableEq, Repr

namespace Url

/-! ## 1. Faults -/

/-- Why a text is not the URL of an endpoint. -/
inductive Fault where
  /-- The scheme or the host is not one of an endpoint. -/
  | notEndpoint (text : String)
  /-- A bracket has no partner, or does not stand around the whole host. -/
  | misplacedBracket
  | versionedAddress
  /-- Octets stand in brackets. -/
  | octetsInBrackets
  | notAddress (host : List Char)
  /-- The authority holds a character that stands for a delimiter. -/
  | disguisedDelimiter (authority : List Char)
  deriving DecidableEq, Repr

/-- The wording of a fault. -/
def Fault.message : Fault → String
  | .notEndpoint text => "Invalid RPC endpoint URL: " ++ text
  | .misplacedBracket => "Invalid IPv6 URL"
  | .versionedAddress => "IPvFuture address is invalid"
  | .octetsInBrackets => "An IPv4 address cannot be in brackets"
  | .notAddress host => String.ofList (Text.quoted host) ++ " does not appear to be an IPv4 or IPv6 address"
  | .disguisedDelimiter authority =>
    "netloc '" ++ String.ofList authority ++ "' contains invalid characters under NFKC normalization"

/-! ## 2. Characters -/

/-- A character that can start a scheme. -/
def isLetter (c : Char) : Bool := c.isAlpha

/-- A character of a scheme. -/
def isSchemeChar (c : Char) : Bool := c.isAlphanum || c = '+' || c = '-' || c = '.'

/-- A character that ends an authority. -/
def endsAuthority (c : Char) : Bool := c = '/' || c = '?' || c = '#'

/-- The characters that stand for, or contain, one of the delimiters `/ ? # @ :` in another form. -/
def disguises : List Nat :=
  [0x2047, 0x2048, 0x2049, 0x2100, 0x2101, 0x2105, 0x2106, 0x2A74, 0xFE13, 0xFE16, 0xFE55, 0xFE56, 0xFE5F, 0xFE6B,
    0xFF03, 0xFF0F, 0xFF1A, 0xFF1F, 0xFF20]

/-- A character that stands for a delimiter in another form. -/
def isDisguise (c : Char) : Bool := disguises.contains c.toNat

/-! ## 3. Parts -/

/-- A text without blanks and control characters in front, and without tabs and line ends. -/
def clean (s : List Char) : List Char :=
  (s.dropWhile fun c => c.toNat ≤ 0x20).filter fun c => c ≠ '\t' && c ≠ '\r' && c ≠ '\n'

/-- The scheme of a URL, in lower case, and what follows its colon. -/
def splitScheme (s : List Char) : String × List Char :=
  match s.span (· ≠ ':') with
  | (c :: r, _ :: rest) =>
    if isLetter c && r.all isSchemeChar then (String.ofList ((c :: r).map Char.toLower), rest) else ("", s)
  | _ => ("", s)

/-- The authority: what follows two slashes. -/
def authorityOf : List Char → List Char
  | '/' :: '/' :: r => r.takeWhile fun c => !endsAuthority c
  | _ => []

/-- The text between the first opening bracket and the closing one after it, or the end. -/
def bracketed (s : List Char) : List Char := ((s.dropWhile (· ≠ '[')).drop 1).takeWhile (· ≠ ']')

/-- The host and the port of an authority: what follows its last `@`. -/
def placeOf (authority : List Char) : List Char := (authority.reverse.takeWhile (· ≠ '@')).reverse

/-- The host of a place: what its brackets hold, or what stands before its colon. -/
def hostOf (place : List Char) : List Char :=
  if place.contains '[' then bracketed place else place.takeWhile (· ≠ ':')

/-- The brackets of a place, if there are some, start it, and only a port follows them. -/
def hasOuterBrackets (place : List Char) : Bool :=
  !place.contains '[' ||
    place.head? == some '[' &&
      match (place.dropWhile (· ≠ ']')).drop 1 with
      | [] | ':' :: _ => true
      | _ => false

/-- Checks the address of an authority that holds brackets. -/
def checkAddress (host : List Char) : Except Fault Unit :=
  if host.head? = some 'v' then
    if isVersioned host then .ok () else .error .versionedAddress
  else if isOctets host then .error .octetsInBrackets
  else if isGroups host then .ok ()
  else .error (.notAddress host)

/-- Checks the brackets of an authority. -/
def checkBrackets (authority : List Char) : Except Fault Unit :=
  match authority.contains '[', authority.contains ']' with
  | false, false => .ok ()
  | true, true =>
    let place := placeOf authority
    if hasOuterBrackets place then checkAddress (hostOf place) else .error .misplacedBracket
  | _, _ => .error .misplacedBracket

/-- The URL of a text. -/
def ofText (text : String) : Except Fault Url :=
  let (scheme, rest) := splitScheme (clean text.toList)
  let authority := authorityOf rest
  match checkBrackets authority with
  | .error f => .error f
  | .ok () => if authority.any isDisguise then .error (.disguisedDelimiter authority) else .ok ⟨scheme, authority⟩

/-- The host. -/
def host (u : Url) : List Char := hostOf (placeOf u.authority)

/-! ## 4. Endpoints -/

/-- The schemes of endpoints. -/
def schemes : List String := ["http", "https"]

/-- A URL names an endpoint. -/
def isEndpoint (u : Url) : Bool := schemes.contains u.scheme && !u.host.isEmpty

/-- An endpoint has one of two schemes and a host. -/
theorem isEndpoint_iff (u : Url) :
    u.isEndpoint = true ↔ (u.scheme = "http" ∨ u.scheme = "https") ∧ u.host ≠ [] := by
  simp [isEndpoint, schemes]

/-- The text of an endpoint is kept as it was given. -/
def endpoint (text : String) : Except Fault String :=
  match ofText text with
  | .error f => .error f
  | .ok u => if u.isEndpoint then .ok text else .error (.notEndpoint text)

end Url

end ContractShell
