import ContractShell.Text.Digit
import ContractShell.Text.Split

/-!
Numeric addresses of hosts, as they are written in URLs: four decimal octets, or groups of hexadecimal digits between
colons in which one run of zero groups may be left out.
-/

namespace ContractShell.Url

/-! ## 1. Octets -/

/-- An octet: at most three digits without a leading zero, up to 255. -/
def isOctet (s : List Char) : Bool :=
  match s with
  | ['0'] => true
  | '0' :: _ => false
  | s =>
    !s.isEmpty && s.length ≤ 3 && s.all Text.isDigit && s.foldl (fun n c => 10 * n + (c.toNat - 48)) 0 ≤ 255

/-- Four octets with points between them. -/
def isOctets (s : List Char) : Bool :=
  let parts := Text.split '.' s
  parts.length == 4 && parts.all isOctet

/-! ## 2. Groups -/

/-- A group: one to four hexadecimal digits. -/
def isGroup (s : List Char) : Bool := !s.isEmpty && s.length ≤ 4 && s.all Text.isHexDigit

/-- How many groups an address has. -/
def groupCount : Nat := 8

/-- The parts of an address, with four octets at the end counted as two groups; `none` if there are bad octets. -/
def partsOf? (s : List Char) : Option (List (List Char)) :=
  let parts := Text.split ':' s
  let last := parts.getLast?.getD []
  if 3 ≤ parts.length then
    if last.contains '.' then
      if isOctets last then some (parts.dropLast ++ [['0'], ['0']]) else none
    else some parts
  else none

/-- The groups before an omission: none if the address starts with it. -/
def isHead (parts : List (List Char)) : Bool := parts == [[]] || parts.all isGroup

/-- Parts that make up an address. An empty part between others stands for the groups left out. -/
def areGroups (parts : List (List Char)) : Bool :=
  let inner := (parts.drop 1).dropLast
  match inner.findIdx? (·.isEmpty) with
  | none => parts.length == groupCount && parts.all isGroup
  | some i =>
    let before := parts.take (i + 1)
    let after := parts.drop (i + 2)
    isHead before && isHead after && ((before ++ after).filter fun g => !g.isEmpty).length < groupCount

/-- An address in groups, with the name of a zone after a percent sign or without one. -/
def isGroups (s : List Char) : Bool :=
  let (address, zone) := s.span (· ≠ '%')
  let isZone := match zone with
    | [] => true
    | _ :: name => !name.isEmpty && !name.contains '%'
  isZone &&
    match partsOf? address with
    | none => false
    | some parts => parts.length ≤ groupCount + 1 && areGroups parts

/-! ## 3. Versioned addresses -/

/-- An address of a later version: `v`, hexadecimal digits, a point and more. -/
def isVersioned (s : List Char) : Bool :=
  match s with
  | 'v' :: r =>
    match r.span Text.isHexDigit with
    | (_ :: _, '.' :: _ :: _) => true
    | _ => false
  | _ => false

end ContractShell.Url
