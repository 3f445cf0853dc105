import ContractShell.Bytes.Basic
import ContractShell.Text.Digit
import ContractShell.Text.Printable

/-!
The texts of messages: a cause with the context in which it came up, and quoted text, as messages show a piece of text
inside a larger value.

The quote is `'`, or `"` when the text holds `'` and no `"`. Backslashes and the chosen quote are escaped, line feeds,
carriage returns and tabs have short forms, and any other character that is not printable is written by its number.
-/

namespace ContractShell.Text

/-- The last `width` hexadecimal digits of a number, in lower case. -/
def hexFixed (width n : Nat) : List Char :=
  (List.range width).map fun i => hexChar (n / Nat.pow 16 (width - 1 - i) % 16)

/-- How a character is written between quotes. -/
def quotedChar (quote c : Char) : List Char :=
  if c = quote ∨ c = '\\' then ['\\', c]
  else if c = '\n' then ['\\', 'n']
  else if c = '\r' then ['\\', 'r']
  else if c = '\t' then ['\\', 't']
  else if isPrintable c then [c]
  else if c.toNat < 0x100 then '\\' :: 'x' :: hexFixed 2 c.toNat
  else if c.toNat < 0x10000 then '\\' :: 'u' :: hexFixed 4 c.toNat
  else '\\' :: 'U' :: hexFixed 8 c.toNat

/-- The quote that a text gets. -/
def quoteFor (s : List Char) : Char := if s.contains '\'' && !s.contains '"' then '"' else '\''

/-- A text between quotes. -/
def quoted (s : List Char) : List Char :=
  quoteFor s :: s.flatMap (quotedChar (quoteFor s)) ++ [quoteFor s]

/-- A string between quotes. -/
def quotedString (s : String) : String := String.ofList (quoted s.toList)

/-- How a byte is written between quotes: printable ASCII as itself, other bytes by their number. -/
def quotedByte (quote : Char) (b : UInt8) : List Char :=
  if b.toNat < 128 then quotedChar quote (Char.ofNat b.toNat) else '\\' :: 'x' :: hexFixed 2 b.toNat

/-- A byte string between quotes, with a `b` in front. -/
def quotedBytes (b : Bytes) : String :=
  let quote := quoteFor (b.map fun x => Char.ofNat x.toNat)
  String.ofList ('b' :: quote :: b.flatMap (quotedByte quote) ++ [quote])

/-- A cause with its context after a colon, when there is one. -/
def withContext (cause context : String) : String := if context.isEmpty then cause else cause ++ ": " ++ context

end ContractShell.Text
