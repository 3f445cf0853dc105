import ContractShell.Text.Digit

/-!
Places in a YAML text, and the classes of characters that its layout depends on.

Carriage returns are line feeds by the time a text gets here.
-/

namespace ContractShell.Yaml

/-! ## 1. Characters -/

/-- What stands for the character after the last one. -/
def endMark : Char := Char.ofNat 0

/-- A character that ends a line. -/
def isBreak (c : Char) : Bool := c = '\n' || c.toNat = 0x85 || c.toNat = 0x2028 || c.toNat = 0x2029

/-- The end of a line or of the text. -/
def endsLine (c : Char) : Bool := isBreak c || c = endMark

/-- A space, or the end of a line or of the text. -/
def isSpaceOrEnd (c : Char) : Bool := c = ' ' || endsLine c

/-- A space or a tab, or the end of a line or of the text. -/
def isGap (c : Char) : Bool := c = '\t' || isSpaceOrEnd c

/-- A character that can be in a text: a tab, a line end, or one that has a shape. -/
def isAllowed (c : Char) : Bool :=
  let n := c.toNat
  n = 9 || n = 10 || n = 13 || (0x20 ≤ n && n ≤ 0x7E) || n = 0x85 || (0xA0 ≤ n && n ≤ 0xFFFD) || 0x10000 ≤ n

/-- A character of an anchor's or a handle's name. -/
def isNameChar (c : Char) : Bool :=
  Text.isDigit c || ('A' ≤ c && c ≤ 'Z') || ('a' ≤ c && c ≤ 'z') || c = '-' || c = '_'

/-! ## 2. Places -/

/-- A place in a text: what is still to be read, how many characters were read, and the line and the column. -/
structure Cursor where
  rest : List Char
  index : Nat
  line : Nat
  column : Nat

namespace Cursor

/-- The start of a text. -/
def start (text : String) : Cursor := ⟨text.toList, 0, 0, 0⟩

/-- The next character. -/
def peek (c : Cursor) : Char := c.rest.headD endMark

/-- The character after `n` others. -/
def peekAt (c : Cursor) (n : Nat) : Char := c.rest.getD n endMark

/-- The place after the next character. The mark of the byte order takes no column. -/
def advance (c : Cursor) : Cursor :=
  match c.rest with
  | [] => c
  | x :: r =>
    if isBreak x then ⟨r, c.index + 1, c.line + 1, 0⟩
    else ⟨r, c.index + 1, c.line, if x.toNat = 0xFEFF then c.column else c.column + 1⟩

/-- The place after `n` characters. -/
def skip : Nat → Cursor → Cursor
  | 0, c => c
  | n + 1, c => skip n c.advance

/-- The next characters of a class, and the place after them. -/
def span (p : Char → Bool) (c : Cursor) : List Char × Cursor :=
  let w := c.rest.takeWhile p
  (w, c.skip w.length)

/-- The place after the next characters of a class. -/
def skipWhile (p : Char → Bool) (c : Cursor) : Cursor := (c.span p).2

/-- The line end here, if there is one, and the place after it. Only the two separators of lines and paragraphs are kept
apart from line feeds. -/
def lineBreak (c : Cursor) : List Char × Cursor :=
  if isBreak c.peek then
    ([if c.peek.toNat = 0x2028 ∨ c.peek.toNat = 0x2029 then c.peek else '\n'], c.advance)
  else ([], c)

/-- Three characters that separate documents stand here, with a gap after them. -/
def atSeparator (c : Cursor) : Bool :=
  (c.rest.take 3 = ['-', '-', '-'] || c.rest.take 3 = ['.', '.', '.']) && isGap (c.peekAt 3)

/-- The place after spaces and a comment, which reach to the end of the line. -/
def skipComment (c : Cursor) : Cursor :=
  let d := c.skipWhile (· = ' ')
  if d.peek = '#' then d.skipWhile fun x => !endsLine x else d

end Cursor

end ContractShell.Yaml
