import ContractShell.Yaml.Property
import ContractShell.Yaml.Scalar

/-!
From text to tokens.

Block structure shows in the indentation: a token that starts further right than its surroundings opens a block, and one
that starts further left closes blocks. That a node is the key of a mapping shows only in the colon after it, so a place
where a key may start is remembered until the colon comes or can come no more: a key that is not marked ends on its line
and has at most 1024 characters.
-/

namespace ContractShell.Yaml

/-- A token that may turn out to start a key. -/
structure PossibleKey where
  /-- How many brackets are open around it. -/
  level : Nat
  /-- The number of the token. -/
  number : Nat
  /-- Nothing but a key can stand there. -/
  required : Bool
  index : Nat
  line : Nat
  column : Nat

/-- The text that is still to be read, the tokens so far, and what the next ones depend on. -/
structure Lexer where
  cursor : Cursor
  tokens : Array Token
  /-- How many brackets are open. -/
  level : Nat
  /-- The column of the block that is open, and those of the blocks around it. -/
  indent : Int
  outer : List Int
  /-- A key that is not marked may start here. -/
  keyAllowed : Bool
  keys : List PossibleKey

namespace Lexer

/-- The start of a text, after the mark of the byte order. -/
def start (text : String) : Lexer :=
  let c := Cursor.start text
  ⟨if c.peek.toNat = 0xFEFF then c.advance else c, #[], 0, -1, [], true, []⟩

/-! ## 1. Tokens -/

/-- Adds a token. -/
def push (t : Token) (l : Lexer) : Lexer :=
  { l with tokens := l.tokens.push t }

/-- Adds a token of so many characters. -/
def take (t : Token) (count : Nat) (l : Lexer) : Lexer :=
  { l with tokens := l.tokens.push t, cursor := l.cursor.skip count }

/-- Puts a token in front of the one with a number. -/
def insertAt (number : Nat) (t : Token) (tokens : Array Token) : Array Token := tokens.insertIdxIfInBounds number t

/-! ## 2. Blocks -/

/-- Closes the blocks that are indented further than a column. -/
def unwindFrom (column : Int) : List Int → Int → Array Token → Int × List Int × Array Token
  | [], indent, tokens => (indent, [], tokens)
  | i :: outer, indent, tokens =>
    if column < indent then unwindFrom column outer i (tokens.push .blockEnd) else (indent, i :: outer, tokens)

/-- Closes the blocks that are indented further than a column. Inside of brackets there are none. -/
def unwind (column : Int) (l : Lexer) : Lexer :=
  if 0 < l.level then l
  else
    let (indent, outer, tokens) := unwindFrom column l.outer l.indent l.tokens
    { l with indent, outer, tokens }

/-- Opens a block at a column if it is further right than the block that is open; the token goes in front of the one with
a number. -/
def openBlock (t : Token) (number column : Nat) (l : Lexer) : Lexer :=
  if l.indent < column then
    { l with tokens := insertAt number t l.tokens, indent := column, outer := l.indent :: l.outer }
  else l

/-! ## 3. Keys -/

/-- The longest key that is not marked. -/
def longestKey : Nat := 1024

/-- A key can no longer start at a place. -/
def isStale (l : Lexer) (k : PossibleKey) : Bool := k.line != l.cursor.line || longestKey < l.cursor.index - k.index

/-- Forgets places where a key can no longer start. -/
def dropStale (l : Lexer) : Except Fault Lexer :=
  if l.keys.any fun k => l.isStale k && k.required then .error .malformed
  else .ok { l with keys := l.keys.filter fun k => !l.isStale k }

/-- Forgets the place where a key may have started, between the same brackets. -/
def dropKey (l : Lexer) : Except Fault Lexer :=
  if l.keys.any fun k => k.level == l.level && k.required then .error .malformed
  else .ok { l with keys := l.keys.filter fun k => k.level != l.level }

/-- Remembers that a key may start here. -/
def saveKey (l : Lexer) : Except Fault Lexer :=
  if l.keyAllowed then do
    let l ← l.dropKey
    let c := l.cursor
    let required := l.level = 0 && l.indent = c.column
    return { l with keys := l.keys ++ [⟨l.level, l.tokens.size, required, c.index, c.line, c.column⟩] }
  else .ok l

/-! ## 4. Reading on -/

/-- The next place where something stands: blanks, comments and line ends are skipped. Outside of brackets a key may start
after a line end. -/
def skipBlank : Nat → Lexer → Lexer
  | 0, l => l
  | fuel + 1, l =>
    let c := l.cursor.skipComment
    if isBreak c.peek then skipBlank fuel { l with cursor := c.advance, keyAllowed := l.keyAllowed || l.level = 0 }
    else { l with cursor := c }

/-- Ends all blocks, before something that stands outside of the document. -/
def closeAll (l : Lexer) : Except Fault Lexer := do
  let l ← (l.unwind (-1)).dropKey
  return { l with keyAllowed := false }

/-- The end of the text. -/
def readEnd (l : Lexer) : Except Fault Lexer := return (← l.closeAll).push .streamEnd

/-- A directive. -/
def readDirective (l : Lexer) : Except Fault Lexer := do
  let l ← l.closeAll
  let (d, c) ← directiveFrom l.cursor
  return { l.push (.directive d) with cursor := c }

/-- A separator of documents. -/
def readSeparator (t : Token) (l : Lexer) : Except Fault Lexer := return (← l.closeAll).take t 3

/-- An opening bracket. -/
def readOpening (t : Token) (l : Lexer) : Except Fault Lexer := do
  let l ← l.saveKey
  return { l.take t 1 with level := l.level + 1, keyAllowed := true }

/-- A closing bracket. One that closes nothing is refused. -/
def readClosing (t : Token) (l : Lexer) : Except Fault Lexer := do
  if l.level = 0 then throw .malformed
  let l ← l.dropKey
  return { l.take t 1 with level := l.level - 1, keyAllowed := false }

/-- A comma between brackets. -/
def readComma (l : Lexer) : Except Fault Lexer := do
  let l ← l.dropKey
  return { l.take .flowEntry 1 with keyAllowed := true }

/-- The dash before an item of a block sequence. -/
def readDash (l : Lexer) : Except Fault Lexer := do
  if l.level = 0 && !l.keyAllowed then throw .malformed
  let l := if l.level = 0 then l.openBlock .blockSequenceStart l.tokens.size l.cursor.column else l
  let l ← l.dropKey
  return { l.take .blockEntry 1 with keyAllowed := true }

/-- The mark of a key. -/
def readKeyMark (l : Lexer) : Except Fault Lexer := do
  if l.level = 0 && !l.keyAllowed then throw .malformed
  let l := if l.level = 0 then l.openBlock .blockMappingStart l.tokens.size l.cursor.column else l
  let l ← l.dropKey
  return { l.take .key 1 with keyAllowed := l.level = 0 }

/-- A colon after a key that is not marked. -/
def readColonAfter (k : PossibleKey) (l : Lexer) : Lexer :=
  let l := { l with keys := l.keys.filter fun x => x.level != l.level, tokens := insertAt k.number .key l.tokens }
  let l := if l.level = 0 then l.openBlock .blockMappingStart k.number k.column else l
  { l.take .value 1 with keyAllowed := false }

/-- The colon before a value. -/
def readColon (l : Lexer) : Except Fault Lexer :=
  match l.keys.find? (·.level == l.level) with
  | some k => .ok (l.readColonAfter k)
  | none => do
    if l.level = 0 && !l.keyAllowed then throw .malformed
    let l := if l.level = 0 then l.openBlock .blockMappingStart l.tokens.size l.cursor.column else l
    let l ← l.dropKey
    return { l.take .value 1 with keyAllowed := l.level = 0 }

/-- A property of a node, which may start a key. -/
def readProperty (read : Cursor → Except Fault (Token × Cursor)) (l : Lexer) : Except Fault Lexer := do
  let l ← l.saveKey
  let (t, c) ← read l.cursor
  return { l.push t with cursor := c, keyAllowed := false }

/-- The name behind an indicator, as a token. -/
def named (token : String → Token) (c : Cursor) : Except Fault (Token × Cursor) :=
  (anchorFrom c.advance).map fun (name, d) => (token name, d)

/-- A scalar between quotes, as a token. -/
def quotedToken (c : Cursor) : Except Fault (Token × Cursor) :=
  (quotedScalar c).map fun (text, d) => (.scalar (String.ofList text) false, d)

/-- A block scalar. -/
def readBlock (l : Lexer) : Except Fault Lexer := do
  let l ← l.dropKey
  let (text, c) ← blockScalar l.indent l.cursor
  return { l.push (.scalar (String.ofList text) false) with cursor := c, keyAllowed := true }

/-- A plain scalar. -/
def readPlain (l : Lexer) : Except Fault Lexer := do
  let l ← l.saveKey
  let (text, c, ended) := plainScalar (0 < l.level) l.indent l.cursor
  return { l.push (.scalar (String.ofList text) true) with cursor := c, keyAllowed := ended }

/-- The characters that no plain scalar starts with, unless something other than a gap follows some of them. -/
def indicators : List Char := "-?:,[]\x7b\x7d#&*!|>'\"%@".toList ++ [Char.ofNat 0x60]

/-- A plain scalar starts here. -/
def startsPlain (l : Lexer) : Bool :=
  let x := l.cursor.peek
  (!isGap x && !indicators.contains x) ||
    (!isGap (l.cursor.peekAt 1) && (x = '-' || (l.level = 0 && (x = '?' || x = ':'))))

/-- An indicator stands alone: inside of brackets always, elsewhere before a gap. -/
def standsAlone (l : Lexer) : Bool := 0 < l.level || isGap (l.cursor.peekAt 1)

/-- Reads the token that stands here. -/
def readToken (l : Lexer) : Except Fault Lexer :=
  let c := l.cursor
  let isFirst := c.column = 0
  match c.peek with
  | '%' => if isFirst then l.readDirective else .error .malformed
  | '-' =>
    if isFirst && c.atSeparator then l.readSeparator .documentStart
    else if isGap (c.peekAt 1) then l.readDash
    else l.readPlain
  | '.' => if isFirst && c.atSeparator then l.readSeparator .documentEnd else l.readPlain
  | '[' => l.readOpening .flowSequenceStart
  | '\x7b' => l.readOpening .flowMappingStart
  | ']' => l.readClosing .flowSequenceEnd
  | '\x7d' => l.readClosing .flowMappingEnd
  | ',' => l.readComma
  | '?' => if l.standsAlone then l.readKeyMark else l.readPlain
  | ':' => if l.standsAlone then l.readColon else l.readPlain
  | '*' => l.readProperty (named .reference)
  | '&' => l.readProperty (named .anchor)
  | '!' => l.readProperty tagFrom
  | '|' => if l.level = 0 then l.readBlock else .error .malformed
  | '>' => if l.level = 0 then l.readBlock else .error .malformed
  | '\'' => l.readProperty quotedToken
  | '"' => l.readProperty quotedToken
  | _ => if l.startsPlain then l.readPlain else .error .malformed

/-- Reads the next token, after the ends of the blocks that it ends. -/
def step (l : Lexer) : Except Fault Lexer := do
  let l ← (l.skipBlank (l.cursor.rest.length + 1)).dropStale
  let l := l.unwind l.cursor.column
  if l.cursor.rest.isEmpty then l.readEnd else l.readToken

/-- The tokens before the first one that may still turn out to start a key. -/
def settled (l : Lexer) : List Token :=
  match ((l.keys.filter fun k => !l.isStale k).map (·.number)).min? with
  | some number => l.tokens.toList.take number
  | none => l.tokens.toList

end Lexer

/-- The tokens of a text as far as they can be told, and the fault that ends them if there is one. -/
structure TokenStream where
  tokens : List Token
  fault : Option Fault
  deriving DecidableEq, Repr

/-- Reads tokens to the end of the text or to the first fault. -/
def Lexer.readAll : Nat → Lexer → TokenStream
  | 0, l => ⟨l.tokens.toList, none⟩
  | fuel + 1, l =>
    match l.step with
    | .error f => ⟨l.settled, some f⟩
    | .ok next => if next.tokens.back? = some .streamEnd then ⟨next.tokens.toList, none⟩ else next.readAll fuel

/-- The tokens of a text. -/
def TokenStream.ofText (text : String) : TokenStream :=
  if text.toList.all isAllowed then (Lexer.start text).readAll (text.length + 2) else ⟨[], some .malformed⟩

end ContractShell.Yaml
