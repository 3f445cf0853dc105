import ContractShell.Text.Utf8
import ContractShell.Yaml.Cursor
import ContractShell.Yaml.Token

/-!
The properties of nodes, anchors and tags, and the directives that precede a document.
-/

namespace ContractShell.Yaml

/-! ## 1. Names -/

/-- A name of at least one character, and the place after it. -/
def nameFrom (c : Cursor) : Except Fault (String × Cursor) :=
  let (w, d) := c.span isNameChar
  if w.isEmpty then .error .malformed else .ok (String.ofList w, d)

/-- A character that can follow the name of an anchor. -/
def followsAnchor (x : Char) : Bool := isGap x || ['?', ':', ',', ']', '\x7d', '%', '@', Char.ofNat 0x60].contains x

/-- The name of an anchor or of a reference to one, and the place after it. -/
def anchorFrom (c : Cursor) : Except Fault (String × Cursor) := do
  let (name, d) ← nameFrom c
  if followsAnchor d.peek then return (name, d) else throw .malformed

/-! ## 2. Tags -/

/-- A character of a tag besides letters and digits. -/
def isTagChar (x : Char) : Bool := isNameChar x || ";/?:@&=+$,.!~*'()[]%".toList.contains x

/-- The byte of two hexadecimal digits. -/
def byteOf? : List Char → Option UInt8
  | a :: b :: _ => do return UInt8.ofNat (16 * (← Text.hexDigit? a) + (← Text.hexDigit? b))
  | _ => none

/-- The bytes that are written by their numbers from here on, each after a percent sign. -/
def tagBytes : Nat → Cursor → List UInt8 → Except Fault (List UInt8 × Cursor)
  | 0, c, bytes => .ok (bytes, c)
  | fuel + 1, c, bytes =>
    if c.peek = '%' then
      match byteOf? (c.rest.drop 1) with
      | some b => tagBytes fuel (c.skip 3) (bytes ++ [b])
      | none => .error .malformed
    else .ok (bytes, c)

/-- The rest of a tag's text, and the place after it. -/
def tagRest : Nat → Cursor → List Char → Except Fault (List Char × Cursor)
  | 0, c, text => .ok (text, c)
  | fuel + 1, c, text =>
    if c.peek = '%' then do
      let (bytes, d) ← tagBytes (fuel + 1) c []
      match Text.Utf8.decode bytes with
      | .ok w => tagRest fuel d (text ++ w)
      | .error _ => throw .malformed
    else if isTagChar c.peek then tagRest fuel c.advance (text ++ [c.peek])
    else .ok (text, c)

/-- The text of a tag, and the place after it. It is not empty before its escapes are read. -/
def tagText (c : Cursor) : Except Fault (String × Cursor) :=
  if isTagChar c.peek then (tagRest (c.rest.length + 1) c []).map fun (w, d) => (String.ofList w, d)
  else .error .malformed

/-- The handle of a tag: an exclamation mark alone before a space, or two around a name. -/
def handleFrom (c : Cursor) : Except Fault (String × Cursor) :=
  if c.peek ≠ '!' then .error .malformed
  else if c.peekAt 1 = ' ' then .ok ("!", c.advance)
  else
    let (w, d) := c.advance.span isNameChar
    if d.peek = '!' then .ok ("!" ++ String.ofList w ++ "!", d.advance) else .error .malformed

/-- A tag without a handle that is given in full between angle brackets. -/
def verbatimTag (c : Cursor) : Except Fault (Token × Cursor) := do
  let (text, d) ← tagText (c.skip 2)
  if d.peek = '>' then return (.tag none text, d.advance) else throw .malformed

/-- A tag with a handle. -/
def shortTag (c : Cursor) : Except Fault (Token × Cursor) := do
  let word := (c.rest.drop 1).takeWhile fun x => !isSpaceOrEnd x
  let (handle, d) ← if word.contains '!' then handleFrom c else pure ("!", c.advance)
  let (text, e) ← tagText d
  return (.tag (some handle) text, e)

/-- A tag, and the place after it. -/
def tagFrom (c : Cursor) : Except Fault (Token × Cursor) := do
  let (t, d) ← if c.peekAt 1 = '<' then verbatimTag c
    else if isGap (c.peekAt 1) then pure (.tag none "!", c.advance)
    else shortTag c
  if isSpaceOrEnd d.peek then return (t, d) else throw .malformed

/-! ## 3. Directives -/

/-- A number in a directive, and the place after it. -/
def numberFrom (c : Cursor) : Except Fault (Nat × Cursor) :=
  let (w, d) := c.span Text.isDigit
  if w.isEmpty then .error .malformed
  else
    match Integer.read 10 (String.ofList w) with
    | .ok n => .ok (n.toNat, d)
    | .error f => .error (.numeral f)

/-- The version that a directive asks for. -/
def versionFrom (c : Cursor) : Except Fault (Directive × Cursor) := do
  let (major, d) ← numberFrom (c.skipWhile (· = ' '))
  if d.peek ≠ '.' then throw .malformed
  let (_, e) ← numberFrom d.advance
  if isSpaceOrEnd e.peek then return (.version major, e) else throw .malformed

/-- The handle that a directive declares, and what it stands for. -/
def declarationFrom (c : Cursor) : Except Fault (Directive × Cursor) := do
  let (handle, d) ← handleFrom (c.skipWhile (· = ' '))
  if d.peek ≠ ' ' then throw .malformed
  let (start, e) ← tagText (d.skipWhile (· = ' '))
  if isSpaceOrEnd e.peek then return (.handle handle start, e) else throw .malformed

/-- A directive, and the place after its line. The cursor is at the percent sign. -/
def directiveFrom (c : Cursor) : Except Fault (Directive × Cursor) := do
  let (name, d) ← nameFrom c.advance
  if !isSpaceOrEnd d.peek then throw .malformed
  let (directive, e) ← if name = "YAML" then versionFrom d
    else if name = "TAG" then declarationFrom d
    else pure (.other, d.skipWhile fun x => !endsLine x)
  let f := e.skipComment
  if endsLine f.peek then return (directive, f.lineBreak.2) else throw .malformed

end ContractShell.Yaml
