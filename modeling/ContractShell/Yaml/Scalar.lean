import ContractShell.Text.Units
import ContractShell.Yaml.Cursor
import ContractShell.Yaml.Token

/-!
Scalars in their written forms: between quotes, as a block under an indicator, and plain.

Line ends inside a scalar are folded: one becomes a space, further ones stay. Each reader gets as much fuel as there are
characters, and takes one at least for each step.
-/

namespace ContractShell.Yaml

/-! ## 1. Folding -/

/-- A line end and those after it, folded. -/
def folded (first : List Char) (more : List Char) : List Char :=
  if first ≠ ['\n'] then first ++ more else if more.isEmpty then [' '] else more

/-! ## 2. Between quotes -/

/-- The characters behind a backslash that stand for one other character. -/
def escapes : List (Char × Nat) := [
  ('0', 0), ('a', 7), ('b', 8), ('t', 9), ('\t', 9), ('n', 10), ('v', 11), ('f', 12), ('r', 13), ('e', 0x1B), (' ', 0x20),
  ('"', 0x22), ('\\', 0x5C), ('/', 0x2F), ('N', 0x85), ('_', 0xA0), ('L', 0x2028), ('P', 0x2029)]

/-- How many hexadecimal digits follow a character behind a backslash. -/
def escapeDigits? (c : Char) : Option Nat :=
  if c = 'x' then some 2 else if c = 'u' then some 4 else if c = 'U' then some 8 else none

/-- The line ends from here on, with the spaces and tabs around them left out. A separator of documents may not stand at
the start of any of these lines. -/
def quotedBreaks : Nat → Cursor → List Char → Except Fault (List Char × Cursor)
  | 0, c, text => .ok (text, c)
  | fuel + 1, c, text =>
    if c.atSeparator then .error .malformed
    else
      let d := c.skipWhile fun x => x = ' ' || x = '\t'
      if isBreak d.peek then
        let (b, e) := d.lineBreak
        quotedBreaks fuel e (text ++ b)
      else .ok (text, d)

/-- Spaces and tabs, or folded line ends. -/
def quotedGap (fuel : Nat) (c : Cursor) : Except Fault (List Char × Cursor) :=
  let (blanks, d) := c.span fun x => x = ' ' || x = '\t'
  if d.peek = endMark then .error .malformed
  else if isBreak d.peek then
    let (b, e) := d.lineBreak
    (quotedBreaks fuel e []).map fun (more, f) => (folded b more, f)
  else .ok (blanks, d)

/-- What a backslash and the characters after it stand for. The cursor is behind the backslash. -/
def escape (fuel : Nat) (c : Cursor) : Except Fault (List Char × Cursor) :=
  match escapes.find? (·.1 == c.peek) with
  | some (_, n) => .ok ([Char.ofNat n], c.advance)
  | none =>
    match escapeDigits? c.peek with
    | some count =>
      let ds := c.advance.rest.take count
      if ds.length = count && ds.all Text.isHexDigit then
        let n := ds.foldl (fun n d => n * 16 + (Text.hexDigit? d).getD 0) 0
        if n < 0x110000 then .ok ([Text.Units.single n], c.advance.skip count) else .error (.noCharacter n)
      else .error .malformed
    | none =>
      if isBreak c.peek then quotedBreaks fuel c.lineBreak.2 [] else .error .malformed

/-- The text up to the closing quote, and the place after it. -/
def quotedRest (double : Bool) : Nat → Cursor → List Char → Except Fault (List Char × Cursor)
  | 0, _, _ => .error .malformed
  | fuel + 1, c, text =>
    let x := c.peek
    if x = endMark then .error .malformed
    else if x = ' ' || x = '\t' || isBreak x then
      match quotedGap fuel c with
      | .error f => .error f
      | .ok (gap, d) => quotedRest double fuel d (text ++ gap)
    else if double then
      if x = '"' then .ok (text, c.advance)
      else if x = '\\' then
        match escape fuel c.advance with
        | .error f => .error f
        | .ok (w, d) => quotedRest double fuel d (text ++ w)
      else quotedRest double fuel c.advance (text ++ [x])
    else if x = '\'' then
      if c.peekAt 1 = '\'' then quotedRest double fuel (c.skip 2) (text ++ [x]) else .ok (text, c.advance)
    else quotedRest double fuel c.advance (text ++ [x])

/-- The text of a scalar between quotes, and the place after it. -/
def quotedScalar (c : Cursor) : Except Fault (List Char × Cursor) :=
  quotedRest (c.peek = '"') (c.rest.length + 1) c.advance []

/-! ## 3. Blocks -/

/-- What becomes of the line ends at the end of a block. -/
inductive Chomping where
  | strip
  | clip
  | keep
  deriving DecidableEq, Repr

/-- The chomping that an indicator asks for. -/
def chompingOf? (c : Char) : Option Chomping := if c = '+' then some .keep else if c = '-' then some .strip else none

/-- The indentation that an indicator asks for. Zero is refused. -/
def indentOf? (c : Char) : Option (Except Fault Nat) :=
  if Text.isDigit c then some (if c = '0' then .error .malformed else .ok (c.toNat - 48)) else none

/-- The indicators behind the mark of a block: chomping and indentation, in either order. -/
def blockIndicators (c : Cursor) : Except Fault (Chomping × Option Nat × Cursor) := do
  let (chomping, width, d) ← match chompingOf? c.peek with
    | some k =>
      match indentOf? c.advance.peek with
      | some n => return (k, some (← n), c.skip 2)
      | none => pure (k, none, c.advance)
    | none =>
      match indentOf? c.peek with
      | some n =>
        let n ← n
        match chompingOf? c.advance.peek with
        | some k => pure (k, some n, c.skip 2)
        | none => pure (.clip, some n, c.advance)
      | none => pure (.clip, none, c)
  return (chomping, width, d)

/-- Empty lines from here on, and the greatest column that their spaces and those after them reach. -/
def blockIndentation : Nat → Cursor → List Char → Nat → List Char × Nat × Cursor
  | 0, c, breaks, width => (breaks, width, c)
  | fuel + 1, c, breaks, width =>
    if c.peek = ' ' then blockIndentation fuel c.advance breaks (max width c.advance.column)
    else if isBreak c.peek then
      let (b, d) := c.lineBreak
      blockIndentation fuel d (breaks ++ b) width
    else (breaks, width, c)

/-- The place after at most as many spaces as reach a column. -/
def skipToColumn : Nat → Nat → Cursor → Cursor
  | 0, _, c => c
  | fuel + 1, column, c => if c.column < column && c.peek = ' ' then skipToColumn fuel column c.advance else c

/-- Empty lines from here on, and the place where the text of the next line starts. -/
def blockBreaks (column : Nat) : Nat → Cursor → List Char → List Char × Cursor
  | 0, c, breaks => (breaks, c)
  | fuel + 1, c, breaks =>
    let d := skipToColumn (fuel + 1) column c
    if isBreak d.peek then
      let (b, e) := d.lineBreak
      blockBreaks column fuel e (breaks ++ b)
    else (breaks, d)

/-- A character that keeps the line end before it. -/
def isIndented (c : Char) : Bool := c = ' ' || c = '\t'

/-- The lines of a block from here on: the text, the line end after the last line, the line ends after that, and the
place after them. -/
def blockLines (isFolded : Bool) (column : Nat) :
    Nat → Cursor → List Char → List Char → List Char → Cursor × List Char × List Char × List Char
  | 0, c, breaks, last, text => (c, text, last, breaks)
  | fuel + 1, c, breaks, last, text =>
    if c.column = column && c.peek ≠ endMark then
      let leading := !isIndented c.peek
      let (line, d) := c.span fun x => !endsLine x
      let (lineEnd, e) := d.lineBreak
      let (more, f) := blockBreaks column (fuel + 1) e []
      let done := text ++ breaks ++ line
      if f.column = column && f.peek ≠ endMark then
        let joint :=
          if isFolded && lineEnd = ['\n'] && leading && !isIndented f.peek then
            if more.isEmpty then [' '] else []
          else lineEnd
        blockLines isFolded column fuel f more lineEnd (done ++ joint)
      else (f, done, lineEnd, more)
    else (c, text, last, breaks)

/-- The text of a block whose surroundings are indented to a column, and the place after it. -/
def blockScalar (indent : Int) (c : Cursor) : Except Fault (List Char × Cursor) := do
  let (chomping, width, d) ← blockIndicators c.advance
  if !isSpaceOrEnd d.peek then throw .malformed
  let e := d.skipComment
  if !endsLine e.peek then throw .malformed
  let f := e.lineBreak.2
  let fuel := c.rest.length + 1
  let least := (max (indent + 1) 1).toNat
  let (breaks, column, g) := match width with
    | none =>
      let (breaks, widest, g) := blockIndentation fuel f [] 0
      (breaks, max least widest, g)
    | some n =>
      let column := least + n - 1
      let (breaks, g) := blockBreaks column fuel f []
      (breaks, column, g)
  let (h, text, last, more) := blockLines (c.peek = '>') column fuel g breaks [] []
  return (text ++ (if chomping = .strip then [] else last) ++ (if chomping = .keep then more else []), h)

/-! ## 4. Plain -/

/-- A plain scalar ends before this character. -/
def endsPlain (flow : Bool) (x next : Char) : Bool :=
  isGap x || (x = ':' && (isGap next || (flow && [',', '[', ']', '\x7b', '\x7d'].contains next))) ||
    (flow && [',', '?', '[', ']', '\x7b', '\x7d'].contains x)

/-- The next characters of a plain scalar on one line. -/
def plainRun (flow : Bool) : List Char → List Char
  | [] => []
  | [x] => if endsPlain flow x endMark then [] else [x]
  | x :: y :: r => if endsPlain flow x y then [] else x :: plainRun flow (y :: r)

/-- The empty lines and spaces after a line end, and the place after them; `none` before a separator of documents. -/
def plainBreaks : Nat → Cursor → List Char → Option (List Char × Cursor) × Cursor
  | 0, c, breaks => (some (breaks, c), c)
  | fuel + 1, c, breaks =>
    if c.peek = ' ' then plainBreaks fuel c.advance breaks
    else if isBreak c.peek then
      let (b, d) := c.lineBreak
      if d.atSeparator then (none, d) else plainBreaks fuel d (breaks ++ b)
    else (some (breaks, c), c)

/-- What stands between two parts of a plain scalar, if anything does; the place after it; and whether a line ended. -/
def plainGap (fuel : Nat) (c : Cursor) : List Char × Cursor × Bool :=
  let (blanks, d) := c.span (· = ' ')
  if isBreak d.peek then
    let (b, e) := d.lineBreak
    if e.atSeparator then ([], e, true)
    else
      match plainBreaks fuel e [] with
      | (none, f) => ([], f, true)
      | (some (more, f), _) => (folded b more, f, true)
  else (blanks, d, false)

/-- A plain scalar from here on: its text, the place after it, and whether a line ended there. Outside of brackets the
scalar ends where a line starts left of a column. -/
def plainRest (flow : Bool) (column : Int) : Nat → Cursor → List Char → List Char → Bool → List Char × Cursor × Bool
  | 0, c, _, text, fresh => (text, c, fresh)
  | fuel + 1, c, gap, text, fresh =>
    if c.peek = '#' then (text, c, fresh)
    else
      let run := plainRun flow c.rest
      if run.isEmpty then (text, c, fresh)
      else
        let (next, d, ended) := plainGap (fuel + 1) (c.skip run.length)
        let done := text ++ gap ++ run
        if next.isEmpty || d.peek = '#' || (!flow && decide ((d.column : Int) < column)) then (done, d, ended)
        else plainRest flow column fuel d next done ended

/-- A plain scalar in surroundings that are indented to a column. -/
def plainScalar (flow : Bool) (indent : Int) (c : Cursor) : List Char × Cursor × Bool :=
  plainRest flow (indent + 1) (c.rest.length + 1) c [] [] false

end ContractShell.Yaml
