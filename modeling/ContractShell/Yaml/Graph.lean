import ContractShell.Yaml.Lexer
import ContractShell.Yaml.Node

/-!
From tokens to the nodes of a document: scalars, sequences and mappings with their tags.

Nodes get their numbers in the order in which they start, so a name refers to its node also inside of that node.
-/

namespace ContractShell.Yaml

/-- The tokens to come and the fault behind them, the nodes so far, the nodes that have names, and what the handles of
tags stand for. -/
structure Reader where
  tokens : List Token
  fault : Option Fault
  nodes : Nodes
  anchors : List (String × Nat)
  handles : List (String × String)

/-- Steps that take tokens and can fail. -/
abbrev Reading := StateT Reader (Except Fault)

namespace Reader

/-! ## 1. Tokens -/

/-- The text is malformed. -/
def refuse {α : Type} : Reading α := throw .malformed

/-- The next token. Behind the last one is the end of the text, or the fault that was met there. -/
def peek : Reading Token := do
  let r ← get
  match r.tokens, r.fault with
  | t :: _, _ => return t
  | [], some f => throw f
  | [], none => return .streamEnd

/-- Leaves the next token behind. -/
def drop : Reading Unit := modify fun r => { r with tokens := r.tokens.drop 1 }

/-- Leaves the next token behind if it is a given one. -/
def dropIf (t : Token) : Reading Bool := do
  if (← peek) = t then
    drop
    return true
  else return false

/-! ## 2. Nodes and names -/

/-- A reader with one more node. -/
def push (n : Node) (r : Reader) : Reader := { r with nodes := r.nodes.push n }

/-- Adds a node, and gives it its name if there is one. A name is given to one node only. -/
def add (name : Option String) (n : Node) : Reading Nat := do
  let r ← get
  let number := r.nodes.size
  match name with
  | none => set (r.push n)
  | some name =>
    if r.anchors.any (·.1 == name) then refuse
    else set { r.push n with anchors := (name, number) :: r.anchors }
  return number

/-- Adds the node that is left out. -/
def addEmpty : Reading Nat := add none .empty

/-- Says what a node holds. -/
def fill (number : Nat) (content : Content) : Reading Unit :=
  modify fun r => { r with nodes := r.nodes.setContent number content }

/-- The node that a name refers to. -/
def named (name : String) : Reading Nat := do
  match (← get).anchors.find? (·.1 == name) with
  | some (_, number) => return number
  | none => refuse

/-! ## 3. Properties -/

/-- The handles that every document can use. -/
def standardHandles : List (String × String) := [("!", "!"), ("!!", Tag.common)]

/-- A tag as it is written: a handle and what follows it. -/
abbrev WrittenTag := Option String × String

/-- What a tag's handle and the rest of it stand for. -/
def tagText (t : WrittenTag) : Reading String := do
  match t.1 with
  | none => return t.2
  | some h =>
    match (← get).handles.find? (·.1 == h) with
    | some (_, start) => return start ++ t.2
    | none => refuse

/-- The properties of a node: its name, and the text of its tag. -/
structure Properties where
  anchor : Option String
  tag : Option String

/-- The name of a node, if one is given here. -/
def readAnchor : Reading (Option String) := do
  match ← peek with
  | .anchor name =>
    drop
    return some name
  | _ => return none

/-- The tag of a node, if one is given here. -/
def readTag : Reading (Option WrittenTag) := do
  match ← peek with
  | .tag handle suffix =>
    drop
    return some (handle, suffix)
  | _ => return none

/-- The properties of a node, in either order. -/
def readProperties : Reading Properties := do
  let (anchor, tag) ← match ← readAnchor with
    | some name => do pure (some name, ← readTag)
    | none => do
      match ← readTag with
      | some t => pure (← readAnchor, some t)
      | none => pure (none, none)
  match tag with
  | some t => return ⟨anchor, some (← tagText t)⟩
  | none => return ⟨anchor, none⟩

/-- A tag that leaves the meaning to the node. -/
def Properties.isOpen (p : Properties) : Bool := p.tag.isNone || p.tag == some "!"

/-- The tag of a scalar. -/
def Properties.scalarTag (p : Properties) (text : String) (plain : Bool) : Tag :=
  match p.tag with
  | none => if plain then Tag.implied text else .text
  | some "!" => Tag.implied text
  | some t => Tag.ofText t

/-- The tag of a node that holds others. -/
def Properties.tagOr (p : Properties) (default : Tag) : Tag :=
  if p.isOpen then default else Tag.ofText (p.tag.getD "")

/-! ## 4. Parts of nodes -/

/-- A node that is there: a scalar with a text. -/
def addScalar (p : Properties) (text : String) (plain : Bool) : Reading Nat :=
  add p.anchor (.scalar (p.scalarTag text plain) text)

/-- A node of which only the properties are there. -/
def addLeftOut (p : Properties) : Reading Nat :=
  if p.anchor.isSome || p.tag.isSome then addScalar p "" true else refuse

/-- A sequence, whose items are read behind its first token. -/
def readSequence (p : Properties) (items : Reading (List Nat)) : Reading Nat := do
  let number ← add p.anchor ⟨p.tagOr .sequence, .sequence []⟩
  fill number (.sequence (← items))
  return number

/-- A mapping, whose pairs are read behind its first token. -/
def readMapping (p : Properties) (pairs : Reading (List (Nat × Nat))) : Reading Nat := do
  let number ← add p.anchor ⟨p.tagOr .mapping, .mapping []⟩
  fill number (.mapping (← pairs))
  return number

/-- A node that is left out before one of some tokens, and read otherwise. -/
def readUnless (ends : List Token) (read : Reading Nat) : Reading Nat := do
  if ends.contains (← peek) then addEmpty else read

/-- The value behind a colon, if there is a colon. -/
def readValue (ends : List Token) (read : Reading Nat) : Reading Nat := do
  if ← dropIf .value then readUnless ends read else addEmpty

/-- What is read behind the next token. -/
def behind {α : Type} (read : Reading α) : Reading α := do
  drop
  read

/-- What follows an item between brackets: more items behind a comma, or the closing bracket. -/
def readMore {α : Type} (closing : Token) (more : Reading (List α)) : Reading (List α) := do
  if ← dropIf .flowEntry then more
  else if ← dropIf closing then return []
  else refuse

/-- Where a node stands, which decides what can stand there. -/
inductive Place where
  /-- Between brackets. -/
  | flow
  | block
  /-- In a block mapping, where a sequence needs no further indentation. -/
  | pair
  deriving DecidableEq, Repr

/-- The tokens before which a key or a value of a block mapping is left out. -/
def pairEnds : List Token := [.key, .value, .blockEnd]

/-! ## 5. Nodes -/

mutual

/-- A node. -/
def readNode : Nat → Place → Reading Nat
  | 0, _ => refuse
  | fuel + 1, place => do
    match ← peek with
    | .reference name =>
      drop
      named name
    | _ =>
      let p ← readProperties
      match ← peek, place with
      | .scalar text plain, _ =>
        drop
        addScalar p text plain
      | .flowSequenceStart, _ => readSequence p (behind (readFlowItems fuel))
      | .flowMappingStart, _ => readMapping p (behind (readFlowPairs fuel))
      | .blockSequenceStart, .block | .blockSequenceStart, .pair => readSequence p (behind (readBlockItems fuel))
      | .blockMappingStart, .block | .blockMappingStart, .pair => readMapping p (behind (readBlockPairs fuel))
      | .blockEntry, .pair => readSequence p (readOpenItems fuel)
      | _, _ => addLeftOut p

/-- The items of a block sequence. -/
def readBlockItems : Nat → Reading (List Nat)
  | 0 => refuse
  | fuel + 1 => do
    match ← peek with
    | .blockEntry =>
      drop
      let item ← readUnless [.blockEntry, .blockEnd] (readNode fuel .block)
      return item :: (← readBlockItems fuel)
    | .blockEnd =>
      drop
      return []
    | _ => refuse

/-- The items of a sequence that is not indented further than the mapping around it. -/
def readOpenItems : Nat → Reading (List Nat)
  | 0 => refuse
  | fuel + 1 => do
    if ← dropIf .blockEntry then
      let item ← readUnless (.blockEntry :: pairEnds) (readNode fuel .block)
      return item :: (← readOpenItems fuel)
    else return []

/-- The pairs of a block mapping. -/
def readBlockPairs : Nat → Reading (List (Nat × Nat))
  | 0 => refuse
  | fuel + 1 => do
    match ← peek with
    | .key =>
      drop
      let key ← readUnless pairEnds (readNode fuel .pair)
      let value ← readValue pairEnds (readNode fuel .pair)
      return (key, value) :: (← readBlockPairs fuel)
    | .blockEnd =>
      drop
      return []
    | _ => refuse

/-- The items of a sequence behind its bracket or a comma. A key makes an item a mapping of one pair. -/
def readFlowItems : Nat → Reading (List Nat)
  | 0 => refuse
  | fuel + 1 => do
    let ends := [Token.flowEntry, .flowSequenceEnd]
    match ← peek with
    | .flowSequenceEnd =>
      drop
      return []
    | .key =>
      drop
      let number ← add none ⟨.mapping, .mapping []⟩
      let key ← readUnless (.value :: ends) (readNode fuel .flow)
      let value ← readValue ends (readNode fuel .flow)
      fill number (.mapping [(key, value)])
      return number :: (← readMore .flowSequenceEnd (readFlowItems fuel))
    | _ =>
      let item ← readNode fuel .flow
      return item :: (← readMore .flowSequenceEnd (readFlowItems fuel))

/-- The pairs of a mapping behind its bracket or a comma. -/
def readFlowPairs : Nat → Reading (List (Nat × Nat))
  | 0 => refuse
  | fuel + 1 => do
    let ends := [Token.flowEntry, .flowMappingEnd]
    match ← peek with
    | .flowMappingEnd =>
      drop
      return []
    | .key =>
      drop
      let key ← readUnless (.value :: ends) (readNode fuel .flow)
      let value ← readValue ends (readNode fuel .flow)
      return (key, value) :: (← readMore .flowMappingEnd (readFlowPairs fuel))
    | _ =>
      let key ← readNode fuel .flow
      let value ← addEmpty
      return (key, value) :: (← readMore .flowMappingEnd (readFlowPairs fuel))

end

/-! ## 6. Documents -/

/-- The handles that directives declare, behind those that were declared before; each once, and one version at most. -/
def readDirectives : Nat → Bool → List (String × String) → Reading (List (String × String))
  | 0, _, _ => refuse
  | fuel + 1, versioned, handles => do
    match ← peek with
    | .directive d =>
      drop
      match d with
      | .version major =>
        if versioned || major ≠ 1 then refuse else readDirectives fuel true handles
      | .handle name start =>
        if handles.any (·.1 == name) then refuse else readDirectives fuel versioned (handles ++ [(name, start)])
      | .other => readDirectives fuel versioned handles
    | _ => return handles

/-- A token that no content starts with. -/
def isOutside : Token → Bool
  | .directive _ | .documentStart | .documentEnd | .streamEnd => true
  | _ => false

/-- The node of a document that starts with directives or a separator. -/
def readMarked (fuel : Nat) : Reading Nat := do
  let handles ← readDirectives fuel false []
  modify fun r => { r with handles := handles ++ standardHandles }
  if ← dropIf .documentStart then
    if isOutside (← peek) then addEmpty else readNode fuel .block
  else refuse

/-- The node of a document, if there is one. -/
def readDocument (fuel : Nat) : Reading (Option Nat) := do
  match ← peek with
  | .streamEnd => return none
  | .directive _ | .documentStart => return some (← readMarked fuel)
  | _ => return some (← readNode fuel .block)

/-- Nothing but the ends of documents may follow. -/
def finish (fuel : Nat) : Reading Unit := do
  modify fun r => { r with tokens := r.tokens.dropWhile (· == .documentEnd) }
  if (← peek) = .streamEnd then return ()
  else
    let _ ← readDirectives fuel false []
    refuse

end Reader

/-- The graph of a text that holds one document, or none if it holds nothing. -/
def Graph.ofText (text : String) : Except Fault (Option Graph) := do
  let s := TokenStream.ofText text
  let fuel := 3 * s.tokens.length + 3
  let read : Reading (Option Nat) := do
    let root ← Reader.readDocument fuel
    Reader.finish fuel
    return root
  let (root, r) ← read.run ⟨s.tokens, s.fault, #[], [], Reader.standardHandles⟩
  return root.map fun root => ⟨r.nodes, root⟩

end ContractShell.Yaml
