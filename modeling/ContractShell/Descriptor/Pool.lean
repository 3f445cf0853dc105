import ContractShell.Descriptor.Check
import ContractShell.Descriptor.Default

/-!
Pools of linked definitions.

A file is linked into a pool when its definitions keep their rules, declare no name twice, and refer only to definitions
of the right sort. A relative name is looked up in the scope where it stands, then in the scopes around it; a definition
of another sort than the one that is looked for does not hide those further out.

## Main statements

* `Symbols.find?_append`: names that were there hide those that are added.
* `find?_link`: linking a file keeps the definitions that were there.
-/

namespace ContractShell.Descriptor

/-! ## 1. Symbols -/

/-- What a full name stands for. -/
inductive Symbol where
  /-- A message type, which may be an entry of a map. -/
  | message (isEntry : Bool)
  | enum (values : List (String × Int))
  | other
  deriving DecidableEq, Repr

/-- Full names and what they stand for. -/
abbrev Symbols := List (String × Symbol)

/-- The symbol is a message type. -/
def Symbol.isMessage : Symbol → Bool
  | .message _ => true
  | _ => false

/-- The symbol is an enumeration. -/
def Symbol.isEnum : Symbol → Bool
  | .enum _ => true
  | _ => false

/-- What a full name stands for. -/
def Symbols.find? (s : Symbols) (name : String) : Option Symbol := (List.find? (·.1 == name) s).map (·.2)

/-- What stands earlier is found first. -/
theorem Symbols.find?_append (s t : Symbols) (name : String) :
    Symbols.find? (s ++ t) name = (s.find? name).or (t.find? name) := by
  rw [find?, List.find?_append, Option.map_or]
  rfl

/-- The names that a file declares. -/
def File.symbols (f : File) : Symbols :=
  f.allMessages.map (fun m => (m.1, .message m.2.isMapEntry)) ++
    f.allEnums.flatMap (fun (scope, _, e) =>
      (qualify scope e.name, .enum e.numbers) :: e.values.map fun v => (qualify scope v.name, .other)) ++
    f.allExtensions.map (fun (scope, _, x) => (qualify scope x.name, .other)) ++
    f.services.map fun s => (qualify f.package s.name, .other)

/-- The scopes in which a relative name is looked up: the innermost first, at last none. -/
def scopesFrom : List (List Char) → List (List (List Char))
  | [] => [[]]
  | parts@(_ :: r) => parts.reverse :: scopesFrom r

/-- The scopes around a place, from the full name of the place to no scope. -/
def scopesOf (place : String) : List String :=
  if place.isEmpty then [""]
  else (scopesFrom (Text.split '.' place.toList).reverse).map fun parts =>
    String.ofList (List.intercalate ['.'] parts)

/-- The full name and the meaning of a name that stands at a place, of a wanted sort. -/
def Symbols.resolve? (s : Symbols) (wanted : Symbol → Bool) (place name : String) : Option (String × Symbol) :=
  let lookUp (full : String) : Option (String × Symbol) := ((s.find? full).filter wanted).map (full, ·)
  match name.toList with
  | [] => none
  | '.' :: full => lookUp (String.ofList full)
  | _ => (scopesOf place).findSome? fun scope => lookUp (qualify scope name)

/-! ## 2. Linked messages -/

/-- A field whose references are resolved. -/
structure Slot where
  name : String
  number : Nat
  type : FieldType
  /-- The full name of the message or enumeration that the type refers to. -/
  target : String
  repeated : Bool
  /-- The message is not written without the field. -/
  required : Bool
  /-- The field tells whether it was given. -/
  hasPresence : Bool
  oneof : Option Nat
  /-- Text must be UTF-8. -/
  checksText : Bool
  default : Default
  deriving Repr

/-- A linked message type. -/
structure Linked where
  name : String
  slots : List Slot
  extensionRanges : List ExtensionRange
  /-- The message holds extensions alone, each in a group of its own. -/
  isContainer : Bool
  deriving Repr

/-- The slot of a field. -/
def Linked.slot? (m : Linked) (field : String) : Option Slot := m.slots.find? (·.name == field)

/-- Linked definitions: the names, the message types, and the extensions with the messages that they belong to. -/
structure Pool where
  symbols : Symbols
  messages : List Linked
  extensions : List (String × Slot)
  deriving Repr

namespace Pool

/-- The pool without definitions. -/
def empty : Pool := ⟨[], [], []⟩

/-- The message type of a full name. -/
def find? (p : Pool) (name : String) : Option Linked := p.messages.find? (·.name == name)

/-! ## 3. Linking -/

/-- The type of a field, the full name that it refers to, and what that stands for. -/
def target? (s : Symbols) (place : String) (f : Field) : Option (FieldType × String × Symbol) :=
  match f.type, f.typeName with
  | none, none => some (.double, "", .other)
  | none, some n =>
    match s.resolve? (fun _ => true) place n with
    | some (full, .message isEntry) => some (.message, full, .message isEntry)
    | some (full, .enum values) => some (.enum, full, .enum values)
    | _ => none
  | some t, none => if t.isNamed then none else some (t, "", .other)
  | some t, some n =>
    if t.isNamed then (s.resolve? (if t = .enum then Symbol.isEnum else Symbol.isMessage) place n).map (t, ·) else none

/-- The value that a field has when none is given. -/
def defaultOf? (third : Bool) (type : FieldType) (target : Symbol) (f : Field) : Option Default :=
  match f.default, target with
  | none, .enum ((_, first) :: _) => some (.number first)
  | none, _ => some .zero
  | some text, .enum values => if third then none else Default.read? type values text
  | some text, _ => if third then none else Default.read? type [] text

/-- The slot of a field that stands at a place. `inEntry` says that its message is an entry of a map; neither entries nor
what is in them are groups. -/
def slot? (s : Symbols) (third : Bool) (features : Features) (inEntry : Bool) (place : String) (f : Field) :
    Option Slot := do
  let (type, name, target) ← target? s place f
  let default ← defaultOf? third type target f
  let repeated := f.effectiveLabel == .repeated
  let isGroup := type == .message && features.delimited && target == .message false && !inEntry
  return {
    name := f.name
    number := f.number.toNat
    type := if isGroup then .group else type
    target := name
    repeated
    required := f.finalLabel features == .required
    hasPresence := !repeated && (type.isMessage || f.oneofIndex.isSome || features.presence != .implicit)
    oneof := f.oneofIndex.map Int.toNat
    checksText := features.checksText
    default }

/-- A message type of a full name with its references resolved. -/
def linked? (s : Symbols) (third chosen : Bool) (m : String × Features × Message) : Option Linked := do
  let (name, features, message) := m
  let slots ← message.fields.mapM fun f =>
    slot? s third (message.featuresOf chosen features f) message.isMapEntry name f
  return ⟨name, slots, message.extensionRanges, message.isContainer⟩

/-- The message that an extension belongs to, and its slot. Its number must be in one of the ranges for extensions; what
extends a container is a message that occurs once. -/
def extension? (s : Symbols) (messages : List Linked) (third chosen : Bool) (x : String × Features × Field) :
    Option (String × Slot) := do
  let (place, features, f) := x
  let slot ← slot? s third (f.features chosen features) false place f
  let name ← f.extendee
  let (full, _) ← s.resolve? Symbol.isMessage place name
  let m ← messages.find? (·.name == full)
  let isInRange := m.extensionRanges.any fun r => decide (r.start ≤ f.number) && decide (f.number < r.stop)
  if isInRange && (!m.isContainer || (slot.type.isMessage && !slot.repeated)) then some (full, slot) else none

/-- The messages of a procedure can be found. -/
def procedureFits (s : Symbols) (place : String) (p : Procedure) : Bool :=
  [p.input, p.output].all fun name => (s.resolve? Symbol.isMessage (qualify place p.name) name).isSome

/-- Pairs occur once in a list at most. -/
def arePairsDistinct : List (String × Nat) → Bool
  | [] => true
  | p :: r => !r.contains p && arePairsDistinct r

/-- Names are new to a pool and differ from each other. -/
def areNew (p : Pool) (declared : Symbols) : Bool :=
  areDistinct (declared.map (·.1)) && declared.all fun d => (p.symbols.find? d.1).isNone

/-- The pool with the definitions of a file, if they fit. -/
def link? (p : Pool) (f : File) : Option Pool := do
  let declared := f.symbols
  if f.isSound && p.areNew declared then
    let symbols := p.symbols ++ declared
    let added ← f.featuredMessages.mapM (linked? symbols f.isThird f.hasEdition)
    let messages := p.messages ++ added
    let extensions := p.extensions ++ (← f.allExtensions.mapM (extension? symbols messages f.isThird f.hasEdition))
    if arePairsDistinct (extensions.map fun x => (x.1, x.2.number)) &&
        f.services.all (fun s => s.procedures.all (procedureFits symbols (qualify f.package s.name)))
    then some ⟨symbols, messages, extensions⟩
    else none
  else none

/-- Linking a file keeps the definitions that were there. -/
theorem find?_link {p q : Pool} {f : File} (h : p.link? f = some q) {name : String} {m : Linked}
    (hm : p.find? name = some m) : q.find? name = some m := by
  simp only [link?, Option.bind_eq_bind] at h
  split at h
  · simp only [Option.bind_eq_some_iff] at h
    obtain ⟨added, _, extensions, _, h⟩ := h
    split at h
    · cases h
      simp only [find?] at hm
      simp [find?, List.find?_append, hm]
    · cases h
  · cases h

/-! ## 4. Layouts -/

/-- What the content of a slot has to be. -/
def shapeOf? (s : Slot) : Option Wire.Shape :=
  match s.type with
  | .message => some (.message s.target)
  | .group => some (.group s.target)
  | .string => if s.checksText then some .text else none
  | t => if s.repeated && t.isVarint then some .packed else none

/-- The slots of a message type's fields, and those of its extensions that have no field's number. -/
def slotsOf (p : Pool) (m : Linked) : List Slot :=
  m.slots ++ ((p.extensions.filter (·.1 == m.name)).map (·.2)).filter fun x => m.slots.all (·.number != x.number)

/-- The layouts of the message types, extensions included. -/
def layouts (p : Pool) : Wire.Layouts :=
  p.messages.map fun m =>
    (m.name, ⟨(slotsOf p m).filterMap fun s => (shapeOf? s).map (s.number, ·), m.isContainer⟩)

end Pool

end ContractShell.Descriptor
