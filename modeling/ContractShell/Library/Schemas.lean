import ContractShell.Library.Basic
import ContractShell.Schema.Basic

/-!
The schemas of a library's message types.

A message type has a schema when its fields, and those of the messages in it, occur once each and are of a supported
type, and no message contains itself. Schemas that were found are remembered.

## Main statements

* `unread_lt`: a message inside a message leaves fewer types to look into, so deriving a schema ends.
-/

namespace ContractShell

namespace Library

/-! ## 1. Fields -/

/-- What the schema needs to know of a field. -/
inductive Plan where
  | leaf (kind : LeafKind)
  /-- A message, by the name that the field gives to its type. -/
  | message (typeName : String)

/-- The plan for a field. -/
def planOf (f : Descriptor.Field) : Except SchemaFault Plan :=
  if f.effectiveLabel = .repeated then .error (.repeated f.effectiveType)
  else
    match f.effectiveType with
    | .bool => .ok (.leaf .bool)
    | .int32 | .int64 => .ok (.leaf .int)
    | .uint32 | .uint64 => .ok (.leaf .uint)
    | .string => .ok (.leaf .string)
    | .bytes => .ok (.leaf (.ofHint (BytesHint.ofOptions? (f.options.getD []))))
    | .message => .ok (.message (f.typeName.getD ""))
    | type => .error (.unsupported type)

/-- The full name of a message type that a field of the type `scope` refers to: a relative name belongs to the innermost
scope in which a type of that name is declared. -/
def resolve (lib : Library) (scope typeName : String) : String :=
  match typeName.toList with
  | '.' :: full => String.ofList full
  | _ =>
    (((Descriptor.scopesOf scope).map fun s => Descriptor.qualify s typeName).find? fun name =>
      (lib.declared? name).isSome).getD typeName

/-! ## 2. Schemas -/

/-- Schemas that were found, by full name. -/
abbrev Memo := List (String × Schema)

/-- The schema that is remembered for a name. -/
def Memo.find? (memo : Memo) (name : String) : Option Schema := (List.find? (·.1 == name) memo).map (·.2)

/-- The types that are not yet on a trail. -/
def unread (lib : Library) (trail : List String) : Nat :=
  (lib.messages.filter fun m => !trail.contains m.1).length

/-- A message inside a message leaves fewer types to look into. -/
theorem unread_lt {lib : Library} {trail : List String} {name : String} {m : Descriptor.Message}
    (hm : lib.declared? name = some m) (ht : ¬ trail.contains name = true) :
    lib.unread (name :: trail) < lib.unread trail := by
  obtain ⟨p, hp, _⟩ := Option.map_eq_some_iff.mp hm
  have hmem : p ∈ lib.messages := List.mem_of_find?_eq_some hp
  have hn : p.1 = name := by simpa using List.find?_some hp
  unfold unread
  have hsub : (lib.messages.filter fun q => !(name :: trail).contains q.1) =
      (lib.messages.filter fun q => !trail.contains q.1).filter fun q => q.1 != name := by
    rw [List.filter_filter]
    congr 1
    funext q
    simp only [List.contains_cons, Bool.not_or, bne]
  rw [hsub]
  apply List.length_filter_lt_length_iff_exists.mpr
  exact ⟨p, by simp [List.mem_filter, hmem, hn]; simpa using ht, by simp [hn]⟩

mutual

/-- The schema of a full name, and what is remembered then. The trail holds the types around this one. -/
def derive (lib : Library) (trail : List String) (memo : Memo) (name : String) : Except SchemaFault Schema × Memo :=
  match memo.find? name with
  | some schema => (.ok schema, memo)
  | none =>
    match hm : lib.declared? name with
    | none => (.error (.unknownType name), memo)
    | some m =>
      if ht : trail.contains name = true then (.error (.recursive name), memo)
      else
        have := unread_lt hm ht
        match deriveFields lib (name :: trail) memo name m.fields with
        | (.error fault, memo) => (.error fault, memo)
        | (.ok fields, memo) => (.ok (.mk name fields), (name, .mk name fields) :: memo)
termination_by (lib.unread trail, 0)

/-- The fields of the type `scope`, and what is remembered then. -/
def deriveFields (lib : Library) (trail : List String) (memo : Memo) (scope : String)
    (fields : List Descriptor.Field) : Except SchemaFault (List Field) × Memo :=
  match fields with
  | [] => (.ok [], memo)
  | f :: r =>
    match planOf f with
    | .error fault => (.error fault, memo)
    | .ok (.leaf kind) =>
      match deriveFields lib trail memo scope r with
      | (.error fault, memo) => (.error fault, memo)
      | (.ok rest, memo) => (.ok (.leaf f.name kind :: rest), memo)
    | .ok (.message typeName) =>
      match derive lib trail memo (lib.resolve scope typeName) with
      | (.error fault, memo) => (.error fault, memo)
      | (.ok schema, memo) =>
        match deriveFields lib trail memo scope r with
        | (.error fault, memo) => (.error fault, memo)
        | (.ok rest, memo) => (.ok (.message f.name schema :: rest), memo)
termination_by (lib.unread trail, fields.length + 1)

end

/-- The schema of a name, which may start with points, and what is remembered then. The empty name has no fields. -/
def schemaFrom (lib : Library) (memo : Memo) (name : String) : Except SchemaFault Schema × Memo :=
  if name.isEmpty then (.ok .empty, memo) else lib.derive [] memo (bareName name)

/-- The schema of a name, with nothing remembered. -/
def schema (lib : Library) (name : String) : Except SchemaFault Schema := (lib.schemaFrom [] name).1

end Library

end ContractShell
