import ContractShell.Command.Declaration
import ContractShell.Schema.Basic

/-!
Schemas as arguments of commands: the plain fields in order, those of nested messages in their place.

A field's name is not qualified by the messages around it, so two fields of one name give two arguments of that name.

## Main statements

* `required_of_args`: the arguments of a schema are all required.
-/

namespace ContractShell

/-- The kind of the argument that stands for a plain field. -/
def LeafKind.argKind : LeafKind → Command.Kind
  | .bool => .bool
  | .int => .int
  | .uint => .uint
  | .string => .string
  | .bytes | .bytesHex => .hexBytes
  | .bytesAddress => .base58Bytes

mutual

/-- The plain fields of a schema in order, those of nested messages in their place, as required arguments. -/
def Schema.args : Schema → Except SchemaFault (List Command.Arg)
  | .mk _ fields => argsOf fields

/-- The arguments of a list of fields. -/
def argsOf : List Field → Except SchemaFault (List Command.Arg)
  | [] => .ok []
  | .leaf name kind :: r => (argsOf r).map (⟨name, kind.argKind, false⟩ :: ·)
  | .message _ schema :: r =>
    match schema.args with
    | .error fault => .error fault
    | .ok args => (argsOf r).map (args ++ ·)
  | .unknown name :: _ => .error (.noSchema name)

end

/-- The arguments of a list of fields are all required. -/
theorem required_of_argsOf {fields : List Field} {args : List Command.Arg} (h : argsOf fields = .ok args) :
    ∀ a ∈ args, a.optional = false := by
  refine argsOf.induct (motive_1 := fun s => ∀ as, s.args = .ok as → ∀ a ∈ as, a.optional = false)
    (motive_2 := fun fs => ∀ as, argsOf fs = .ok as → ∀ a ∈ as, a.optional = false) ?_ ?_ ?_ ?_ ?_ ?_ fields args h
  · intro _ fs ih as h
    rw [Schema.args] at h
    exact ih as h
  · intro as h
    rw [argsOf] at h
    cases h
    simp
  · intro name kind r ih as h
    rw [argsOf] at h
    cases hr : argsOf r with
    | error f => rw [hr] at h; cases h
    | ok rest =>
      rw [hr] at h
      cases h
      intro a ha
      rcases List.mem_cons.mp ha with rfl | ha
      · rfl
      · exact ih _ hr a ha
  · intro name schema r f hf _ as h
    rw [argsOf, hf] at h
    cases h
  · intro name schema r inner hi ih1 ih2 as h
    rw [argsOf, hi] at h
    cases hr : argsOf r with
    | error f => rw [hr] at h; cases h
    | ok rest =>
      rw [hr] at h
      cases h
      intro a ha
      rcases List.mem_append.mp ha with ha | ha
      · exact ih1 _ hi a ha
      · exact ih2 _ hr a ha
  · intro name r as h
    rw [argsOf] at h
    cases h

/-- The arguments of a schema are all required. -/
theorem required_of_args {schema : Schema} {args : List Command.Arg} (h : schema.args = .ok args) :
    ∀ a ∈ args, a.optional = false := by
  cases schema with
  | mk name fields =>
    rw [Schema.args] at h
    exact required_of_argsOf h

end ContractShell
