import ContractShell.Wire.Layout

/-!
Features: how the fields of a definition are kept and written, as far as definitions can choose it.

Each dialect and edition starts from features of its own. A definition changes some of them for itself and for what is
inside it.
-/

namespace ContractShell.Descriptor

/-! ## 1. Features -/

/-- Whether a field tells that it was given. -/
inductive Presence where
  | explicit
  | implicit
  | required
  deriving DecidableEq, Repr

/-- The features that hold for a definition. -/
structure Features where
  presence : Presence
  /-- An enumeration has no values besides those that it names. -/
  closed : Bool
  /-- Text must be UTF-8. -/
  checksText : Bool
  /-- Nested messages are written as groups. -/
  delimited : Bool
  /-- The name of a field in documents may not be the name of another field. -/
  separatesNames : Bool
  deriving DecidableEq, Repr

namespace Features

/-- The features of the second dialect. -/
def second : Features := ⟨.explicit, true, false, false, false⟩

/-- The features of the third dialect. -/
def third : Features := ⟨.implicit, false, true, false, true⟩

/-- The features of the editions that are no dialects. -/
def modern : Features := ⟨.explicit, false, true, false, true⟩

/-- The features that an edition starts from. -/
def ofEdition? : Nat → Option Features
  | 998 => some second
  | 999 => some third
  | 1000 | 1001 => some modern
  | _ => none

/-! ## 2. Choices -/

/-- The presence of a number. Zero leaves it open, which counts as explicit. -/
def presence? : Nat → Option Presence
  | 0 | 1 => some .explicit
  | 2 => some .implicit
  | 3 => some .required
  | _ => none

/-- Whether enumerations are closed, by number. -/
def closed? : Nat → Option Bool
  | 0 | 1 => some false
  | 2 => some true
  | _ => none

/-- Whether text is checked, by number. -/
def checksText? : Nat → Option Bool
  | 0 | 3 => some false
  | 2 => some true
  | _ => none

/-- Whether nested messages are groups, by number. -/
def delimited? : Nat → Option Bool
  | 0 | 1 => some false
  | 2 => some true
  | _ => none

/-- Whether names in documents are kept apart, by number. -/
def separatesNames? : Nat → Option Bool
  | 0 | 2 => some false
  | 1 => some true
  | _ => none

/-- The features after the choices in a byte string. Numbers that stand for no choice mean nothing. -/
def change (f : Features) (choices : Bytes) : Features :=
  let items := Wire.itemsOf choices
  { presence := (Wire.choice? presence? 1 items).getD f.presence
    closed := (Wire.choice? closed? 2 items).getD f.closed
    checksText := (Wire.choice? checksText? 4 items).getD f.checksText
    delimited := (Wire.choice? delimited? 5 items).getD f.delimited
    separatesNames := (Wire.choice? separatesNames? 6 items).getD f.separatesNames }

/-- The choices in a part of options. -/
def choices? (part : Nat) (options : Option Bytes) : Option Bytes :=
  options.bind fun b => Wire.joinedPayload? part (Wire.itemsOf b)

/-- The features after the choices in a part of options, if there are any. -/
def within (f : Features) (part : Nat) (options : Option Bytes) : Features :=
  match choices? part options with
  | none => f
  | some b => f.change b

end Features

end ContractShell.Descriptor
