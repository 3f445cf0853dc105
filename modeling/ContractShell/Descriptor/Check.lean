import ContractShell.Descriptor.Features
import ContractShell.Descriptor.OptionSite
import ContractShell.Text.Digit
import ContractShell.Text.Split
import ContractShell.Wire.Layout

/-!
The rules that definitions keep by themselves, before any name is looked up.

## Main statements

* `isIdentifier_ne_empty`: an identifier is not empty.
-/

namespace ContractShell.Descriptor

/-! ## 1. Names -/

/-- A letter or an underscore. -/
def isLetter (c : Char) : Bool :=
  let n := c.toNat
  (97 ≤ n && n ≤ 122) || (65 ≤ n && n ≤ 90) || n == 95

/-- A letter, and after it letters and figures. -/
def isIdentifierText : List Char → Bool
  | [] => false
  | c :: r => isLetter c && r.all fun d => isLetter d || Text.isDigit d

/-- The name of one definition. -/
def isIdentifier (s : String) : Bool := isIdentifierText s.toList

/-- An identifier is not empty. -/
theorem isIdentifier_ne_empty {s : String} (h : isIdentifier s = true) : s.toList ≠ [] := by
  intro hs
  simp [isIdentifier, isIdentifierText, hs] at h

/-- Identifiers with points between them. -/
def isPackage (s : String) : Bool := s.isEmpty || (Text.split '.' s.toList).all isIdentifierText

/-- A name inside a scope. -/
def qualify (scope name : String) : String := if scope.isEmpty then name else scope ++ "." ++ name

/-- The last part of a full name. -/
def shortName (name : String) : String := (Text.splitString '.' name).getLastD ""

/-! ## 2. Fields -/

/-- The greatest number of a field. -/
def maxFieldNumber : Int := 0x1FFFFFFF

/-- Whether a definition is named fits the type. -/
def typeFits (f : Field) : Bool :=
  match f.type with
  | some t => t.isNamed == f.typeName.isSome
  | none => true

/-- The features of a field. Where definitions choose no features, they follow from how the field is declared. -/
def Field.features (chosen : Bool) (outer : Features) (f : Field) : Features :=
  if !chosen && f.isInferred then
    { outer with
      presence := if f.label == some .required then .required else outer.presence
      delimited := if f.type == some .group then true else outer.delimited }
  else outer.within Definition.field.featurePart f.options

/-- The label that features leave: an optional field can turn into a required one. -/
def Field.finalLabel (f : Field) (features : Features) : Label :=
  if f.effectiveLabel == .optional && features.presence == .required then .required else f.effectiveLabel

/-- What holds for fields and extensions alike. -/
def isSound (third : Bool) (f : Field) : Bool :=
  isIdentifier f.name && typeFits f && !(third && f.effectiveLabel == .required)

/-- The place of a field among the oneofs of its message. -/
def oneofFits (count : Nat) (label : Label) (f : Field) : Bool :=
  match f.oneofIndex with
  | none => !f.ownOneof
  | some i => label == .optional && decide (0 ≤ i) && decide (i < count)

/-- The letters of a name without underscores, each after an underscore in upper case. -/
def camelCase : Bool → List Char → List Char
  | _, [] => []
  | upper, c :: r => if c = '_' then camelCase true r else (if upper then c.toUpper else c) :: camelCase false r

/-- The name of a field in documents. A given one ends before its first zero character. -/
def Field.documentName (f : Field) : String :=
  match f.jsonName with
  | some name => String.ofList (name.toList.takeWhile (·.toNat ≠ 0))
  | none => String.ofList (camelCase false f.name.toList)

/-- The flag of a part of options. -/
def optionFlag (number : Nat) (options : Option Bytes) : Bool :=
  (((Wire.numbers number (Wire.itemsOf (options.getD []))).getLast?).map (· != 0)).getD false

/-- The message is an entry of a map. -/
def Message.isMapEntry (m : Message) : Bool := optionFlag 7 m.options

/-- The message is a container of extensions without fields of its own. -/
def Message.isContainer (m : Message) : Bool := optionFlag 1 m.options

/-- Clashes between document names are allowed. -/
def Message.allowsNameClashes (m : Message) : Bool := optionFlag 11 m.options

/-- No two fields, and no field and oneof, clash in their names, numbers or document names. The lists hold what came
before: the names, the document names and the numbers. -/
def noClashes (separate lenient : Bool) : List String → List String → List Int → List Field → Bool
  | _, _, _, [] => true
  | names, documents, numbers, f :: r =>
    let document := f.documentName
    let isNewName := !names.contains f.name
    let isNewDocument := lenient || (!documents.contains document &&
      !(separate && document != f.name && (f.name :: names).contains document))
    let isNewNumber := decide (1 ≤ f.number) && decide (f.number ≤ maxFieldNumber) && !numbers.contains f.number
    isNewName && isNewDocument && isNewNumber &&
      noClashes separate lenient (f.name :: names) (document :: documents) (f.number :: numbers) r

/-! ## 3. Messages -/

/-- A range of numbers with at least one in it. -/
def isRange (limit start stop : Int) : Bool := decide (1 ≤ start) && decide (start < stop) && decide (stop ≤ limit)

/-- A text occurs once in a list at most. -/
def areDistinct : List String → Bool
  | [] => true
  | s :: r => !r.contains s && areDistinct r

/-- The fields of the oneof at a place. -/
def Message.membersOf (m : Message) (index : Nat) : List Field := m.fields.filter (·.oneofIndex == some (index : Int))

/-- The oneofs that exist for one field alone come last and have one field. `seen` says that such a one came before. -/
def ownOneofsFit (m : Message) : Bool → List Nat → Bool
  | _, [] => true
  | seen, i :: r =>
    let members := m.membersOf i
    let own := members.any (·.ownOneof)
    if own then members.length == 1 && ownOneofsFit m true r else !seen && ownOneofsFit m false r

/-- The two fields of a map's entry have types that keys and values can have. -/
def entryFits (fields : List Field) : Bool :=
  match fields with
  | [key, value] =>
    let keyType := key.effectiveType
    let fitsKey := !keyType.isNamed && keyType != .double && keyType != .float && keyType != .bytes
    fitsKey && key.effectiveLabel != .repeated && value.effectiveType != .group && value.effectiveLabel != .repeated
  | _ => false

/-- The features of a message type. -/
def Message.featuresIn (outer : Features) (m : Message) : Features :=
  outer.within Definition.message.featurePart m.options

/-- The features of a field of a message with certain features. Those of a oneof lie between. -/
def Message.featuresOf (m : Message) (chosen : Bool) (features : Features) (f : Field) : Features :=
  f.features chosen
    (match (f.oneofIndex.bind fun i => m.oneofs[i.toNat]?) with
     | some o => features.within Definition.oneof.featurePart o.options
     | none => features)

/-- The most fields of a message that are required. -/
def maxRequired : Nat := 64

/-- The rules of a message type, nested types apart. -/
def Message.isSound (third chosen : Bool) (features : Features) (m : Message) : Bool :=
  let oneofNames := m.oneofs.map (·.name)
  let labelOf (f : Field) : Label := f.finalLabel (m.featuresOf chosen features f)
  isIdentifier m.name && oneofNames.all isIdentifier && areDistinct oneofNames &&
    m.fields.all (fun f => Descriptor.isSound third f && oneofFits m.oneofs.length (labelOf f) f) &&
    decide ((m.fields.filter fun f => labelOf f == .required).length ≤ maxRequired) &&
    noClashes features.separatesNames m.allowsNameClashes oneofNames [] [] m.fields &&
    !(m.isContainer && !m.fields.isEmpty) &&
    m.extensionRanges.all (fun r => isRange (if m.isContainer then 0x7FFFFFFF else maxFieldNumber + 1) r.start r.stop) &&
    m.reserved.all (fun r => isRange (maxFieldNumber + 1) r.1 r.2) &&
    ownOneofsFit m false (List.range m.oneofs.length) &&
    (!m.isMapEntry || entryFits m.fields)

/-- The rules of an extension. -/
def isSoundExtension (third : Bool) (f : Field) : Bool := isSound third f && f.oneofIndex.isNone && f.extendee.isSome

/-! ## 4. Enumerations and files -/

/-- The rules of an enumeration. One that is not closed starts with zero. -/
def Enumeration.isSound (outer : Features) (e : Enumeration) : Bool :=
  isIdentifier e.name && e.values.all (fun v => isIdentifier v.name) && e.reserved.all (fun r => decide (r.1 ≤ r.2)) &&
    (match e.values with
     | [] => false
     | first :: _ => (outer.within Definition.enumeration.featurePart e.options).closed || first.number == 0)

/-- The rules of a service. -/
def Service.isSound (s : Service) : Bool := isIdentifier s.name && s.procedures.all fun p => isIdentifier p.name

mutual

/-- A message type and those nested in it, with their full names and features. -/
def Message.withNested (scope : String) (outer : Features) : Message → List (String × Features × Message)
  | ⟨name, fields, extensions, nested, enums, oneofs, extensionRanges, reserved, options⟩ =>
    let m : Message := ⟨name, fields, extensions, nested, enums, oneofs, extensionRanges, reserved, options⟩
    (qualify scope name, m.featuresIn outer, m) :: withNestedOf (qualify scope name) (m.featuresIn outer) nested

/-- Message types and those nested in them. -/
def withNestedOf (scope : String) (outer : Features) : List Message → List (String × Features × Message)
  | [] => []
  | m :: r => m.withNested scope outer ++ withNestedOf scope outer r

end

/-- The features that a file starts from, if its dialect and its edition are known. Only one dialect says its edition,
and only there definitions choose features. -/
def File.base? (f : File) : Option Features :=
  if f.hasEdition then f.edition.bind Features.ofEdition?
  else if f.edition.isSome || f.choosesFeatures then none
  else if f.isThird then some .third
  else if f.dialect.isNone || f.dialect == some "proto2" then some .second
  else none

/-- The features of a file. -/
def File.features (f : File) : Features :=
  (f.base?.getD .second).within Definition.file.featurePart f.options

/-- The message types of a file, with their full names and features. -/
def File.featuredMessages (f : File) : List (String × Features × Message) := withNestedOf f.package f.features f.messages

/-- The message types of a file, with their full names. -/
def File.allMessages (f : File) : List (String × Message) := f.featuredMessages.map fun (name, _, m) => (name, m)

/-- The enumerations of a file, with the scopes that they stand in and the features there. -/
def File.allEnums (f : File) : List (String × Features × Enumeration) :=
  f.enums.map (f.package, f.features, ·) ++
    f.featuredMessages.flatMap fun (scope, features, m) => m.enums.map (scope, features, ·)

/-- The extensions of a file, with the scopes that they stand in and the features there. -/
def File.allExtensions (f : File) : List (String × Features × Field) :=
  f.extensions.map (f.package, f.features, ·) ++
    f.featuredMessages.flatMap fun (scope, features, m) => m.extensions.map (scope, features, ·)

/-- A place in a list. -/
def isPlace (count : Nat) (i : Int) : Bool := decide (0 ≤ i) && decide (i < count)

/-- The rules of a file that hold without its surroundings. -/
def File.isSound (f : File) : Bool :=
  !f.name.toList.any (·.toNat = 0) && isPackage f.package && f.base?.isSome &&
    f.publicDependencies.all (isPlace f.dependencies.length) &&
    f.weakDependencies.all (isPlace f.dependencies.length) &&
    f.featuredMessages.all (fun (_, features, m) => m.isSound f.isThird f.hasEdition features) &&
    f.allEnums.all (fun (_, features, e) => e.isSound features) &&
    f.allExtensions.all (fun x => isSoundExtension f.isThird x.2.2) && f.services.all Service.isSound

end ContractShell.Descriptor
