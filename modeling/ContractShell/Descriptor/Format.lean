import ContractShell.Wire.Layout

/-!
The messages in which files of type definitions are written: of each, the parts whose payloads are checked. Payloads of
names and other texts are not.
-/

namespace ContractShell.Descriptor

open Wire (Shape Layout Layouts)

/-- The type of a file. -/
def fileType : String := "google.protobuf.FileDescriptorProto"

/-- The type of a set of files. -/
def fileSetType : String := "google.protobuf.FileDescriptorSet"

/-- The type of the options of a field. -/
def fieldOptionsType : String := "google.protobuf.FieldOptions"

/-- A part that is a message of a type of this format. -/
def part (number : Nat) (type : String) : Nat × Shape := (number, .message ("google.protobuf." ++ type))

/-- The parts that every kind of options has. -/
def optionParts (features : Nat) : List (Nat × Shape) := [part features "FeatureSet", part 999 "UninterpretedOption"]

/-- The parts of the messages of the format. -/
def formatParts : List (String × List (Nat × Shape)) := [
  (fileSetType, [part 1 "FileDescriptorProto"]),
  (fileType, [
    part 4 "DescriptorProto", part 5 "EnumDescriptorProto", part 6 "ServiceDescriptorProto",
    part 7 "FieldDescriptorProto", part 8 "FileOptions", part 9 "SourceCodeInfo", (10, .packed), (11, .packed)]),
  ("google.protobuf.DescriptorProto", [
    part 2 "FieldDescriptorProto", part 3 "DescriptorProto", part 4 "EnumDescriptorProto",
    part 5 "DescriptorProto.ExtensionRange", part 6 "FieldDescriptorProto", part 7 "MessageOptions",
    part 8 "OneofDescriptorProto", part 9 "DescriptorProto.ReservedRange"]),
  ("google.protobuf.DescriptorProto.ExtensionRange", [part 3 "ExtensionRangeOptions"]),
  ("google.protobuf.ExtensionRangeOptions", part 2 "ExtensionRangeOptions.Declaration" :: optionParts 50),
  ("google.protobuf.FieldDescriptorProto", [part 8 "FieldOptions"]),
  ("google.protobuf.OneofDescriptorProto", [part 2 "OneofOptions"]),
  ("google.protobuf.EnumDescriptorProto", [
    part 2 "EnumValueDescriptorProto", part 3 "EnumOptions", part 4 "EnumDescriptorProto.EnumReservedRange"]),
  ("google.protobuf.EnumValueDescriptorProto", [part 3 "EnumValueOptions"]),
  ("google.protobuf.ServiceDescriptorProto", [part 2 "MethodDescriptorProto", part 3 "ServiceOptions"]),
  ("google.protobuf.MethodDescriptorProto", [part 4 "MethodOptions"]),
  ("google.protobuf.FileOptions", optionParts 50),
  ("google.protobuf.MessageOptions", optionParts 12),
  (fieldOptionsType,
    (19, .packed) :: part 20 "FieldOptions.EditionDefault" :: part 22 "FieldOptions.FeatureSupport" :: optionParts 21),
  ("google.protobuf.OneofOptions", optionParts 1),
  ("google.protobuf.EnumOptions", optionParts 7),
  ("google.protobuf.EnumValueOptions", part 4 "FieldOptions.FeatureSupport" :: optionParts 2),
  ("google.protobuf.ServiceOptions", optionParts 34),
  ("google.protobuf.MethodOptions", optionParts 35),
  ("google.protobuf.UninterpretedOption", [part 2 "UninterpretedOption.NamePart"]),
  ("google.protobuf.SourceCodeInfo", [part 1 "SourceCodeInfo.Location"]),
  ("google.protobuf.SourceCodeInfo.Location", [(1, .packed), (2, .packed)])]

/-- The layouts of the format. -/
def formatLayouts : Layouts := formatParts.map fun (type, parts) => (type, ⟨parts, false⟩)

end ContractShell.Descriptor
