import ContractShell.Descriptor.Pool

/-!
The definitions that every pool starts with: the messages that describe messages, and their options, which other files
extend.
-/

namespace ContractShell.Descriptor.Standard

/-! ## 1. Builders -/

/-- A field without more than a name, a number, a label and a type. -/
def field (label : Label) (type : FieldType) (typeName : Option String) (number : Int) (name : String) : Field :=
  ⟨name, number, some label, some type, typeName, none, none, none, none, none, false⟩

/-- An optional field of a plain type. -/
def one (type : FieldType) (number : Int) (name : String) : Field := field .optional type none number name

/-- A repeated field of a plain type. -/
def many (type : FieldType) (number : Int) (name : String) : Field := field .repeated type none number name

/-- The full name of a definition of this file. -/
def here (name : String) : String := ".google.protobuf." ++ name

/-- An optional message. -/
def oneOf (type : String) (number : Int) (name : String) : Field :=
  field .optional .message (some (here type)) number name

/-- A repeated message. -/
def manyOf (type : String) (number : Int) (name : String) : Field :=
  field .repeated .message (some (here type)) number name

/-- An optional choice. -/
def choice (type : String) (number : Int) (name : String) : Field :=
  field .optional .enum (some (here type)) number name

/-- An enumeration. -/
def enumOf (name : String) (values : List (String × Int)) : Enumeration :=
  ⟨name, values.map fun v => ⟨v.1, v.2, none⟩, [], none⟩

/-- An enumeration whose values are numbered from a first number on. -/
def enumFrom (first : Int) (name : String) (values : List String) : Enumeration :=
  ⟨name, values.mapIdx fun i v => ⟨v, first + i, none⟩, [], none⟩

/-- A message type. -/
def message (name : String) (fields : List Field) : Message := ⟨name, fields, [], [], [], [], [], [], none⟩

/-- A message type with definitions inside. -/
def messageWith (name : String) (fields : List Field) (nested : List Message) (enums : List Enumeration) : Message :=
  ⟨name, fields, [], nested, enums, [], [], [], none⟩

/-- A message type that can be extended from number 1000 on, with the part that holds options not yet understood. -/
def extensible (m : Message) : Message :=
  { m with
    fields := m.fields ++ [manyOf "UninterpretedOption" 999 "uninterpreted_option"]
    extensionRanges := [⟨1000, 0x20000000, none⟩] }

/-! ## 2. Definitions -/

/-- The messages that describe files, messages, fields, enumerations and services. -/
def describing : List Message := [
  { message "FileDescriptorSet" [manyOf "FileDescriptorProto" 1 "file"] with
    extensionRanges := [⟨536000000, 536000001, none⟩] },
  message "FileDescriptorProto" [
    one .string 1 "name", one .string 2 "package", many .string 3 "dependency", many .int32 10 "public_dependency",
    many .int32 11 "weak_dependency", manyOf "DescriptorProto" 4 "message_type",
    manyOf "EnumDescriptorProto" 5 "enum_type", manyOf "ServiceDescriptorProto" 6 "service",
    manyOf "FieldDescriptorProto" 7 "extension", oneOf "FileOptions" 8 "options",
    oneOf "SourceCodeInfo" 9 "source_code_info", one .string 12 "syntax", choice "Edition" 14 "edition",
    many .string 15 "option_dependency"],
  messageWith "DescriptorProto" [
    one .string 1 "name", manyOf "FieldDescriptorProto" 2 "field", manyOf "FieldDescriptorProto" 6 "extension",
    manyOf "DescriptorProto" 3 "nested_type", manyOf "EnumDescriptorProto" 4 "enum_type",
    manyOf "DescriptorProto.ExtensionRange" 5 "extension_range", manyOf "OneofDescriptorProto" 8 "oneof_decl",
    oneOf "MessageOptions" 7 "options", manyOf "DescriptorProto.ReservedRange" 9 "reserved_range",
    many .string 10 "reserved_name", choice "SymbolVisibility" 11 "visibility"]
    [message "ExtensionRange" [one .int32 1 "start", one .int32 2 "end", oneOf "ExtensionRangeOptions" 3 "options"],
     message "ReservedRange" [one .int32 1 "start", one .int32 2 "end"]] [],
  extensible (messageWith "ExtensionRangeOptions" [
    manyOf "ExtensionRangeOptions.Declaration" 2 "declaration", oneOf "FeatureSet" 50 "features",
    choice "ExtensionRangeOptions.VerificationState" 3 "verification"]
    [message "Declaration" [
      one .int32 1 "number", one .string 2 "full_name", one .string 3 "type", one .bool 5 "reserved",
      one .bool 6 "repeated"]]
    [enumFrom 0 "VerificationState" ["DECLARATION", "UNVERIFIED"]]),
  messageWith "FieldDescriptorProto" [
    one .string 1 "name", one .int32 3 "number", choice "FieldDescriptorProto.Label" 4 "label",
    choice "FieldDescriptorProto.Type" 5 "type", one .string 6 "type_name", one .string 2 "extendee",
    one .string 7 "default_value", one .int32 9 "oneof_index", one .string 10 "json_name",
    oneOf "FieldOptions" 8 "options", one .bool 17 "proto3_optional"] []
    [enumFrom 1 "Type" (FieldType.all.map fun t => "TYPE_" ++ t.name.toUpper),
     enumFrom 1 "Label" ["LABEL_OPTIONAL", "LABEL_REQUIRED", "LABEL_REPEATED"]],
  message "OneofDescriptorProto" [one .string 1 "name", oneOf "OneofOptions" 2 "options"],
  messageWith "EnumDescriptorProto" [
    one .string 1 "name", manyOf "EnumValueDescriptorProto" 2 "value", oneOf "EnumOptions" 3 "options",
    manyOf "EnumDescriptorProto.EnumReservedRange" 4 "reserved_range", many .string 5 "reserved_name",
    choice "SymbolVisibility" 6 "visibility"]
    [message "EnumReservedRange" [one .int32 1 "start", one .int32 2 "end"]] [],
  message "EnumValueDescriptorProto" [
    one .string 1 "name", one .int32 2 "number", oneOf "EnumValueOptions" 3 "options"],
  message "ServiceDescriptorProto" [
    one .string 1 "name", manyOf "MethodDescriptorProto" 2 "method", oneOf "ServiceOptions" 3 "options"],
  message "MethodDescriptorProto" [
    one .string 1 "name", one .string 2 "input_type", one .string 3 "output_type", oneOf "MethodOptions" 4 "options",
    one .bool 5 "client_streaming", one .bool 6 "server_streaming"]]

/-- The messages that hold options. -/
def options : List Message := [
  extensible (messageWith "FileOptions" [
    one .string 1 "java_package", one .string 8 "java_outer_classname", one .bool 10 "java_multiple_files",
    one .bool 20 "java_generate_equals_and_hash", one .bool 27 "java_string_check_utf8",
    choice "FileOptions.OptimizeMode" 9 "optimize_for", one .string 11 "go_package",
    one .bool 16 "cc_generic_services", one .bool 17 "java_generic_services", one .bool 18 "py_generic_services",
    one .bool 23 "deprecated", one .bool 31 "cc_enable_arenas", one .string 36 "objc_class_prefix",
    one .string 37 "csharp_namespace", one .string 39 "swift_prefix", one .string 40 "php_class_prefix",
    one .string 41 "php_namespace", one .string 44 "php_metadata_namespace", one .string 45 "ruby_package",
    oneOf "FeatureSet" 50 "features"] []
    [enumFrom 1 "OptimizeMode" ["SPEED", "CODE_SIZE", "LITE_RUNTIME"]]),
  extensible (message "MessageOptions" [
    one .bool 1 "message_set_wire_format", one .bool 2 "no_standard_descriptor_accessor", one .bool 3 "deprecated",
    one .bool 7 "map_entry", one .bool 11 "deprecated_legacy_json_field_conflicts", oneOf "FeatureSet" 12 "features"]),
  extensible (messageWith "FieldOptions" [
    choice "FieldOptions.CType" 1 "ctype", one .bool 2 "packed", choice "FieldOptions.JSType" 6 "jstype",
    one .bool 5 "lazy", one .bool 15 "unverified_lazy", one .bool 3 "deprecated", one .bool 10 "weak",
    one .bool 16 "debug_redact", choice "FieldOptions.OptionRetention" 17 "retention",
    field .repeated .enum (some (here "FieldOptions.OptionTargetType")) 19 "targets",
    manyOf "FieldOptions.EditionDefault" 20 "edition_defaults", oneOf "FeatureSet" 21 "features",
    oneOf "FieldOptions.FeatureSupport" 22 "feature_support"]
    [message "EditionDefault" [choice "Edition" 3 "edition", one .string 2 "value"],
     message "FeatureSupport" [
      choice "Edition" 1 "edition_introduced", choice "Edition" 2 "edition_deprecated",
      one .string 3 "deprecation_warning", choice "Edition" 4 "edition_removed"]]
    [enumFrom 0 "CType" ["STRING", "CORD", "STRING_PIECE"], enumFrom 0 "JSType" ["JS_NORMAL", "JS_STRING", "JS_NUMBER"],
     enumFrom 0 "OptionRetention" ["RETENTION_UNKNOWN", "RETENTION_RUNTIME", "RETENTION_SOURCE"],
     enumFrom 0 "OptionTargetType" [
      "TARGET_TYPE_UNKNOWN", "TARGET_TYPE_FILE", "TARGET_TYPE_EXTENSION_RANGE", "TARGET_TYPE_MESSAGE",
      "TARGET_TYPE_FIELD", "TARGET_TYPE_ONEOF", "TARGET_TYPE_ENUM", "TARGET_TYPE_ENUM_ENTRY", "TARGET_TYPE_SERVICE",
      "TARGET_TYPE_METHOD"]]),
  extensible (message "OneofOptions" [oneOf "FeatureSet" 1 "features"]),
  extensible (message "EnumOptions" [
    one .bool 2 "allow_alias", one .bool 3 "deprecated", one .bool 6 "deprecated_legacy_json_field_conflicts",
    oneOf "FeatureSet" 7 "features"]),
  extensible (message "EnumValueOptions" [
    one .bool 1 "deprecated", oneOf "FeatureSet" 2 "features", one .bool 3 "debug_redact",
    oneOf "FieldOptions.FeatureSupport" 4 "feature_support"]),
  extensible (message "ServiceOptions" [oneOf "FeatureSet" 34 "features", one .bool 33 "deprecated"]),
  extensible (messageWith "MethodOptions" [
    one .bool 33 "deprecated", choice "MethodOptions.IdempotencyLevel" 34 "idempotency_level",
    oneOf "FeatureSet" 35 "features"] []
    [enumFrom 0 "IdempotencyLevel" ["IDEMPOTENCY_UNKNOWN", "NO_SIDE_EFFECTS", "IDEMPOTENT"]]),
  messageWith "UninterpretedOption" [
    manyOf "UninterpretedOption.NamePart" 2 "name", one .string 3 "identifier_value",
    one .uint64 4 "positive_int_value", one .int64 5 "negative_int_value", one .double 6 "double_value",
    one .bytes 7 "string_value", one .string 8 "aggregate_value"]
    [message "NamePart" [
      field .required .string none 1 "name_part", field .required .bool none 2 "is_extension"]] []]

/-- The messages that hold features and the places of definitions in their source. -/
def further : List Message := [
  { messageWith "FeatureSet" [
      choice "FeatureSet.FieldPresence" 1 "field_presence", choice "FeatureSet.EnumType" 2 "enum_type",
      choice "FeatureSet.RepeatedFieldEncoding" 3 "repeated_field_encoding",
      choice "FeatureSet.Utf8Validation" 4 "utf8_validation", choice "FeatureSet.MessageEncoding" 5 "message_encoding",
      choice "FeatureSet.JsonFormat" 6 "json_format", choice "FeatureSet.EnforceNamingStyle" 7 "enforce_naming_style",
      choice "FeatureSet.VisibilityFeature.DefaultSymbolVisibility" 8 "default_symbol_visibility"]
      [{ messageWith "VisibilityFeature" [] [] [enumFrom 0 "DefaultSymbolVisibility" [
          "DEFAULT_SYMBOL_VISIBILITY_UNKNOWN", "EXPORT_ALL", "EXPORT_TOP_LEVEL", "LOCAL_ALL", "STRICT"]] with
        reserved := [(1, 0x20000000)] }]
      [enumFrom 0 "FieldPresence" ["FIELD_PRESENCE_UNKNOWN", "EXPLICIT", "IMPLICIT", "LEGACY_REQUIRED"],
       enumFrom 0 "EnumType" ["ENUM_TYPE_UNKNOWN", "OPEN", "CLOSED"],
       enumFrom 0 "RepeatedFieldEncoding" ["REPEATED_FIELD_ENCODING_UNKNOWN", "PACKED", "EXPANDED"],
       enumOf "Utf8Validation" [("UTF8_VALIDATION_UNKNOWN", 0), ("VERIFY", 2), ("NONE", 3)],
       enumFrom 0 "MessageEncoding" ["MESSAGE_ENCODING_UNKNOWN", "LENGTH_PREFIXED", "DELIMITED"],
       enumFrom 0 "JsonFormat" ["JSON_FORMAT_UNKNOWN", "ALLOW", "LEGACY_BEST_EFFORT"],
       enumFrom 0 "EnforceNamingStyle" ["ENFORCE_NAMING_STYLE_UNKNOWN", "STYLE2024", "STYLE_LEGACY"]] with
    extensionRanges := [⟨1000, 9995, none⟩, ⟨9995, 10000, none⟩, ⟨10000, 10001, none⟩] },
  messageWith "FeatureSetDefaults" [
    manyOf "FeatureSetDefaults.FeatureSetEditionDefault" 1 "defaults", choice "Edition" 4 "minimum_edition",
    choice "Edition" 5 "maximum_edition"]
    [message "FeatureSetEditionDefault" [
      choice "Edition" 3 "edition", oneOf "FeatureSet" 4 "overridable_features",
      oneOf "FeatureSet" 5 "fixed_features"]] [],
  messageWith "SourceCodeInfo" [manyOf "SourceCodeInfo.Location" 1 "location"]
    [message "Location" [
      many .int32 1 "path", many .int32 2 "span", one .string 3 "leading_comments", one .string 4 "trailing_comments",
      many .string 6 "leading_detached_comments"]] [],
  messageWith "GeneratedCodeInfo" [manyOf "GeneratedCodeInfo.Annotation" 1 "annotation"]
    [messageWith "Annotation" [
      many .int32 1 "path", one .string 2 "source_file", one .int32 3 "begin", one .int32 4 "end",
      choice "GeneratedCodeInfo.Annotation.Semantic" 5 "semantic"] [] [enumFrom 0 "Semantic" ["NONE", "SET", "ALIAS"]]]
    []]

/-- The editions of the language of definitions. -/
def editions : Enumeration := enumOf "Edition" [
  ("EDITION_UNKNOWN", 0), ("EDITION_LEGACY", 900), ("EDITION_PROTO2", 998), ("EDITION_PROTO3", 999),
  ("EDITION_2023", 1000), ("EDITION_2024", 1001), ("EDITION_1_TEST_ONLY", 1), ("EDITION_2_TEST_ONLY", 2),
  ("EDITION_99997_TEST_ONLY", 99997), ("EDITION_99998_TEST_ONLY", 99998), ("EDITION_99999_TEST_ONLY", 99999),
  ("EDITION_MAX", 2147483647)]

/-- The name of the file. -/
def fileName : String := "google/protobuf/descriptor.proto"

/-- The file of these definitions. -/
def file : File :=
  { File.blank fileName "google.protobuf" with
    messages := describing ++ options ++ further
    enums := [editions, enumFrom 0 "SymbolVisibility" ["VISIBILITY_UNSET", "VISIBILITY_LOCAL", "VISIBILITY_EXPORT"]]
    dialect := some "proto2" }

/-- The pool that holds these definitions. -/
def pool : Pool := (Pool.empty.link? file).getD Pool.empty

end ContractShell.Descriptor.Standard
