import ContractShell.Descriptor.Reader
import ContractShell.Descriptor.Writer
import ContractShell.Proofs.Text.Utf8
import ContractShell.Proofs.Wire.Records

/-!
Files of type definitions are read back from their bytes.

Every definition is a record, and is said here to lie within a depth: its numbers have thirty-two bits, and what it encloses
goes down so many levels at most. Such a definition is a message of its type, and is read back as it was.

## Main statements

* `Message.IsWithin.ofBytesWithin_bytes`, `File.IsWithin.ofBytes_bytes`: definitions are read back from their bytes.
* `Message.IsWithin.isMessage`, `File.IsWithin.isMessage`: the bytes of definitions within a depth are messages with so many
  levels.
-/

namespace ContractShell.Descriptor

open Wire (Item IsMessage IsShort delimitedItems varintItems payloads numbers packedNumbers signed lastPayload?
  joinedPayload? choice? innerFits writeDelimited writeVarint)

/-! ## 1. Numbers and texts in parts -/

/-- A number of thirty-two bits. -/
def IsInt32 (n : Int) : Prop := -0x80000000 ≤ n ∧ n < 0x80000000

/-- A number as it is written: a negative one as its residue. -/
def residue (n : Int) : Nat := (n % 0x10000000000000000).toNat

@[simp] theorem residue_lt (n : Int) : residue n < 0x10000000000000000 := by
  unfold residue
  omega

theorem signed_residue {n : Int} (h : IsInt32 n) : signed 32 (residue n) = n := by
  obtain ⟨hlow, hhigh⟩ := h
  have hmodulus : Nat.pow 2 32 = 4294967296 := rfl
  have hhalf : Nat.pow 2 (32 - 1) = 2147483648 := rfl
  unfold signed residue
  simp only [hmodulus, hhalf]
  split <;> omega

theorem nameOf_ofString (s : String) : nameOf (Text.Utf8.ofString s) = s := by
  rw [nameOf, Text.Utf8.toString?_ofString, Option.getD_some]

/-- The payloads of a name, which is left out when it is empty. -/
def nameParts (s : String) : List Bytes := if s.isEmpty then [] else [Text.Utf8.ofString s]

/-- The payloads of a text that may be missing. -/
def textParts (s : Option String) : List Bytes := (s.map Text.Utf8.ofString).toList

section

variable {number : Nat} {items : List Item}

theorem nameAt_of {s : String} (h : payloads number items = nameParts s) : nameAt number items = s := by
  unfold nameAt name? lastPayload?
  rw [h, nameParts]
  split
  · rename_i hs
    exact (String.isEmpty_iff.mp hs).symm
  · exact nameOf_ofString s

theorem name?_of {s : Option String} (h : payloads number items = textParts s) : name? number items = s := by
  unfold name? lastPayload?
  rw [h]
  cases s with
  | none => rfl
  | some s => exact congrArg some (nameOf_ofString s)

theorem int?_of {n : Option Int} (h : numbers number items = (n.map residue).toList) (hn : ∀ i ∈ n, IsInt32 i) :
    int? number items = n := by
  unfold int?
  rw [h]
  cases n with
  | none => rfl
  | some n => exact congrArg some (signed_residue (hn n rfl))

theorem intAt_of {n : Int} (h : numbers number items = [residue n]) (hn : IsInt32 n) : intAt number items = n := by
  unfold intAt
  rw [int?_of (n := some n) h (by rintro _ ⟨⟩; exact hn), Option.getD_some]

theorem flagAt_of {b : Bool} (h : numbers number items = if b then [1] else []) : flagAt number items = b := by
  unfold flagAt
  rw [h]
  cases b <;> rfl

theorem choice?_of {α : Type} (code : α → Nat) {ofCode? : Nat → Option α} {a : Option α}
    (h : numbers number items = (a.map code).toList) (hcode : ∀ x ∈ a, ofCode? (code x % 0x100000000) = some x) :
    choice? ofCode? number items = a := by
  unfold choice?
  rw [h]
  cases a with
  | none => rfl
  | some a => simp [hcode a rfl]

theorem lastPayload?_of {p : Option Bytes} (h : payloads number items = p.toList) : lastPayload? number items = p := by
  unfold lastPayload?
  rw [h]
  cases p <;> rfl

theorem joinedPayload?_of {p : Option Bytes} (h : payloads number items = p.toList) : joinedPayload? number items = p := by
  unfold joinedPayload?
  rw [h]
  cases p with
  | none => rfl
  | some p => exact congrArg some (List.append_nil p)

/-- The definitions in the parts of a short record are read back if each of them is. -/
theorem map_payloads {α : Type} (bytes : α → Bytes) (ofBytes : Bytes → α) {xs : List α}
    (hparts : payloads number items = xs.map bytes) (hshort : IsShort (items.flatMap Item.write))
    (h : ∀ x ∈ xs, IsShort (bytes x) → ofBytes (bytes x) = x) : (payloads number items).map ofBytes = xs := by
  have heach : ∀ x ∈ xs, ofBytes (bytes x) = x := fun x hx =>
    h x hx (Wire.isShort_of_mem (by rw [hparts]; exact List.mem_map_of_mem hx) hshort)
  rw [hparts, List.map_map]
  exact (List.map_congr_left heach).trans (List.map_id xs)

end

section

variable (number : Nat)

theorem writeName_eq (s : String) : writeName number s = (delimitedItems number (nameParts s)).flatMap Item.write := by
  rw [Wire.flatMap_write_delimitedItems, writeName, nameParts]
  split
  · rfl
  · simp [writeText]

theorem writeText_eq (s : Option String) :
    writeOptional writeText number s = (delimitedItems number (textParts s)).flatMap Item.write := by
  rw [Wire.flatMap_write_delimitedItems]
  cases s <;> simp [writeOptional, textParts, writeText]

theorem writePayload_eq (p : Option Bytes) :
    writeOptional writeDelimited number p = (delimitedItems number p.toList).flatMap Item.write := by
  rw [Wire.flatMap_write_delimitedItems]
  cases p <;> simp [writeOptional]

theorem writeEach_eq {α : Type} (bytes : α → Bytes) (xs : List α) :
    writeEach bytes number xs = (delimitedItems number (xs.map bytes)).flatMap Item.write := by
  rw [Wire.flatMap_write_delimitedItems, writeEach, List.flatMap_map]

theorem writeInt_eq (n : Int) : writeInt number n = (varintItems number [residue n]).flatMap Item.write := by
  rw [Wire.flatMap_write_varintItems]
  simp [writeInt, residue]

theorem writeInt?_eq (n : Option Int) :
    writeOptional writeInt number n = (varintItems number (n.map residue).toList).flatMap Item.write := by
  rw [Wire.flatMap_write_varintItems]
  cases n <;> simp [writeOptional, writeInt, residue]

theorem writeCode_eq {α : Type} (code : α → Nat) (a : Option α) :
    writeOptional (fun n x => writeVarint n (code x)) number a =
      (varintItems number (a.map code).toList).flatMap Item.write := by
  rw [Wire.flatMap_write_varintItems]
  cases a <;> simp [writeOptional]

end

/-! ## 2. Depths -/

/-- What holds where fewer levels are left than `depth`. -/
def Below (depth : Nat) (P : Nat → Prop) : Prop := ∃ below < depth, P below

theorem Below.mono {depth depth' : Nat} {P : Nat → Prop} (h : Below depth P) (hle : depth ≤ depth') : Below depth' P :=
  h.imp fun _ ⟨hlt, hP⟩ => ⟨Nat.lt_of_lt_of_le hlt hle, hP⟩

/-- The options of a definition are a message of their type. -/
def OptionsWithin (depth : Nat) (type : String) (options : Option Bytes) : Prop :=
  ∀ b ∈ options, Below depth fun below => IsMessage formatLayouts below type b

theorem isContainer_layoutOf (type : String) : (formatLayouts.layoutOf type).isContainer = false := by
  unfold Wire.Layouts.layoutOf
  cases h : formatLayouts.find? (·.1 == type) with
  | none => rfl
  | some entry =>
    obtain ⟨p, -, rfl⟩ := List.mem_map.mp (List.mem_of_find?_eq_some h)
    rfl

theorem innerFits_of_lt {below depth : Nat} (hlt : below < depth) {type : String} {b : Bytes}
    (h : IsMessage formatLayouts below type b) : innerFits formatLayouts depth type b = true :=
  Wire.innerFits_iff.mpr ⟨depth - 1, by omega, h.mono (by omega) isContainer_layoutOf⟩

/-- The content of options fits. -/
theorem OptionsWithin.fits {depth : Nat} {type : String} {options : Option Bytes} (h : OptionsWithin depth type options) :
    ∀ b, options = some b → innerFits formatLayouts depth type b = true := by
  intro b hb
  obtain ⟨below, hlt, hmessage⟩ := h b hb
  exact innerFits_of_lt hlt hmessage

/-- The definitions in the parts of a short record fit if each of them is a message one level below. -/
theorem fits_payloads {α : Type} (number : Nat) (type : String) (bytes : α → Bytes) {xs : List α} {P : α → Nat → Prop}
    {depth : Nat} {items : List Item} (hparts : payloads number items = xs.map bytes)
    (hshort : IsShort (items.flatMap Item.write)) (hbelow : ∀ x ∈ xs, Below depth (P x))
    (h : ∀ x ∈ xs, ∀ below, P x below → IsShort (bytes x) → IsMessage formatLayouts below type (bytes x)) :
    ∀ x ∈ xs, innerFits formatLayouts depth type (bytes x) = true := by
  intro x hx
  obtain ⟨below, hlt, hx'⟩ := hbelow x hx
  have hmem : bytes x ∈ payloads number items := by
    rw [hparts]
    exact List.mem_map_of_mem hx
  exact innerFits_of_lt hlt (h x hx below hx' (Wire.isShort_of_mem hmem hshort))

/-! ## 3. Fields -/

/-- A field within a depth. -/
structure Field.IsWithin (depth : Nat) (f : Field) : Prop where
  number : IsInt32 f.number
  oneofIndex : ∀ i ∈ f.oneofIndex, IsInt32 i
  options : OptionsWithin depth "google.protobuf.FieldOptions" f.options

/-- The parts of a field. -/
def Field.items (f : Field) : List Item :=
  delimitedItems 1 (nameParts f.name) ++ delimitedItems 2 (textParts f.extendee) ++ varintItems 3 [residue f.number] ++
    varintItems 4 (f.label.map Label.code).toList ++ varintItems 5 (f.type.map FieldType.code).toList ++
    delimitedItems 6 (textParts f.typeName) ++ delimitedItems 7 f.default.toList ++ delimitedItems 8 f.options.toList ++
    varintItems 9 (f.oneofIndex.map residue).toList ++ delimitedItems 10 (textParts f.jsonName) ++
    varintItems 17 (if f.ownOneof then [1] else [])

theorem Field.bytes_eq (f : Field) : f.bytes = f.items.flatMap Item.write := by
  have hown : (if f.ownOneof then writeVarint 17 1 else []) =
      (varintItems 17 (if f.ownOneof then [1] else [])).flatMap Item.write := by
    rw [Wire.flatMap_write_varintItems]
    split <;> simp
  simp only [Field.bytes, Field.items, List.flatMap_append, writeName_eq, writeText_eq, writePayload_eq, writeInt_eq,
    writeInt?_eq, writeCode_eq, hown]

@[simp] theorem Label.code_lt (l : Label) : l.code < 0x10000000000000000 := by
  cases l <;> decide

@[simp] theorem FieldType.code_lt (t : FieldType) : t.code < 0x10000000000000000 := by
  cases t <;> decide

theorem Label.ofCode?_code (l : Label) : Label.ofCode? (l.code % 0x100000000) = some l := by
  cases l <;> rfl

theorem FieldType.ofCode?_code_mod (t : FieldType) : FieldType.ofCode? (t.code % 0x100000000) = some t := by
  cases t <;> rfl

theorem Field.isFlat_items (f : Field) : ∀ i ∈ f.items, i.IsFlat := by
  simp only [Field.items, List.forall_mem_append, Wire.forall_mem_delimitedItems, Wire.forall_mem_varintItems,
    Wire.Item.isFlat_varint_iff, Wire.Item.isFlat_delimited_iff]
  simp [Wire.IsNumber]

/-- A field is read back from its bytes. -/
theorem Field.IsWithin.ofBytes_bytes {depth : Nat} {f : Field} (h : f.IsWithin depth) (hshort : IsShort f.bytes) :
    Field.ofBytes f.bytes = f := by
  rw [f.bytes_eq] at hshort ⊢
  rw [Field.ofBytes, Wire.itemsOf_write f.isFlat_items hshort]
  obtain ⟨name, number, label, type, typeName, extendee, default, options, oneofIndex, jsonName, ownOneof⟩ := f
  rw [Field.mk.injEq]
  refine ⟨nameAt_of ?_, intAt_of ?_ h.number, choice?_of Label.code ?_ fun l _ => l.ofCode?_code,
    choice?_of FieldType.code ?_ fun t _ => t.ofCode?_code_mod, name?_of ?_, name?_of ?_, lastPayload?_of ?_,
    joinedPayload?_of ?_, int?_of ?_ h.oneofIndex, name?_of ?_, flagAt_of ?_⟩
  all_goals simp [Field.items]

theorem Field.layoutOf : formatLayouts.layoutOf "google.protobuf.FieldDescriptorProto" = ⟨[part 8 "FieldOptions"], false⟩ :=
  rfl

/-- The bytes of a field are a message. -/
theorem Field.IsWithin.isMessage {depth : Nat} {f : Field} (h : f.IsWithin depth) (hshort : IsShort f.bytes) :
    IsMessage formatLayouts depth "google.protobuf.FieldDescriptorProto" f.bytes := by
  rw [f.bytes_eq] at hshort ⊢
  refine Wire.isMessage_write isContainer_layoutOf f.isFlat_items hshort ?_
  rw [Field.layoutOf]
  simp only [Field.items, List.forall_mem_append, Wire.forall_mem_delimitedItems, Wire.forall_mem_varintItems]
  simpa [Wire.contentFits, Wire.Layout.shape?, part] using h.options.fits

/-! ## 4. Enumerations -/

/-- The parts of a range. -/
def rangeItems (r : Int × Int) : List Item := varintItems 1 [residue r.1] ++ varintItems 2 [residue r.2]

theorem rangeBytes_eq (r : Int × Int) : rangeBytes r = (rangeItems r).flatMap Item.write := by
  simp only [rangeBytes, rangeItems, List.flatMap_append, writeInt_eq]

theorem isFlat_rangeItems (r : Int × Int) : ∀ i ∈ rangeItems r, i.IsFlat := by
  simp only [rangeItems, List.forall_mem_append, Wire.forall_mem_varintItems, Wire.Item.isFlat_varint_iff]
  simp [Wire.IsNumber]

/-- A range of numbers of thirty-two bits. -/
def IsRange (r : Int × Int) : Prop := IsInt32 r.1 ∧ IsInt32 r.2

/-- A range is read back from its bytes. -/
theorem range_rangeBytes {r : Int × Int} (h : IsRange r) (hshort : IsShort (rangeBytes r)) : range (rangeBytes r) = r := by
  rw [rangeBytes_eq] at hshort ⊢
  rw [range, Wire.itemsOf_write (isFlat_rangeItems r) hshort]
  obtain ⟨start, stop⟩ := r
  rw [Prod.mk.injEq]
  refine ⟨intAt_of ?_ h.1, intAt_of ?_ h.2⟩
  all_goals simp [rangeItems]

/-- A range is a message of every type, since its parts are only numbers. -/
theorem isMessage_rangeBytes (depth : Nat) (type : String) {r : Int × Int} (hshort : IsShort (rangeBytes r)) :
    IsMessage formatLayouts depth type (rangeBytes r) := by
  rw [rangeBytes_eq] at hshort ⊢
  refine Wire.isMessage_write isContainer_layoutOf (isFlat_rangeItems r) hshort ?_
  simp only [rangeItems, List.forall_mem_append, Wire.forall_mem_varintItems]
  simp [Wire.contentFits]

/-- A value of an enumeration within a depth. -/
structure EnumValue.IsWithin (depth : Nat) (v : EnumValue) : Prop where
  number : IsInt32 v.number
  options : OptionsWithin depth "google.protobuf.EnumValueOptions" v.options

/-- The parts of a value. -/
def EnumValue.items (v : EnumValue) : List Item :=
  delimitedItems 1 (nameParts v.name) ++ varintItems 2 [residue v.number] ++ delimitedItems 3 v.options.toList

theorem EnumValue.bytes_eq (v : EnumValue) : v.bytes = v.items.flatMap Item.write := by
  simp only [EnumValue.bytes, EnumValue.items, List.flatMap_append, writeName_eq, writePayload_eq, writeInt_eq]

theorem EnumValue.isFlat_items (v : EnumValue) : ∀ i ∈ v.items, i.IsFlat := by
  simp only [EnumValue.items, List.forall_mem_append, Wire.forall_mem_delimitedItems, Wire.forall_mem_varintItems,
    Wire.Item.isFlat_varint_iff, Wire.Item.isFlat_delimited_iff]
  simp [Wire.IsNumber]

/-- A value from its bytes, as the reader of enumerations reads it. -/
def EnumValue.ofBytes (b : Bytes) : EnumValue :=
  ⟨nameAt 1 (Wire.itemsOf b), intAt 2 (Wire.itemsOf b), joinedPayload? 3 (Wire.itemsOf b)⟩

theorem EnumValue.IsWithin.ofBytes_bytes {depth : Nat} {v : EnumValue} (h : v.IsWithin depth) (hshort : IsShort v.bytes) :
    EnumValue.ofBytes v.bytes = v := by
  rw [v.bytes_eq] at hshort ⊢
  rw [EnumValue.ofBytes, Wire.itemsOf_write v.isFlat_items hshort]
  obtain ⟨name, number, options⟩ := v
  rw [EnumValue.mk.injEq]
  refine ⟨nameAt_of ?_, intAt_of ?_ h.number, joinedPayload?_of ?_⟩
  all_goals simp [EnumValue.items]

theorem EnumValue.layoutOf :
    formatLayouts.layoutOf "google.protobuf.EnumValueDescriptorProto" = ⟨[part 3 "EnumValueOptions"], false⟩ := rfl

theorem EnumValue.IsWithin.isMessage {depth : Nat} {v : EnumValue} (h : v.IsWithin depth) (hshort : IsShort v.bytes) :
    IsMessage formatLayouts depth "google.protobuf.EnumValueDescriptorProto" v.bytes := by
  rw [v.bytes_eq] at hshort ⊢
  refine Wire.isMessage_write isContainer_layoutOf v.isFlat_items hshort ?_
  rw [EnumValue.layoutOf]
  simp only [EnumValue.items, List.forall_mem_append, Wire.forall_mem_delimitedItems, Wire.forall_mem_varintItems]
  simpa [Wire.contentFits, Wire.Layout.shape?, part] using h.options.fits

/-- An enumeration within a depth. -/
structure Enumeration.IsWithin (depth : Nat) (e : Enumeration) : Prop where
  values : ∀ v ∈ e.values, Below depth fun below => v.IsWithin below
  reserved : ∀ r ∈ e.reserved, Below depth fun _ => IsRange r
  options : OptionsWithin depth "google.protobuf.EnumOptions" e.options

/-- The parts of an enumeration. -/
def Enumeration.items (e : Enumeration) : List Item :=
  delimitedItems 1 (nameParts e.name) ++ delimitedItems 2 (e.values.map EnumValue.bytes) ++
    delimitedItems 3 e.options.toList ++ delimitedItems 4 (e.reserved.map rangeBytes)

theorem Enumeration.bytes_eq (e : Enumeration) : e.bytes = e.items.flatMap Item.write := by
  simp only [Enumeration.bytes, Enumeration.items, List.flatMap_append, writeName_eq, writePayload_eq, writeEach_eq]

theorem Enumeration.isFlat_items (e : Enumeration) : ∀ i ∈ e.items, i.IsFlat := by
  simp only [Enumeration.items, List.forall_mem_append, Wire.forall_mem_delimitedItems, Wire.Item.isFlat_delimited_iff]
  simp [Wire.IsNumber]

/-- An enumeration is read back from its bytes. -/
theorem Enumeration.IsWithin.ofBytes_bytes {depth : Nat} {e : Enumeration} (h : e.IsWithin depth) (hshort : IsShort e.bytes) :
    Enumeration.ofBytes e.bytes = e := by
  rw [e.bytes_eq] at hshort ⊢
  rw [Enumeration.ofBytes, Wire.itemsOf_write e.isFlat_items hshort]
  obtain ⟨name, values, reserved, options⟩ := e
  rw [Enumeration.mk.injEq]
  refine ⟨nameAt_of (by simp [Enumeration.items]),
    map_payloads EnumValue.bytes EnumValue.ofBytes (by simp [Enumeration.items]) hshort fun v hv => ?_,
    map_payloads rangeBytes range (by simp [Enumeration.items]) hshort fun r hr => ?_,
    joinedPayload?_of (by simp [Enumeration.items])⟩
  · obtain ⟨below, -, hv⟩ := h.values v hv
    exact hv.ofBytes_bytes
  · obtain ⟨below, -, hr⟩ := h.reserved r hr
    exact range_rangeBytes hr

theorem Enumeration.layoutOf : formatLayouts.layoutOf "google.protobuf.EnumDescriptorProto" =
    ⟨[part 2 "EnumValueDescriptorProto", part 3 "EnumOptions", part 4 "EnumDescriptorProto.EnumReservedRange"], false⟩ :=
  rfl

/-- The bytes of an enumeration are a message. -/
theorem Enumeration.IsWithin.isMessage {depth : Nat} {e : Enumeration} (h : e.IsWithin depth) (hshort : IsShort e.bytes) :
    IsMessage formatLayouts depth "google.protobuf.EnumDescriptorProto" e.bytes := by
  rw [e.bytes_eq] at hshort ⊢
  refine Wire.isMessage_write isContainer_layoutOf e.isFlat_items hshort ?_
  have hvalues := fits_payloads 2 "google.protobuf.EnumValueDescriptorProto" EnumValue.bytes
    (by simp [Enumeration.items]) hshort h.values fun _ _ _ hv => hv.isMessage
  have hreserved := fits_payloads 4 "google.protobuf.EnumDescriptorProto.EnumReservedRange" rangeBytes
    (by simp [Enumeration.items]) hshort h.reserved fun _ _ below _ => isMessage_rangeBytes below _
  rw [Enumeration.layoutOf]
  simp only [Enumeration.items, List.forall_mem_append, Wire.forall_mem_delimitedItems, List.forall_mem_map]
  simpa [Wire.contentFits, Wire.Layout.shape?, part, -Prod.forall] using ⟨⟨hvalues, h.options.fits⟩, hreserved⟩

/-! ## 5. Messages -/

/-- A oneof within a depth. -/
def Oneof.IsWithin (depth : Nat) (o : Oneof) : Prop := OptionsWithin depth "google.protobuf.OneofOptions" o.options

/-- The parts of a oneof. -/
def Oneof.items (o : Oneof) : List Item := delimitedItems 1 (nameParts o.name) ++ delimitedItems 2 o.options.toList

theorem Oneof.bytes_eq (o : Oneof) : o.bytes = o.items.flatMap Item.write := by
  simp only [Oneof.bytes, Oneof.items, List.flatMap_append, writeName_eq, writePayload_eq]

theorem Oneof.isFlat_items (o : Oneof) : ∀ i ∈ o.items, i.IsFlat := by
  simp only [Oneof.items, List.forall_mem_append, Wire.forall_mem_delimitedItems, Wire.Item.isFlat_delimited_iff]
  simp [Wire.IsNumber]

/-- A oneof from its bytes, as the reader of messages reads it. -/
def Oneof.ofBytes (b : Bytes) : Oneof := ⟨nameAt 1 (Wire.itemsOf b), joinedPayload? 2 (Wire.itemsOf b)⟩

theorem Oneof.ofBytes_bytes {o : Oneof} (hshort : IsShort o.bytes) : Oneof.ofBytes o.bytes = o := by
  rw [o.bytes_eq] at hshort ⊢
  rw [Oneof.ofBytes, Wire.itemsOf_write o.isFlat_items hshort]
  obtain ⟨name, options⟩ := o
  rw [Oneof.mk.injEq]
  refine ⟨nameAt_of ?_, joinedPayload?_of ?_⟩
  all_goals simp [Oneof.items]

theorem Oneof.layoutOf :
    formatLayouts.layoutOf "google.protobuf.OneofDescriptorProto" = ⟨[part 2 "OneofOptions"], false⟩ := rfl

theorem Oneof.IsWithin.isMessage {depth : Nat} {o : Oneof} (h : o.IsWithin depth) (hshort : IsShort o.bytes) :
    IsMessage formatLayouts depth "google.protobuf.OneofDescriptorProto" o.bytes := by
  rw [o.bytes_eq] at hshort ⊢
  refine Wire.isMessage_write isContainer_layoutOf o.isFlat_items hshort ?_
  rw [Oneof.layoutOf]
  simp only [Oneof.items, List.forall_mem_append, Wire.forall_mem_delimitedItems]
  simpa [Wire.contentFits, Wire.Layout.shape?, part] using OptionsWithin.fits h

/-- A range for extensions within a depth. -/
structure ExtensionRange.IsWithin (depth : Nat) (r : ExtensionRange) : Prop where
  start : IsInt32 r.start
  stop : IsInt32 r.stop
  options : OptionsWithin depth "google.protobuf.ExtensionRangeOptions" r.options

/-- The parts of a range for extensions. -/
def ExtensionRange.items (r : ExtensionRange) : List Item :=
  varintItems 1 [residue r.start] ++ varintItems 2 [residue r.stop] ++ delimitedItems 3 r.options.toList

theorem ExtensionRange.bytes_eq (r : ExtensionRange) : r.bytes = r.items.flatMap Item.write := by
  simp only [ExtensionRange.bytes, ExtensionRange.items, List.flatMap_append, writeInt_eq, writePayload_eq]

theorem ExtensionRange.isFlat_items (r : ExtensionRange) : ∀ i ∈ r.items, i.IsFlat := by
  simp only [ExtensionRange.items, List.forall_mem_append, Wire.forall_mem_delimitedItems, Wire.forall_mem_varintItems,
    Wire.Item.isFlat_varint_iff, Wire.Item.isFlat_delimited_iff]
  simp [Wire.IsNumber]

/-- A range for extensions from its bytes, as the reader of messages reads it. -/
def ExtensionRange.ofBytes (b : Bytes) : ExtensionRange :=
  ⟨(Descriptor.range b).1, (Descriptor.range b).2, joinedPayload? 3 (Wire.itemsOf b)⟩

theorem ExtensionRange.IsWithin.ofBytes_bytes {depth : Nat} {r : ExtensionRange} (h : r.IsWithin depth)
    (hshort : IsShort r.bytes) : ExtensionRange.ofBytes r.bytes = r := by
  rw [r.bytes_eq] at hshort ⊢
  rw [ExtensionRange.ofBytes, Descriptor.range, Wire.itemsOf_write r.isFlat_items hshort]
  obtain ⟨start, stop, options⟩ := r
  rw [ExtensionRange.mk.injEq]
  dsimp only
  refine ⟨intAt_of ?_ h.start, intAt_of ?_ h.stop, joinedPayload?_of ?_⟩
  all_goals simp [ExtensionRange.items]

theorem ExtensionRange.layoutOf : formatLayouts.layoutOf "google.protobuf.DescriptorProto.ExtensionRange" =
    ⟨[part 3 "ExtensionRangeOptions"], false⟩ := rfl

theorem ExtensionRange.IsWithin.isMessage {depth : Nat} {r : ExtensionRange} (h : r.IsWithin depth)
    (hshort : IsShort r.bytes) :
    IsMessage formatLayouts depth "google.protobuf.DescriptorProto.ExtensionRange" r.bytes := by
  rw [r.bytes_eq] at hshort ⊢
  refine Wire.isMessage_write isContainer_layoutOf r.isFlat_items hshort ?_
  rw [ExtensionRange.layoutOf]
  simp only [ExtensionRange.items, List.forall_mem_append, Wire.forall_mem_delimitedItems, Wire.forall_mem_varintItems]
  simpa [Wire.contentFits, Wire.Layout.shape?, part] using h.options.fits

/-- What a message type encloses besides message types is within a depth. -/
structure Message.OwnWithin (depth : Nat) (m : Message) : Prop where
  fields : ∀ f ∈ m.fields, Below depth fun below => f.IsWithin below
  extensions : ∀ f ∈ m.extensions, Below depth fun below => f.IsWithin below
  enums : ∀ e ∈ m.enums, Below depth fun below => e.IsWithin below
  oneofs : ∀ o ∈ m.oneofs, Below depth fun below => o.IsWithin below
  extensionRanges : ∀ r ∈ m.extensionRanges, Below depth fun below => r.IsWithin below
  reserved : ∀ r ∈ m.reserved, Below depth fun _ => IsRange r
  options : OptionsWithin depth "google.protobuf.MessageOptions" m.options

/-- A message type within a depth, with all that is nested in it. -/
inductive Message.IsWithin : Nat → Message → Prop where
  | bottom {depth : Nat} {m : Message} (own : m.OwnWithin depth) (hnone : m.nested = []) : IsWithin depth m
  | above {below depth : Nat} {m : Message} (hlt : below < depth) (own : m.OwnWithin depth)
      (nested : ∀ n ∈ m.nested, IsWithin below n) : IsWithin depth m

/-- The parts of a message type. -/
def Message.items (m : Message) : List Item :=
  delimitedItems 1 (nameParts m.name) ++ delimitedItems 2 (m.fields.map Field.bytes) ++
    delimitedItems 3 (m.nested.map Message.bytes) ++ delimitedItems 4 (m.enums.map Enumeration.bytes) ++
    delimitedItems 5 (m.extensionRanges.map ExtensionRange.bytes) ++ delimitedItems 6 (m.extensions.map Field.bytes) ++
    delimitedItems 7 m.options.toList ++ delimitedItems 8 (m.oneofs.map Oneof.bytes) ++
    delimitedItems 9 (m.reserved.map rangeBytes)

theorem nestedBytes_eq (ms : List Message) :
    nestedBytes ms = (delimitedItems 3 (ms.map Message.bytes)).flatMap Item.write := by
  induction ms with
  | nil => rfl
  | cons m ms ih =>
    rw [nestedBytes, ih]
    rfl

theorem Message.bytes_eq (m : Message) : m.bytes = m.items.flatMap Item.write := by
  cases m
  simp only [Message.bytes, Message.items, List.flatMap_append, writeName_eq, writePayload_eq, writeEach_eq, nestedBytes_eq]

theorem Message.isFlat_items (m : Message) : ∀ i ∈ m.items, i.IsFlat := by
  simp only [Message.items, List.forall_mem_append, Wire.forall_mem_delimitedItems, Wire.Item.isFlat_delimited_iff]
  simp [Wire.IsNumber]

/-- A message type is read back if what is nested in it is. -/
theorem Message.OwnWithin.ofBytesWithin_bytes {depth : Nat} {m : Message} (h : m.OwnWithin depth) (hshort : IsShort m.bytes)
    {limit : Nat} (hnested : (match limit with
      | 0 => []
      | below + 1 => (payloads 3 m.items).map (Message.ofBytesWithin below)) = m.nested) :
    Message.ofBytesWithin limit m.bytes = m := by
  rw [m.bytes_eq] at hshort ⊢
  rw [Message.ofBytesWithin.eq_def]
  dsimp only
  rw [Wire.itemsOf_write m.isFlat_items hshort]
  obtain ⟨name, fields, extensions, nested, enums, oneofs, extensionRanges, reserved, options⟩ := m
  rw [Message.mk.injEq]
  refine ⟨nameAt_of (by simp [Message.items]), map_payloads Field.bytes Field.ofBytes (by simp [Message.items]) hshort ?_,
    map_payloads Field.bytes Field.ofBytes (by simp [Message.items]) hshort ?_, hnested,
    map_payloads Enumeration.bytes Enumeration.ofBytes (by simp [Message.items]) hshort ?_,
    map_payloads Oneof.bytes Oneof.ofBytes (by simp [Message.items]) hshort ?_,
    map_payloads ExtensionRange.bytes ExtensionRange.ofBytes (by simp [Message.items]) hshort ?_,
    map_payloads rangeBytes range (by simp [Message.items]) hshort ?_, joinedPayload?_of (by simp [Message.items])⟩
  · intro f hf
    obtain ⟨below, -, hf⟩ := h.fields f hf
    exact hf.ofBytes_bytes
  · intro f hf
    obtain ⟨below, -, hf⟩ := h.extensions f hf
    exact hf.ofBytes_bytes
  · intro e he
    obtain ⟨below, -, he⟩ := h.enums e he
    exact he.ofBytes_bytes
  · exact fun o _ => Oneof.ofBytes_bytes
  · intro r hr
    obtain ⟨below, -, hr⟩ := h.extensionRanges r hr
    exact hr.ofBytes_bytes
  · intro r hr
    obtain ⟨below, -, hr⟩ := h.reserved r hr
    exact range_rangeBytes hr

/-- A message type is read back from its bytes by a reader that goes down far enough. -/
theorem Message.IsWithin.ofBytesWithin_bytes {depth : Nat} {m : Message} (h : m.IsWithin depth) {limit : Nat}
    (hlimit : depth ≤ limit) (hshort : IsShort m.bytes) : Message.ofBytesWithin limit m.bytes = m := by
  -- The induction is on the depth: what is nested is read with one level less.
  induction h generalizing limit with
  | @bottom _ m own hnone =>
    refine own.ofBytesWithin_bytes hshort ?_
    cases limit with
    | zero => exact hnone.symm
    | succ limit => simp [Message.items, hnone]
  | @above below _ m hlt own _ ih =>
    refine own.ofBytesWithin_bytes hshort ?_
    obtain ⟨limit, rfl⟩ : ∃ l, limit = l + 1 := ⟨limit - 1, by omega⟩
    rw [m.bytes_eq] at hshort
    exact map_payloads Message.bytes (Message.ofBytesWithin limit) (by simp [Message.items]) hshort
      fun n hn => ih n hn (by omega)

theorem Message.layoutOf : formatLayouts.layoutOf "google.protobuf.DescriptorProto" =
    ⟨[part 2 "FieldDescriptorProto", part 3 "DescriptorProto", part 4 "EnumDescriptorProto",
      part 5 "DescriptorProto.ExtensionRange", part 6 "FieldDescriptorProto", part 7 "MessageOptions",
      part 8 "OneofDescriptorProto", part 9 "DescriptorProto.ReservedRange"], false⟩ := rfl

/-- A message type is a message if what is nested in it fits. -/
theorem Message.OwnWithin.isMessage {depth : Nat} {m : Message} (h : m.OwnWithin depth) (hshort : IsShort m.bytes)
    (hnested : ∀ n ∈ m.nested, innerFits formatLayouts depth "google.protobuf.DescriptorProto" n.bytes = true) :
    IsMessage formatLayouts depth "google.protobuf.DescriptorProto" m.bytes := by
  rw [m.bytes_eq] at hshort ⊢
  refine Wire.isMessage_write isContainer_layoutOf m.isFlat_items hshort ?_
  have hfields := fits_payloads 2 "google.protobuf.FieldDescriptorProto" Field.bytes
    (by simp [Message.items]) hshort h.fields fun _ _ _ hf => hf.isMessage
  have henums := fits_payloads 4 "google.protobuf.EnumDescriptorProto" Enumeration.bytes
    (by simp [Message.items]) hshort h.enums fun _ _ _ he => he.isMessage
  have hranges := fits_payloads 5 "google.protobuf.DescriptorProto.ExtensionRange" ExtensionRange.bytes
    (by simp [Message.items]) hshort h.extensionRanges fun _ _ _ hr => hr.isMessage
  have hextensions := fits_payloads 6 "google.protobuf.FieldDescriptorProto" Field.bytes
    (by simp [Message.items]) hshort h.extensions fun _ _ _ hf => hf.isMessage
  have honeofs := fits_payloads 8 "google.protobuf.OneofDescriptorProto" Oneof.bytes
    (by simp [Message.items]) hshort h.oneofs fun _ _ _ ho => ho.isMessage
  have hreserved := fits_payloads 9 "google.protobuf.DescriptorProto.ReservedRange" rangeBytes
    (by simp [Message.items]) hshort h.reserved fun _ _ below _ => isMessage_rangeBytes below _
  rw [Message.layoutOf]
  simp only [Message.items, List.forall_mem_append, Wire.forall_mem_delimitedItems, List.forall_mem_map]
  simpa [Wire.contentFits, Wire.Layout.shape?, part, -Prod.forall] using
    ⟨⟨⟨⟨⟨⟨⟨hfields, hnested⟩, henums⟩, hranges⟩, hextensions⟩, h.options.fits⟩, honeofs⟩, hreserved⟩

/-- The bytes of a message type are a message. -/
theorem Message.IsWithin.isMessage {depth : Nat} {m : Message} (h : m.IsWithin depth) (hshort : IsShort m.bytes) :
    IsMessage formatLayouts depth "google.protobuf.DescriptorProto" m.bytes := by
  induction h with
  | bottom own hnone => exact own.isMessage hshort (by simp [hnone])
  | @above below depth m hlt own hnested ih =>
    refine own.isMessage hshort ?_
    rw [m.bytes_eq] at hshort
    have hbelow : ∀ n ∈ m.nested, Below depth (· = below) := fun _ _ => ⟨below, hlt, rfl⟩
    refine fits_payloads 3 "google.protobuf.DescriptorProto" Message.bytes (by simp [Message.items]) hshort hbelow ?_
    rintro n hn _ rfl
    exact ih n hn

/-! ## 6. Services -/

/-- A procedure within a depth. -/
def Procedure.IsWithin (depth : Nat) (p : Procedure) : Prop :=
  OptionsWithin depth "google.protobuf.MethodOptions" p.options

/-- The parts of a procedure. -/
def Procedure.items (p : Procedure) : List Item :=
  delimitedItems 1 (nameParts p.name) ++ delimitedItems 2 (nameParts p.input) ++ delimitedItems 3 (nameParts p.output) ++
    delimitedItems 4 p.options.toList

theorem Procedure.bytes_eq (p : Procedure) : p.bytes = p.items.flatMap Item.write := by
  simp only [Procedure.bytes, Procedure.items, List.flatMap_append, writeName_eq, writePayload_eq]

theorem Procedure.isFlat_items (p : Procedure) : ∀ i ∈ p.items, i.IsFlat := by
  simp only [Procedure.items, List.forall_mem_append, Wire.forall_mem_delimitedItems, Wire.Item.isFlat_delimited_iff]
  simp [Wire.IsNumber]

/-- A procedure from its bytes, as the reader of services reads it. -/
def Procedure.ofBytes (b : Bytes) : Procedure :=
  ⟨nameAt 1 (Wire.itemsOf b), nameAt 2 (Wire.itemsOf b), nameAt 3 (Wire.itemsOf b), joinedPayload? 4 (Wire.itemsOf b)⟩

theorem Procedure.ofBytes_bytes {p : Procedure} (hshort : IsShort p.bytes) : Procedure.ofBytes p.bytes = p := by
  rw [p.bytes_eq] at hshort ⊢
  rw [Procedure.ofBytes, Wire.itemsOf_write p.isFlat_items hshort]
  obtain ⟨name, input, output, options⟩ := p
  rw [Procedure.mk.injEq]
  refine ⟨nameAt_of ?_, nameAt_of ?_, nameAt_of ?_, joinedPayload?_of ?_⟩
  all_goals simp [Procedure.items]

theorem Procedure.layoutOf :
    formatLayouts.layoutOf "google.protobuf.MethodDescriptorProto" = ⟨[part 4 "MethodOptions"], false⟩ := rfl

theorem Procedure.IsWithin.isMessage {depth : Nat} {p : Procedure} (h : p.IsWithin depth) (hshort : IsShort p.bytes) :
    IsMessage formatLayouts depth "google.protobuf.MethodDescriptorProto" p.bytes := by
  rw [p.bytes_eq] at hshort ⊢
  refine Wire.isMessage_write isContainer_layoutOf p.isFlat_items hshort ?_
  rw [Procedure.layoutOf]
  simp only [Procedure.items, List.forall_mem_append, Wire.forall_mem_delimitedItems]
  simpa [Wire.contentFits, Wire.Layout.shape?, part] using OptionsWithin.fits h

/-- A service within a depth. -/
structure Service.IsWithin (depth : Nat) (s : Service) : Prop where
  procedures : ∀ p ∈ s.procedures, Below depth fun below => p.IsWithin below
  options : OptionsWithin depth "google.protobuf.ServiceOptions" s.options

/-- The parts of a service. -/
def Service.items (s : Service) : List Item :=
  delimitedItems 1 (nameParts s.name) ++ delimitedItems 2 (s.procedures.map Procedure.bytes) ++
    delimitedItems 3 s.options.toList

theorem Service.bytes_eq (s : Service) : s.bytes = s.items.flatMap Item.write := by
  simp only [Service.bytes, Service.items, List.flatMap_append, writeName_eq, writePayload_eq, writeEach_eq]

theorem Service.isFlat_items (s : Service) : ∀ i ∈ s.items, i.IsFlat := by
  simp only [Service.items, List.forall_mem_append, Wire.forall_mem_delimitedItems, Wire.Item.isFlat_delimited_iff]
  simp [Wire.IsNumber]

/-- A service is read back from its bytes. -/
theorem Service.ofBytes_bytes {s : Service} (hshort : IsShort s.bytes) : Service.ofBytes s.bytes = s := by
  rw [s.bytes_eq] at hshort ⊢
  rw [Service.ofBytes, Wire.itemsOf_write s.isFlat_items hshort]
  obtain ⟨name, procedures, options⟩ := s
  rw [Service.mk.injEq]
  exact ⟨nameAt_of (by simp [Service.items]),
    map_payloads Procedure.bytes Procedure.ofBytes (by simp [Service.items]) hshort fun _ _ => Procedure.ofBytes_bytes,
    joinedPayload?_of (by simp [Service.items])⟩

theorem Service.layoutOf : formatLayouts.layoutOf "google.protobuf.ServiceDescriptorProto" =
    ⟨[part 2 "MethodDescriptorProto", part 3 "ServiceOptions"], false⟩ := rfl

/-- The bytes of a service are a message. -/
theorem Service.IsWithin.isMessage {depth : Nat} {s : Service} (h : s.IsWithin depth) (hshort : IsShort s.bytes) :
    IsMessage formatLayouts depth "google.protobuf.ServiceDescriptorProto" s.bytes := by
  rw [s.bytes_eq] at hshort ⊢
  refine Wire.isMessage_write isContainer_layoutOf s.isFlat_items hshort ?_
  have hprocedures := fits_payloads 2 "google.protobuf.MethodDescriptorProto" Procedure.bytes
    (by simp [Service.items]) hshort h.procedures fun _ _ _ hp => hp.isMessage
  rw [Service.layoutOf]
  simp only [Service.items, List.forall_mem_append, Wire.forall_mem_delimitedItems, List.forall_mem_map]
  simpa [Wire.contentFits, Wire.Layout.shape?, part] using ⟨hprocedures, h.options.fits⟩

/-! ## 7. Files -/

/-- A file within a depth, of an edition that is known. -/
structure File.IsWithin (depth : Nat) (f : File) : Prop where
  publicDependencies : ∀ n ∈ f.publicDependencies, IsInt32 n
  weakDependencies : ∀ n ∈ f.weakDependencies, IsInt32 n
  messages : ∀ m ∈ f.messages, Below depth fun below => m.IsWithin below
  enums : ∀ e ∈ f.enums, Below depth fun below => e.IsWithin below
  services : ∀ s ∈ f.services, Below depth fun below => s.IsWithin below
  extensions : ∀ x ∈ f.extensions, Below depth fun below => x.IsWithin below
  edition : ∀ n ∈ f.edition, n ∈ editionCodes
  options : OptionsWithin depth "google.protobuf.FileOptions" f.options

theorem File.IsWithin.mono {depth depth' : Nat} {f : File} (h : f.IsWithin depth) (hle : depth ≤ depth') :
    f.IsWithin depth' where
  publicDependencies := h.publicDependencies
  weakDependencies := h.weakDependencies
  messages m hm := (h.messages m hm).mono hle
  enums e he := (h.enums e he).mono hle
  services s hs := (h.services s hs).mono hle
  extensions x hx := (h.extensions x hx).mono hle
  edition := h.edition
  options b hb := (h.options b hb).mono hle

/-- The parts of a file. -/
def File.items (f : File) : List Item :=
  delimitedItems 1 (nameParts f.name) ++ delimitedItems 2 (nameParts f.package) ++
    delimitedItems 3 (f.dependencies.map Text.Utf8.ofString) ++ delimitedItems 4 (f.messages.map Message.bytes) ++
    delimitedItems 5 (f.enums.map Enumeration.bytes) ++ delimitedItems 6 (f.services.map Service.bytes) ++
    delimitedItems 7 (f.extensions.map Field.bytes) ++ delimitedItems 8 f.options.toList ++
    varintItems 10 (f.publicDependencies.map residue) ++ varintItems 11 (f.weakDependencies.map residue) ++
    delimitedItems 12 (textParts f.dialect) ++ varintItems 14 f.edition.toList

theorem File.bytes_eq (f : File) : f.bytes = f.items.flatMap Item.write := by
  have htexts : f.dependencies.flatMap (writeText 3) =
      (delimitedItems 3 (f.dependencies.map Text.Utf8.ofString)).flatMap Item.write := by
    rw [Wire.flatMap_write_delimitedItems, List.flatMap_map]
    rfl
  have hnumbers (number : Nat) (ns : List Int) : ns.flatMap (writeInt number) =
      (varintItems number (ns.map residue)).flatMap Item.write := by
    rw [Wire.flatMap_write_varintItems, List.flatMap_map]
    rfl
  have hedition : writeOptional writeVarint 14 f.edition = (varintItems 14 f.edition.toList).flatMap Item.write := by
    rw [Wire.flatMap_write_varintItems]
    cases f.edition <;> simp [writeOptional]
  simp only [File.bytes, File.items, List.flatMap_append, writeName_eq, writeText_eq, writePayload_eq, writeEach_eq,
    htexts, hnumbers, hedition]

theorem le_of_mem_editionCodes {n : Nat} (h : n ∈ editionCodes) : n ≤ 2147483647 := by
  have hall : ∀ n ∈ editionCodes, n ≤ 2147483647 := by decide
  exact hall n h

theorem File.IsWithin.isFlat_items {depth : Nat} {f : File} (h : f.IsWithin depth) : ∀ i ∈ f.items, i.IsFlat := by
  have hedition : ∀ n, f.edition = some n → n < 0x10000000000000000 := fun n hn =>
    Nat.lt_of_le_of_lt (le_of_mem_editionCodes (h.edition n hn)) (by decide)
  simp only [File.items, List.forall_mem_append, Wire.forall_mem_delimitedItems, Wire.forall_mem_varintItems,
    Wire.Item.isFlat_varint_iff, Wire.Item.isFlat_delimited_iff]
  simpa [Wire.IsNumber] using hedition

/-- A file is read back from its bytes. -/
theorem File.IsWithin.ofBytes_bytes {depth : Nat} {f : File} (h : f.IsWithin depth) (hdepth : depth ≤ Wire.maxDepth)
    (hshort : IsShort f.bytes) : File.ofBytes f.bytes = f := by
  rw [f.bytes_eq] at hshort ⊢
  rw [File.ofBytes, Wire.itemsOf_write h.isFlat_items hshort]
  have hnumbers {number : Nat} {ns : List Int} (hparts : packedNumbers number f.items = ns.map residue)
      (hns : ∀ n ∈ ns, IsInt32 n) : (packedNumbers number f.items).map (signed 32) = ns := by
    rw [hparts, List.map_map]
    exact (List.map_congr_left fun n hn => signed_residue (hns n hn)).trans (List.map_id ns)
  have hedition : ∀ n ∈ f.edition, edition? (n % 0x100000000) = some n := by
    intro n hn
    have hmem := h.edition n hn
    rw [Nat.mod_eq_of_lt (Nat.lt_of_le_of_lt (le_of_mem_editionCodes hmem) (by decide)), edition?,
      if_pos (List.contains_iff_mem.mpr hmem)]
  obtain ⟨name, package, dependencies, publicDependencies, weakDependencies, messages, enums, services, extensions,
    dialect, edition, options⟩ := f
  rw [File.mk.injEq]
  refine ⟨nameAt_of (by simp [File.items]), nameAt_of (by simp [File.items]),
    map_payloads Text.Utf8.ofString nameOf (by simp [File.items]) hshort fun s _ _ => nameOf_ofString s,
    hnumbers (by simp [File.items]) h.publicDependencies, hnumbers (by simp [File.items]) h.weakDependencies,
    map_payloads Message.bytes Message.ofBytes (by simp [File.items]) hshort ?_,
    map_payloads Enumeration.bytes Enumeration.ofBytes (by simp [File.items]) hshort ?_,
    map_payloads Service.bytes Service.ofBytes (by simp [File.items]) hshort fun _ _ => Service.ofBytes_bytes,
    map_payloads Field.bytes Field.ofBytes (by simp [File.items]) hshort ?_, name?_of (by simp [File.items]),
    choice?_of id (by simp [File.items]) hedition, joinedPayload?_of (by simp [File.items])⟩
  · intro m hm
    obtain ⟨below, hlt, hm⟩ := h.messages m hm
    exact hm.ofBytesWithin_bytes (by omega)
  · intro e he
    obtain ⟨below, -, he⟩ := h.enums e he
    exact he.ofBytes_bytes
  · intro x hx
    obtain ⟨below, -, hx⟩ := h.extensions x hx
    exact hx.ofBytes_bytes

theorem File.layoutOf : formatLayouts.layoutOf fileType =
    ⟨[part 4 "DescriptorProto", part 5 "EnumDescriptorProto", part 6 "ServiceDescriptorProto",
      part 7 "FieldDescriptorProto", part 8 "FileOptions", part 9 "SourceCodeInfo", (10, .packed), (11, .packed)], false⟩ :=
  rfl

/-- The bytes of a file are a message. -/
theorem File.IsWithin.isMessage {depth : Nat} {f : File} (h : f.IsWithin depth) (hshort : IsShort f.bytes) :
    IsMessage formatLayouts depth fileType f.bytes := by
  rw [f.bytes_eq] at hshort ⊢
  refine Wire.isMessage_write isContainer_layoutOf h.isFlat_items hshort ?_
  have hmessages := fits_payloads 4 "google.protobuf.DescriptorProto" Message.bytes
    (by simp [File.items]) hshort h.messages fun _ _ _ hm => hm.isMessage
  have henums := fits_payloads 5 "google.protobuf.EnumDescriptorProto" Enumeration.bytes
    (by simp [File.items]) hshort h.enums fun _ _ _ he => he.isMessage
  have hservices := fits_payloads 6 "google.protobuf.ServiceDescriptorProto" Service.bytes
    (by simp [File.items]) hshort h.services fun _ _ _ hs => hs.isMessage
  have hextensions := fits_payloads 7 "google.protobuf.FieldDescriptorProto" Field.bytes
    (by simp [File.items]) hshort h.extensions fun _ _ _ hx => hx.isMessage
  rw [File.layoutOf]
  simp only [File.items, List.forall_mem_append, Wire.forall_mem_delimitedItems, Wire.forall_mem_varintItems,
    List.forall_mem_map]
  simpa [Wire.contentFits, Wire.Layout.shape?, part] using
    ⟨⟨⟨⟨hmessages, henums⟩, hservices⟩, hextensions⟩, h.options.fits⟩

end ContractShell.Descriptor
