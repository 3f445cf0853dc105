import ContractShell.Proofs.Library.ThirdDialect
import ContractShell.Proofs.Value.Lines
import ContractShell.Proofs.Value.Range
import ContractShell.Proofs.Wire.Joining

/-!
What becomes of bytes that come from elsewhere.

Bytes are read as a message of a type or refused as malformed. In the third dialect the text in a message is checked, every
number is brought into the range of its field, and what is not there holds zero. So whatever is read has all fields of the
schema, each of its kind and in its range, can be shown and spelled, and is read back from the bytes that it is written as,
as long as no field hides an operation and these bytes are not too many.

## Main statements

* `takes_leafValue`: what a slot of the third dialect holds is of its type, whatever the items are.
* `Library.FieldsLinked.read`: so is what the slots of a whole message hold.
* `Library.answers_iff`: bytes are refused, or read as a whole value, which is then read back from its own bytes.
-/

namespace ContractShell

open Descriptor (FieldType Linked Pool Slot)
open Library (FieldsLinked IsFaithful IsThird Meets)
open Wire (Item Layouts)

/-! ## 1. Plain fields -/

/-- A plain value is of a kind, and its integer is in the range of the widest type of the kind. -/
inductive LeafKind.Fills : LeafKind → Value → Prop where
  | bool (b : Bool) : Fills .bool (.bool b)
  | int {n : Int} (hlow : -0x8000000000000000 ≤ n) (hhigh : n < 0x8000000000000000) : Fills .int (.int n)
  | uint {n : Int} (hlow : 0 ≤ n) (hhigh : n < 0x10000000000000000) : Fills .uint (.int n)
  | string (s : String) : Fills .string (.text s)
  | bytes (b : Bytes) : Fills .bytes (.bytes b)
  | bytesHex (b : Bytes) : Fills .bytesHex (.bytes b)
  | bytesAddress (b : Bytes) : Fills .bytesAddress (.bytes b)

section

variable {kind : LeafKind} {type : FieldType} {x : Value}

theorem LeafKind.Fills.admits (h : kind.Fills x) : kind.Admits x := by
  cases h with
  | bool b => exact .bool b
  | int => exact .int _
  | uint => exact .uint _
  | string s => exact .string s
  | bytes b => exact .bytes b
  | bytesHex b => exact .bytesHex b
  | bytesAddress b => exact .bytesAddress b

/-- Every value that fills a kind has a text. -/
theorem LeafKind.Fills.exists_text (h : kind.Fills x) : ∃ text, kind.text x = .ok text := by
  cases h with
  | bool b => exact ⟨_, rfl⟩
  | int hlow hhigh => exact ⟨_, LeafKind.text_int (isWritable_of_lt (by omega))⟩
  | uint hlow hhigh => exact ⟨_, LeafKind.text_uint (isWritable_of_lt (by omega))⟩
  | string s => exact ⟨_, rfl⟩
  | bytes b | bytesHex b | bytesAddress b => exact ⟨_, rfl⟩

/-- Every value that fills a kind can be shown. -/
theorem LeafKind.Fills.exists_shown (h : kind.Fills x) : ∃ text, kind.shown x = .ok text := by
  cases hkind : kind with
  | string =>
    rw [hkind] at h
    cases h
    exact ⟨_, rfl⟩
  | _ =>
    rw [← hkind]
    obtain ⟨text, htext⟩ := h.exists_text
    refine ⟨text, ?_⟩
    rw [hkind] at htext ⊢
    exact htext

/-- Byte strings are of one of three kinds. -/
theorem LeafKind.ofHint_eq (hint : Option BytesHint) :
    LeafKind.ofHint hint = .bytes ∨ LeafKind.ofHint hint = .bytesHex ∨ LeafKind.ofHint hint = .bytesAddress := by
  unfold LeafKind.ofHint
  split <;> simp

/-- A value of a type fills the kinds that suit the type. -/
theorem LeafKind.Suits.fills (hkind : kind.Suits type) (h : Takes type x) : kind.Fills x := by
  cases hkind with
  | bool =>
    cases h with
    | bool b => exact .bool b
    | integer hrange _ => cases hrange
  | int32 | int64 | uint32 | uint64 =>
    cases h with
    | integer hrange hn =>
      cases hrange
      obtain ⟨hlow, hhigh⟩ := hn
      dsimp only at hlow hhigh
      constructor <;> omega
  | string =>
    cases h with
    | integer hrange _ => cases hrange
    | string s => exact .string s
  | bytes hint =>
    cases h with
    | integer hrange _ => cases hrange
    | bytes b =>
      rcases LeafKind.ofHint_eq hint with hhint | hhint | hhint
      · exact hhint ▸ .bytes b
      · exact hhint ▸ .bytesHex b
      · exact hhint ▸ .bytesAddress b

/-- A value of a type is not out of the type's range. -/
theorem outOf?_of_takes (h : Takes type x) : outOf? (integerRange? type) x = none := by
  cases h with
  | integer hrange hn =>
    rw [hrange, outOf?, if_pos hn]
  | bool b | string s | bytes b => rfl

end

/-- The low bits of a number are a signed number of so many bits. -/
theorem signed_range {bits : Nat} (hbits : 0 < bits) (n : Nat) :
    -(Nat.pow 2 (bits - 1) : Int) ≤ Wire.signed bits n ∧ Wire.signed bits n < Nat.pow 2 (bits - 1) := by
  have hpow : Nat.pow 2 bits = 2 * Nat.pow 2 (bits - 1) := by
    obtain ⟨k, rfl⟩ : ∃ k, bits = k + 1 := ⟨bits - 1, by omega⟩
    rw [Nat.add_sub_cancel, Nat.pow_eq, Nat.pow_eq, Nat.pow_succ, Nat.mul_comm]
  have hlow : n % Nat.pow 2 bits < Nat.pow 2 bits := Nat.mod_lt n (Nat.pow_pos (by decide))
  unfold Wire.signed
  dsimp only
  split <;> omega

/-- What a varint means in a field for integers is in the field's range. -/
theorem takes_ofVarint {type : FieldType} {range : Int × Int} (hrange : integerRange? type = some range) {n : Nat}
    (hn : n < 2 ^ 64) : Takes type (ofVarint type n) := by
  rcases type_of_integerRange? hrange with ⟨rfl, rfl⟩ | ⟨rfl, rfl⟩ | ⟨rfl, rfl⟩ | ⟨rfl, rfl⟩
  · exact .integer hrange (signed_range (show 0 < 32 by decide) n)
  · exact .integer hrange (signed_range (show 0 < 64 by decide) n)
  · refine .integer hrange ⟨?_, ?_⟩ <;> dsimp only <;> omega
  · refine .integer hrange ⟨?_, ?_⟩ <;> dsimp only <;> omega

theorem exists_textValue {b : Bytes} (h : Text.Utf8.valid b = true) : ∃ s, textValue b = .text s := by
  obtain ⟨s, hs⟩ := Option.isSome_iff_exists.mp h
  refine ⟨String.ofList s, ?_⟩
  unfold textValue Text.Utf8.toString?
  rw [hs]
  rfl

section

variable {slot : Slot} {kind : LeafKind}

/-- A slot without a default of its own holds zero of its type when nothing is given. -/
theorem takes_defaultValue (hkind : kind.Suits slot.type) (hdefault : slot.default = .zero) :
    Takes slot.type (defaultValue slot) := by
  unfold defaultValue
  rw [hdefault]
  generalize slot.type = type at hkind ⊢
  cases hkind with
  | bool => exact .bool false
  | int32 | int64 | uint32 | uint64 => exact .integer rfl ⟨by decide, by decide⟩
  | string => exact .string ""
  | bytes hint => exact .bytes []

/-- What a slot of the third dialect holds is of its type, whatever the items are. -/
theorem takes_leafValue (hkind : kind.Suits slot.type) (hdefault : slot.default = .zero) {items : List Item}
    (hsmall : ∀ n v, .varint n v ∈ items → v < 2 ^ 64)
    (htext : slot.type = .string → ∀ p, .delimited slot.number p ∈ items → Text.Utf8.valid p = true) :
    Takes slot.type (leafValue slot items) := by
  have hzero := takes_defaultValue hkind hdefault
  have hnumber : ∀ range, integerRange? slot.type = some range →
      Takes slot.type (((Wire.numbers slot.number items).getLast?.map (ofVarint slot.type)).getD (defaultValue slot)) := by
    intro range hrange
    cases hlast : (Wire.numbers slot.number items).getLast? with
    | none => exact hzero
    | some v => exact takes_ofVarint hrange (hsmall _ v (Wire.mem_numbers.mp (List.mem_of_getLast? hlast)))
  -- The type of the slot says which items are looked at.
  unfold leafValue
  generalize htype : slot.type = type at *
  cases hkind with
  | bool =>
    cases (Wire.numbers slot.number items).getLast? with
    | none => exact hzero
    | some v => exact .bool _
  | int32 | int64 | uint32 | uint64 => exact hnumber _ rfl
  | string =>
    cases hlast : Wire.lastPayload? slot.number items with
    | none => exact hzero
    | some p =>
      obtain ⟨s, hs⟩ := exists_textValue (htext rfl p ((Wire.mem_payloads _ _).mp (List.mem_of_getLast? hlast)))
      show Takes .string (textValue p)
      rw [hs]
      exact .string s
  | bytes hint =>
    cases Wire.lastPayload? slot.number items with
    | none => exact hzero
    | some p => exact .bytes p

end

/-! ## 2. Nested messages -/

/-- The bytes of a nested message are one or more messages of its type, one after the other, or none. -/
theorem exists_flatten_nestedBytesOf {layouts : Layouts} {type : String} {slot : Slot}
    (htype : slot.type.isMessage = true) (hshape : (layouts.layoutOf type).shape? slot.number = Pool.shapeOf? slot)
    {items : List Item} (hitems : ∀ i ∈ items, i.Fits layouts type) :
    ∃ ps : List Bytes, nestedBytesOf slot items = ps.flatten ∧ ∀ p ∈ ps, Wire.IsNested layouts slot.target p := by
  unfold Pool.shapeOf? at hshape
  unfold nestedBytesOf
  cases htype' : slot.type with
  | message =>
    rw [htype'] at hshape
    refine ⟨Wire.payloads slot.number items, ?_, fun p hp => ?_⟩
    · rw [if_neg (by decide)]
      unfold Wire.joinedPayload?
      cases Wire.payloads slot.number items <;> rfl
    · exact (hitems _ ((Wire.mem_payloads _ _).mp hp)).message hshape
  | group =>
    rw [htype'] at hshape
    rw [if_pos rfl, Wire.joinedContent, List.flatMap_def]
    refine ⟨_, rfl, fun p hp => ?_⟩
    -- An item that is no group of this number adds the message without fields.
    obtain ⟨i, hi, rfl⟩ := List.mem_map.mp hp
    cases i with
    | group n c =>
      by_cases hn : n = slot.number
      · dsimp only
        rw [if_pos hn]
        exact (hitems _ hi).group (hn ▸ hshape)
      · dsimp only
        rw [if_neg hn]
        exact Wire.isNested_nil
    | _ => exact Wire.isNested_nil
  | _ =>
    rw [htype'] at htype
    cases htype

/-! ## 3. Messages -/

/-- The members of a message are, in order, values of the slots of a linked type. -/
inductive FieldsRead (lib : Library) : String → Linked → List Field → List (String × Value) → Prop where
  | nil {type : String} {linked : Linked} : FieldsRead lib type linked [] []
  | leaf {type name : String} {kind : LeafKind} {linked : Linked} {slot : Slot} {x : Value} {fields : List Field}
      {members : List (String × Value)} (hslot : linked.slot? name = some slot) (hsingle : slot.repeated = false)
      (hkind : kind.Suits slot.type) (hrange : lib.rangeOf? type name = integerRange? slot.type)
      (hzero : slot.GivesZero) (htakes : Takes slot.type x) (h : FieldsRead lib type linked fields members) :
      FieldsRead lib type linked (.leaf name kind :: fields) ((name, x) :: members)
  | message {type name target : String} {linked next : Linked} {slot : Slot} {inner fields : List Field}
      {xs members : List (String × Value)} (hslot : linked.slot? name = some slot) (hsingle : slot.repeated = false)
      (htype : slot.type.isMessage = true) (hfind : lib.pool.find? slot.target = some next)
      (hnames : next.slots.map (·.name) = inner.map (·.name)) (hx : FieldsRead lib target next inner xs)
      (h : FieldsRead lib type linked fields members) :
      FieldsRead lib type linked (.message name (.mk target inner) :: fields) ((name, .message xs) :: members)

section

variable {lib : Library} {type : String} {linked : Linked} {fields : List Field} {members : List (String × Value)}

/-- A type that has a slot is no container, so its items have the shapes that its layout asks for. -/
theorem shape_and_fits_of_slot {pool : Pool} (hpool : pool.IsSound) {key : String}
    (hfind : pool.find? key = some linked) {slot : Slot} (hslot : slot ∈ linked.slots) {items : List Item}
    (hitems : Wire.AreOf pool.layouts key items) :
    (pool.layouts.layoutOf key).shape? slot.number = Pool.shapeOf? slot ∧ ∀ i ∈ items, i.Fits pool.layouts key := by
  have hsound := hpool.of_find? hfind
  refine ⟨Pool.shape?_layoutOf hfind hsound hslot, hitems.fits ?_⟩
  rw [Pool.layoutOf_layouts hfind]
  show linked.isContainer = false
  rw [Bool.eq_false_iff]
  intro hcontainer
  rw [hsound.container hcontainer] at hslot
  cases hslot

/-- What the slots of a linked type hold are values of a schema over it, whatever the items of the message are. -/
theorem Library.FieldsLinked.read (h : FieldsLinked lib type linked fields) (hpool : lib.pool.IsSound) {key : String}
    (hfind : lib.pool.find? key = some linked) (hdistinct : haveDistinctNames fields)
    (hrivals : ∀ last, Visits lib.pool linked fields last → last.HasNoRivals)
    (hstrict : ∀ last, Visits lib.pool linked fields last → last.IsStrict) {items : List Item}
    (hitems : Wire.AreOf lib.pool.layouts key items) :
    FieldsRead lib type linked fields
      (fields.filterMap fun f => (fieldValue? lib.pool linked items f).map (f.name, ·)) := by
  -- along the fields; inside of a message the items are those of all its parts together
  induction h generalizing key items with
  | nil => exact .nil
  | @leaf type name kind linked slot fields hslot hsingle hkind hrange hzero _ ih =>
    have hmem := (Descriptor.Linked.mem_of_slot? hslot).1
    obtain ⟨hshape, hfits⟩ := shape_and_fits_of_slot hpool hfind hmem hitems
    obtain ⟨hchecks, hdefault⟩ := hstrict linked .here slot hmem kind hkind
    have htext : slot.type = .string → ∀ p, .delimited slot.number p ∈ items → Text.Utf8.valid p = true := by
      intro htype p hp
      apply (hfits _ hp).text
      rw [hshape, Pool.shapeOf?, htype, hchecks]
      rfl
    have hvalue : fieldValue? lib.pool linked items (.leaf name kind) = some (leafValue slot items) := by
      rw [fieldValue?, hslot]
      rfl
    rw [List.filterMap_cons, hvalue]
    exact .leaf hslot hsingle hkind hrange hzero (takes_leafValue hkind hdefault hitems.small htext)
      (ih hfind hdistinct (fun last hl => hrivals last hl.cons) (fun last hl => hstrict last hl.cons) hitems)
  | @message type name target linked next slot inner fields hslot hsingle htype hfindNext hnames _ _ ihx ih =>
    obtain ⟨hshape, hfits⟩ := shape_and_fits_of_slot hpool hfind (Descriptor.Linked.mem_of_slot? hslot).1 hitems
    obtain ⟨ps, hbytes, hps⟩ := exists_flatten_nestedBytesOf htype hshape hfits
    have hinner := Wire.areOf_itemsOf_flatten hps
    have hinside : ∀ last, Visits lib.pool next inner last →
        Visits lib.pool linked (.message name (.mk target inner) :: fields) last :=
      fun last hl => .inside List.mem_cons_self hslot hfindNext hl
    have hnext := hpool.of_find? hfindNext
    have hvalue : fieldValue? lib.pool linked items (.message name (.mk target inner)) = some (.message
        (inner.filterMap fun f => (fieldValue? lib.pool next (Wire.itemsOf ps.flatten) f).map (f.name, ·))) := by
      rw [fieldValue?, hslot]
      simp only [Schema.valueOf, hfindNext, hbytes]
      rw [settle_eq_self hnext (hrivals next (hinside next .here)), fieldValues_eq _ hdistinct.1.1 [] (by simp),
        List.nil_append]
    rw [List.filterMap_cons, hvalue]
    exact .message hslot hsingle htype hfindNext hnames
      (ihx hfindNext hdistinct.1.2 (fun last hl => hrivals last (hinside last hl))
        (fun last hl => hstrict last (hinside last hl)) hinner)
      (ih hfind hdistinct.2 (fun last hl => hrivals last hl.cons) (fun last hl => hstrict last hl.cons) hitems)

theorem FieldsRead.names (h : FieldsRead lib type linked fields members) :
    members.map (·.1) = fields.map (·.name) := by
  induction h with
  | nil => rfl
  | leaf _ _ _ _ _ _ _ ih | message _ _ _ _ _ _ _ _ ih =>
    rw [List.map_cons, List.map_cons, ih]
    rfl

theorem FieldsRead.member?_eq (h : FieldsRead lib type linked fields members) (hnames : (fields.map (·.name)).Nodup) :
    ∀ p ∈ members, Value.member? p.1 members = some p.2 := by
  rw [← h.names] at hnames
  exact fun p hp => member?_of_mem hnames hp

/-- The members that were read are those of the fields. -/
theorem FieldsRead.are (h : FieldsRead lib type linked fields members) (hdistinct : haveDistinctNames fields)
    {whole : List (String × Value)} (hwhole : ∀ p ∈ members, Value.member? p.1 whole = some p.2) :
    FieldsAre LeafKind.Fills fields whole := by
  -- `whole` stays all of the message, of which `members` is what the fields that are left hold
  induction h generalizing whole with
  | nil => exact .nil
  | leaf _ _ hkind _ _ htakes _ ih =>
    rw [List.forall_mem_cons] at hwhole
    exact .leaf hwhole.1 (hkind.fills htakes) (ih hdistinct hwhole.2)
  | message _ _ _ _ _ hx _ ihx ih =>
    rw [List.forall_mem_cons] at hwhole
    have hlength := congrArg List.length hx.names
    rw [List.length_map, List.length_map] at hlength
    exact .message hwhole.1 hlength (ihx hdistinct.1.2 (hx.member?_eq hdistinct.1.1)) (ih hdistinct.2 hwhole.2)

/-- No integer that was read is out of the range of its declared field. -/
theorem FieldsRead.firstOutOfRange? (h : FieldsRead lib type linked fields members)
    (hdistinct : haveDistinctNames fields) {whole : List (String × Value)}
    (hwhole : ∀ p ∈ members, Value.member? p.1 whole = some p.2) : lib.firstOutOfRange? type whole fields = none := by
  induction h generalizing whole with
  | nil => rw [Library.firstOutOfRange?]
  | leaf _ _ _ hrange _ htakes _ ih =>
    rw [List.forall_mem_cons] at hwhole
    rw [firstOutOfRange?_leaf hwhole.1, hrange, outOf?_of_takes htakes, ih hdistinct hwhole.2]
    rfl
  | message _ _ _ _ _ hx _ ihx ih =>
    rw [List.forall_mem_cons] at hwhole
    rw [firstOutOfRange?_message hwhole.1, ihx hdistinct.1.2 (hx.member?_eq hdistinct.1.1), ih hdistinct.2 hwhole.2]
    rfl

/-- What was read is carried when no field hides the operation of putting a message into another. -/
theorem FieldsRead.carry (h : FieldsRead lib type linked fields members) (hplaces : hideNoPlacing fields) :
    FieldsCarry lib.pool linked fields members := by
  induction h with
  | nil => exact .nil
  | leaf hslot hsingle _ _ hzero htakes _ ih => exact .leaf hslot (hzero.keeps hsingle htakes) (ih hplaces)
  | @message _ _ _ _ next _ inner _ _ _ hslot hsingle htype hfind hnames _ _ ihx ih =>
    have hcompletes : Completes next inner := by
      intro s hs _
      rw [← hnames]
      exact List.mem_map_of_mem hs
    exact .message hslot hsingle htype hfind (slot?_eq_none_of_names hnames hplaces.1.1) hcompletes (ihx hplaces.1.2)
      (ih hplaces.2)

/-- Members that fill their fields have texts. -/
theorem FieldsAre.exists_texts (h : FieldsAre LeafKind.Fills fields members) (done : Command.Values) :
    ∃ texts, unbindFields (.message members) fields done = .ok texts := by
  induction h generalizing done with
  | nil => exact ⟨done, by rw [unbindFields]⟩
  | leaf hfind hx _ ih =>
    obtain ⟨text, htext⟩ := hx.exists_text
    rw [unbindFields, Value.memberIn_message, hfind]
    simp only [htext]
    exact ih _
  | message hfind _ _ _ ihx ih =>
    obtain ⟨innerTexts, hinner⟩ := ihx []
    rw [unbindFields, Value.memberIn_message, hfind]
    simp only [Schema.unbind, hinner]
    exact ih _

/-- Members that fill their fields can be shown. -/
theorem FieldsAre.exists_lines (h : FieldsAre LeafKind.Fills fields members) (indent : String) :
    ∃ lines, displayFields indent (.message members) fields = .ok lines := by
  induction h with
  | nil => exact ⟨[], by rw [displayFields]⟩
  | leaf hfind hx _ ih =>
    obtain ⟨text, htext⟩ := hx.exists_shown
    obtain ⟨lines, hlines⟩ := ih
    rw [displayFields, Value.memberIn_message, hfind]
    simp only [htext, hlines]
    exact ⟨_, rfl⟩
  | message hfind _ _ _ ihx ih =>
    obtain ⟨innerLines, hinner⟩ := ihx
    obtain ⟨lines, hlines⟩ := ih
    rw [displayFields, Value.memberIn_message, hfind]
    simp only [Schema.display, hinner, hlines]
    exact ⟨_, rfl⟩

end

/-! ## 4. Libraries -/

namespace Library

variable {lib : Library} {name : String} {schema : Schema} {v : Value}

/-- A value is a whole message of a schema: it has all fields, each of its kind and in the range of the declared field, can
be shown, and can be spelled. -/
structure IsWhole (lib : Library) (schema : Schema) (v : Value) : Prop where
  isOf : schema.IsOf LeafKind.Fills v
  inRange : lib.outOfRange? schema v = none
  shown : ∀ indent, ∃ lines, schema.display indent v = .ok lines
  spelled : ∃ texts, schema.unbind v = .ok texts

/-- Bytes are refused as malformed, or they are read as a whole message. -/
def Answers (lib : Library) (schema : Schema) (b : Bytes) : Prop :=
  lib.decode schema b = .error (.malformed schema.name) ∨ ∃ v, lib.decode schema b = .ok v ∧ lib.IsWhole schema v

/-- What bytes give for a linked type. -/
theorem decode_of_linked? {linked : Linked} (hname : schema.name.isEmpty = false)
    (hfind : lib.linked? schema.name = some linked) (b : Bytes) :
    lib.decode schema b = match linked.slot? readingOperation with
      | some field => .error (.misused (.hiddenOperation field.freshKindName))
      | none =>
        if Wire.wellFormed lib.pool.layouts (bareName schema.name) b then
          .ok (schema.valueOf lib.pool (bareName schema.name) (Wire.itemsOf b))
        else .error (.malformed schema.name) := by
  have hfound : lib.pool.find? (bareName schema.name) = some linked := hfind
  unfold decode
  rw [if_neg (by rw [hname]; exact Bool.false_ne_true)]
  cases hslot : linked.slot? readingOperation with
  | none => simp only [hfound, hslot]
  | some field => simp only [hfound, hslot]

/-- The message that the items of bytes are has what its slots hold, field by field. -/
theorem valueOf_of_linked? {linked : Linked} (hfind : lib.linked? schema.name = some linked) (hsound : linked.IsSound)
    (hrivals : linked.HasNoRivals) (hnames : (schema.fields.map (·.name)).Nodup) (items : List Item) :
    schema.valueOf lib.pool (bareName schema.name) items =
      .message (schema.fields.filterMap fun f => (fieldValue? lib.pool linked items f).map (f.name, ·)) := by
  have hfound : lib.pool.find? (bareName schema.name) = some linked := hfind
  obtain ⟨type, fields⟩ := schema
  have hnames : (fields.map (·.name)).Nodup := hnames
  simp only [Schema.valueOf, hfound]
  rw [settle_eq_self hsound hrivals, fieldValues_eq items hnames [] (by simp), List.nil_append]
  rfl

/-- Members that were read are a whole message. -/
theorem isWhole_of_read {linked : Linked} {members : List (String × Value)} (hdistinct : schema.HasDistinctNames)
    (h : FieldsRead lib schema.name linked schema.fields members) : lib.IsWhole schema (.message members) := by
  obtain ⟨type, fields⟩ := schema
  have hmembers := h.member?_eq hdistinct.1
  have hare := h.are hdistinct.2 hmembers
  have hlength := congrArg List.length h.names
  rw [List.length_map, List.length_map] at hlength
  constructor
  · exact ⟨members, rfl, hlength, hare⟩
  · rw [outOfRange?, Value.members]
    exact h.firstOutOfRange? hdistinct.2 hmembers
  · intro indent
    rw [Schema.display]
    exact hare.exists_lines indent
  · rw [Schema.unbind]
    exact hare.exists_texts []

/-- The message of the schema without a name is whole. -/
theorem isWhole_empty : lib.IsWhole .empty (.message []) := by
  constructor
  · exact ⟨[], rfl, rfl, .nil⟩
  · rfl
  · exact fun indent => ⟨[], rfl⟩
  · exact ⟨[], rfl⟩

section

variable {linked : Linked} {members : List (String × Value)} (hname : schema.name.isEmpty = false)
  (hfind : lib.linked? schema.name = some linked) (hnames : linked.slots.map (·.name) = schema.fields.map (·.name))

include hname hfind hnames

/-- Nothing is read of a message with a field that hides the operation that reads. -/
theorem decode_of_hidden (hhidden : readingOperation ∈ schema.fields.map (·.name)) (b : Bytes) :
    ∃ fault, lib.decode schema b = .error (.misused fault) := by
  rw [decode_of_linked? hname hfind b]
  cases hreading : linked.slot? readingOperation with
  | none => exact absurd hhidden (not_mem_of_slot?_eq_none hnames hreading)
  | some field => exact ⟨_, rfl⟩

/-- With such a field bytes are neither refused as malformed nor read. -/
theorem not_answers_of_hidden (hhidden : readingOperation ∈ schema.fields.map (·.name)) (b : Bytes) :
    ¬ lib.Answers schema b := by
  obtain ⟨fault, hfault⟩ := decode_of_hidden hname hfind hnames hhidden b
  rintro (hrefused | ⟨v, hv, -⟩)
  · rw [hfault] at hrefused
    cases hrefused
  · rw [hfault] at hv
    cases hv

variable (hpool : lib.pool.IsSound) (hrivals : lib.HasNoRivals schema)
  (hfields : FieldsLinked lib schema.name linked schema.fields)

include hpool hrivals hfields

/-- Where the operation that reads is not hidden, bytes are refused as malformed, or values of the slots are read. -/
theorem exists_read (hstrict : ∀ last, Visits lib.pool linked schema.fields last → last.IsStrict)
    (hreadable : readingOperation ∉ schema.fields.map (·.name)) (b : Bytes) :
    lib.decode schema b = .error (.malformed schema.name) ∨ ∃ members, lib.decode schema b = .ok (.message members) ∧
      FieldsRead lib schema.name linked schema.fields members := by
  have hdecode := decode_of_linked? hname hfind b
  rw [slot?_eq_none_of_names hnames hreadable] at hdecode
  by_cases hformed : Wire.wellFormed lib.pool.layouts (bareName schema.name) b = true
  · right
    obtain ⟨hnodup, hinner⟩ :=
      Schema.hasDistinctNames_iff.mp (hasDistinctNames_of_linked hpool hfind hnames hfields)
    have hitems := Wire.areOf_itemsOf (Wire.isNested_of_wellFormed hformed)
    have hvalue := valueOf_of_linked? hfind (hpool.of_find? hfind) (hrivals linked hfind linked .here) hnodup
      (Wire.itemsOf b)
    simp only [hformed, if_true, hvalue] at hdecode
    exact ⟨_, hdecode, hfields.read hpool hfind hinner (hrivals linked hfind) hstrict hitems⟩
  · left
    simp only [hformed] at hdecode
    exact hdecode

/-- Members that were read are read back from their bytes when nothing is hidden and the bytes are not too many. -/
theorem exists_bytes_of_read (hdepth : schema.depth < Wire.maxDepth)
    (h : FieldsRead lib schema.name linked schema.fields members) (hhides : schema.HidesNothing)
    (hshort : lib.IsShort schema (.message members)) :
    ∃ b, lib.encode schema (.message members) = .ok b ∧ lib.decode schema b = .ok (.message members) := by
  have hdistinct := hasDistinctNames_of_linked hpool hfind hnames hfields
  have hcompletes : Completes linked schema.fields := by
    intro s hs _
    rw [← hnames]
    exact List.mem_map_of_mem hs
  have hplaces : hideNoPlacing schema.fields := by
    cases schema
    exact hhides.placing
  exact Carries.exists_bytes hpool hdistinct hrivals hdepth (.message hname hfind
    (slot?_eq_none_of_names hnames hhides.writing) (slot?_eq_none_of_names hnames hhides.reading) hcompletes
    (h.carry hplaces) hshort)

/-- Bytes of a linked type are answered just when no field hides the operation that reads. -/
theorem answers_iff_of_linked (hstrict : ∀ last, Visits lib.pool linked schema.fields last → last.IsStrict)
    (b : Bytes) : lib.Answers schema b ↔ readingOperation ∉ schema.fields.map (·.name) := by
  constructor
  · intro hanswers hhidden
    exact not_answers_of_hidden hname hfind hnames hhidden b hanswers
  · intro hreadable
    have hdistinct := hasDistinctNames_of_linked hpool hfind hnames hfields
    rcases exists_read hname hfind hnames hpool hrivals hfields hstrict hreadable b with
      hrefused | ⟨members, hdecode, hread⟩
    · exact .inl hrefused
    · exact .inr ⟨_, hdecode, isWhole_of_read hdistinct hread⟩

/-- What was read is read back from its own bytes just when no operation is hidden and the bytes are not too many. -/
theorem returns_iff_of_linked (hstrict : ∀ last, Visits lib.pool linked schema.fields last → last.IsStrict)
    (hdepth : schema.depth < Wire.maxDepth) {b : Bytes} (hv : lib.decode schema b = .ok v) :
    (∃ c, lib.encode schema v = .ok c ∧ lib.decode schema c = .ok v) ↔
      schema.HidesNothing ∧ lib.IsShort schema v := by
  have hreadable : readingOperation ∉ schema.fields.map (·.name) := by
    intro hhidden
    obtain ⟨fault, hfault⟩ := decode_of_hidden hname hfind hnames hhidden b
    rw [hfault] at hv
    cases hv
  rcases exists_read hname hfind hnames hpool hrivals hfields hstrict hreadable b with
    hrefused | ⟨members, hdecode, hread⟩
  · rw [hrefused] at hv
    cases hv
  · rw [hdecode, Except.ok.injEq] at hv
    rw [← hv]
    constructor
    · rintro ⟨c, hencode, hagain⟩
      obtain ⟨hnodup, hinner⟩ :=
        Schema.hasDistinctNames_iff.mp (hasDistinctNames_of_linked hpool hfind hnames hfields)
      have hadmits := (hread.are hinner (hread.member?_eq hnodup)).imp fun _ _ hx => hx.admits
      exact hidesNothing_of_encode hname hfind hnames hfields hadmits hencode hagain
    · rintro ⟨hhides, hshort⟩
      exact exists_bytes_of_read hname hfind hnames hpool hrivals hfields hdepth hread hhides hshort

end

/-- What becomes of bytes in the third dialect. They are refused as malformed or read as a whole message, unless a field
hides the operation that reads. What was read is read back from the bytes that it is written as just when no field hides
an operation and these bytes are not too many. -/
theorem answers_iff (hlib : lib.IsLoaded) (hschema : lib.schema name = .ok schema) (hrivals : lib.HasNoRivals schema)
    (hdepth : schema.depth < Wire.maxDepth) (hfaithful : ∀ type, lib.Meets (bareName name) type → lib.IsFaithful type)
    (hthird : ∀ type, lib.Meets (bareName name) type → lib.IsThird type) (b : Bytes) :
    (lib.Answers schema b ↔ readingOperation ∉ schema.fields.map (·.name)) ∧
    ∀ v, lib.decode schema b = .ok v →
      ((∃ c, lib.encode schema v = .ok c ∧ lib.decode schema c = .ok v) ↔
        schema.HidesNothing ∧ lib.IsShort schema v) := by
  rcases exists_linked_of_schema hlib hschema hfaithful with rfl | ⟨hname, linked, hfind, hnames, hfields⟩
  · -- The schema without a name has no fields, whatever the bytes are.
    have hdecode : ∀ c, lib.decode .empty c = .ok (.message []) := fun c => rfl
    have hhides : Schema.empty.HidesNothing := ⟨List.not_mem_nil, List.not_mem_nil, trivial⟩
    refine ⟨⟨fun _ => List.not_mem_nil, fun _ => .inr ⟨_, hdecode b, isWhole_empty⟩⟩, ?_⟩
    intro v hv
    rw [hdecode, Except.ok.injEq] at hv
    rw [← hv]
    exact ⟨fun _ => ⟨hhides, isShort_empty⟩, fun _ => ⟨[], rfl, hdecode []⟩⟩
  · have hpool := hlib.isSound
    have hstrict : ∀ last, Visits lib.pool linked schema.fields last → last.IsStrict :=
      fun last hvisits => isStrict_of_visits hlib hschema hname hfaithful hthird hfind hvisits
    constructor
    · exact answers_iff_of_linked hname hfind hnames hpool hrivals hfields hstrict b
    · intro v hv
      exact returns_iff_of_linked hname hfind hnames hpool hrivals hfields hstrict hdepth hv

/-! ## 5. One number -/

section

variable {type field : String} {file : Bytes}

theorem isThird_number (h : (Descriptor.File.ofBytes file).isThird = true) (last : String) :
    (ofPlain (Descriptor.File.ofBytes file)).IsThird last := by
  intro f hf _
  rw [List.mem_singleton.mp hf]
  exact h

/-- What bytes give where there is one number: the last varint of the field. -/
theorem decode_number (h : isNumberFile type field file = true) (hfield : field ≠ readingOperation) (b : Bytes) :
    (ofPlain (Descriptor.File.ofBytes file)).decode (numberSchema type field) b =
      if Wire.wellFormed (ofPlain (Descriptor.File.ofBytes file)).pool.layouts type b then
        .ok (.message [(field, leafValue (numberSlot field) (Wire.itemsOf b))])
      else .error (.malformed type) := by
  obtain ⟨hload, -, linked, hlinked, hslots⟩ := of_isNumberFile h
  have hnames : bareName type = type ∧ type.isEmpty = false := by
    unfold isNumberFile at h
    simp only [Bool.and_eq_true, Bool.not_eq_true', beq_iff_eq] at h
    exact ⟨h.1.1.2, h.1.2⟩
  have hsound := (isLoaded_ofBytes hload).isSound.of_find? hlinked
  have hslot := slot?_number hslots
  have hvalue := @valueOf_of_linked? _ (numberSchema type field) linked hlinked hsound
    (hasNoRivals_number h linked hlinked linked .here) (List.nodup_singleton field) (Wire.itemsOf b)
  have hmembers : (numberSchema type field).fields.filterMap (fun f => (fieldValue?
      (ofPlain (Descriptor.File.ofBytes file)).pool linked (Wire.itemsOf b) f).map (f.name, ·)) =
      [(field, leafValue (numberSlot field) (Wire.itemsOf b))] := by
    have hfound : linked.slot? field = some (numberSlot field) := by rw [hslot, if_pos rfl]
    show [Field.leaf field .uint].filterMap _ = _
    rw [List.filterMap_cons, fieldValue?, hfound]
    rfl
  have hschema : (numberSchema type field).name = type := rfl
  have hdecode := @decode_of_linked? _ (numberSchema type field) linked hnames.2 hlinked b
  rw [hslot, if_neg hfield, hvalue, hmembers, hschema, hnames.1] at hdecode
  exact hdecode

end

/-- Bytes with one number are read and read back, and bytes that end early are refused. -/
theorem answers_plain :
    isNumberFile "A" "x" plainFile = true ∧ ofBytes plainFile = .ok (ofPlain (Descriptor.File.ofBytes plainFile)) ∧
      (ofPlain (Descriptor.File.ofBytes plainFile)).decode (numberSchema "A" "x") [8, 5] = .ok (.message [("x", .int 5)]) ∧
      (ofPlain (Descriptor.File.ofBytes plainFile)).IsWhole (numberSchema "A" "x") (.message [("x", .int 5)]) ∧
      (∃ c, (ofPlain (Descriptor.File.ofBytes plainFile)).encode (numberSchema "A" "x") (.message [("x", .int 5)]) = .ok c ∧
        (ofPlain (Descriptor.File.ofBytes plainFile)).decode (numberSchema "A" "x") c = .ok (.message [("x", .int 5)])) ∧
      (ofPlain (Descriptor.File.ofBytes plainFile)).decode (numberSchema "A" "x") [8] = .error (.malformed "A") := by
  have hfile : isNumberFile "A" "x" plainFile = true := isNumberFile_files.1
  obtain ⟨hload, hschema, -⟩ := of_isNumberFile hfile
  have hdepth : (numberSchema "A" "x").depth < Wire.maxDepth := by decide
  have hhides : (numberSchema "A" "x").HidesNothing := ⟨by decide, by decide, trivial⟩
  have hthird : (Descriptor.File.ofBytes plainFile).isThird = true := by decide +kernel
  have hwhole : Wire.items? Wire.maxDepth [8, 5] = some [.varint 1 5] := by decide +kernel
  have hcut : Wire.items? Wire.maxDepth [8] = none := by decide +kernel
  -- The one item is a varint, whose content has any shape.
  have hformed : ∀ layouts, Wire.wellFormed layouts "A" [8, 5] = true := by
    intro layouts
    rw [Wire.wellFormed, Wire.wellFormedWithin.eq_def, hwhole]
    show (if _ then _ else _) = true
    split <;> rfl
  have hmalformed : ∀ layouts, Wire.wellFormed layouts "A" [8] = false := by
    intro layouts
    rw [Wire.wellFormed, Wire.wellFormedWithin.eq_def, hcut]
  have hdecode := decode_number hfile (by decide) [8, 5]
  rw [if_pos (hformed _), Wire.itemsOf, hwhole] at hdecode
  have hrefused := decode_number hfile (by decide) [8]
  rw [if_neg (Bool.eq_false_iff.mp (hmalformed _))] at hrefused
  obtain ⟨hanswers, hreturns⟩ := answers_iff (isLoaded_ofBytes hload) hschema (hasNoRivals_number hfile) hdepth
    (fun last _ => isFaithful_number hfile last) (fun last _ => isThird_number hthird last) [8, 5]
  have hshort := length_parts_number_le hfile (show (0 : Int) ≤ 5 by decide) (by decide)
  refine ⟨hfile, hload, hdecode, ?_, (hreturns _ hdecode).mpr ⟨hhides, hshort⟩, hrefused⟩
  rcases hanswers.mpr hhides.reading with hrefused | ⟨v, hv, hv'⟩
  · rw [hdecode] at hrefused
    cases hrefused
  · rw [hdecode, Except.ok.injEq] at hv
    exact hv ▸ hv'

/-- A file with one message type `A`, whose one number has the name of the operation that reads. -/
def unreadableFile : Bytes :=
  [10, 1, 116, 34, 28, 10, 1, 65, 18, 23, 10, 15, 80, 97, 114, 115, 101, 70, 114, 111, 109, 83, 116, 114, 105, 110, 103,
    24, 1, 32, 1, 40, 4, 98, 6, 112, 114, 111, 116, 111, 51]

/-- The bytes of a number are neither refused nor read when its field hides the operation that reads. -/
theorem not_answered_of_hidden_operation :
    ofBytes unreadableFile = .ok (ofPlain (Descriptor.File.ofBytes unreadableFile)) ∧
      (ofPlain (Descriptor.File.ofBytes unreadableFile)).schema "A" = .ok (numberSchema "A" readingOperation) ∧
      (ofPlain (Descriptor.File.ofBytes unreadableFile)).HasNoRivals (numberSchema "A" readingOperation) ∧
      (numberSchema "A" readingOperation).depth < Wire.maxDepth ∧
      (∀ type, (ofPlain (Descriptor.File.ofBytes unreadableFile)).Meets "A" type →
        (ofPlain (Descriptor.File.ofBytes unreadableFile)).IsFaithful type) ∧
      (∀ type, (ofPlain (Descriptor.File.ofBytes unreadableFile)).Meets "A" type →
        (ofPlain (Descriptor.File.ofBytes unreadableFile)).IsThird type) ∧
      ¬ (ofPlain (Descriptor.File.ofBytes unreadableFile)).Answers (numberSchema "A" readingOperation) [8, 5] := by
  have hfile : isNumberFile "A" readingOperation unreadableFile = true := by decide +kernel
  have hthird : (Descriptor.File.ofBytes unreadableFile).isThird = true := by decide +kernel
  obtain ⟨hload, hschema, linked, hlinked, hslots⟩ := of_isNumberFile hfile
  refine ⟨hload, hschema, hasNoRivals_number hfile, by decide, fun last _ => isFaithful_number hfile last,
    fun last _ => isThird_number hthird last, ?_⟩
  have hnames : linked.slots.map (·.name) = (numberSchema "A" readingOperation).fields.map (·.name) := by
    rw [hslots]
    rfl
  have hhidden : readingOperation ∈ (numberSchema "A" readingOperation).fields.map (·.name) := List.mem_cons_self
  have hname : (numberSchema "A" readingOperation).name.isEmpty = false := by decide
  exact not_answers_of_hidden hname hlinked hnames hhidden [8, 5]

end Library

end ContractShell
