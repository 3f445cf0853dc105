import ContractShell.Proofs.Descriptor.Dialect
import ContractShell.Proofs.Library.Linking
import ContractShell.Proofs.Value.RoundTrip
import Mathlib.Data.List.DropRight

/-!
When the linked types of a library are those that its schemas speak of.

A schema is derived from declared message types, and messages are written and read with linked ones. Both are made of the
same files, and yet they can differ: the types of a file that is passed over are not linked, a relative name is looked up
among more types in a schema than when its file is linked, and a field that is left out when it is zero can have another
default. Where none of this is so, every field of a schema has its slot.

## Main statements

* `Library.IsLoaded.isFaithful_of_isUsual`: none of this is the case in files without editions whose references are full.
* `Library.FieldsOf.linked`: the fields of a schema have slots in the linked types.
-/

namespace ContractShell

open Descriptor (FieldType Linked Slot)

/-! ## 1. Kinds, types and ranges -/

/-- A kind of plain field suits a type of declared field. -/
inductive LeafKind.Suits : LeafKind → FieldType → Prop where
  | bool : Suits .bool .bool
  | int32 : Suits .int .int32
  | int64 : Suits .int .int64
  | uint32 : Suits .uint .uint32
  | uint64 : Suits .uint .uint64
  | string : Suits .string .string
  | bytes (hint : Option BytesHint) : Suits (.ofHint hint) .bytes

/-- A slot that is left out when it holds zero holds zero when it is left out. -/
def Descriptor.Slot.GivesZero (slot : Slot) : Prop :=
  slot.hasPresence = true ∨ (slot.required = false ∧ (defaultValue slot).isTruthy = false)

/-- A plain field holds zero by default where it gives nothing else, as in the third dialect, where nothing can be given. -/
theorem eq_zero_of_defaultOf? {third : Bool} {type : FieldType} {f : Descriptor.Field}
    {default : Descriptor.Default} (h : Descriptor.Pool.defaultOf? third type .other f = some default)
    (hgiven : third = true ∨ f.default = none) : default = .zero := by
  unfold Descriptor.Pool.defaultOf? at h
  cases hd : f.default with
  | none =>
    simp only [hd, Option.some.injEq] at h
    exact h.symm
  | some text =>
    have hthird := hgiven.resolve_right (by rw [hd]; exact Option.some_ne_none _)
    simp only [hd, hthird, if_true] at h
    cases h

namespace Library

variable {lib : Library}

theorem bareName_bareName (name : String) : bareName (bareName name) = bareName name := by
  unfold bareName
  rw [String.toList_ofList, List.dropWhile_idempotent]

/-- The range of the integers of a declared field, its second end left out. -/
def rangeOf? (lib : Library) (type field : String) : Option (Int × Int) :=
  ((lib.declared? type).bind fun m => m.fields.find? (·.name == field)).bind fun f => integerRange? f.effectiveType

/-- Only a field that is not repeated and has a type of its own has a plan. -/
theorem exists_type_of_planOf {f : Descriptor.Field} {plan : Plan} (h : planOf f = .ok plan) :
    f.effectiveLabel ≠ .repeated ∧ ∃ t, f.type = some t := by
  unfold planOf at h
  by_cases hlabel : f.effectiveLabel = .repeated
  · rw [if_pos hlabel] at h
    cases h
  · rw [if_neg hlabel] at h
    refine ⟨hlabel, ?_⟩
    cases ht : f.type with
    | none =>
      unfold Descriptor.Field.effectiveType at h
      rw [ht] at h
      cases h
    | some t => exact ⟨t, rfl⟩

theorem suits_of_planOf {f : Descriptor.Field} {kind : LeafKind} (h : planOf f = .ok (.leaf kind)) :
    (f.effectiveLabel == .repeated) = false ∧ ∃ t, f.type = some t ∧ kind.Suits t := by
  obtain ⟨hlabel, t, ht⟩ := exists_type_of_planOf h
  refine ⟨beq_false_of_ne hlabel, t, ht, ?_⟩
  unfold planOf Descriptor.Field.effectiveType at h
  rw [if_neg hlabel, ht] at h
  -- Only the types of plain fields that have a kind are left.
  cases t <;> cases h
  · exact .int64
  · exact .uint64
  · exact .int32
  · exact .bool
  · exact .string
  · exact .bytes _
  · exact .uint32

theorem message_of_planOf {f : Descriptor.Field} {typeName : String} (h : planOf f = .ok (.message typeName)) :
    (f.effectiveLabel == .repeated) = false ∧ f.type = some .message ∧ typeName = f.typeName.getD "" := by
  obtain ⟨hlabel, t, ht⟩ := exists_type_of_planOf h
  unfold planOf Descriptor.Field.effectiveType at h
  rw [if_neg hlabel, ht] at h
  cases t <;> cases h
  exact ⟨beq_false_of_ne hlabel, ht, rfl⟩

/-- What is left out when it is zero holds zero: its field neither has a default besides zero nor is required. -/
theorem givesZero_of_slot? {slot : Slot} {s : Descriptor.Symbols} {third inEntry : Bool} {features : Descriptor.Features}
    {place : String} {f : Descriptor.Field} {kind : LeafKind} (hplan : planOf f = .ok (.leaf kind))
    (h : Descriptor.Pool.slot? s third features inEntry place f = some slot)
    (hzero : features.presence = .implicit → (third = true ∨ f.default = none) ∧ f.label ≠ some .required) :
    slot.GivesZero := by
  obtain ⟨hsingle, t, ht, hkind⟩ := suits_of_planOf hplan
  have hnamed : t.isNamed = false := by
    cases hkind <;> rfl
  unfold Descriptor.Pool.slot? at h
  simp only [Option.bind_eq_bind, Option.bind_eq_some_iff] at h
  obtain ⟨⟨type, name, target⟩, htarget, default, hdefault, hslot⟩ := h
  -- The type of a plain field refers to nothing.
  obtain ⟨rfl, rfl⟩ : type = t ∧ target = .other := by
    unfold Descriptor.Pool.target? at htarget
    cases hn : f.typeName with
    | none =>
      simp only [ht, hn, hnamed, Bool.false_eq_true, if_false] at htarget
      cases htarget
      exact ⟨rfl, rfl⟩
    | some n =>
      simp only [ht, hn, hnamed, Bool.false_eq_true, if_false] at htarget
      cases htarget
  cases hslot
  by_cases himplicit : features.presence = .implicit
  · obtain ⟨hgiven, hlabel⟩ := hzero himplicit
    have hrequired : (f.finalLabel features == .required) = false := by
      unfold Descriptor.Field.finalLabel Descriptor.Field.effectiveLabel
      rw [himplicit]
      cases hl : f.label with
      | none => rfl
      | some label =>
        rw [hl] at hlabel
        cases label <;> first | rfl | exact absurd rfl hlabel
    refine .inr ⟨hrequired, ?_⟩
    rw [eq_zero_of_defaultOf? hdefault hgiven]
    cases hkind <;> rfl
  · left
    show (!(f.effectiveLabel == .repeated) && _) = true
    rw [hsingle]
    cases hp : features.presence with
    | implicit => exact absurd hp himplicit
    | explicit | required => simp

/-! ## 2. Faithful types -/

/-- The message types that are met in the fields of a declared one. -/
inductive Meets (lib : Library) : String → String → Prop where
  | here {type : String} : Meets lib type type
  | inside {type last typeName : String} {m : Descriptor.Message} {f : Descriptor.Field}
      (hm : lib.declared? type = some m) (hf : f ∈ m.fields) (hplan : planOf f = .ok (.message typeName))
      (h : Meets lib (lib.resolve type typeName) last) : Meets lib type last

/-- The linked type of a name is the one that schemas speak of: its file is not passed over, its slots refer to the message
types that its fields refer to, and what is left out of it is zero. -/
structure IsFaithful (lib : Library) (type : String) : Prop where
  own : lib.IsOwn type
  alike : ∀ m linked f slot typeName, lib.declared? type = some m → lib.pool.find? type = some linked → f ∈ m.fields →
    planOf f = .ok (.message typeName) → linked.slot? f.name = some slot → slot.target = lib.resolve type typeName
  zero : ∀ m linked f slot kind, lib.declared? type = some m → lib.pool.find? type = some linked → f ∈ m.fields →
    planOf f = .ok (.leaf kind) → linked.slot? f.name = some slot → slot.GivesZero

/-- A name that starts with a point means the same for a slot as for a schema. -/
theorem target_eq_resolve {slot : Slot} {third : Bool} {features : Descriptor.Features} {type typeName : String}
    {f : Descriptor.Field} (h : slot.IsOf third features type f) (hplan : planOf f = .ok (.message typeName))
    (hfull : ∀ name, f.typeName = some name → ∃ full, name.toList = '.' :: full) :
    slot.target = lib.resolve type typeName := by
  obtain ⟨-, ht, hname⟩ := message_of_planOf hplan
  obtain ⟨given, hgiven⟩ := h.exists_typeName ht
  obtain ⟨full, hlist⟩ := hfull given hgiven
  have hsame : typeName = given := by
    rw [hname, hgiven]
    rfl
  rw [h.target ht hgiven hlist, hsame]
  unfold resolve
  rw [hlist]
  rfl

/-- A message type of a library is faithful when no file that declares it is passed over, what its file leaves out is zero,
and the message types in it are named in full. -/
theorem IsLoaded.isFaithful (hlib : lib.IsLoaded) {type : String} (hown : lib.IsOwn type)
    (hzero : ∀ f ∈ lib.files, ∀ x ∈ f.featuredMessages, x.1 = type → f.LeavesZeroOut)
    (hfull : ∀ m f name, lib.declared? type = some m → f ∈ m.fields → f.typeName = some name →
      ∃ full, name.toList = '.' :: full) : lib.IsFaithful type := by
  -- The slot of a field was made of it, in the file that declares the message type.
  have hmade : ∀ m linked f slot, lib.declared? type = some m → lib.pool.find? type = some linked → f ∈ m.fields →
      linked.slot? f.name = some slot → ∃ file ∈ lib.files, ∃ features, (type, features, m) ∈ file.featuredMessages ∧
        slot.IsOf file.isThird (m.featuresOf file.hasEdition features f) type f := by
    intro m linked f slot hm hfind hf hslot
    obtain ⟨-, file, hfile, -, features, linked', hmem, hfind', hof⟩ := hlib.exists_linked hown hm
    rw [hfind, Option.some.injEq] at hfind'
    rw [← hfind'] at hof
    obtain ⟨slot', hslot', hslotOf⟩ := hof.exists_slot (hlib.isSound.of_find? hfind) hf
    rw [hslot, Option.some.injEq] at hslot'
    rw [← hslot'] at hslotOf
    exact ⟨file, hfile, features, hmem, hslotOf⟩
  constructor
  · exact hown
  · intro m linked f slot typeName hm hfind hf hplan hslot
    obtain ⟨_, _, _, _, hslotOf⟩ := hmade m linked f slot hm hfind hf hslot
    exact target_eq_resolve hslotOf hplan (hfull m f · hm hf)
  · intro m linked f slot kind hm hfind hf hplan hslot
    obtain ⟨file, hfile, features, hmem, s, inEntry, hslotOf⟩ := hmade m linked f slot hm hfind hf hslot
    exact givesZero_of_slot? hplan hslotOf (hzero file hfile _ hmem rfl _ hmem f hf)

/-- All message types are faithful where the files are such as compilers write for the two dialects. -/
theorem IsLoaded.isFaithful_of_isUsual (hlib : lib.IsLoaded) (husual : ∀ f ∈ lib.files, f.isUsual = true)
    (type : String) : lib.IsFaithful type := by
  have hparts : ∀ f ∈ lib.files, f.name ≠ Descriptor.Standard.fileName ∧ f.hasEdition = false ∧
      ∀ x ∈ f.featuredMessages, ∀ g ∈ x.2.2.fields, ∀ name, g.typeName = some name → name.toList.head? = some '.' := by
    intro f hf
    have hf := husual f hf
    simp only [Descriptor.File.isUsual, Bool.and_eq_true, bne_iff_ne, Bool.not_eq_true', List.all_eq_true,
      Option.all_eq_true, beq_iff_eq] at hf
    exact ⟨hf.1.1, hf.1.2, hf.2⟩
  apply hlib.isFaithful
  · intro f hf _
    exact (hparts f hf).1
  · intro f hf _ _ _
    obtain ⟨hname, hedition, -⟩ := hparts f hf
    exact Descriptor.File.leavesZeroOut_of_dialect (hlib.links hf hname).sound hedition
  · intro m f name hm hf hname
    obtain ⟨file, hfile, features, hmem⟩ := hlib.exists_file hm
    have hhead := (hparts file hfile).2.2 _ hmem f hf name hname
    exact List.head?_eq_some_iff.mp hhead

/-! ## 3. Schemas over linked types -/

/-- The fields of a schema have slots in a linked type: a plain field has one of its type, and a message has one that
refers to the linked type of its schema, which has the names of the fields inside it. -/
inductive FieldsLinked (lib : Library) : String → Linked → List Field → Prop where
  | nil {type : String} {linked : Linked} : FieldsLinked lib type linked []
  | leaf {type name : String} {kind : LeafKind} {linked : Linked} {slot : Slot} {fields : List Field}
      (hslot : linked.slot? name = some slot) (hsingle : slot.repeated = false) (hkind : kind.Suits slot.type)
      (hrange : lib.rangeOf? type name = integerRange? slot.type) (hzero : slot.GivesZero)
      (h : FieldsLinked lib type linked fields) : FieldsLinked lib type linked (.leaf name kind :: fields)
  | message {type name target : String} {linked next : Linked} {slot : Slot} {inner fields : List Field}
      (hslot : linked.slot? name = some slot) (hsingle : slot.repeated = false) (htype : slot.type.isMessage = true)
      (hfind : lib.pool.find? slot.target = some next) (hnames : next.slots.map (·.name) = inner.map (·.name))
      (hx : FieldsLinked lib target next inner) (h : FieldsLinked lib type linked fields) :
      FieldsLinked lib type linked (.message name (.mk target inner) :: fields)

theorem FieldsOf.names {scope : String} {fs : List Descriptor.Field} {fields : List Field}
    (h : FieldsOf lib scope fs fields) : fields.map (·.name) = fs.map (·.name) := by
  induction h with
  | nil => rfl
  | leaf _ _ ih | message _ _ _ _ _ ih =>
    rw [List.map_cons, List.map_cons, ih]
    rfl

/-- The range of a field is that of the type that it is declared with. -/
theorem rangeOf?_of_mem {scope : String} {m : Descriptor.Message} (hm : lib.declared? scope = some m)
    (hnames : (m.fields.map (·.name)).Nodup) {f : Descriptor.Field} (hf : f ∈ m.fields) {type : FieldType}
    (htype : f.type = some type) : lib.rangeOf? scope f.name = integerRange? type := by
  have hfound : m.fields.find? (·.name == f.name) = some f := find?_eq_some_of_nodup hnames hf
  unfold rangeOf? Descriptor.Field.effectiveType
  rw [hm, Option.bind_some, hfound, Option.bind_some, htype]
  rfl

/-- The fields of a schema have slots in the linked types of a loaded library, where these are faithful. -/
theorem FieldsOf.linked (hlib : lib.IsLoaded) {scope : String} {fs : List Descriptor.Field} {fields : List Field}
    (h : FieldsOf lib scope fs fields) {third chosen : Bool} {features : Descriptor.Features} {m : Descriptor.Message}
    {linked : Linked} (hm : lib.declared? scope = some m) (hfind : lib.pool.find? scope = some linked)
    (hof : linked.IsOf third chosen (scope, features, m)) (hfs : ∀ f ∈ fs, f ∈ m.fields)
    (hfaithful : ∀ last, lib.Meets scope last → lib.IsFaithful last) : FieldsLinked lib scope linked fields := by
  have hpool := hlib.isSound
  -- The fields so far are some of those of the message type, whose slots are found by their names.
  induction h generalizing third chosen features m linked with
  | nil => exact .nil
  | @leaf scope f r kind rest hplan _ ih =>
    have hf := hfs f List.mem_cons_self
    have hsound := hpool.of_find? hfind
    obtain ⟨slot, hslot, hmade⟩ := hof.exists_slot hsound hf
    obtain ⟨hlabel, t, ht, hkind⟩ := suits_of_planOf hplan
    have htype : slot.type = t := by
      rcases hmade.type ht with htype | ⟨rfl, -⟩
      · exact htype
      · cases hkind
    have hnames : (m.fields.map (·.name)).Nodup := by
      rw [← hof.names]
      exact hsound.names
    apply FieldsLinked.leaf hslot
    · rw [hmade.repeated]
      exact hlabel
    · rw [htype]
      exact hkind
    · rw [htype]
      exact rangeOf?_of_mem hm hnames hf ht
    · exact (hfaithful scope .here).zero m linked f slot kind hm hfind hf hplan hslot
    · exact ih hm hfind hof (fun g hg => hfs g (List.mem_cons_of_mem _ hg)) hfaithful
  | @message scope f r typeName inner fields rest hplan hinner hfields _ ihfields ih =>
    have hf := hfs f List.mem_cons_self
    obtain ⟨slot, hslot, hmade⟩ := hof.exists_slot (hpool.of_find? hfind) hf
    obtain ⟨hlabel, ht, -⟩ := message_of_planOf hplan
    have hmeets : ∀ last, lib.Meets (lib.resolve scope typeName) last → lib.Meets scope last :=
      fun last hlast => .inside hm hf hplan hlast
    have htarget := (hfaithful scope .here).alike m linked f slot typeName hm hfind hf hplan hslot
    obtain ⟨_, _, _, _, _, next, _, hnext, hofNext⟩ := hlib.exists_linked (hfaithful _ (hmeets _ .here)).own hinner
    apply FieldsLinked.message hslot
    · rw [hmade.repeated]
      exact hlabel
    · rcases hmade.type ht with htype | ⟨-, htype⟩
      · rw [htype]
        rfl
      · rw [htype]
        rfl
    · rw [htarget]
      exact hnext
    · rw [hofNext.names, hfields.names]
    · exact ihfields hinner hnext hofNext (fun g hg => hg) (fun last hlast => hfaithful last (hmeets last hlast))
    · exact ih hm hfind hof (fun g hg => hfs g (List.mem_cons_of_mem _ hg)) hfaithful

/-- No message type has two fields of one name, since its slots have different names. -/
theorem FieldsLinked.distinctNames {type : String} {linked : Linked} {fields : List Field}
    (h : FieldsLinked lib type linked fields) (hpool : lib.pool.IsSound) : haveDistinctNames fields := by
  induction h with
  | nil => trivial
  | leaf _ _ _ _ _ _ ih => exact ih
  | message _ _ _ hfind hnames _ _ ihx ih =>
    refine ⟨⟨?_, ihx⟩, ih⟩
    rw [← hnames]
    exact (hpool.of_find? hfind).names

end Library

end ContractShell
