import ContractShell.Proofs.Library.Faithful

/-!
Message types of the third dialect: the text in their fields is checked, and a field that is not given holds zero.

A schema speaks of declared types and messages are read with linked ones. So what the files of the types that are met say of
their dialect is brought here to the linked types that a reader visits.

## Main statements

* `Library.IsLoaded.isStrict`: a linked type of the third dialect checks text and has no defaults besides zero.
* `Library.exists_meets_of_visits`: a reader visits the types that are met in the fields of the declared one.
-/

namespace ContractShell

open Descriptor (FieldType Linked Slot)

/-! ## 1. Slots -/

/-- The plain fields of a linked type check their text, and hold zero when they are not given. -/
def Descriptor.Linked.IsStrict (linked : Linked) : Prop :=
  ∀ s ∈ linked.slots, ∀ kind : LeafKind, kind.Suits s.type → s.checksText = true ∧ s.default = .zero

theorem isNamed_of_suits {kind : LeafKind} {t : FieldType} (h : kind.Suits t) : t.isNamed = false := by
  cases h <;> rfl

/-- A field of a plain type refers to nothing. -/
theorem target_of_suits {s : Descriptor.Symbols} {place name : String} {f : Descriptor.Field} {type : FieldType}
    {target : Descriptor.Symbol} {kind : LeafKind} (hkind : kind.Suits type)
    (h : Descriptor.Pool.target? s place f = some (type, name, target)) : target = .other := by
  unfold Descriptor.Pool.target? at h
  cases ht : f.type with
  | none =>
    cases hn : f.typeName with
    | none =>
      simp only [ht, hn] at h
      cases h
      rfl
    | some given =>
      -- Without a type the name says which it is, and no plain type has a name.
      simp only [ht, hn] at h
      split at h
      · cases h
        cases hkind
      · cases h
        cases hkind
      · cases h
  | some t =>
    cases hn : f.typeName with
    | none =>
      simp only [ht, hn] at h
      split at h
      · cases h
      · cases h
        rfl
    | some given =>
      simp only [ht, hn] at h
      split at h
      · rename_i hnamed
        obtain ⟨found, -, heq⟩ := Option.map_eq_some_iff.mp h
        cases heq
        rw [isNamed_of_suits hkind] at hnamed
        cases hnamed
      · cases h

/-- The slot of a plain field of the third dialect. -/
theorem Descriptor.Slot.IsOf.strict {slot : Slot} {features : Descriptor.Features} {place : String}
    {f : Descriptor.Field} (h : slot.IsOf true features place f) {kind : LeafKind} (hkind : kind.Suits slot.type) :
    slot.checksText = features.checksText ∧ slot.default = .zero := by
  obtain ⟨s, inEntry, h⟩ := h
  unfold Descriptor.Pool.slot? at h
  simp only [Option.bind_eq_bind, Option.bind_eq_some_iff] at h
  obtain ⟨⟨type, name, target⟩, htarget, default, hdefault, hslot⟩ := h
  cases hslot
  have htype : kind.Suits type := by
    revert hkind
    show kind.Suits (if _ then FieldType.group else type) → _
    split
    · exact fun hgroup => by cases hgroup
    · exact id
  rw [target_of_suits htype htarget] at hdefault
  exact ⟨rfl, eq_zero_of_defaultOf? hdefault (.inl rfl)⟩

/-! ## 2. Linked types -/

namespace Library

variable {lib : Library}

/-- The files that declare a message type are of the third dialect. -/
def IsThird (lib : Library) (type : String) : Prop :=
  ∀ f ∈ lib.files, type ∈ f.allMessages.map (·.1) → f.isThird = true

/-- A linked type of the third dialect checks text and has no defaults besides zero. -/
theorem IsLoaded.isStrict (hlib : lib.IsLoaded) {type : String} {m : Descriptor.Message} {linked : Linked}
    (hown : lib.IsOwn type) (hthird : lib.IsThird type) (hm : lib.declared? type = some m)
    (hfind : lib.pool.find? type = some linked) : linked.IsStrict := by
  obtain ⟨-, file, hfile, hsound, features, linked', hmem, hfind', hof⟩ := hlib.exists_linked hown hm
  rw [hfind, Option.some.injEq] at hfind'
  rw [← hfind'] at hof
  have hdeclares : type ∈ file.allMessages.map (·.1) := by
    unfold Descriptor.File.allMessages
    rw [List.map_map]
    exact List.mem_map_of_mem hmem
  have hisThird := hthird file hfile hdeclares
  have hedition : file.hasEdition = false := by
    unfold Descriptor.File.isThird at hisThird
    unfold Descriptor.File.hasEdition
    rw [beq_iff_eq.mp hisThird]
    rfl
  obtain ⟨hfeatures, path, hsites⟩ := Descriptor.File.features_of_dialect hsound hedition _ hmem
  rw [hisThird, if_pos rfl] at hfeatures
  rw [hisThird, hedition] at hof
  intro s hs kind hkind
  obtain ⟨f, hf, hslot⟩ := forall₂_mem_left hof.slots hs
  obtain ⟨hchecks, hdefault⟩ := hslot.strict hkind
  rw [Descriptor.Message.checksText_of_chooseNothing hsites hf, hfeatures] at hchecks
  exact ⟨hchecks, hdefault⟩

/-! ## 3. What a reader visits -/

/-- A message among the fields of a schema stands for a declared field, whose type it is the schema of. -/
theorem FieldsOf.of_message_mem {scope name type : String} {fs : List Descriptor.Field} {fields inner : List Field}
    (h : FieldsOf lib scope fs fields) (hmem : .message name (.mk type inner) ∈ fields) :
    ∃ f ∈ fs, ∃ typeName m, f.name = name ∧ planOf f = .ok (.message typeName) ∧ type = lib.resolve scope typeName ∧
      lib.declared? type = some m ∧ FieldsOf lib type m.fields inner := by
  induction h with
  | nil => cases hmem
  | leaf _ _ ih =>
    rcases List.mem_cons.mp hmem with heq | hmem
    · cases heq
    · obtain ⟨f, hf, hmore⟩ := ih hmem
      exact ⟨f, List.mem_cons_of_mem _ hf, hmore⟩
  | message hplan hm hfields _ _ ih =>
    rcases List.mem_cons.mp hmem with heq | hmem
    · cases heq
      exact ⟨_, List.mem_cons_self, _, _, rfl, hplan, rfl, hm, hfields⟩
    · obtain ⟨f, hf, hmore⟩ := ih hmem
      exact ⟨f, List.mem_cons_of_mem _ hf, hmore⟩

/-- A reader visits the types that are met in the fields of the declared one. -/
theorem exists_meets_of_visits {scope : String} {m : Descriptor.Message} {linked last : Linked} {fields : List Field}
    (hvisits : Visits lib.pool linked fields last) (hfields : FieldsOf lib scope m.fields fields)
    (hm : lib.declared? scope = some m) (hfind : lib.pool.find? scope = some linked)
    (hfaithful : ∀ type, lib.Meets scope type → lib.IsFaithful type) :
    ∃ type m', lib.Meets scope type ∧ lib.declared? type = some m' ∧ lib.pool.find? type = some last := by
  -- along the visit: a slot refers to the type that its declared field refers to, as the types are faithful
  induction hvisits generalizing scope m with
  | here => exact ⟨scope, m, .here, hm, hfind⟩
  | inside hmem hslot hfindNext _ ih =>
    obtain ⟨f, hf, typeName, m', rfl, hplan, rfl, hm', hinner⟩ := hfields.of_message_mem hmem
    have htarget := (hfaithful scope .here).alike m _ f _ typeName hm hfind hf hplan hslot
    rw [htarget] at hfindNext
    obtain ⟨type, m'', hmeets, hfound⟩ :=
      ih hinner hm' hfindNext fun type hmeets => hfaithful type (.inside hm hf hplan hmeets)
    exact ⟨type, m'', .inside hm hf hplan hmeets, hfound⟩

/-- A reader of a message of the third dialect visits strict types alone. -/
theorem isStrict_of_visits (hlib : lib.IsLoaded) {name : String} {schema : Schema} (hschema : lib.schema name = .ok schema)
    (hname : schema.name.isEmpty = false) (hfaithful : ∀ type, lib.Meets (bareName name) type → lib.IsFaithful type)
    (hthird : ∀ type, lib.Meets (bareName name) type → lib.IsThird type) {linked last : Linked}
    (hfind : lib.linked? schema.name = some linked) (hvisits : Visits lib.pool linked schema.fields last) :
    last.IsStrict := by
  have hhas := schema_eq_ok_iff.mp hschema
  unfold HasSchema at hhas
  by_cases hempty : name.isEmpty = true
  · rw [if_pos hempty] at hhas
    rw [hhas] at hname
    cases hname
  · rw [if_neg hempty] at hhas
    obtain ⟨m, fields, hm, hfields, rfl⟩ := hhas
    have hfound : lib.pool.find? (bareName (bareName name)) = some linked := hfind
    rw [bareName_bareName] at hfound
    obtain ⟨type, m', hmeets, hm', hlast⟩ := exists_meets_of_visits hvisits hfields hm hfound hfaithful
    exact hlib.isStrict (hfaithful type hmeets).own (hthird type hmeets) hm' hlast

end Library

end ContractShell
