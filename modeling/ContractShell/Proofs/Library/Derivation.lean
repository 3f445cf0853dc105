import ContractShell.Library.Schemas

/-!
The schema of a message type, as a relation.

`FieldsOf` says which fields a list of declared fields stands for. It knows neither what is remembered nor which types are
being looked into; deriving a schema finds the one that the relation gives, whatever is remembered, as long as that was
found in the same way.

## Main statements

* `schemaFrom_eq_ok_iff`: a schema is found just when the relation gives it.
-/

namespace ContractShell.Library

variable {lib : Library}

/-! ## 1. The relation -/

/-- The fields that declared fields of the type `scope` stand for. -/
inductive FieldsOf (lib : Library) : String → List Descriptor.Field → List Field → Prop where
  | nil {scope : String} : FieldsOf lib scope [] []
  | leaf {scope : String} {f : Descriptor.Field} {r : List Descriptor.Field} {kind : LeafKind} {rest : List Field}
      (hplan : planOf f = .ok (.leaf kind)) (hr : FieldsOf lib scope r rest) :
      FieldsOf lib scope (f :: r) (.leaf f.name kind :: rest)
  | message {scope : String} {f : Descriptor.Field} {r : List Descriptor.Field} {typeName : String}
      {m : Descriptor.Message} {fields rest : List Field} (hplan : planOf f = .ok (.message typeName))
      (hm : lib.declared? (lib.resolve scope typeName) = some m)
      (hfields : FieldsOf lib (lib.resolve scope typeName) m.fields fields) (hr : FieldsOf lib scope r rest) :
      FieldsOf lib scope (f :: r) (.message f.name (.mk (lib.resolve scope typeName) fields) :: rest)

/-- The schema of a full name. -/
def IsSchema (lib : Library) (name : String) (schema : Schema) : Prop :=
  ∃ m fields, lib.declared? name = some m ∧ FieldsOf lib name m.fields fields ∧ schema = .mk name fields

/-- The schema of a name as documents give it. The empty name stands for no fields. -/
def HasSchema (lib : Library) (name : String) (schema : Schema) : Prop :=
  if name.isEmpty then schema = .empty else IsSchema lib (bareName name) schema

theorem FieldsOf.functional {scope : String} {fs : List Descriptor.Field} {a b : List Field}
    (ha : FieldsOf lib scope fs a) (hb : FieldsOf lib scope fs b) : a = b := by
  induction ha generalizing b with
  | nil =>
    cases hb
    rfl
  | leaf hplan hr ih =>
    cases hb with
    | leaf hplan' hr' =>
      rw [hplan] at hplan'
      cases hplan'
      rw [ih hr']
    | message hplan' =>
      rw [hplan] at hplan'
      cases hplan'
  | message hplan hm hfields hr ihfields ih =>
    cases hb with
    | leaf hplan' =>
      rw [hplan] at hplan'
      cases hplan'
    | message hplan' hm' hfields' hr' =>
      rw [hplan] at hplan'
      cases hplan'
      rw [hm] at hm'
      cases hm'
      rw [ihfields hfields', ih hr']

theorem IsSchema.functional {name : String} {a b : Schema} (ha : IsSchema lib name a) (hb : IsSchema lib name b) :
    a = b := by
  obtain ⟨m, fields, hm, hfields, rfl⟩ := ha
  obtain ⟨m', fields', hm', hfields', rfl⟩ := hb
  rw [hm] at hm'
  cases hm'
  rw [hfields.functional hfields']

/-! ## 2. What is remembered -/

/-- Only schemas that the relation gives are remembered. -/
def Memo.Sound (lib : Library) (memo : Memo) : Prop :=
  ∀ name schema, memo.find? name = some schema → IsSchema lib name schema

theorem Memo.sound_nil : Memo.Sound lib [] := by
  intro name schema h
  cases h

theorem Memo.Sound.cons {memo : Memo} (hmemo : memo.Sound lib) {name : String} {schema : Schema}
    (h : IsSchema lib name schema) : Memo.Sound lib ((name, schema) :: memo) := by
  intro other s hs
  unfold Memo.find? at hs
  rw [List.find?_cons] at hs
  by_cases hname : name = other
  · subst hname
    rw [beq_self_eq_true] at hs
    cases hs
    exact h
  · rw [beq_false_of_ne hname] at hs
    exact hmemo other s hs

/-! ## 3. Deriving follows the relation -/

theorem derive_of_find? {trail : List String} {memo : Memo} {name : String} {schema : Schema}
    (h : memo.find? name = some schema) : derive lib trail memo name = (.ok schema, memo) := by
  rw [derive, h]

theorem derive_of_declared {trail : List String} {memo : Memo} {name : String} {m : Descriptor.Message}
    (hnew : memo.find? name = none) (hm : lib.declared? name = some m) (htrail : ¬ trail.contains name = true) :
    derive lib trail memo name =
      match deriveFields lib (name :: trail) memo name m.fields with
      | (.error fault, memo) => (.error fault, memo)
      | (.ok fields, memo) => (.ok (.mk name fields), (name, .mk name fields) :: memo) := by
  rw [derive, hnew]
  simp only
  split
  · rename_i hnone
    rw [hm] at hnone
    cases hnone
  · rename_i hsome
    rw [hm] at hsome
    cases hsome
    exact dif_neg htrail

theorem derive_of_unknown {trail : List String} {memo : Memo} {name : String} (hnew : memo.find? name = none)
    (hm : lib.declared? name = none) : derive lib trail memo name = (.error (.unknownType name), memo) := by
  rw [derive, hnew]
  simp only
  split
  · rfl
  · rename_i hsome
    rw [hm] at hsome
    cases hsome

theorem derive_of_recursive {trail : List String} {memo : Memo} {name : String} {m : Descriptor.Message}
    (hnew : memo.find? name = none) (hm : lib.declared? name = some m) (htrail : trail.contains name = true) :
    derive lib trail memo name = (.error (.recursive name), memo) := by
  rw [derive, hnew]
  simp only
  split
  · rename_i hnone
    rw [hm] at hnone
    cases hnone
  · rw [dif_pos htrail]

/-- What a declared type gives, if it is neither remembered nor on the trail: a schema of its fields. -/
theorem derive_fst_of_declared {trail : List String} {memo : Memo} {name : String} {m : Descriptor.Message}
    (hnew : memo.find? name = none) (hm : lib.declared? name = some m) (htrail : ¬ trail.contains name = true) :
    (derive lib trail memo name).1 = (deriveFields lib (name :: trail) memo name m.fields).1.map (.mk name) := by
  rw [derive_of_declared hnew hm htrail]
  rcases deriveFields lib (name :: trail) memo name m.fields with ⟨result, memo'⟩
  cases result <;> rfl

theorem deriveFields_fst_of_leaf {trail : List String} {memo : Memo} {scope : String} {f : Descriptor.Field}
    {r : List Descriptor.Field} {kind : LeafKind} (hplan : planOf f = .ok (.leaf kind)) :
    (deriveFields lib trail memo scope (f :: r)).1 =
      (deriveFields lib trail memo scope r).1.map (.leaf f.name kind :: ·) := by
  rw [deriveFields, hplan]
  rcases deriveFields lib trail memo scope r with ⟨result, memo'⟩
  cases result <;> rfl

/-- The fields behind a message are looked into with what is remembered then. -/
theorem deriveFields_fst_of_message {trail : List String} {memo : Memo} {scope typeName : String} {f : Descriptor.Field}
    {r : List Descriptor.Field} (hplan : planOf f = .ok (.message typeName)) :
    (deriveFields lib trail memo scope (f :: r)).1 =
      (derive lib trail memo (lib.resolve scope typeName)).1.bind fun schema =>
        (deriveFields lib trail (derive lib trail memo (lib.resolve scope typeName)).2 scope r).1.map
          (.message f.name schema :: ·) := by
  rw [deriveFields, hplan]
  cases hinner : derive lib trail memo (lib.resolve scope typeName) with
  | mk inner memo' =>
    cases inner with
    | error fault => simp only [hinner, Except.bind]
    | ok schema =>
      cases hrest : deriveFields lib trail memo' scope r with
      | mk result memo'' => cases result <;> simp only [hinner, hrest, Except.bind, Except.map]

/-- What is found is as `holds` says, and only schemas that the relation gives are remembered. -/
def IsSound {α : Type} (lib : Library) (holds : α → Prop) (answer : Except SchemaFault α × Memo) : Prop :=
  answer.2.Sound lib ∧ ∀ found, answer.1 = .ok found → holds found

theorem IsSound.error {α : Type} {holds : α → Prop} {fault : SchemaFault} {memo : Memo} (hmemo : memo.Sound lib) :
    IsSound lib holds (.error fault, memo) := by
  refine ⟨hmemo, ?_⟩
  intro found h
  cases h

theorem IsSound.ok {α : Type} {holds : α → Prop} {found : α} {memo : Memo} (hmemo : memo.Sound lib)
    (h : holds found) : IsSound lib holds (.ok found, memo) := by
  refine ⟨hmemo, ?_⟩
  intro other hother
  cases hother
  exact h

/-- What is found is given by the relation, and nothing else is remembered. -/
theorem derive_sound (lib : Library) :
    (∀ (trail : List String) (memo : Memo) (name : String), memo.Sound lib →
      IsSound lib (IsSchema lib name) (derive lib trail memo name)) ∧
    (∀ (trail : List String) (memo : Memo) (scope : String) (fs : List Descriptor.Field), memo.Sound lib →
      IsSound lib (FieldsOf lib scope fs) (deriveFields lib trail memo scope fs)) := by
  -- Both functions hand on what is remembered, so soundness is carried through the two of them together.
  apply derive.mutual_induct lib
  case case1 =>
    intro trail memo name schema hfind hmemo
    rw [derive_of_find? hfind]
    exact .ok hmemo (hmemo name schema hfind)
  case case2 =>
    intro trail memo name hnew hm hmemo
    rw [derive_of_unknown hnew hm]
    exact .error hmemo
  case case3 =>
    intro trail memo name hnew m hm htrail hmemo
    rw [derive_of_recursive hnew hm htrail]
    exact .error hmemo
  case case4 =>
    intro trail memo name hnew m hm htrail _ fault memo' hfields ih hmemo
    have hinner := ih hmemo
    rw [hfields] at hinner
    rw [derive_of_declared hnew hm htrail, hfields]
    exact .error hinner.1
  case case5 =>
    intro trail memo name hnew m hm htrail _ fields memo' hfields ih hmemo
    have hinner := ih hmemo
    rw [hfields] at hinner
    have hschema : IsSchema lib name (.mk name fields) := ⟨m, fields, hm, hinner.2 fields rfl, rfl⟩
    rw [derive_of_declared hnew hm htrail, hfields]
    exact .ok (hinner.1.cons hschema) hschema
  case case6 =>
    intro trail memo scope hmemo
    rw [deriveFields]
    exact .ok hmemo .nil
  case case7 =>
    intro trail memo scope f r fault hplan hmemo
    rw [deriveFields, hplan]
    exact .error hmemo
  case case8 =>
    intro trail memo scope f r kind hplan fault memo' hr ih hmemo
    have hrest := ih hmemo
    rw [hr] at hrest
    rw [deriveFields, hplan]
    simp only [hr]
    exact .error hrest.1
  case case9 =>
    intro trail memo scope f r kind hplan rest memo' hr ih hmemo
    have hrest := ih hmemo
    rw [hr] at hrest
    rw [deriveFields, hplan]
    simp only [hr]
    exact .ok hrest.1 (.leaf hplan (hrest.2 rest rfl))
  case case10 =>
    intro trail memo scope f r typeName hplan fault memo' hinner ih hmemo
    have hfound := ih hmemo
    rw [hinner] at hfound
    rw [deriveFields, hplan]
    simp only [hinner]
    exact .error hfound.1
  case case11 =>
    intro trail memo scope f r typeName hplan schema memo₁ hinner fault memo₂ hr ihinner ih hmemo
    have hfound := ihinner hmemo
    rw [hinner] at hfound
    have hrest := ih hfound.1
    rw [hr] at hrest
    rw [deriveFields, hplan]
    simp only [hinner, hr]
    exact .error hrest.1
  case case12 =>
    intro trail memo scope f r typeName hplan schema memo₁ hinner rest memo₂ hr ihinner ih hmemo
    have hfound := ihinner hmemo
    rw [hinner] at hfound
    have hrest := ih hfound.1
    rw [hr] at hrest
    rw [deriveFields, hplan]
    simp only [hinner, hr]
    obtain ⟨m, inner, hm, hfields, rfl⟩ := hfound.2 schema rfl
    exact .ok hrest.1 (.message hplan hm hfields (hrest.2 rest rfl))

/-- No type on a trail has a schema that is as small as the fields that are being looked into. So a type with a schema is
never met on the trail of its own fields. -/
def Above (lib : Library) (trail : List String) (fields : List Field) : Prop :=
  ∀ t ∈ trail, ∀ schema, IsSchema lib t schema → sizeOf fields < sizeOf schema

/-- A type with a schema is not on its own trail, so what its fields give is what it gives. -/
theorem derive_of_fields {trail : List String} {memo : Memo} (hmemo : memo.Sound lib) {name : String}
    {m : Descriptor.Message} {fields : List Field} (hm : lib.declared? name = some m)
    (hfields : FieldsOf lib name m.fields fields)
    (habove : ∀ t ∈ trail, ∀ s, IsSchema lib t s → sizeOf (Schema.mk name fields) < sizeOf s)
    (hinner : Above lib (name :: trail) fields →
      (deriveFields lib (name :: trail) memo name m.fields).1 = .ok fields) :
    (derive lib trail memo name).1 = .ok (.mk name fields) := by
  have hschema : IsSchema lib name (.mk name fields) := ⟨m, fields, hm, hfields, rfl⟩
  cases hfind : memo.find? name with
  | some s => rw [derive_of_find? hfind, (hmemo _ _ hfind).functional hschema]
  | none =>
    have htrail : ¬ trail.contains name = true := by
      intro hmem
      exact Nat.lt_irrefl _ (habove _ (List.contains_iff_mem.mp hmem) _ hschema)
    have hlarger : Above lib (name :: trail) fields := by
      intro t ht s hs
      rcases List.mem_cons.mp ht with rfl | ht
      · rw [hs.functional hschema, Schema.mk.sizeOf_spec]
        omega
      · have hsize := habove t ht s hs
        rw [Schema.mk.sizeOf_spec] at hsize
        omega
    rw [derive_fst_of_declared hfind hm htrail, hinner hlarger]
    rfl

/-- What the relation gives is found. -/
theorem deriveFields_complete {scope : String} {fs : List Descriptor.Field} {fields : List Field}
    (h : FieldsOf lib scope fs fields) (trail : List String) (memo : Memo) (hmemo : memo.Sound lib)
    (habove : Above lib trail fields) : (deriveFields lib trail memo scope fs).1 = .ok fields := by
  -- The induction is on the derivation. The types on the trail have larger schemas, so none of them is met again.
  induction h generalizing trail memo with
  | nil => rw [deriveFields]
  | @leaf scope f r kind rest hplan hr ih =>
    have hsmaller : Above lib trail rest := by
      intro t ht s hs
      have hsize := habove t ht s hs
      rw [List.cons.sizeOf_spec] at hsize
      omega
    rw [deriveFields_fst_of_leaf hplan, ih trail memo hmemo hsmaller]
    rfl
  | @message scope f r typeName m fields rest hplan hm hfields hr ihfields ih =>
    have hsmaller : ∀ t ∈ trail, ∀ s, IsSchema lib t s →
        sizeOf (Schema.mk (lib.resolve scope typeName) fields) < sizeOf s ∧ sizeOf rest < sizeOf s := by
      intro t ht s hs
      have hsize := habove t ht s hs
      simp only [List.cons.sizeOf_spec, Field.message.sizeOf_spec] at hsize
      omega
    have hinner : (derive lib trail memo (lib.resolve scope typeName)).1 =
        .ok (.mk (lib.resolve scope typeName) fields) :=
      derive_of_fields hmemo hm hfields (fun t ht s hs => (hsmaller t ht s hs).1) (ihfields _ memo hmemo)
    have hmemo' := ((derive_sound lib).1 trail memo (lib.resolve scope typeName) hmemo).1
    have hrest := ih trail _ hmemo' fun t ht s hs => (hsmaller t ht s hs).2
    rw [deriveFields_fst_of_message hplan, hinner]
    show (deriveFields lib trail _ scope r).1.map _ = _
    rw [hrest]
    rfl

/-- A schema that the relation gives is found, as long as the types on the trail have larger ones. -/
theorem derive_complete {trail : List String} {name : String} {schema : Schema} (h : IsSchema lib name schema)
    {memo : Memo} (hmemo : memo.Sound lib) (habove : ∀ t ∈ trail, ∀ s, IsSchema lib t s → sizeOf schema < sizeOf s) :
    (derive lib trail memo name).1 = .ok schema := by
  obtain ⟨m, fields, hm, hfields, rfl⟩ := h
  exact derive_of_fields hmemo hm hfields habove (deriveFields_complete hfields (name :: trail) memo hmemo)

/-! ## 4. Schemas of names -/

theorem schemaFrom_sound {memo : Memo} (hmemo : memo.Sound lib) (name : String) :
    (lib.schemaFrom memo name).2.Sound lib := by
  unfold schemaFrom
  by_cases hname : name.isEmpty = true
  · rw [if_pos hname]
    exact hmemo
  · rw [if_neg hname]
    exact ((derive_sound lib).1 [] memo (bareName name) hmemo).1

/-- A schema is found just when the relation gives it, whatever is remembered. -/
theorem schemaFrom_eq_ok_iff {memo : Memo} (hmemo : memo.Sound lib) {name : String} {schema : Schema} :
    (lib.schemaFrom memo name).1 = .ok schema ↔ HasSchema lib name schema := by
  unfold schemaFrom HasSchema
  by_cases hname : name.isEmpty = true
  · rw [if_pos hname, if_pos hname]
    constructor
    · intro h
      cases h
      rfl
    · intro h
      rw [h]
  · rw [if_neg hname, if_neg hname]
    constructor
    · exact ((derive_sound lib).1 [] memo (bareName name) hmemo).2 schema
    · exact fun h => derive_complete h hmemo (by simp)

theorem schema_eq_ok_iff {name : String} {schema : Schema} :
    lib.schema name = .ok schema ↔ HasSchema lib name schema := schemaFrom_eq_ok_iff Memo.sound_nil

end ContractShell.Library
