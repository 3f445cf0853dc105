import ContractShell.Proofs.Library.Derivation
import Mathlib.Logic.Relation

/-!
Which message types have a schema, and that nothing else decides it.

A type refers to the types of its messages. Following the references from a type must lead to declared types whose fields
occur once and have a kind, and never back to a type it came from. Then the type has a schema, and otherwise it has none,
whatever was asked before. Deriving a schema never nests deeper than there are types.

## Main statements

* `IsSchema.isConvertible`, `exists_derive_eq_ok`: the types with a schema are the convertible ones.
* `derive_fst_eq`: what a type gives does not depend on what is remembered.
* `deriveWithin_eq`: the plain recursion, cut off below the number of types, gives the same.
* `schemas_exact`: what calls one after the other answer, which of them succeed, and that they end.
-/

namespace ContractShell.Library

open Relation (ReflTransGen TransGen)

variable {lib : Library}

/-! ## 1. Fields with a kind -/

/-- The types of the fields that a schema can have. -/
def knownTypes : List Descriptor.FieldType := [.bool, .int32, .int64, .uint32, .uint64, .string, .bytes, .message]

/-- A field occurs once and is of a known type. -/
def HasPlan (f : Descriptor.Field) : Prop := f.effectiveLabel ≠ .repeated ∧ f.effectiveType ∈ knownTypes

theorem planOf_cases (f : Descriptor.Field) :
    (¬ HasPlan f ∧ ∃ fault, planOf f = .error fault) ∨
      (HasPlan f ∧ f.effectiveType ≠ .message ∧ ∃ kind, planOf f = .ok (.leaf kind)) ∨
      (HasPlan f ∧ f.effectiveType = .message ∧ planOf f = .ok (.message (f.typeName.getD ""))) := by
  unfold HasPlan planOf
  by_cases hlabel : f.effectiveLabel = .repeated
  · rw [if_pos hlabel]
    exact .inl ⟨fun h => h.1 hlabel, _, rfl⟩
  · rw [if_neg hlabel]
    cases ht : f.effectiveType
    case message => exact .inr (.inr ⟨⟨hlabel, by decide⟩, rfl, rfl⟩)
    case bool | int32 | int64 | uint32 | uint64 | string | bytes =>
      exact .inr (.inl ⟨⟨hlabel, by decide⟩, by decide, _, rfl⟩)
    all_goals exact .inl ⟨fun h => absurd h.2 (by decide), _, rfl⟩

theorem hasPlan_of_planOf {f : Descriptor.Field} {plan : Plan} (h : planOf f = .ok plan) : HasPlan f := by
  rcases planOf_cases f with ⟨-, fault, herror⟩ | ⟨hplan, -, -⟩ | ⟨hplan, -, -⟩
  · rw [herror] at h
    cases h
  · exact hplan
  · exact hplan

/-! ## 2. References -/

/-- A declared type has a message of another type. -/
def Refers (lib : Library) (type other : String) : Prop :=
  ∃ m f, lib.declared? type = some m ∧ f ∈ m.fields ∧ f.effectiveType = .message ∧
    other = lib.resolve type (f.typeName.getD "")

/-- References lead from a type to declared types only, whose fields occur once and are of known types, and to none that
leads back to itself. -/
structure IsConvertible (lib : Library) (name : String) : Prop where
  declared : ∀ type, ReflTransGen (Refers lib) name type → ∃ m, lib.declared? type = some m ∧ ∀ f ∈ m.fields, HasPlan f
  acyclic : ∀ type, ReflTransGen (Refers lib) name type → ¬ TransGen (Refers lib) type type

theorem IsConvertible.of_refers {name other : String} (h : IsConvertible lib name) (hrefers : Refers lib name other) :
    IsConvertible lib other where
  declared type htype := h.declared type (.head hrefers htype)
  acyclic type htype := h.acyclic type (.head hrefers htype)

theorem FieldsOf.hasPlan {scope : String} {fs : List Descriptor.Field} {fields : List Field}
    (h : FieldsOf lib scope fs fields) : ∀ f ∈ fs, HasPlan f := by
  induction h with
  | nil => simp
  | leaf hplan _ ih | message hplan _ _ _ _ ih =>
    intro f hf
    rcases List.mem_cons.mp hf with rfl | hf
    · exact hasPlan_of_planOf hplan
    · exact ih f hf

/-- The types of the messages among some fields have schemas, and these are smaller than the fields. -/
theorem FieldsOf.exists_schema {scope : String} {fs : List Descriptor.Field} {fields : List Field}
    (h : FieldsOf lib scope fs fields) {f : Descriptor.Field} (hf : f ∈ fs) (hmessage : f.effectiveType = .message) :
    ∃ s, IsSchema lib (lib.resolve scope (f.typeName.getD "")) s ∧ sizeOf s < sizeOf fields := by
  induction h with
  | nil => cases hf
  | @leaf scope g r kind rest hplan _ ih =>
    rcases List.mem_cons.mp hf with rfl | hf
    · -- a leaf is no message
      rcases planOf_cases f with ⟨-, _, hother⟩ | ⟨-, hne, -⟩ | ⟨-, -, hother⟩
      · rw [hother] at hplan
        cases hplan
      · exact absurd hmessage hne
      · rw [hother] at hplan
        cases hplan
    · obtain ⟨s, hs, hsize⟩ := ih hf
      refine ⟨s, hs, ?_⟩
      rw [List.cons.sizeOf_spec]
      omega
  | @message scope g r typeName m inner rest hplan hm hinner _ _ ih =>
    rcases List.mem_cons.mp hf with rfl | hf
    · rcases planOf_cases f with ⟨-, _, hother⟩ | ⟨-, hne, -⟩ | ⟨-, -, hsame⟩
      · rw [hother] at hplan
        cases hplan
      · exact absurd hmessage hne
      · rw [hsame] at hplan
        cases hplan
        refine ⟨_, ⟨m, inner, hm, hinner, rfl⟩, ?_⟩
        rw [List.cons.sizeOf_spec, Field.message.sizeOf_spec]
        omega
    · obtain ⟨s, hs, hsize⟩ := ih hf
      refine ⟨s, hs, ?_⟩
      rw [List.cons.sizeOf_spec]
      omega

/-! ## 3. Types with a schema -/

theorem IsSchema.of_refers {name other : String} {schema : Schema} (h : IsSchema lib name schema)
    (hrefers : Refers lib name other) : ∃ s, IsSchema lib other s ∧ sizeOf s < sizeOf schema := by
  obtain ⟨m, fields, hm, hfields, rfl⟩ := h
  obtain ⟨m', f, hm', hf, hmessage, rfl⟩ := hrefers
  rw [hm] at hm'
  cases hm'
  obtain ⟨s, hs, hsize⟩ := hfields.exists_schema hf hmessage
  refine ⟨s, hs, ?_⟩
  rw [Schema.mk.sizeOf_spec]
  omega

/-- The schema of a type that references lead to is smaller. -/
theorem IsSchema.of_transGen {name other : String} {schema : Schema} (h : IsSchema lib name schema)
    (hlead : TransGen (Refers lib) name other) : ∃ s, IsSchema lib other s ∧ sizeOf s < sizeOf schema := by
  induction hlead with
  | single hrefers => exact h.of_refers hrefers
  | tail _ hrefers ih =>
    obtain ⟨s, hs, hsize⟩ := ih
    obtain ⟨s', hs', hsize'⟩ := hs.of_refers hrefers
    exact ⟨s', hs', Nat.lt_trans hsize' hsize⟩

theorem IsSchema.of_reflTransGen {name other : String} {schema : Schema} (h : IsSchema lib name schema)
    (hlead : ReflTransGen (Refers lib) name other) : ∃ s, IsSchema lib other s := by
  rcases Relation.reflTransGen_iff_eq_or_transGen.mp hlead with rfl | hlead
  · exact ⟨schema, h⟩
  · obtain ⟨s, hs, -⟩ := h.of_transGen hlead
    exact ⟨s, hs⟩

theorem IsSchema.isConvertible {name : String} {schema : Schema} (h : IsSchema lib name schema) :
    IsConvertible lib name := by
  constructor
  · intro type hlead
    obtain ⟨s, m, fields, hm, hfields, -⟩ := h.of_reflTransGen hlead
    exact ⟨m, hm, hfields.hasPlan⟩
  · -- a type that leads back to itself would have a schema smaller than its own
    intro type hlead hback
    obtain ⟨s, hs⟩ := h.of_reflTransGen hlead
    obtain ⟨s', hs', hsize⟩ := hs.of_transGen hback
    rw [hs'.functional hs] at hsize
    exact Nat.lt_irrefl _ hsize

/-! ## 4. Convertible types -/

theorem exists_deriveFields_eq_ok {trail : List String} {scope : String} {fs : List Descriptor.Field}
    (hplan : ∀ f ∈ fs, HasPlan f)
    (hinner : ∀ f ∈ fs, f.effectiveType = .message → ∀ memo,
      ∃ s, (derive lib trail memo (lib.resolve scope (f.typeName.getD ""))).1 = .ok s) (memo : Memo) :
    ∃ fields, (deriveFields lib trail memo scope fs).1 = .ok fields := by
  induction fs generalizing memo with
  | nil => exact ⟨[], by rw [deriveFields]⟩
  | cons f r ih =>
    have hrest := ih (fun g hg => hplan g (List.mem_cons_of_mem f hg)) fun g hg => hinner g (List.mem_cons_of_mem f hg)
    rcases planOf_cases f with ⟨hnone, -⟩ | ⟨-, -, kind, hleaf⟩ | ⟨-, hmessage, hmsg⟩
    · exact absurd (hplan f List.mem_cons_self) hnone
    · obtain ⟨fields, hfields⟩ := hrest memo
      exact ⟨_, by rw [deriveFields_fst_of_leaf hleaf, hfields, Except.map]⟩
    · obtain ⟨s, hs⟩ := hinner f List.mem_cons_self hmessage memo
      obtain ⟨fields, hfields⟩ := hrest (derive lib trail memo (lib.resolve scope (f.typeName.getD ""))).2
      exact ⟨_, by rw [deriveFields_fst_of_message hmsg, hs, Except.bind, hfields, Except.map]⟩

/-- A convertible type gives a schema, on every trail of types that lead to it and whatever is remembered. -/
theorem exists_derive_eq_ok {trail : List String} {name : String} (h : IsConvertible lib name)
    (htrail : ∀ t ∈ trail, TransGen (Refers lib) t name) (memo : Memo) :
    ∃ s, (derive lib trail memo name).1 = .ok s := by
  -- The induction is on the types that are not on the trail, as the derivation's own.
  induction hn : lib.unread trail using Nat.strongRecOn generalizing trail name memo with
  | ind n ih =>
    cases hfind : memo.find? name with
    | some s => exact ⟨s, by rw [derive_of_find? hfind]⟩
    | none =>
      obtain ⟨m, hm, hplan⟩ := h.declared name .refl
      have hnew : ¬ trail.contains name = true := by
        intro hmem
        exact h.acyclic name .refl (htrail name (List.contains_iff_mem.mp hmem))
      have hless : lib.unread (name :: trail) < n := by
        rw [← hn]
        exact unread_lt hm hnew
      obtain ⟨fields, hfields⟩ := @exists_deriveFields_eq_ok lib (name :: trail) name m.fields hplan (by
        intro f hf hmessage memo
        have hrefers : Refers lib name (lib.resolve name (f.typeName.getD "")) := ⟨m, f, hm, hf, hmessage, rfl⟩
        apply ih _ hless (h.of_refers hrefers) _ memo rfl
        intro t ht
        rcases List.mem_cons.mp ht with rfl | ht
        · exact .single hrefers
        · exact (htrail t ht).tail hrefers) memo
      exact ⟨_, by rw [derive_fst_of_declared hfind hm hnew, hfields, Except.map]⟩

/-! ## 5. What is remembered does not matter -/

theorem deriveFields_fst_eq {trail : List String} {scope : String} {fs : List Descriptor.Field}
    (hinner : ∀ f ∈ fs, f.effectiveType = .message → ∀ memo memo' : Memo, memo.Sound lib → memo'.Sound lib →
      (derive lib trail memo (lib.resolve scope (f.typeName.getD ""))).1 =
        (derive lib trail memo' (lib.resolve scope (f.typeName.getD ""))).1)
    {memo memo' : Memo} (hmemo : memo.Sound lib) (hmemo' : memo'.Sound lib) :
    (deriveFields lib trail memo scope fs).1 = (deriveFields lib trail memo' scope fs).1 := by
  induction fs generalizing memo memo' with
  | nil => rw [deriveFields, deriveFields]
  | cons f r ih =>
    have hrest := @ih fun g hg => hinner g (List.mem_cons_of_mem f hg)
    rcases planOf_cases f with ⟨-, fault, hfault⟩ | ⟨-, -, kind, hleaf⟩ | ⟨-, hmessage, hmsg⟩
    · rw [deriveFields, deriveFields, hfault]
    · rw [deriveFields_fst_of_leaf hleaf, deriveFields_fst_of_leaf hleaf, hrest hmemo hmemo']
    · have hnext := ((derive_sound lib).1 trail memo (lib.resolve scope (f.typeName.getD "")) hmemo).1
      have hnext' := ((derive_sound lib).1 trail memo' (lib.resolve scope (f.typeName.getD "")) hmemo').1
      rw [deriveFields_fst_of_message hmsg, deriveFields_fst_of_message hmsg,
        hinner f List.mem_cons_self hmessage memo memo' hmemo hmemo', hrest hnext hnext']

/-- What a type gives on a trail of types that lead to it, a schema or a fault, does not depend on what is remembered. -/
theorem derive_fst_eq {trail : List String} {name : String} (htrail : ∀ t ∈ trail, TransGen (Refers lib) t name)
    {memo memo' : Memo} (hmemo : memo.Sound lib) (hmemo' : memo'.Sound lib) :
    (derive lib trail memo name).1 = (derive lib trail memo' name).1 := by
  induction hn : lib.unread trail using Nat.strongRecOn generalizing trail name memo memo' with
  | ind n ih =>
    by_cases hschema : ∃ s, IsSchema lib name s
    · -- A type on the trail that has a schema has a larger one, so the type gives its own in any case.
      obtain ⟨s, hs⟩ := hschema
      have habove : ∀ t ∈ trail, ∀ larger, IsSchema lib t larger → sizeOf s < sizeOf larger := by
        intro t ht larger hlarger
        obtain ⟨s', hs', hsize⟩ := hlarger.of_transGen (htrail t ht)
        rw [hs'.functional hs] at hsize
        exact hsize
      rw [derive_complete hs hmemo habove, derive_complete hs hmemo' habove]
    · -- A type without a schema is remembered on neither side.
      have hunknown : ∀ known : Memo, known.Sound lib → known.find? name = none := by
        intro known hknown
        cases hfind : known.find? name with
        | none => rfl
        | some s => exact absurd ⟨s, hknown name s hfind⟩ hschema
      have hfind := hunknown memo hmemo
      have hfind' := hunknown memo' hmemo'
      cases hm : lib.declared? name with
      | none => rw [derive_of_unknown hfind hm, derive_of_unknown hfind' hm]
      | some m =>
        by_cases hnew : trail.contains name = true
        · rw [derive_of_recursive hfind hm hnew, derive_of_recursive hfind' hm hnew]
        · rw [derive_fst_of_declared hfind hm hnew, derive_fst_of_declared hfind' hm hnew]
          congr 1
          apply deriveFields_fst_eq _ hmemo hmemo'
          intro f hf hmessage other other' hother hother'
          have hrefers : Refers lib name (lib.resolve name (f.typeName.getD "")) := ⟨m, f, hm, hf, hmessage, rfl⟩
          apply ih _ _ _ hother hother' rfl
          · rw [← hn]
            exact unread_lt hm hnew
          · intro t ht
            rcases List.mem_cons.mp ht with rfl | ht
            · exact .single hrefers
            · exact (htrail t ht).tail hrefers

theorem schemaFrom_fst_eq {memo : Memo} (hmemo : memo.Sound lib) (name : String) :
    (lib.schemaFrom memo name).1 = lib.schema name := by
  unfold schema schemaFrom
  by_cases hname : name.isEmpty = true
  · rw [if_pos hname, if_pos hname]
  · rw [if_neg hname, if_neg hname]
    exact derive_fst_eq (by simp) hmemo Memo.sound_nil

/-- The answers to names one after the other. Each is found with what is remembered from those before it. -/
def schemasFrom (lib : Library) : Memo → List String → List (Except SchemaFault Schema)
  | _, [] => []
  | memo, name :: r => (lib.schemaFrom memo name).1 :: lib.schemasFrom (lib.schemaFrom memo name).2 r

theorem schemasFrom_eq {memo : Memo} (hmemo : memo.Sound lib) (names : List String) :
    lib.schemasFrom memo names = names.map lib.schema := by
  induction names generalizing memo with
  | nil => rfl
  | cons name r ih => rw [schemasFrom, schemaFrom_fst_eq hmemo, ih (schemaFrom_sound hmemo name), List.map_cons]

/-! ## 6. The recursion ends -/

/-- The fields of the type `scope`, where the types of its messages are asked of another function. -/
def fieldsVia (lib : Library) (ask : Memo → String → Option (Except SchemaFault Schema × Memo)) (scope : String) :
    Memo → List Descriptor.Field → Option (Except SchemaFault (List Field) × Memo)
  | memo, [] => some (.ok [], memo)
  | memo, f :: r =>
    match planOf f with
    | .error fault => some (.error fault, memo)
    | .ok (.leaf kind) =>
      match fieldsVia lib ask scope memo r with
      | none => none
      | some (.error fault, memo) => some (.error fault, memo)
      | some (.ok rest, memo) => some (.ok (.leaf f.name kind :: rest), memo)
    | .ok (.message typeName) =>
      match ask memo (lib.resolve scope typeName) with
      | none => none
      | some (.error fault, memo) => some (.error fault, memo)
      | some (.ok schema, memo) =>
        match fieldsVia lib ask scope memo r with
        | none => none
        | some (.error fault, memo) => some (.error fault, memo)
        | some (.ok rest, memo) => some (.ok (.message f.name schema :: rest), memo)

/-- The schema of a full name by plain recursion. There is no answer when calls nest deeper than `depth`. -/
def deriveWithin (lib : Library) : Nat → List String → Memo → String → Option (Except SchemaFault Schema × Memo)
  | 0, _, _, _ => none
  | depth + 1, trail, memo, name =>
    match memo.find? name with
    | some schema => some (.ok schema, memo)
    | none =>
      match lib.declared? name with
      | none => some (.error (.unknownType name), memo)
      | some m =>
        if trail.contains name then some (.error (.recursive name), memo)
        else
          match fieldsVia lib (deriveWithin lib depth (name :: trail)) name memo m.fields with
          | none => none
          | some (.error fault, memo) => some (.error fault, memo)
          | some (.ok fields, memo) => some (.ok (.mk name fields), (name, .mk name fields) :: memo)

theorem fieldsVia_eq {ask : Memo → String → Option (Except SchemaFault Schema × Memo)} {trail : List String}
    (hask : ∀ memo name, ask memo name = some (derive lib trail memo name)) (scope : String) (memo : Memo)
    (fs : List Descriptor.Field) : fieldsVia lib ask scope memo fs = some (deriveFields lib trail memo scope fs) := by
  induction fs generalizing memo with
  | nil => rw [fieldsVia, deriveFields]
  | cons f r ih =>
    cases hplan : planOf f with
    | error fault => rw [fieldsVia, deriveFields, hplan]
    | ok plan =>
      cases plan with
      | leaf kind =>
        rw [fieldsVia, deriveFields, hplan]
        simp only [ih]
        rcases deriveFields lib trail memo scope r with ⟨_ | _, _⟩ <;> rfl
      | message typeName =>
        rw [fieldsVia, deriveFields, hplan]
        simp only [hask]
        rcases derive lib trail memo (lib.resolve scope typeName) with ⟨_ | schema, memo'⟩
        · rfl
        · simp only [ih]
          rcases deriveFields lib trail memo' scope r with ⟨_ | _, _⟩ <;> rfl

/-- The plain recursion answers within a depth that is greater than the number of types that are not on the trail. -/
theorem deriveWithin_eq {depth : Nat} {trail : List String} (h : lib.unread trail < depth) (memo : Memo) (name : String) :
    lib.deriveWithin depth trail memo name = some (derive lib trail memo name) := by
  induction depth generalizing trail memo name with
  | zero => exact absurd h (Nat.not_lt_zero _)
  | succ depth ih =>
    rw [deriveWithin]
    cases hfind : memo.find? name with
    | some s => rw [derive_of_find? hfind]
    | none =>
      cases hm : lib.declared? name with
      | none => rw [derive_of_unknown hfind hm]
      | some m =>
        simp only
        by_cases hnew : trail.contains name = true
        · rw [if_pos hnew, derive_of_recursive hfind hm hnew]
        · have hless : lib.unread (name :: trail) < depth := by
            have := unread_lt hm hnew
            omega
          rw [if_neg hnew, derive_of_declared hfind hm hnew, fieldsVia_eq fun memo name => ih hless memo name]
          rcases deriveFields lib (name :: trail) memo name m.fields with ⟨_ | _, _⟩ <;> rfl

/-- Each of several calls answers what it would have answered first. A call succeeds for the empty name and for the names of
convertible types. The recursion ends on every library: it answers without nesting deeper than there are types, and one. -/
theorem schemas_exact (lib : Library) :
    (∀ names, lib.schemasFrom [] names = names.map lib.schema) ∧
      (∀ name, (∃ s, lib.schema name = .ok s) ↔ name.isEmpty = true ∨ lib.IsConvertible (bareName name)) ∧
      ∀ memo name, lib.deriveWithin (lib.messages.length + 1) [] memo name = some (lib.derive [] memo name) := by
  refine ⟨schemasFrom_eq Memo.sound_nil, ?_, ?_⟩
  · intro name
    unfold schema schemaFrom
    by_cases hname : name.isEmpty = true
    · rw [if_pos hname]
      exact ⟨fun _ => .inl hname, fun _ => ⟨.empty, rfl⟩⟩
    · rw [if_neg hname]
      constructor
      · rintro ⟨s, hs⟩
        exact .inr (((derive_sound lib).1 [] [] (bareName name) Memo.sound_nil).2 s hs).isConvertible
      · intro h
        exact exists_derive_eq_ok (h.resolve_left hname) (by simp) []
  · intro memo name
    have hcount : lib.unread [] ≤ lib.messages.length := List.length_filter_le _ _
    exact deriveWithin_eq (by omega) memo name

end ContractShell.Library
