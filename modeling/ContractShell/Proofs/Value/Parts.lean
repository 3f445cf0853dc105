import ContractShell.Proofs.Descriptor.Soundness
import ContractShell.Proofs.Value.Leaf

/-!
The parts that a message is written as, as a relation.

`FieldsWrite` says, field by field, in which slot a member goes and as which part. It knows neither of the parts that
were put before a part nor of those that it takes the place of: where no two fields share a oneof, none does.

## Main statements

* `FieldsHold.fieldParts_eq_ok_iff`: a message can be written just when the relation gives its parts.
* `FieldsWrite.depth_le`: messages lie in a part no deeper than in the schema.
-/

namespace ContractShell

open Descriptor (FieldType Slot Linked Pool)
open Wire (Item Layout Layouts)

/-! ## 1. Slots of a message type -/

theorem Descriptor.Linked.mem_of_slot? {linked : Linked} {name : String} {slot : Slot}
    (h : linked.slot? name = some slot) : slot ∈ linked.slots ∧ slot.name = name :=
  ⟨List.mem_of_find?_eq_some h, by simpa using List.find?_some h⟩

theorem Descriptor.Linked.IsSound.eq_of_name {linked : Linked} (hsound : linked.IsSound) {s t : Slot}
    (hs : s ∈ linked.slots) (ht : t ∈ linked.slots) (h : s.name = t.name) : s = t :=
  List.inj_on_of_nodup_map hsound.names hs ht h

theorem Descriptor.Linked.IsSound.eq_of_number {linked : Linked} (hsound : linked.IsSound) {s t : Slot}
    (hs : s ∈ linked.slots) (ht : t ∈ linked.slots) (h : s.number = t.number) : s = t :=
  List.inj_on_of_nodup_map hsound.numbers hs ht h

theorem Descriptor.Pool.mem_of_find? {pool : Pool} {type : String} {linked : Linked}
    (h : pool.find? type = some linked) : linked ∈ pool.messages ∧ linked.name = type :=
  ⟨List.mem_of_find?_eq_some h, by simpa using List.find?_some h⟩

theorem Descriptor.Pool.IsSound.of_find? {pool : Pool} (hpool : pool.IsSound) {type : String} {linked : Linked}
    (h : pool.find? type = some linked) : linked.IsSound := hpool linked (Pool.mem_of_find? h).1

/-- No two fields of a message type share a oneof. -/
def Descriptor.Linked.HasNoRivals (linked : Linked) : Prop :=
  ∀ s ∈ linked.slots, ∀ t ∈ linked.slots, s.oneof.isSome = true → s.oneof = t.oneof → s.name = t.name

/-- The message types that are met when the fields of a message are put into a message type. -/
inductive Visits (pool : Pool) : Linked → List Field → Linked → Prop where
  | here {linked : Linked} {fields : List Field} : Visits pool linked fields linked
  | inside {linked next last : Linked} {fields inner : List Field} {name type : String} {slot : Slot}
      (hmem : Field.message name (.mk type inner) ∈ fields) (hslot : linked.slot? name = some slot)
      (hfind : pool.find? slot.target = some next) (h : Visits pool next inner last) : Visits pool linked fields last

theorem Visits.cons {pool : Pool} {linked last : Linked} {f : Field} {fields : List Field}
    (h : Visits pool linked fields last) : Visits pool linked (f :: fields) last := by
  cases h with
  | here => exact .here
  | inside hmem hslot hfind h => exact .inside (List.mem_cons_of_mem _ hmem) hslot hfind h

/-! ## 2. The relation -/

/-- The parts that are there. -/
def written (outs : List (Slot × Option Part)) : List Part := outs.filterMap (·.2)

/-- The slots that the members of a message go in, and the parts that they are written as. -/
inductive FieldsWrite (pool : Pool) :
    Linked → List Field → List (String × Value) → List (Slot × Option Part) → Prop where
  | nil {linked : Linked} : FieldsWrite pool linked [] [] []
  | leaf {linked : Linked} {name : String} {kind : LeafKind} {x : Value} {slot : Slot} {o : Option Item}
      {fields : List Field} {members : List (String × Value)} {outs : List (Slot × Option Part)}
      (hslot : linked.slot? name = some slot) (hitem : leafItem linked.name slot x = .ok o)
      (h : FieldsWrite pool linked fields members outs) :
      FieldsWrite pool linked (.leaf name kind :: fields) ((name, x) :: members)
        ((slot, o.map fun i => ⟨slot.oneof, i, 0, []⟩) :: outs)
  | message {linked next : Linked} {name type : String} {slot : Slot} {inner fields : List Field}
      {xs members : List (String × Value)} {innerOuts outs : List (Slot × Option Part)}
      (hslot : linked.slot? name = some slot) (hsingle : slot.repeated = false) (htype : slot.type.isMessage = true)
      (hfind : pool.find? slot.target = some next) (hplacing : next.slot? placingOperation = none)
      (hx : FieldsWrite pool next inner xs innerOuts) (h : FieldsWrite pool linked fields members outs) :
      FieldsWrite pool linked (.message name (.mk type inner) :: fields) ((name, .message xs) :: members)
        ((slot, some (nestedPart slot next (written innerOuts))) :: outs)

section

variable {pool : Pool} {linked : Linked} {fields : List Field} {members : List (String × Value)}
  {outs : List (Slot × Option Part)}

theorem written_cons (slot : Slot) (o : Option Part) (outs : List (Slot × Option Part)) :
    written ((slot, o) :: outs) = o.toList ++ written outs := by
  cases o <;> rfl

theorem mem_written {p : Part} : p ∈ written outs ↔ ∃ out ∈ outs, out.2 = some p := by
  unfold written
  rw [List.mem_filterMap]

theorem FieldsWrite.names (h : FieldsWrite pool linked fields members outs) :
    outs.map (·.1.name) = fields.map (·.name) := by
  induction h with
  | nil => rfl
  | leaf hslot _ _ ih | message hslot _ _ _ _ _ _ _ ih =>
    rw [List.map_cons, List.map_cons, ih, (Descriptor.Linked.mem_of_slot? hslot).2]
    rfl

theorem FieldsWrite.memberNames (h : FieldsWrite pool linked fields members outs) :
    members.map (·.1) = fields.map (·.name) := by
  induction h with
  | nil => rfl
  | leaf _ _ _ ih | message _ _ _ _ _ _ _ _ ih =>
    rw [List.map_cons, List.map_cons, ih]
    rfl

theorem FieldsWrite.mem_slots (h : FieldsWrite pool linked fields members outs) :
    ∀ out ∈ outs, out.1 ∈ linked.slots := by
  induction h with
  | nil => simp
  | leaf hslot _ _ ih | message hslot _ _ _ _ _ _ _ ih =>
    exact List.forall_mem_cons.mpr ⟨(Descriptor.Linked.mem_of_slot? hslot).1, ih⟩

theorem item_nestedPart (slot : Slot) (next : Linked) (inner : List Part) :
    (nestedPart slot next inner).item =
      if slot.type = .group then .group slot.number (joinParts inner) else .delimited slot.number (joinParts inner) := rfl

theorem number_nestedPart (slot : Slot) (next : Linked) (inner : List Part) :
    (nestedPart slot next inner).item.number = slot.number := by
  rw [item_nestedPart]
  by_cases htype : slot.type = .group
  · rw [if_pos htype]
    rfl
  · rw [if_neg htype]
    rfl

/-- A part has the number of its slot and is in the oneof of its slot. -/
theorem FieldsWrite.of_mem (h : FieldsWrite pool linked fields members outs) :
    ∀ out ∈ outs, ∀ p ∈ out.2, p.item.number = out.1.number ∧ p.oneof = out.1.oneof := by
  induction h with
  | nil => simp
  | @leaf linked name kind x slot o fields members outs hslot hitem _ ih =>
    refine List.forall_mem_cons.mpr ⟨fun p hp => ?_, ih⟩
    obtain ⟨i, hi, rfl⟩ := Option.map_eq_some_iff.mp hp
    exact ⟨(isPlain_of_written (written_of_leafItem hitem).2.2 hi).number, rfl⟩
  | message _ _ _ _ _ _ _ _ ih =>
    refine List.forall_mem_cons.mpr ⟨fun p hp => ?_, ih⟩
    cases hp
    exact ⟨number_nestedPart _ _ _, rfl⟩

/-! ## 3. Writing follows the relation -/

theorem putPart_of_new {p : Part} {parts : List Part} (h : p.oneof.isSome = true → ∀ q ∈ parts, q.oneof ≠ p.oneof) :
    putPart p parts = parts ++ [p] := by
  unfold putPart
  cases hp : p.oneof with
  | none => rfl
  | some n =>
    have hall : parts.filter (fun q => q.oneof != some n) = parts := by
      rw [List.filter_eq_self]
      intro q hq
      have hne := h (by rw [hp]; rfl) q hq
      rw [hp] at hne
      exact bne_iff_ne.mpr hne
    simp only [hall]

theorem memberOf_of_mem (hnodup : (members.map (·.1)).Nodup) {p : String × Value} (hp : p ∈ members) :
    memberOf p.1 (.message members) = .ok p.2 := by
  have hmember := member?_of_mem hnodup hp
  simp only [memberOf, Value.lookUp, hmember]

/-- A field's slot shares its oneof with no part that is there. -/
def IsNew (linked : Linked) (fields : List Field) (done : List Part) : Prop :=
  ∀ f ∈ fields, ∀ slot, linked.slot? f.name = some slot → slot.oneof.isSome = true → ∀ q ∈ done, q.oneof ≠ slot.oneof

theorem isNew_nil (linked : Linked) (fields : List Field) : IsNew linked fields [] := by
  intro f _ slot _ _ q hq
  cases hq

/-- What a plain field is written as. -/
theorem fieldPart_leaf_eq_ok_iff {v x : Value} {name : String} {kind : LeafKind} {o : Option Part}
    (hx : memberOf name v = .ok x) :
    fieldPart pool linked v (.leaf name kind) = .ok o ↔
      ∃ slot i, linked.slot? name = some slot ∧ leafItem linked.name slot x = .ok i ∧
        o = i.map fun i => ⟨slot.oneof, i, 0, []⟩ := by
  rw [fieldPart]
  simp only [hx]
  constructor
  · intro h
    cases hslot : linked.slot? name with
    | none =>
      simp only [hslot] at h
      cases h
    | some slot =>
      cases hitem : leafItem linked.name slot x with
      | error fault =>
        simp only [hslot, hitem, Except.map] at h
        cases h
      | ok i =>
        simp only [hslot, hitem, Except.map] at h
        cases h
        exact ⟨slot, i, rfl, hitem, rfl⟩
  · rintro ⟨slot, i, hslot, hitem, rfl⟩
    simp only [hslot, hitem, Except.map]

/-- What a nested message is written as. -/
theorem fieldPart_message_eq_ok_iff {v x : Value} {name type : String} {inner : List Field} {o : Option Part}
    (hx : memberOf name v = .ok x) :
    fieldPart pool linked v (.message name (.mk type inner)) = .ok o ↔
      ∃ slot next parts, linked.slot? name = some slot ∧ slot.repeated = false ∧ slot.type.isMessage = true ∧
        pool.find? slot.target = some next ∧ next.slot? placingOperation = none ∧
        fieldParts pool next x inner [] = .ok parts ∧ o = some (nestedPart slot next parts) := by
  rw [fieldPart]
  simp only [hx]
  constructor
  · intro h
    -- Each check in turn either fails or gives one of the facts.
    cases hslot : linked.slot? name with
    | none =>
      simp only [hslot] at h
      cases h
    | some slot =>
      simp only [hslot] at h
      by_cases hplain : (slot.repeated || !slot.type.isMessage) = true
      · rw [if_pos hplain] at h
        cases h
      · rw [if_neg hplain] at h
        rw [Bool.or_eq_true, Bool.not_eq_true', not_or, Bool.not_eq_true, Bool.not_eq_false] at hplain
        cases hfind : pool.find? slot.target with
        | none =>
          simp only [hfind] at h
          cases h
        | some next =>
          cases hplacing : next.slot? placingOperation with
          | some field =>
            simp only [hfind, hplacing] at h
            cases h
          | none =>
            simp only [hfind, hplacing, Schema.parts] at h
            cases hparts : fieldParts pool next x inner [] with
            | error fault =>
              simp only [hparts] at h
              cases h
            | ok parts =>
              simp only [hparts] at h
              cases h
              exact ⟨slot, next, parts, rfl, hplain.1, hplain.2, hfind, hplacing, hparts, rfl⟩
  · rintro ⟨slot, next, parts, hslot, hsingle, htype, hfind, hplacing, hparts, rfl⟩
    have hplain : ¬ (slot.repeated || !slot.type.isMessage) = true := by
      rw [hsingle, htype]
      decide
    simp only [hslot]
    rw [if_neg hplain]
    simp only [hfind, hplacing, Schema.parts, hparts]

/-- A field without a schema is never written. -/
theorem fieldPart_unknown_ne_ok (pool : Pool) (linked : Linked) (v : Value) (name : String) (o : Option Part) :
    fieldPart pool linked v (.unknown name) ≠ .ok o := by
  intro h
  rw [fieldPart] at h
  split at h
  · cases h
  · split at h
    · cases h
    · split at h <;> cases h

/-- What a field is written as is in the oneof of its slot. -/
theorem oneof_of_fieldPart {v : Value} {f : Field} {p : Part} (h : fieldPart pool linked v f = .ok (some p)) :
    ∃ slot, linked.slot? f.name = some slot ∧ p.oneof = slot.oneof := by
  cases f with
  | leaf name kind =>
    cases hx : memberOf name v with
    | error fault =>
      rw [fieldPart, hx] at h
      cases h
    | ok x =>
      obtain ⟨slot, i, hslot, -, hp⟩ := (fieldPart_leaf_eq_ok_iff hx).mp h
      obtain ⟨item, -, rfl⟩ := Option.map_eq_some_iff.mp hp.symm
      exact ⟨slot, hslot, rfl⟩
  | message name schema =>
    obtain ⟨type, inner⟩ := schema
    cases hx : memberOf name v with
    | error fault =>
      rw [fieldPart, hx] at h
      cases h
    | ok x =>
      obtain ⟨slot, next, parts, hslot, -, -, -, -, -, hp⟩ := (fieldPart_message_eq_ok_iff hx).mp h
      cases hp
      exact ⟨slot, hslot, rfl⟩
  | unknown name => exact absurd h (fieldPart_unknown_ne_ok pool linked v name _)

/-- The part of a field that is new is put after those that are there. -/
theorem IsNew.putPart {v : Value} {f : Field} {done : List Part} {p : Part} (h : IsNew linked (f :: fields) done)
    (hpart : fieldPart pool linked v f = .ok (some p)) : putPart p done = done ++ [p] := by
  obtain ⟨slot, hslot, hp⟩ := oneof_of_fieldPart hpart
  apply putPart_of_new
  rw [hp]
  exact h f List.mem_cons_self slot hslot

/-- The later fields are new after it, since no two fields share a oneof. -/
theorem IsNew.next {v : Value} {f : Field} {done : List Part} {o : Option Part} (h : IsNew linked (f :: fields) done)
    (hrivals : linked.HasNoRivals) (hname : f.name ∉ fields.map (·.name))
    (hpart : fieldPart pool linked v f = .ok o) : IsNew linked fields (done ++ o.toList) := by
  intro g hg other hother hsome q hq
  rcases List.mem_append.mp hq with hq | hq
  · exact h g (List.mem_cons_of_mem _ hg) other hother hsome q hq
  · rw [Option.mem_toList.mp hq] at hpart
    obtain ⟨slot, hslot, honeof⟩ := oneof_of_fieldPart hpart
    rw [honeof]
    intro heq
    obtain ⟨hmem, hname'⟩ := Descriptor.Linked.mem_of_slot? hslot
    obtain ⟨hmemOther, hnameOther⟩ := Descriptor.Linked.mem_of_slot? hother
    have hsame := hrivals other hmemOther slot hmem hsome heq.symm
    rw [hname', hnameOther] at hsame
    exact hname (hsame ▸ List.mem_map_of_mem hg)

/-- A field that is new is written after the parts that are there, and before those of the later fields. -/
theorem fieldParts_cons_eq_ok_iff {v : Value} {f : Field} {done parts : List Part}
    (hdone : IsNew linked (f :: fields) done) :
    fieldParts pool linked v (f :: fields) done = .ok parts ↔
      ∃ o, fieldPart pool linked v f = .ok o ∧ fieldParts pool linked v fields (done ++ o.toList) = .ok parts := by
  rw [fieldParts]
  cases hpart : fieldPart pool linked v f with
  | error fault => simp
  | ok o =>
    cases o with
    | none => simp
    | some p => simp [hdone.putPart hpart]

/-- The parts that the relation gives are put after those that are there. -/
theorem FieldsWrite.fieldParts_eq (h : FieldsWrite pool linked fields members outs)
    (hnames : (fields.map (·.name)).Nodup) (hdistinct : haveDistinctNames fields)
    (hrivals : ∀ last, Visits pool linked fields last → last.HasNoRivals) {v : Value}
    (hv : ∀ p ∈ members, memberOf p.1 v = .ok p.2) {done : List Part} (hdone : IsNew linked fields done) :
    fieldParts pool linked v fields done = .ok (done ++ written outs) := by
  -- No later field is in the oneof of an earlier part, so every part is put at the end.
  induction h generalizing v done with
  | nil => rw [fieldParts, written, List.filterMap_nil, List.append_nil]
  | @leaf linked name kind x slot o fields members outs hslot hitem _ ih =>
    rw [List.map_cons, List.nodup_cons] at hnames
    have hx : memberOf name v = .ok x := hv (name, x) List.mem_cons_self
    have hpart := (@fieldPart_leaf_eq_ok_iff pool linked v x name kind _ hx).mpr ⟨slot, o, hslot, hitem, rfl⟩
    have hrest := ih hnames.2 hdistinct (fun last hl => hrivals last hl.cons)
      (fun p hp => hv p (List.mem_cons_of_mem _ hp)) (hdone.next (hrivals linked .here) hnames.1 hpart)
    rw [written_cons, ← List.append_assoc]
    exact (fieldParts_cons_eq_ok_iff hdone).mpr ⟨_, hpart, hrest⟩
  | @message linked next name type slot inner fields xs members innerOuts outs hslot hsingle htype hfind hplacing hx _
      ihx ih =>
    rw [List.map_cons, List.nodup_cons] at hnames
    have hxs : memberOf name v = .ok (.message xs) := hv (name, .message xs) List.mem_cons_self
    have hinnerNames : (xs.map (·.1)).Nodup := by
      rw [hx.memberNames]
      exact hdistinct.1.1
    -- Nothing is put into the nested message before its own parts.
    have hinner := @ihx hdistinct.1.1 hdistinct.1.2
      (fun last hl => hrivals last (.inside List.mem_cons_self hslot hfind hl)) (.message xs)
      (fun p hp => memberOf_of_mem hinnerNames hp) [] (isNew_nil next inner)
    have hpart := (@fieldPart_message_eq_ok_iff pool linked v (.message xs) name type inner _ hxs).mpr
      ⟨slot, next, written innerOuts, hslot, hsingle, htype, hfind, hplacing, hinner, rfl⟩
    have hrest := ih hnames.2 hdistinct.2 (fun last hl => hrivals last hl.cons)
      (fun p hp => hv p (List.mem_cons_of_mem _ hp)) (hdone.next (hrivals linked .here) hnames.1 hpart)
    rw [written_cons, ← List.append_assoc]
    exact (fieldParts_cons_eq_ok_iff hdone).mpr ⟨_, hpart, hrest⟩

/-- A message can be written just when the relation gives its parts, which are then put after those that are there. -/
theorem FieldsHold.fieldParts_eq_ok_iff (h : FieldsHold fields members) (hnames : (fields.map (·.name)).Nodup)
    (hdistinct : haveDistinctNames fields) (hrivals : ∀ last, Visits pool linked fields last → last.HasNoRivals)
    {v : Value} (hv : ∀ p ∈ members, memberOf p.1 v = .ok p.2) {done parts : List Part}
    (hdone : IsNew linked fields done) :
    fieldParts pool linked v fields done = .ok parts ↔
      ∃ outs, FieldsWrite pool linked fields members outs ∧ parts = done ++ written outs := by
  constructor
  · induction h generalizing linked v done parts with
    | nil =>
      intro heq
      rw [fieldParts] at heq
      cases heq
      exact ⟨[], .nil, (List.append_nil done).symm⟩
    | @leaf name kind x fields members _ _ ih =>
      intro heq
      rw [List.map_cons, List.nodup_cons] at hnames
      have hx : memberOf name v = .ok x := hv (name, x) List.mem_cons_self
      obtain ⟨o, hpart, heq⟩ := (fieldParts_cons_eq_ok_iff hdone).mp heq
      obtain ⟨outs, hwrite, rfl⟩ := ih hnames.2 hdistinct (fun last hl => hrivals last hl.cons)
        (fun p hp => hv p (List.mem_cons_of_mem _ hp)) (hdone.next (hrivals linked .here) hnames.1 hpart) heq
      obtain ⟨slot, i, hslot, hitem, rfl⟩ := (fieldPart_leaf_eq_ok_iff hx).mp hpart
      exact ⟨_, .leaf hslot hitem hwrite, by rw [written_cons, List.append_assoc]⟩
    | @message name type inner fields xs members hx _ ihx ih =>
      intro heq
      rw [List.map_cons, List.nodup_cons] at hnames
      have hxs : memberOf name v = .ok (.message xs) := hv (name, .message xs) List.mem_cons_self
      have hinnerNames : (xs.map (·.1)).Nodup := by
        rw [hx.names]
        exact hdistinct.1.1
      obtain ⟨o, hpart, heq⟩ := (fieldParts_cons_eq_ok_iff hdone).mp heq
      obtain ⟨outs, hwrite, rfl⟩ := ih hnames.2 hdistinct.2 (fun last hl => hrivals last hl.cons)
        (fun p hp => hv p (List.mem_cons_of_mem _ hp)) (hdone.next (hrivals linked .here) hnames.1 hpart) heq
      obtain ⟨slot, next, parts', hslot, hsingle, htype, hfind, hplacing, hparts, rfl⟩ :=
        (fieldPart_message_eq_ok_iff hxs).mp hpart
      -- Nothing is put into the nested message before its own parts.
      obtain ⟨innerOuts, hwrites, rfl⟩ := ihx hdistinct.1.1 hdistinct.1.2
        (fun last hl => hrivals last (.inside List.mem_cons_self hslot hfind hl))
        (fun p hp => memberOf_of_mem hinnerNames hp) (isNew_nil next inner) hparts
      rw [List.nil_append]
      exact ⟨_, .message hslot hsingle htype hfind hplacing hwrites hwrite, by rw [written_cons, List.append_assoc]⟩
  · rintro ⟨outs, hwrite, rfl⟩
    exact hwrite.fieldParts_eq hnames hdistinct hrivals hv hdone

/-! ## 4. Depth and length -/

mutual

/-- How deep messages lie in a message of a schema. -/
def Schema.depth : Schema → Nat
  | .mk _ fields => fieldsDepth fields

/-- How deep messages lie in a list of fields. -/
def fieldsDepth : List Field → Nat
  | [] => 0
  | .message _ schema :: r => max (schema.depth + 1) (fieldsDepth r)
  | .leaf _ _ :: r => fieldsDepth r
  | .unknown _ :: r => fieldsDepth r

end

theorem partsDepth_le_iff {parts : List Part} {depth : Nat} :
    partsDepth parts ≤ depth ↔ ∀ p ∈ parts, p.depth ≤ depth := by
  have hfrom : ∀ start, parts.foldl (fun d p => max d p.depth) start ≤ depth ↔
      start ≤ depth ∧ ∀ p ∈ parts, p.depth ≤ depth := by
    induction parts with
    | nil => simp
    | cons p parts ih =>
      intro start
      rw [List.foldl_cons, ih, List.forall_mem_cons, Nat.max_le, and_assoc]
  rw [partsDepth, hfrom 0]
  simp

/-- Messages lie in a part no deeper than in the schema. -/
theorem FieldsWrite.depth_le (h : FieldsWrite pool linked fields members outs) :
    ∀ p ∈ written outs, p.depth ≤ fieldsDepth fields := by
  induction h with
  | nil => simp [written]
  | leaf _ _ _ ih =>
    intro p hp
    rw [written_cons, List.mem_append, Option.mem_toList, Option.map_eq_some_iff] at hp
    rw [fieldsDepth]
    rcases hp with ⟨i, -, rfl⟩ | hp
    · exact Nat.zero_le _
    · exact ih p hp
  | message _ _ _ _ _ _ _ ihx ih =>
    intro p hp
    rw [written_cons, List.mem_append, Option.mem_toList] at hp
    rw [fieldsDepth, Schema.depth]
    rcases hp with hp | hp
    · cases hp
      have hinner := partsDepth_le_iff.mpr ihx
      simp only [nestedPart]
      omega
    · have hrest := ih p hp
      omega

theorem perm_sortedItems (parts : List Part) : (sortedItems parts).Perm (parts.map (·.item)) :=
  (List.mergeSort_perm parts _).map _

theorem mem_sortedItems {parts : List Part} {i : Item} : i ∈ sortedItems parts ↔ ∃ p ∈ parts, p.item = i := by
  rw [(perm_sortedItems parts).mem_iff, List.mem_map]

/-- A part is no longer than the message. -/
theorem length_write_le_joinParts {parts : List Part} {p : Part} (hp : p ∈ parts) :
    p.item.write.length ≤ (joinParts parts).length := by
  obtain ⟨before, after, hsplit⟩ := List.append_of_mem (mem_sortedItems.mpr ⟨p, hp, rfl⟩)
  rw [joinParts, hsplit, List.flatMap_append, List.flatMap_cons, List.length_append, List.length_append]
  omega

/-- A nested message is shorter than the part that it is written as. -/
theorem length_joinParts_lt_nestedPart (slot : Slot) (next : Linked) (inner : List Part) :
    (joinParts inner).length < (nestedPart slot next inner).item.write.length := by
  have hbody := (nestedPart slot next inner).item.length_body_lt
  rw [item_nestedPart] at hbody ⊢
  by_cases htype : slot.type = .group
  · rw [if_pos htype, Item.body, List.length_append] at hbody
    rw [if_pos htype]
    omega
  · rw [if_neg htype, Item.body, List.length_append] at hbody
    rw [if_neg htype]
    omega

end

end ContractShell
