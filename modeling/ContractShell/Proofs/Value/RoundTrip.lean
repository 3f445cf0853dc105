import ContractShell.Proofs.Correspondence
import ContractShell.Proofs.Value.WellFormed

/-!
When a message is read back from its bytes.

## Main statements

* `FieldsWrite.valueOf_iff`: the parts of a message give it back just when each part gives back its member.
* `Library.decode_encode_iff`: a message is read back from its bytes just when the library carries it.
-/

namespace ContractShell

open Descriptor (FieldType Slot Linked Pool)
open Wire (Item)

/-! ## 1. Reading members -/

section

variable {pool : Pool} {linked : Linked} {fields : List Field} {members : List (String × Value)}
  {outs : List (Slot × Option Part)}

theorem areRivals_eq_false (hsound : linked.IsSound) (hrivals : linked.HasNoRivals) (a b : Nat) :
    areRivals linked a b = false := by
  rw [Bool.eq_false_iff]
  intro h
  unfold areRivals at h
  rw [Bool.and_eq_true, bne_iff_ne, List.any_eq_true] at h
  obtain ⟨hne, s, hs, hmore⟩ := h
  rw [Bool.and_eq_true, Bool.and_eq_true, beq_iff_eq, List.any_eq_true] at hmore
  obtain ⟨⟨rfl, hsome⟩, t, ht, hboth⟩ := hmore
  rw [Bool.and_eq_true, beq_iff_eq, beq_iff_eq] at hboth
  obtain ⟨rfl, honeof⟩ := hboth
  have hname := hrivals s hs t ht hsome honeof.symm
  rw [hsound.eq_of_name hs ht hname] at hne
  exact hne rfl

/-- Where no two fields share a oneof, every item counts. -/
theorem settle_eq_self (hsound : linked.IsSound) (hrivals : linked.HasNoRivals) (items : List Item) :
    settle linked items = items := by
  have hitem : ∀ done i, settleItem linked done i = done ++ [i] := by
    intro done i
    have hall : (done.filter fun j => !areRivals linked i.number j.number) = done := by
      rw [List.filter_eq_self]
      intro j _
      rw [areRivals_eq_false hsound hrivals, Bool.not_false]
    unfold settleItem
    rw [hall, ite_self]
  have hfrom : ∀ done, items.foldl (settleItem linked) done = done ++ items := by
    induction items with
    | nil => simp
    | cons i items ih =>
      intro done
      rw [List.foldl_cons, hitem, ih, List.append_assoc, List.singleton_append]
  unfold settle
  rw [hfrom, List.nil_append, ite_self]

/-- A list of fields gives members just when each field gives its member. -/
theorem filterMap_eq_iff_forall₂ {value : Field → Option Value} (hnames : (fields.map (·.name)).Nodup)
    (hmembers : members.map (·.1) = fields.map (·.name)) :
    (fields.filterMap fun f => (value f).map (f.name, ·)) = members ↔
      List.Forall₂ (fun f p => value f = some p.2) fields members := by
  induction fields generalizing members with
  | nil =>
    rw [List.map_eq_nil_iff.mp hmembers]
    simp
  | cons f fields ih =>
    obtain ⟨p, rest, rfl⟩ : ∃ p rest, members = p :: rest := by
      cases members with
      | nil => cases hmembers
      | cons p rest => exact ⟨p, rest, rfl⟩
    rw [List.map_cons, List.map_cons, List.cons.injEq] at hmembers
    rw [List.map_cons, List.nodup_cons] at hnames
    have hrest := ih hnames.2 hmembers.2
    rw [List.filterMap_cons, List.forall₂_cons]
    cases hvalue : value f with
    | none =>
      simp only [Option.map_none, reduceCtorEq, false_and, iff_false]
      -- The member would have to come from a later field, which has another name.
      intro h
      have hp : p ∈ fields.filterMap fun g => (value g).map (g.name, ·) := by
        rw [h]
        exact List.mem_cons_self
      obtain ⟨g, hg, hentry⟩ := List.mem_filterMap.mp hp
      obtain ⟨x, -, hx⟩ := Option.map_eq_some_iff.mp hentry
      have hname : g.name = f.name := by rw [← hmembers.1, ← hx]
      exact hnames.1 (hname ▸ List.mem_map_of_mem hg)
    | some x =>
      simp only [Option.map_some, List.cons.injEq, Option.some.injEq, hrest, Prod.ext_iff, hmembers.1, true_and]

theorem fieldValues_eq (items : List Item) (hnames : (fields.map (·.name)).Nodup) (done : List (String × Value))
    (hdone : ∀ p ∈ done, p.1 ∉ fields.map (·.name)) :
    fieldValues pool linked items fields done =
      done ++ fields.filterMap fun f => (fieldValue? pool linked items f).map (f.name, ·) := by
  induction fields generalizing done with
  | nil => rw [fieldValues, List.filterMap_nil, List.append_nil]
  | cons f fields ih =>
    rw [List.map_cons, List.nodup_cons] at hnames
    rw [fieldValues, List.filterMap_cons]
    cases hvalue : fieldValue? pool linked items f with
    | none => exact ih hnames.2 done fun p hp hmem => hdone p hp (List.mem_cons_of_mem _ hmem)
    | some x =>
      have hnew : ∀ p ∈ done, p.1 ≠ f.name := fun p hp heq => hdone p hp (by rw [heq]; exact List.mem_cons_self)
      have hnext : ∀ p ∈ done ++ [(f.name, x)], p.1 ∉ fields.map (·.name) := by
        intro p hp
        rcases List.mem_append.mp hp with hp | hp
        · exact fun hmem => hdone p hp (List.mem_cons_of_mem _ hmem)
        · rw [List.mem_singleton.mp hp]
          exact hnames.1
      simp only [Value.setMember_fresh f.name x done hnew, Option.map_some]
      rw [ih hnames.2 _ hnext, List.append_assoc, List.singleton_append]

theorem joinedContent_filter (n : Nat) (items : List Item) :
    Wire.joinedContent n (items.filter (·.number == n)) = Wire.joinedContent n items := by
  unfold Wire.joinedContent
  induction items with
  | nil => rfl
  | cons i items ih =>
    rw [List.filter_cons]
    by_cases hi : (i.number == n) = true
    · rw [if_pos hi, List.flatMap_cons, List.flatMap_cons, ih]
    · rw [if_neg hi, List.flatMap_cons, ih]
      cases i <;> simp_all [Item.number]

/-- The items with the number of a field's slot say what the field holds. -/
theorem fieldValue?_filter {f : Field} {slot : Slot} (hslot : linked.slot? f.name = some slot) (items : List Item) :
    fieldValue? pool linked (items.filter (·.number == slot.number)) f = fieldValue? pool linked items f := by
  cases f with
  | leaf name kind =>
    have hslot : linked.slot? name = some slot := hslot
    rw [fieldValue?, fieldValue?, hslot]
    simp only [Option.map_some, leafValue_filter]
  | message name schema =>
    have hslot : linked.slot? name = some slot := hslot
    have hbytes : nestedBytesOf slot (items.filter (·.number == slot.number)) = nestedBytesOf slot items := by
      unfold nestedBytesOf Wire.joinedPayload?
      rw [joinedContent_filter, payloads_filter]
    rw [fieldValue?, fieldValue?, hslot]
    simp only [hbytes]
  | unknown name => rw [fieldValue?, fieldValue?]

/-! ## 2. Parts among others -/

/-- The parts of different slots have different numbers. -/
theorem FieldsWrite.pairwise_number (h : FieldsWrite pool linked fields members outs) (hsound : linked.IsSound)
    (hnames : (fields.map (·.name)).Nodup) : outs.Pairwise fun a b => a.1.number ≠ b.1.number := by
  rw [← h.names] at hnames
  apply List.Pairwise.imp_of_mem _ (List.pairwise_map.mp hnames)
  intro a b ha hb hname hnumber
  exact hname (congrArg Slot.name (hsound.eq_of_number (h.mem_slots a ha) (h.mem_slots b hb) hnumber))

/-- Where the slots have different numbers, the items with the number of a slot are what was written in it. -/
theorem filter_items_written (hnumbers : outs.Pairwise fun a b => a.1.number ≠ b.1.number)
    (hparts : ∀ out ∈ outs, ∀ p ∈ out.2, p.item.number = out.1.number) {out : Slot × Option Part} (hout : out ∈ outs) :
    ((written outs).map (·.item)).filter (·.number == out.1.number) = (out.2.map (·.item)).toList := by
  induction outs with
  | nil => cases hout
  | cons first outs ih =>
    rw [List.pairwise_cons] at hnumbers
    rw [List.forall_mem_cons] at hparts
    obtain ⟨slot, o⟩ := first
    have hhead : (o.toList.map (·.item)).filter (·.number == out.1.number) =
        if slot.number = out.1.number then (o.map (·.item)).toList else [] := by
      cases o with
      | none => simp
      | some p =>
        have hp := hparts.1 p rfl
        by_cases hsame : slot.number = out.1.number
        · simp [hp, hsame]
        · simp [hp, hsame]
    rw [written_cons, List.map_append, List.filter_append, hhead]
    rcases List.mem_cons.mp hout with rfl | hout
    · have hrest : ((written outs).map (·.item)).filter (·.number == slot.number) = [] := by
        rw [List.filter_eq_nil_iff]
        intro i hi
        obtain ⟨p, hp, rfl⟩ := List.mem_map.mp hi
        obtain ⟨other, hother, hpart⟩ := mem_written.mp hp
        rw [hparts.2 other hother p hpart, beq_iff_eq]
        exact (hnumbers.1 other hother).symm
      rw [if_pos rfl, hrest, List.append_nil]
    · rw [if_neg (hnumbers.1 out hout), List.nil_append, ih hnumbers.2 hparts.2 hout]

/-- Among all items of a message, those with the number of a slot are what was written in it. -/
theorem FieldsWrite.filter_sortedItems (h : FieldsWrite pool linked fields members outs) (hsound : linked.IsSound)
    (hnames : (fields.map (·.name)).Nodup) {out : Slot × Option Part} (hout : out ∈ outs) :
    (sortedItems (written outs)).filter (·.number == out.1.number) = (out.2.map (·.item)).toList := by
  -- Sorting moves at most one item with the number, so it stays the only one.
  have hperm := (perm_sortedItems (written outs)).filter (·.number == out.1.number)
  rw [filter_items_written (h.pairwise_number hsound hnames) (fun out hout p hp => (h.of_mem out hout p hp).1) hout]
    at hperm
  cases ho : out.2 with
  | none =>
    rw [ho] at hperm
    exact hperm.eq_nil
  | some p =>
    rw [ho] at hperm
    exact List.perm_singleton.mp hperm

/-- Nothing lacks in a message when its required fields are there, and nothing lacks in those inside it. -/
theorem lackingIn_eq_nil_iff {parts : List Part} :
    lackingIn linked parts = [] ↔
      (∀ s ∈ linked.slots, s.required = true → ∃ p ∈ parts, p.item.number = s.number) ∧ ∀ p ∈ parts, p.lacks = [] := by
  have hsorted : ∀ p, p ∈ sortedParts parts ↔ p ∈ parts := fun p => List.mem_mergeSort
  unfold lackingIn
  rw [List.append_eq_nil_iff, List.map_eq_nil_iff, List.filter_eq_nil_iff, List.flatMap_eq_nil_iff]
  simp only [hsorted, Bool.and_eq_true, List.all_eq_true, bne_iff_ne, not_and, not_forall, not_not, exists_prop]

/-! ## 3. Parts that give back their members -/

/-- The required fields of a message type are among the fields of a schema. -/
def Completes (linked : Linked) (fields : List Field) : Prop :=
  ∀ s ∈ linked.slots, s.required = true → s.name ∈ fields.map (·.name)

/-- A field's part gives back the field's member, and nothing lacks in it. -/
structure Returns (pool : Pool) (linked : Linked) (f : Field) (x : Value) (out : Slot × Option Part) : Prop where
  value : fieldValue? pool linked (out.2.map (·.item)).toList f = some x
  present : out.1.required = true → out.2.isSome = true
  complete : ∀ p ∈ out.2, p.lacks = []

/-- The parts of fields give back their members. -/
inductive FieldsReturn (pool : Pool) (linked : Linked) :
    List Field → List (String × Value) → List (Slot × Option Part) → Prop where
  | nil : FieldsReturn pool linked [] [] []
  | cons {f : Field} {p : String × Value} {out : Slot × Option Part} {fields : List Field}
      {members : List (String × Value)} {outs : List (Slot × Option Part)} (hout : Returns pool linked f p.2 out)
      (h : FieldsReturn pool linked fields members outs) :
      FieldsReturn pool linked (f :: fields) (p :: members) (out :: outs)

/-- Items give all members of a message, and nothing lacks in what was written of it. -/
structure ReadsBack (pool : Pool) (linked : Linked) (items : List Item) (fields : List Field)
    (members : List (String × Value)) (outs : List (Slot × Option Part)) : Prop where
  values : List.Forall₂ (fun f p => fieldValue? pool linked items f = some p.2) fields members
  present : ∀ out ∈ outs, out.1.required = true → out.2.isSome = true
  complete : ∀ out ∈ outs, ∀ p ∈ out.2, p.lacks = []

theorem readsBack_cons_iff {items : List Item} {f : Field} {p : String × Value} {out : Slot × Option Part}
    (hslot : linked.slot? f.name = some out.1)
    (hown : items.filter (·.number == out.1.number) = (out.2.map (·.item)).toList) :
    ReadsBack pool linked items (f :: fields) (p :: members) (out :: outs) ↔
      Returns pool linked f p.2 out ∧ ReadsBack pool linked items fields members outs := by
  have hvalue : fieldValue? pool linked items f = fieldValue? pool linked (out.2.map (·.item)).toList f := by
    rw [← fieldValue?_filter hslot items, hown]
  constructor
  · intro h
    obtain ⟨hv, hvs⟩ := List.forall₂_cons.mp h.values
    obtain ⟨hp, hps⟩ := List.forall_mem_cons.mp h.present
    obtain ⟨hc, hcs⟩ := List.forall_mem_cons.mp h.complete
    exact ⟨⟨hvalue ▸ hv, hp, hc⟩, hvs, hps, hcs⟩
  · rintro ⟨hout, h⟩
    refine ⟨.cons ?_ h.values, List.forall_mem_cons.mpr ⟨hout.present, h.present⟩,
      List.forall_mem_cons.mpr ⟨hout.complete, h.complete⟩⟩
    rw [hvalue]
    exact hout.value

theorem fieldsReturn_cons_iff {f : Field} {p : String × Value} {out : Slot × Option Part} :
    FieldsReturn pool linked (f :: fields) (p :: members) (out :: outs) ↔
      Returns pool linked f p.2 out ∧ FieldsReturn pool linked fields members outs := by
  constructor
  · intro h
    cases h with
    | cons hout h => exact ⟨hout, h⟩
  · rintro ⟨hout, h⟩
    exact .cons hout h

/-- Items that hold what was written in every slot give back the members just when the parts do. -/
theorem FieldsWrite.readsBack_iff (h : FieldsWrite pool linked fields members outs) {items : List Item}
    (hitems : ∀ out ∈ outs, items.filter (·.number == out.1.number) = (out.2.map (·.item)).toList) :
    ReadsBack pool linked items fields members outs ↔ FieldsReturn pool linked fields members outs := by
  induction h with
  | nil =>
    constructor
    · exact fun _ => .nil
    · exact fun _ => ⟨.nil, by simp, by simp⟩
  | leaf hslot _ _ ih | message hslot _ _ _ _ _ _ _ ih =>
    rw [readsBack_cons_iff hslot (hitems _ List.mem_cons_self), fieldsReturn_cons_iff,
      ih fun out hout => hitems out (List.mem_cons_of_mem _ hout)]

/-- The required fields of a message are there when the schema has them and their parts are there. -/
theorem FieldsWrite.lackingIn_eq_nil_iff (h : FieldsWrite pool linked fields members outs) (hsound : linked.IsSound)
    (hnames : (fields.map (·.name)).Nodup) :
    lackingIn linked (written outs) = [] ↔
      Completes linked fields ∧ (∀ out ∈ outs, out.1.required = true → out.2.isSome = true) ∧
        ∀ out ∈ outs, ∀ p ∈ out.2, p.lacks = [] := by
  rw [ContractShell.lackingIn_eq_nil_iff]
  have hlacks : (∀ p ∈ written outs, p.lacks = []) ↔ ∀ out ∈ outs, ∀ p ∈ out.2, p.lacks = [] := by
    simp only [mem_written, forall_exists_index, and_imp]
    constructor
    · exact fun hall out hout p hp => hall p out hout hp
    · exact fun hall p out hout hp => hall out hout p hp
  rw [hlacks, ← and_assoc, and_congr_left_iff]
  rintro -
  constructor
  · -- A part with the number of a slot was written in that slot, since numbers tell slots apart.
    intro hrequired
    constructor
    · intro s hs hr
      obtain ⟨p, hp, hnumber⟩ := hrequired s hs hr
      obtain ⟨out, hout, hpart⟩ := mem_written.mp hp
      have hsame : out.1 = s :=
        hsound.eq_of_number (h.mem_slots out hout) hs (by rw [← hnumber, (h.of_mem out hout p hpart).1])
      rw [← h.names, ← hsame]
      exact List.mem_map_of_mem hout
    · intro out hout hr
      obtain ⟨p, hp, hnumber⟩ := hrequired out.1 (h.mem_slots out hout) hr
      obtain ⟨other, hother, hpart⟩ := mem_written.mp hp
      have hslot : other.1 = out.1 :=
        hsound.eq_of_number (h.mem_slots other hother) (h.mem_slots out hout)
          (by rw [← hnumber, (h.of_mem other hother p hpart).1])
      rw [← h.names] at hnames
      rw [← List.inj_on_of_nodup_map hnames hother hout (congrArg Slot.name hslot), hpart]
      rfl
  · rintro ⟨hcompletes, hpresent⟩ s hs hr
    have hname := hcompletes s hs hr
    rw [← h.names] at hname
    obtain ⟨out, hout, hname⟩ := List.mem_map.mp hname
    have hslot : out.1 = s := hsound.eq_of_name (h.mem_slots out hout) hs hname
    obtain ⟨p, hp⟩ := Option.isSome_iff_exists.mp (hpresent out hout (hslot ▸ hr))
    exact ⟨p, mem_written.mpr ⟨out, hout, hp⟩, by rw [(h.of_mem out hout p hp).1, hslot]⟩

/-- The parts of a message give it back, and nothing lacks in them, just when each part gives back its member. -/
theorem FieldsWrite.valueOf_iff (h : FieldsWrite pool linked fields members outs) (hsound : linked.IsSound)
    (hrivals : linked.HasNoRivals) (hnames : (fields.map (·.name)).Nodup) :
    (fieldValues pool linked (settle linked (sortedItems (written outs))) fields [] = members ∧
        lackingIn linked (written outs) = []) ↔
      Completes linked fields ∧ FieldsReturn pool linked fields members outs := by
  have hmembers : members.map (·.1) = fields.map (·.name) := h.memberNames
  rw [settle_eq_self hsound hrivals, fieldValues_eq _ hnames [] (by simp), List.nil_append,
    filterMap_eq_iff_forall₂ hnames hmembers, h.lackingIn_eq_nil_iff hsound hnames,
    ← h.readsBack_iff fun out hout => h.filter_sortedItems hsound hnames hout]
  constructor
  · rintro ⟨hvalues, hcompletes, hpresent, hcomplete⟩
    exact ⟨hcompletes, hvalues, hpresent, hcomplete⟩
  · rintro ⟨hcompletes, hvalues, hpresent, hcomplete⟩
    exact ⟨hvalues, hcompletes, hpresent, hcomplete⟩

/-! ## 4. What is carried -/

/-- The slots of a message type keep the members of a message. A nested message has its own type in the slot, which has no
field that hides the operation of putting a message into another. -/
inductive FieldsCarry (pool : Pool) : Linked → List Field → List (String × Value) → Prop where
  | nil {linked : Linked} : FieldsCarry pool linked [] []
  | leaf {linked : Linked} {name : String} {kind : LeafKind} {x : Value} {slot : Slot} {fields : List Field}
      {members : List (String × Value)} (hslot : linked.slot? name = some slot) (hkeeps : slot.Keeps x)
      (h : FieldsCarry pool linked fields members) :
      FieldsCarry pool linked (.leaf name kind :: fields) ((name, x) :: members)
  | message {linked next : Linked} {name type : String} {slot : Slot} {inner fields : List Field}
      {xs members : List (String × Value)} (hslot : linked.slot? name = some slot) (hsingle : slot.repeated = false)
      (htype : slot.type.isMessage = true) (hfind : pool.find? slot.target = some next)
      (hplacing : next.slot? placingOperation = none) (hcompletes : Completes next inner)
      (hx : FieldsCarry pool next inner xs) (h : FieldsCarry pool linked fields members) :
      FieldsCarry pool linked (.message name (.mk type inner) :: fields) ((name, .message xs) :: members)

/-- What is carried can be written. -/
theorem FieldsCarry.exists_outs (h : FieldsCarry pool linked fields members) :
    ∃ outs, FieldsWrite pool linked fields members outs := by
  induction h with
  | nil => exact ⟨[], .nil⟩
  | @leaf linked _ _ _ slot _ _ hslot hkeeps _ ih =>
    obtain ⟨outs, hwrite⟩ := ih
    obtain ⟨o, hitem⟩ := exists_leafItem hkeeps.single hkeeps.takes
    exact ⟨_, .leaf hslot hitem hwrite⟩
  | message hslot hsingle htype hfind hplacing _ _ _ ihx ih =>
    obtain ⟨innerOuts, hwrites⟩ := ihx
    obtain ⟨outs, hwrite⟩ := ih
    exact ⟨_, .message hslot hsingle htype hfind hplacing hwrites hwrite⟩

theorem nestedBytesOf_nestedPart (slot : Slot) (next : Linked) (parts : List Part) :
    nestedBytesOf slot [(nestedPart slot next parts).item] = joinParts parts := by
  rw [item_nestedPart, nestedBytesOf]
  by_cases htype : slot.type = .group
  · rw [if_pos htype, if_pos htype]
    simp [Wire.joinedContent]
  · rw [if_neg htype, if_neg htype]
    simp [Wire.joinedPayload?, Wire.payloads]

theorem returns_leaf_iff {name : String} {kind : LeafKind} {x : Value} {slot : Slot} {o : Option Item}
    (hslot : linked.slot? name = some slot) (hitem : leafItem linked.name slot x = .ok o) :
    Returns pool linked (.leaf name kind) x (slot, o.map fun i => ⟨slot.oneof, i, 0, []⟩) ↔ slot.Keeps x := by
  obtain ⟨hsingle, -, hwritten⟩ := written_of_leafItem hitem
  have hitems : ((o.map fun i => Part.mk slot.oneof i 0 []).map (·.item)).toList = o.toList := by
    rw [Option.map_map]
    cases o <;> rfl
  have hvalue : fieldValue? pool linked o.toList (.leaf name kind) = some (leafValue slot o.toList) := by
    rw [fieldValue?, hslot]
    rfl
  rw [← leafValue_written hsingle hwritten]
  constructor
  · rintro ⟨hv, hp, -⟩
    rw [hitems, hvalue, Option.some.injEq] at hv
    rw [Option.isSome_map] at hp
    exact ⟨hv, hp⟩
  · rintro ⟨hv, hp⟩
    refine ⟨?_, ?_, ?_⟩
    · rw [hitems, hvalue, hv]
    · rw [Option.isSome_map]
      exact hp
    · intro p hp
      obtain ⟨i, -, rfl⟩ := Option.map_eq_some_iff.mp hp
      rfl

theorem returns_message_iff {next : Linked} {name type : String} {slot : Slot} {inner : List Field}
    {xs : List (String × Value)} {parts : List Part} (hslot : linked.slot? name = some slot)
    (hfind : pool.find? slot.target = some next) (hitems : Wire.itemsOf (joinParts parts) = sortedItems parts) :
    Returns pool linked (.message name (.mk type inner)) (.message xs) (slot, some (nestedPart slot next parts)) ↔
      fieldValues pool next (settle next (sortedItems parts)) inner [] = xs ∧ lackingIn next parts = [] := by
  have hvalue : fieldValue? pool linked [(nestedPart slot next parts).item] (.message name (.mk type inner)) =
      some (.message (fieldValues pool next (settle next (sortedItems parts)) inner [])) := by
    rw [fieldValue?, hslot]
    simp only [Schema.valueOf, hfind, nestedBytesOf_nestedPart, hitems]
  have hlacks : (nestedPart slot next parts).lacks = [] ↔ lackingIn next parts = [] := List.map_eq_nil_iff
  constructor
  · rintro ⟨hv, -, hc⟩
    rw [Option.map_some, Option.toList_some, hvalue, Option.some.injEq, Value.message.injEq] at hv
    exact ⟨hv, hlacks.mp (hc _ rfl)⟩
  · rintro ⟨hv, hc⟩
    refine ⟨?_, fun _ => rfl, ?_⟩
    · rw [Option.map_some, Option.toList_some, hvalue, hv]
    · intro p hp
      cases hp
      exact hlacks.mpr hc

/-- The items of a message are those of its parts. -/
theorem FieldsWrite.itemsOf_joinParts (h : FieldsWrite pool linked fields members outs) (hpool : pool.IsSound)
    (hsound : linked.IsSound) (hlen : ∀ p ∈ written outs, p.item.write.length < maxReadable)
    (hdepth : partsDepth (written outs) ≤ Wire.maxDepth) :
    Wire.itemsOf (joinParts (written outs)) = sortedItems (written outs) := by
  have hreadable := fun p hp => h.readable hpool hsound p hp (hlen p hp)
  rw [Wire.itemsOf, items?_joinParts hreadable hdepth, Option.getD_some]

theorem fieldsCarry_leaf_iff {name : String} {kind : LeafKind} {x : Value} {slot : Slot}
    (hslot : linked.slot? name = some slot) :
    FieldsCarry pool linked (.leaf name kind :: fields) ((name, x) :: members) ↔
      slot.Keeps x ∧ FieldsCarry pool linked fields members := by
  constructor
  · intro h
    cases h with
    | leaf hslot' hkeeps hcarry =>
      rw [hslot] at hslot'
      cases hslot'
      exact ⟨hkeeps, hcarry⟩
  · rintro ⟨hkeeps, hcarry⟩
    exact .leaf hslot hkeeps hcarry

theorem fieldsCarry_message_iff {name type : String} {slot : Slot} {next : Linked} {inner : List Field}
    {xs : List (String × Value)} (hslot : linked.slot? name = some slot) (hsingle : slot.repeated = false)
    (htype : slot.type.isMessage = true) (hfind : pool.find? slot.target = some next)
    (hplacing : next.slot? placingOperation = none) :
    FieldsCarry pool linked (.message name (.mk type inner) :: fields) ((name, .message xs) :: members) ↔
      (Completes next inner ∧ FieldsCarry pool next inner xs) ∧ FieldsCarry pool linked fields members := by
  constructor
  · intro h
    cases h with
    | message hslot' _ _ hfind' _ hcompletes hcarries hcarry =>
      rw [hslot] at hslot'
      cases hslot'
      rw [hfind] at hfind'
      cases hfind'
      exact ⟨⟨hcompletes, hcarries⟩, hcarry⟩
  · rintro ⟨⟨hcompletes, hcarries⟩, hcarry⟩
    exact .message hslot hsingle htype hfind hplacing hcompletes hcarries hcarry

/-- The parts of a message give back its members just when the slots keep them. -/
theorem FieldsWrite.fieldsReturn_iff (h : FieldsWrite pool linked fields members outs) (hpool : pool.IsSound)
    (hsound : linked.IsSound) (hdistinct : haveDistinctNames fields)
    (hrivals : ∀ last, Visits pool linked fields last → last.HasNoRivals)
    (hlen : ∀ p ∈ written outs, p.item.write.length < maxReadable)
    (hdepth : ∀ p ∈ written outs, p.depth ≤ Wire.maxDepth) :
    FieldsReturn pool linked fields members outs ↔ FieldsCarry pool linked fields members := by
  -- The induction is on what was written; a nested message is shorter and less deep than the part that holds it.
  induction h with
  | nil =>
    constructor
    · exact fun _ => .nil
    · exact fun _ => .nil
  | @leaf linked name kind x slot o fields members outs hslot hitem _ ih =>
    rw [written_cons, List.forall_mem_append] at hlen hdepth
    rw [fieldsReturn_cons_iff, fieldsCarry_leaf_iff hslot, returns_leaf_iff hslot hitem,
      ih hsound hdistinct (fun last hl => hrivals last hl.cons) hlen.2 hdepth.2]
  | @message linked next name type slot inner fields xs members innerOuts outs hslot hsingle htype hfind hplacing hx _
      ihx ih =>
    rw [written_cons, Option.toList_some, List.singleton_append, List.forall_mem_cons] at hlen hdepth
    have hnext := hpool.of_find? hfind
    have hinside : ∀ last, Visits pool next inner last → last.HasNoRivals :=
      fun last hl => hrivals last (.inside List.mem_cons_self hslot hfind hl)
    have hinnerLen :=
      forall_length_lt (Nat.lt_trans (length_joinParts_lt_nestedPart slot next (written innerOuts)) hlen.1)
    have hinnerDepth : partsDepth (written innerOuts) ≤ Wire.maxDepth := Nat.le_of_succ_le hdepth.1
    rw [fieldsReturn_cons_iff, fieldsCarry_message_iff hslot hsingle htype hfind hplacing,
      returns_message_iff hslot hfind (hx.itemsOf_joinParts hpool hnext hinnerLen hinnerDepth),
      hx.valueOf_iff hnext (hinside next .here) hdistinct.1.1,
      ihx hnext hdistinct.1.2 hinside hinnerLen (partsDepth_le_iff.mp hinnerDepth),
      ih hsound hdistinct.2 (fun last hl => hrivals last hl.cons) hlen.2 hdepth.2]

end

/-! ## 5. Libraries -/

/-- A library carries a message: the message type is linked, has no field that hides the operations of writing and reading,
requires no field that the schema lacks, its slots keep the members, and the bytes are not too many. The schema without a
name stands for no fields. -/
inductive Library.Carries (lib : Library) (schema : Schema) : Value → Prop where
  | nothing (hname : schema.name.isEmpty = true) : Carries lib schema (.message [])
  | message {linked : Linked} {members : List (String × Value)} (hname : schema.name.isEmpty = false)
      (hfind : lib.linked? schema.name = some linked) (hwriting : linked.slot? writingOperation = none)
      (hreading : linked.slot? readingOperation = none) (hcompletes : Completes linked schema.fields)
      (hcarry : FieldsCarry lib.pool linked schema.fields members)
      (hsize : ∀ parts, schema.parts lib.pool (Library.bareName schema.name) (.message members) = .ok parts →
        (joinParts parts).length ≤ maxMessageSize) :
      Carries lib schema (.message members)

/-- No message type that is met when a message of a schema is written has two fields in one oneof. -/
def Library.HasNoRivals (lib : Library) (schema : Schema) : Prop :=
  ∀ linked, lib.linked? schema.name = some linked → ∀ last, Visits lib.pool linked schema.fields last → last.HasNoRivals

section

variable {lib : Library} {schema : Schema} {members : List (String × Value)}

/-- The parts that the relation gives are those of the message. -/
theorem Library.parts_of_fieldsWrite {linked : Linked} (hfind : lib.linked? schema.name = some linked)
    {outs : List (Slot × Option Part)} (hwrite : FieldsWrite lib.pool linked schema.fields members outs)
    (hdistinct : schema.HasDistinctNames) (hrivals : lib.HasNoRivals schema) :
    schema.parts lib.pool (Library.bareName schema.name) (.message members) = .ok (written outs) := by
  obtain ⟨type, fields⟩ := schema
  have hnames : (members.map (·.1)).Nodup := by
    rw [hwrite.memberNames]
    exact hdistinct.1
  have hsome : lib.pool.find? (Library.bareName (Schema.mk type fields).name) = some linked := hfind
  rw [Schema.parts, hsome]
  exact hwrite.fieldParts_eq hdistinct.1 hdistinct.2 (hrivals linked hfind) (fun p hp => memberOf_of_mem hnames hp)
    (isNew_nil linked fields)

/-- The parts of a message of a linked type are those that the relation gives. -/
theorem Library.parts_eq_ok_iff {linked : Linked} (hfind : lib.linked? schema.name = some linked)
    (hholds : FieldsHold schema.fields members) (hdistinct : schema.HasDistinctNames)
    (hrivals : lib.HasNoRivals schema) {parts : List Part} :
    schema.parts lib.pool (Library.bareName schema.name) (.message members) = .ok parts ↔
      ∃ outs, FieldsWrite lib.pool linked schema.fields members outs ∧ parts = written outs := by
  obtain ⟨type, fields⟩ := schema
  have hnames : (members.map (·.1)).Nodup := by
    rw [hholds.names]
    exact hdistinct.1
  have hsome : lib.pool.find? (Library.bareName (Schema.mk type fields).name) = some linked := hfind
  rw [Schema.parts, hsome]
  exact hholds.fieldParts_eq_ok_iff hdistinct.1 hdistinct.2 (hrivals linked hfind)
    (fun p hp => memberOf_of_mem hnames hp) (isNew_nil linked fields)

/-- What a message is written as. -/
theorem Library.encode_eq_ok_iff (hname : schema.name.isEmpty = false) {v : Value} {b : Bytes} :
    lib.encode schema v = .ok b ↔
      ∃ linked parts, lib.linked? schema.name = some linked ∧
        schema.parts lib.pool (Library.bareName schema.name) v = .ok parts ∧
        linked.slot? writingOperation = none ∧ lackingIn linked parts = [] ∧ partsDepth parts < Wire.maxDepth ∧
        (joinParts parts).length ≤ maxMessageSize ∧ b = joinParts parts := by
  unfold Library.encode Library.linked?
  rw [if_neg (by rw [hname]; exact Bool.false_ne_true)]
  -- The checks are made in this order, and each of them is one of the facts.
  cases hfind : lib.pool.find? (Library.bareName schema.name) with
  | none => simp [hfind]
  | some linked =>
    cases hparts : schema.parts lib.pool (Library.bareName schema.name) v with
    | error fault => simp [hfind, hparts]
    | ok parts =>
      cases hwriting : linked.slot? writingOperation with
      | some slot => simp [hfind, hparts, hwriting]
      | none =>
        simp only [hfind, hparts, hwriting]
        by_cases hlacking : (!(lackingIn linked parts).isEmpty) = true
        · rw [if_pos hlacking]
          rw [Bool.not_eq_true', List.isEmpty_eq_false_iff] at hlacking
          simp [hwriting, hlacking]
        · rw [if_neg hlacking]
          rw [Bool.not_eq_true', Bool.not_eq_false, List.isEmpty_iff] at hlacking
          by_cases hdeep : Wire.maxDepth ≤ partsDepth parts
          · rw [if_pos hdeep]
            simp [Nat.not_lt.mpr hdeep]
          · rw [if_neg hdeep]
            by_cases hlarge : maxMessageSize < (joinParts parts).length
            · rw [if_pos hlarge]
              simp [Nat.not_le.mpr hlarge]
            · rw [if_neg hlarge]
              simp [hwriting, hlacking, Nat.not_le.mp hdeep, Nat.not_lt.mp hlarge, eq_comm]

/-- A message of no fields is written as no bytes, and read back from them. -/
theorem Library.decode_encode_nothing (hname : schema.name.isEmpty = true) :
    lib.encode schema (.message members) = .ok [] ∧ lib.decode schema [] = .ok (.message []) := by
  constructor
  · unfold Library.encode
    rw [if_pos hname]
  · unfold Library.decode
    rw [if_pos hname]

section

variable {linked : Linked} {outs : List (Slot × Option Part)}

/-- Whatever was written is a message of its type, and its items are the parts. -/
theorem Library.decode_written_iff (hpool : lib.pool.IsSound) (hname : schema.name.isEmpty = false)
    (hfind : lib.linked? schema.name = some linked)
    (hwrite : FieldsWrite lib.pool linked schema.fields members outs) (hdepth : partsDepth (written outs) ≤ Wire.maxDepth)
    (hsize : (joinParts (written outs)).length < maxReadable) :
    lib.decode schema (joinParts (written outs)) = .ok (.message members) ↔
      linked.slot? readingOperation = none ∧
        fieldValues lib.pool linked (settle linked (sortedItems (written outs))) schema.fields [] = members := by
  have hfind : lib.pool.find? (Library.bareName schema.name) = some linked := hfind
  have hsound := hpool.of_find? hfind
  have hitems := hwrite.itemsOf_joinParts hpool hsound (forall_length_lt hsize) hdepth
  have hformed := hwrite.wellFormed hpool hfind hsize hdepth
  have hvalue : schema.valueOf lib.pool (Library.bareName schema.name) (Wire.itemsOf (joinParts (written outs))) =
      .message (fieldValues lib.pool linked (settle linked (sortedItems (written outs))) schema.fields []) := by
    rw [hitems]
    obtain ⟨type, fields⟩ := schema
    simp only [Schema.valueOf, hfind, Schema.fields]
  unfold Library.decode
  rw [if_neg (by rw [hname]; exact Bool.false_ne_true)]
  simp only [hfind]
  cases hreading : linked.slot? readingOperation with
  | some slot => simp only [reduceCtorEq, false_and]
  | none => simp only [hformed, if_true, hvalue, Except.ok.injEq, Value.message.injEq, true_and]

/-- The parts give back the members, and none lacks, just when the slots keep the members. -/
theorem FieldsWrite.fieldValues_eq_iff (hwrite : FieldsWrite lib.pool linked schema.fields members outs)
    (hpool : lib.pool.IsSound) (hfind : lib.linked? schema.name = some linked) (hdistinct : schema.HasDistinctNames)
    (hrivals : lib.HasNoRivals schema) (hdepth : partsDepth (written outs) ≤ Wire.maxDepth)
    (hsize : (joinParts (written outs)).length < maxReadable) :
    fieldValues lib.pool linked (settle linked (sortedItems (written outs))) schema.fields [] = members ∧
        lackingIn linked (written outs) = [] ↔
      Completes linked schema.fields ∧ FieldsCarry lib.pool linked schema.fields members := by
  have hsound := hpool.of_find? hfind
  have hvisits := hrivals linked hfind
  have hnames := Schema.hasDistinctNames_iff.mp hdistinct
  rw [hwrite.valueOf_iff hsound (hvisits linked .here) hnames.1,
    hwrite.fieldsReturn_iff hpool hsound hnames.2 hvisits (forall_length_lt hsize) (partsDepth_le_iff.mp hdepth)]

/-- Messages lie in a message no deeper than in its schema. -/
theorem FieldsWrite.partsDepth_lt (hwrite : FieldsWrite lib.pool linked schema.fields members outs)
    (hdepth : schema.depth < Wire.maxDepth) : partsDepth (written outs) < Wire.maxDepth := by
  have hfields : schema.depth = fieldsDepth schema.fields := by
    cases schema
    rw [Schema.depth, Schema.fields]
  rw [hfields] at hdepth
  exact Nat.lt_of_le_of_lt (partsDepth_le_iff.mpr hwrite.depth_le) hdepth

end

/-- What a library carries is read back from its bytes. -/
theorem Library.Carries.exists_bytes (hpool : lib.pool.IsSound) (hdistinct : schema.HasDistinctNames)
    (hrivals : lib.HasNoRivals schema) (hdepth : schema.depth < Wire.maxDepth) {v : Value} (h : lib.Carries schema v) :
    ∃ b, lib.encode schema v = .ok b ∧ lib.decode schema b = .ok v := by
  have hreadable : maxMessageSize < maxReadable := by decide
  cases h with
  | nothing hname =>
    obtain ⟨hencode, hdecode⟩ := @Library.decode_encode_nothing lib schema [] hname
    exact ⟨[], hencode, hdecode⟩
  | @message linked members hname hfind hwriting hreading hcompletes hcarry hlimit =>
    obtain ⟨outs, hwrite⟩ := hcarry.exists_outs
    have hok := Library.parts_of_fieldsWrite hfind hwrite hdistinct hrivals
    have hsize := hlimit _ hok
    have hshort := Nat.lt_of_le_of_lt hsize hreadable
    have hshallow := hwrite.partsDepth_lt hdepth
    obtain ⟨hvalues, hlacking⟩ := (hwrite.fieldValues_eq_iff hpool hfind hdistinct hrivals
      (Nat.le_of_lt hshallow) hshort).mpr ⟨hcompletes, hcarry⟩
    have hencode := (Library.encode_eq_ok_iff hname).mpr
      ⟨linked, _, hfind, hok, hwriting, hlacking, hshallow, hsize, rfl⟩
    have hdecode := (Library.decode_written_iff hpool hname hfind hwrite (Nat.le_of_lt hshallow) hshort).mpr
      ⟨hreading, hvalues⟩
    exact ⟨_, hencode, hdecode⟩

/-- A message is read back from its bytes just when the library carries it. -/
theorem Library.decode_encode_iff (hpool : lib.pool.IsSound) {v : Value} (hholds : schema.Holds v)
    (hdistinct : schema.HasDistinctNames) (hrivals : lib.HasNoRivals schema) (hdepth : schema.depth < Wire.maxDepth) :
    (∃ b, lib.encode schema v = .ok b ∧ lib.decode schema b = .ok v) ↔ lib.Carries schema v := by
  obtain ⟨members, hholds, rfl⟩ := hholds
  have hreadable : maxMessageSize < maxReadable := by decide
  constructor
  · rintro ⟨b, hb, hv⟩
    cases hname : schema.name.isEmpty with
    | true =>
      obtain ⟨hencode, hdecode⟩ := @Library.decode_encode_nothing lib schema members hname
      rw [hencode] at hb
      cases hb
      rw [hdecode] at hv
      cases hv
      exact .nothing hname
    | false =>
      -- What is read back was written, and so it has parts.
      obtain ⟨linked, parts, hfind, hok, hwriting, hlacking, hshallow, hsize, rfl⟩ :=
        (Library.encode_eq_ok_iff hname).mp hb
      obtain ⟨outs, hwrite, rfl⟩ := (Library.parts_eq_ok_iff hfind hholds hdistinct hrivals).mp hok
      have hshort := Nat.lt_of_le_of_lt hsize hreadable
      have hshallow := Nat.le_of_lt hshallow
      obtain ⟨hreading, hvalues⟩ := (Library.decode_written_iff hpool hname hfind hwrite hshallow hshort).mp hv
      obtain ⟨hcompletes, hcarry⟩ :=
        (hwrite.fieldValues_eq_iff hpool hfind hdistinct hrivals hshallow hshort).mp ⟨hvalues, hlacking⟩
      refine .message hname hfind hwriting hreading hcompletes hcarry ?_
      intro parts hagain
      rw [hok] at hagain
      cases hagain
      exact hsize
  · exact fun hcarries => hcarries.exists_bytes hpool hdistinct hrivals hdepth

end

end ContractShell
