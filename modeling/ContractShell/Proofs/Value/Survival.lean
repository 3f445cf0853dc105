import ContractShell.Proofs.Library.Oneof
import Mathlib.Data.List.Perm.Subperm

/-!
What of a message is written.

A field takes the place of what was put in its oneof before, so of several fields in one oneof only the last one stays. All
that stays can be told from the bytes. So two messages are written alike just when they agree in what stays, and where no
two fields share a oneof no two different messages are.

## Main statements

* `FieldsAre.exists_stay`: the parts of a message are those that stay.
* `FieldsStay.agree_of_perm`, `FieldsAgree.items_eq`: the items of two messages are the same just when these agree.
* `FieldsAgree.membersSame`: where no two fields share a oneof, messages that agree are the same.
-/

namespace ContractShell

open Descriptor (FieldType Linked Pool Slot)
open Wire (Item)

/-! ## 1. Plain values in a slot -/

/-- A slot does not tell two values apart: they are the same, or the slot holds truth values and both count as the same. -/
def Descriptor.Slot.Merges (slot : Slot) (x y : Value) : Prop :=
  x = y ∨ (slot.type = .bool ∧ x.isTruthy = y.isTruthy)

section

variable {slot : Slot} {o : Option Item}

theorem zero_or_eq_of_unlessImplied {z z' : Bool} {i j : Item} (h : unlessImplied slot z i = unlessImplied slot z' j) :
    (z = true ∧ z' = true) ∨ i = j := by
  unfold unlessImplied at h
  by_cases hz : (z && !slot.hasPresence) = true
  · by_cases hz' : (z' && !slot.hasPresence) = true
    · exact .inl ⟨(Bool.and_eq_true _ _ ▸ hz).1, (Bool.and_eq_true _ _ ▸ hz').1⟩
    · rw [if_pos hz, if_neg hz'] at h
      cases h
  · by_cases hz' : (z' && !slot.hasPresence) = true
    · rw [if_neg hz, if_pos hz'] at h
      cases h
    · rw [if_neg hz, if_neg hz'] at h
      exact .inr (Option.some.inj h)

theorem flagItem_injective {b c : Bool} (h : flagItem slot b = flagItem slot c) : b = c := by
  rcases zero_or_eq_of_unlessImplied h with ⟨hb, hc⟩ | h
  · rw [Bool.not_eq_true'] at hb hc
    rw [hb, hc]
  · have hnumber := (Item.varint.inj h).2
    cases b with
    | true =>
      cases c with
      | true => rfl
      | false => cases hnumber
    | false =>
      cases c with
      | true => cases hnumber
      | false => rfl

theorem bytesItem_injective {b c : Bytes} (h : bytesItem slot b = bytesItem slot c) : b = c := by
  rcases zero_or_eq_of_unlessImplied h with ⟨hb, hc⟩ | h
  · rw [List.isEmpty_iff] at hb hc
    rw [hb, hc]
  · cases h
    rfl

/-- What is written in a slot for truth values is whether the value counts as true. -/
theorem eq_flagItem_of_written {x : Value} (htype : slot.type = .bool) (h : Written slot x o) :
    o = flagItem slot x.isTruthy := by
  cases h with
  | flag _ b => rfl
  | number _ n => rfl
  | integer hrange _ =>
    rw [htype] at hrange
    cases hrange
  | string hother | spelled hother | bytes hother =>
    rw [htype] at hother
    cases hother

theorem int_eq_of_written {n m : Int} (htype : slot.type ≠ .bool) (h : Written slot (.int n) o)
    (h' : Written slot (.int m) o) : n = m := by
  cases h with
  | number hbool => exact absurd hbool htype
  | integer hrange hn =>
    generalize ho : unlessImplied slot (n == 0) (.varint slot.number (residue n)) = o at h'
    cases h' with
    | number hbool => exact absurd hbool htype
    | integer hrange' hm =>
      rw [hrange, Option.some.injEq] at hrange'
      rw [← hrange'] at hm
      rcases zero_or_eq_of_unlessImplied ho with ⟨hzero, hzero'⟩ | hitem
      · rw [beq_iff_eq.mp hzero, beq_iff_eq.mp hzero']
      · -- An integer is told from its residue, since it is read back from it.
        have hresidue : residue n = residue m := (Item.varint.inj hitem).2
        have hback := ofVarint_residue hrange hn
        rw [hresidue, ofVarint_residue hrange hm] at hback
        exact (Value.int.inj hback).symm

theorem text_eq_of_written {s t : String} (h : Written slot (.text s) o) (h' : Written slot (.text t) o) : s = t := by
  cases h with
  | string =>
    generalize ho : bytesItem slot (Text.Utf8.ofString s) = o at h'
    cases h' with
    | string =>
      have hback := Text.Utf8.toString?_ofString s
      rw [bytesItem_injective ho, Text.Utf8.toString?_ofString] at hback
      exact (Option.some.inj hback).symm

theorem item_of_written_bytes {b : Bytes} (h : Written slot (.bytes b) o) : o = bytesItem slot b := by
  cases h with
  | spelled | bytes => rfl

/-- What tells whether it was given is written. -/
theorem isSome_of_written {x : Value} (h : Written slot x o) (hpresence : slot.hasPresence = true) : o.isSome = true := by
  have hsome : ∀ z i, (unlessImplied slot z i).isSome = true := by
    intro z i
    unfold unlessImplied
    rw [hpresence, Bool.not_true, Bool.and_false]
    rfl
  cases h with
  | flag | number | integer | string | spelled | bytes => exact hsome _ _

/-- Two values of a kind are written as the same item just when their slot does not tell them apart. -/
theorem leafItem_eq_iff {owner : String} {kind : LeafKind} {x y : Value} {o' : Option Item} (hx : kind.Admits x)
    (hy : kind.Admits y) (h : leafItem owner slot x = .ok o) (h' : leafItem owner slot y = .ok o') :
    o = o' ↔ slot.Merges x y := by
  have hwritten := (written_of_leafItem h).2.2
  have hwritten' := (written_of_leafItem h').2.2
  constructor
  · rintro rfl
    by_cases htype : slot.type = .bool
    · rw [eq_flagItem_of_written htype hwritten] at hwritten'
      exact .inr ⟨htype, flagItem_injective (eq_flagItem_of_written htype hwritten')⟩
    · left
      cases hx with
      | bool b =>
        cases hwritten with
        | flag hbool => exact absurd hbool htype
      | int n | uint n =>
        cases hy
        rw [int_eq_of_written htype hwritten hwritten']
      | string s =>
        cases hy
        rw [text_eq_of_written hwritten hwritten']
      | bytes b | bytesHex b | bytesAddress b =>
        cases hy
        rw [item_of_written_bytes hwritten] at hwritten'
        rw [bytesItem_injective (item_of_written_bytes hwritten')]
  · rintro (rfl | ⟨htype, htruthy⟩)
    · rw [h] at h'
      exact Except.ok.inj h'
    · rw [eq_flagItem_of_written htype hwritten, eq_flagItem_of_written htype hwritten', htruthy]

/-- Slots of the type that a kind has tell all values of the kind apart. -/
theorem LeafKind.Suits.eq_of_merges {kind : LeafKind} {x y : Value} (hkind : kind.Suits slot.type) (hx : kind.Admits x)
    (hy : kind.Admits y) (h : slot.Merges x y) : x = y := by
  rcases h with h | ⟨htype, htruthy⟩
  · exact h
  · rw [htype] at hkind
    cases hkind
    cases hx
    cases hy
    exact congrArg Value.bool htruthy

end

/-! ## 2. The parts that stay -/

/-- One of some later fields takes the place of what is in a oneof. -/
def Descriptor.Linked.displaces (linked : Linked) (oneof : Option Nat) (later : List ContractShell.Field) : Bool :=
  oneof.isSome && later.any fun f => (linked.slot? f.name).any (·.oneof == oneof)

/-- A part that is put in a slot, unless a later field takes its place. -/
def Descriptor.Linked.staying (linked : Linked) (slot : Slot) (later : List ContractShell.Field) (o : Option Part) :
    Option Part :=
  if linked.displaces slot.oneof later then none else o

/-- The parts that stay when the members for some fields are put into a message type. -/
inductive FieldsStay (pool : Pool) : Linked → List Field → List (String × Value) → List Part → Prop where
  | nil {linked : Linked} {members : List (String × Value)} : FieldsStay pool linked [] members []
  | leaf {linked : Linked} {name : String} {kind : LeafKind} {x : Value} {slot : Slot} {o : Option Item}
      {fields : List Field} {members : List (String × Value)} {parts : List Part}
      (hfind : Value.member? name members = some x) (hx : kind.Admits x) (hslot : linked.slot? name = some slot)
      (hitem : leafItem linked.name slot x = .ok o) (h : FieldsStay pool linked fields members parts) :
      FieldsStay pool linked (.leaf name kind :: fields) members
        ((linked.staying slot fields (o.map fun i => ⟨slot.oneof, i, 0, []⟩)).toList ++ parts)
  | message {linked next : Linked} {name type : String} {slot : Slot} {inner fields : List Field}
      {xs members : List (String × Value)} {innerParts parts : List Part}
      (hfind : Value.member? name members = some (.message xs)) (hslot : linked.slot? name = some slot)
      (hnext : pool.find? slot.target = some next) (hx : FieldsStay pool next inner xs innerParts)
      (h : FieldsStay pool linked fields members parts) :
      FieldsStay pool linked (.message name (.mk type inner) :: fields) members
        ((linked.staying slot fields (some (nestedPart slot next innerParts))).toList ++ parts)

section

variable {pool : Pool} {linked : Linked} {slot : Slot} {f : Field} {fields : List Field} {o : Option Part}
  {members : List (String × Value)} {parts : List Part}

theorem displaces_cons (hslot : linked.slot? f.name = some slot) (oneof : Option Nat) :
    linked.displaces oneof (f :: fields) = ((oneof.isSome && slot.oneof == oneof) || linked.displaces oneof fields) := by
  unfold Descriptor.Linked.displaces
  rw [List.any_cons, hslot, Option.any_some, Bool.and_or_distrib_left]

/-- A field in no oneof displaces nothing. -/
theorem displaces_cons_of_none (hslot : linked.slot? f.name = some slot) (hnone : slot.oneof = none)
    (oneof : Option Nat) : linked.displaces oneof (f :: fields) = linked.displaces oneof fields := by
  rw [displaces_cons hslot, hnone]
  cases oneof <;> rfl

theorem mem_of_mem_staying {p : Part} (hp : p ∈ linked.staying slot fields o) :
    linked.displaces slot.oneof fields = false ∧ p ∈ o := by
  unfold Descriptor.Linked.staying at hp
  by_cases hlost : linked.displaces slot.oneof fields = true
  · rw [if_pos hlost] at hp
    cases hp
  · rw [if_neg hlost] at hp
    exact ⟨Bool.eq_false_iff.mpr hlost, hp⟩

theorem staying_of_displaces (h : linked.displaces slot.oneof fields = false) : linked.staying slot fields o = o := by
  unfold Descriptor.Linked.staying
  rw [h]
  exact if_neg Bool.false_ne_true

/-- A part takes the place of those in its oneof, which are those that its field displaces. -/
theorem filter_putPart (hslot : linked.slot? f.name = some slot) {p : Part} (hp : p.oneof = slot.oneof)
    (done : List Part) :
    (putPart p done).filter (fun q => !linked.displaces q.oneof fields) =
      done.filter (fun q => !linked.displaces q.oneof (f :: fields)) ++ (linked.staying slot fields (some p)).toList := by
  have hlast : [p].filter (fun q => !linked.displaces q.oneof fields) =
      (linked.staying slot fields (some p)).toList := by
    unfold Descriptor.Linked.staying
    rw [List.filter_singleton, hp]
    cases linked.displaces slot.oneof fields <;> rfl
  rw [putPart, List.filter_append, hlast, hp]
  congr 1
  cases ho : slot.oneof with
  | none =>
    apply List.filter_congr
    intro q _
    rw [displaces_cons_of_none hslot ho]
  | some n =>
    simp only
    rw [List.filter_filter]
    apply List.filter_congr
    intro q _
    rw [displaces_cons hslot, ho, Bool.not_or, Bool.and_comm]
    congr 1
    cases hq : q.oneof with
    | none => rfl
    | some m =>
      show (some m != some n) = !(some n == some m)
      rw [bne, Bool.beq_comm]

/-- What is there after a field was written, apart from what later fields displace. -/
theorem filter_put (hslot : linked.slot? f.name = some slot) (honeof : ∀ p ∈ o, p.oneof = slot.oneof)
    (htold : slot.oneof.isSome = true → o.isSome = true) (done : List Part) :
    (o.elim done fun p => putPart p done).filter (fun q => !linked.displaces q.oneof fields) =
      done.filter (fun q => !linked.displaces q.oneof (f :: fields)) ++ (linked.staying slot fields o).toList := by
  cases o with
  | none =>
    -- A field that is not written is in no oneof.
    have hnone : slot.oneof = none := by
      cases ho : slot.oneof with
      | none => rfl
      | some n =>
        rw [ho] at htold
        cases htold rfl
    simp only [displaces_cons_of_none hslot hnone, Option.elim_none, Descriptor.Linked.staying, ite_self,
      Option.toList_none, List.append_nil]
  | some p => exact filter_putPart hslot (honeof p rfl) done

/-- The parts of a message are those that stay, after those that no field displaces. -/
theorem FieldsAre.exists_stay (hv : FieldsAre LeafKind.Admits fields members) (hpool : pool.TellsOneofs)
    (hlinked : linked.TellsOneofs) {done : List Part}
    (hok : fieldParts pool linked (.message members) fields done = .ok parts) :
    ∃ rest, FieldsStay pool linked fields members rest ∧
      parts = done.filter (fun q => !linked.displaces q.oneof fields) ++ rest := by
  induction hv generalizing linked done parts with
  | nil =>
    rw [fieldParts] at hok
    cases hok
    refine ⟨[], .nil, ?_⟩
    simp [Descriptor.Linked.displaces]
  | @leaf name kind x fields members hfind hx _ ih =>
    obtain ⟨o, hpart, hrest⟩ := fieldParts_cons_of_eq_ok hok
    obtain ⟨slot, i, hslot, hitem, rfl⟩ := (fieldPart_leaf_eq_ok_iff (memberOf_of_member? hfind)).mp hpart
    obtain ⟨rest, hstay, rfl⟩ := ih hlinked hrest
    obtain ⟨hsingle, -, hwritten⟩ := written_of_leafItem hitem
    have htold : slot.oneof.isSome = true → (i.map fun i => Part.mk slot.oneof i 0 []).isSome = true := by
      intro honeof
      have hpresence := hlinked slot (Descriptor.Linked.mem_of_slot? hslot).1 honeof hsingle
      rw [Option.isSome_map]
      exact isSome_of_written hwritten hpresence
    have hfield : linked.slot? (Field.leaf name kind).name = some slot := hslot
    refine ⟨_, .leaf hfind hx hslot hitem hstay, ?_⟩
    rw [filter_put hfield (by cases i <;> simp) htold, List.append_assoc]
  | @message name type inner fields xs members hfind _ _ _ ihx ih =>
    obtain ⟨o, hpart, hrest⟩ := fieldParts_cons_of_eq_ok hok
    obtain ⟨slot, next, innerParts, hslot, -, -, hnext, -, hinner, rfl⟩ :=
      (fieldPart_message_eq_ok_iff (memberOf_of_member? hfind)).mp hpart
    obtain ⟨rest, hstay, rfl⟩ := ih hlinked hrest
    obtain ⟨innerRest, hinnerStay, hinnerParts⟩ := ihx (hpool.of_find? hnext) hinner
    rw [List.filter_nil, List.nil_append] at hinnerParts
    rw [hinnerParts] at hrest ⊢
    have hfield : linked.slot? (Field.message name (.mk type inner)).name = some slot := hslot
    refine ⟨_, .message hfind hslot hnext hinnerStay hstay, ?_⟩
    rw [filter_put hfield (by simp [nestedPart]) (fun _ => rfl), List.append_assoc]

/-! ## 3. Items of the parts that stay -/

/-- A part has the number of the slot that it was put in. -/
theorem number_of_leafItem {owner : String} {x : Value} {i : Option Item} (hitem : leafItem owner slot x = .ok i) :
    ∀ p ∈ i.map fun i => Part.mk slot.oneof i 0 [], p.item.number = slot.number := by
  intro p hp
  obtain ⟨j, hj, rfl⟩ := Option.map_eq_some_iff.mp hp
  exact (isPlain_of_written (written_of_leafItem hitem).2.2 hj).number

theorem number_of_nestedPart {next : Linked} {inner : List Part} :
    ∀ p ∈ some (nestedPart slot next inner), p.item.number = slot.number := by
  intro p hp
  cases hp
  exact number_nestedPart slot next inner

theorem exists_slot_of_staying (hslot : linked.slot? f.name = some slot) (hnumber : ∀ p ∈ o, p.item.number = slot.number)
    (h : ∀ p ∈ parts, ∃ slot ∈ linked.slots, slot.name ∈ fields.map (·.name) ∧ p.item.number = slot.number) :
    ∀ p ∈ (linked.staying slot fields o).toList ++ parts,
      ∃ slot ∈ linked.slots, slot.name ∈ (f :: fields).map (·.name) ∧ p.item.number = slot.number := by
  intro p hp
  rcases List.mem_append.mp hp with hp | hp
  · obtain ⟨hmem, hname⟩ := Descriptor.Linked.mem_of_slot? hslot
    refine ⟨slot, hmem, ?_, hnumber p (mem_of_mem_staying (Option.mem_toList.mp hp)).2⟩
    rw [hname]
    exact List.mem_cons_self
  · obtain ⟨other, hmem, hname, hp⟩ := h p hp
    exact ⟨other, hmem, List.mem_cons_of_mem _ hname, hp⟩

/-- The parts of some fields have the numbers of their slots. -/
theorem FieldsStay.exists_slot (h : FieldsStay pool linked fields members parts) :
    ∀ p ∈ parts, ∃ slot ∈ linked.slots, slot.name ∈ fields.map (·.name) ∧ p.item.number = slot.number := by
  induction h with
  | nil => simp
  | @leaf _ name kind _ _ _ _ _ _ _ _ hslot hitem _ ih =>
    have hfield : Descriptor.Linked.slot? _ (Field.leaf name kind).name = some _ := hslot
    exact exists_slot_of_staying hfield (number_of_leafItem hitem) ih
  | @message _ _ name type _ inner _ _ _ _ _ _ hslot _ _ _ _ ih =>
    have hfield : Descriptor.Linked.slot? _ (Field.message name (.mk type inner)).name = some _ := hslot
    exact exists_slot_of_staying hfield number_of_nestedPart ih

/-- The parts of fields have other numbers than a slot that is none of theirs. -/
theorem FieldsStay.number_ne (h : FieldsStay pool linked fields members parts) (hsound : linked.IsSound) {name : String}
    (hslot : linked.slot? name = some slot) (hname : name ∉ fields.map (·.name)) :
    ∀ i ∈ parts.map (·.item), i.number ≠ slot.number := by
  intro i hi hnumber
  obtain ⟨p, hp, rfl⟩ := List.mem_map.mp hi
  obtain ⟨other, hmem, hother, hp⟩ := h.exists_slot p hp
  obtain ⟨hslotMem, hslotName⟩ := Descriptor.Linked.mem_of_slot? hslot
  have hsame := hsound.eq_of_number hmem hslotMem (hp.symm.trans hnumber)
  rw [hsame, hslotName] at hother
  exact hname hother

/-- The item of a part that stays is read back. -/
theorem FieldsStay.readable (h : FieldsStay pool linked fields members parts) (hpool : pool.IsSound)
    (hsound : linked.IsSound) : ∀ p ∈ parts, p.item.write.length < maxReadable → p.item.Readable p.depth := by
  -- As for `FieldsWrite.readable`: the parts of a nested message are shorter than the part that holds it.
  induction h with
  | nil => simp
  | leaf _ _ hslot hitem _ ih =>
    intro p hp hlen
    rcases List.mem_append.mp hp with hp | hp
    · obtain ⟨i, hi, rfl⟩ := Option.map_eq_some_iff.mp (mem_of_mem_staying (Option.mem_toList.mp hp)).2
      have hnumber := hsound.inRange _ (Descriptor.Linked.mem_of_slot? hslot).1
      exact readable_of_isPlain hnumber (isPlain_of_written (written_of_leafItem hitem).2.2 hi) hlen
    · exact ih hsound p hp hlen
  | @message _ next _ _ slot _ _ _ _ innerParts _ _ hslot hnext _ _ ihx ih =>
    intro p hp hlen
    rcases List.mem_append.mp hp with hp | hp
    · cases (mem_of_mem_staying (Option.mem_toList.mp hp)).2
      have hnumber := hsound.inRange _ (Descriptor.Linked.mem_of_slot? hslot).1
      have hshort := Nat.lt_trans (length_joinParts_lt_nestedPart slot next innerParts) hlen
      exact readable_nestedPart hnumber (fun p hp => ihx (hpool.of_find? hnext) p hp (forall_length_lt hshort p hp)) hshort
    · exact ih hsound p hp hlen

end

/-- Parts that can be read back have the same items when their bytes are the same. -/
theorem perm_of_joinParts_eq {ps qs : List Part} (hps : ∀ p ∈ ps, p.item.Readable p.depth)
    (hqs : ∀ q ∈ qs, q.item.Readable q.depth) (h : joinParts ps = joinParts qs) :
    (ps.map (·.item)).Perm (qs.map (·.item)) := by
  have hread := items?_joinParts hps (Nat.le_max_left _ (partsDepth qs))
  have hread' := items?_joinParts hqs (Nat.le_max_right (partsDepth ps) _)
  rw [h, hread', Option.some.injEq] at hread
  have hsorted := perm_sortedItems ps
  rw [← hread] at hsorted
  exact hsorted.symm.trans (perm_sortedItems qs)

/-- Parts with the same items have the same bytes. -/
theorem joinParts_congr {ps qs : List Part} (h : ps.map (·.item) = qs.map (·.item)) : joinParts ps = joinParts qs := by
  have hsorted : ∀ parts : List Part,
      sortedItems parts = (parts.map (·.item)).mergeSort fun a b => a.number ≤ b.number := by
    intro parts
    unfold sortedItems sortedParts
    rw [List.map_mergeSort]
    exact fun _ _ _ _ => rfl
  rw [joinParts, joinParts, hsorted, hsorted, h]

/-- The first of two lists of items can be told from the other items when they have a number of their own. -/
theorem eq_of_perm_append {n : Nat} {a b : Option Item} {as bs : List Item} (ha : ∀ i ∈ a, i.number = n)
    (hb : ∀ i ∈ b, i.number = n) (has : ∀ i ∈ as, i.number ≠ n) (hbs : ∀ i ∈ bs, i.number ≠ n)
    (h : (a.toList ++ as).Perm (b.toList ++ bs)) : a = b ∧ as.Perm bs := by
  have hown : ∀ o : Option Item, (∀ i ∈ o, i.number = n) → o.toList.filter (·.number == n) = o.toList := by
    intro o ho
    rw [List.filter_eq_self]
    intro i hi
    exact beq_iff_eq.mpr (ho i (Option.mem_toList.mp hi))
  have hother : ∀ is : List Item, (∀ i ∈ is, i.number ≠ n) → is.filter (·.number == n) = [] := by
    intro is his
    rw [List.filter_eq_nil_iff]
    intro i hi
    rw [beq_iff_eq]
    exact his i hi
  have hfirst := h.filter (·.number == n)
  rw [List.filter_append, List.filter_append, hown a ha, hown b hb, hother as has, hother bs hbs, List.append_nil,
    List.append_nil] at hfirst
  have hsame : a = b := by
    cases b with
    | none =>
      rw [Option.toList_none] at hfirst
      exact Option.toList_eq_nil_iff.mp hfirst.eq_nil
    | some i =>
      rw [Option.toList_some] at hfirst
      exact Option.toList_eq_singleton_iff.mp (List.perm_singleton.mp hfirst)
  rw [hsame] at h
  exact ⟨hsame, (List.perm_append_left_iff _).mp h⟩

/-! ## 4. Agreement -/

/-- Two messages agree in what stays when their members for some fields are put into a message type: their slots do not tell
the plain values apart, and the nested messages agree. -/
inductive FieldsAgree (pool : Pool) : Linked → List Field → List (String × Value) → List (String × Value) → Prop where
  | nil {linked : Linked} {xs ys : List (String × Value)} : FieldsAgree pool linked [] xs ys
  | leaf {linked : Linked} {name : String} {kind : LeafKind} {x y : Value} {slot : Slot} {fields : List Field}
      {xs ys : List (String × Value)} (hslot : linked.slot? name = some slot) (hx : Value.member? name xs = some x)
      (hy : Value.member? name ys = some y) (hsame : linked.displaces slot.oneof fields = false → slot.Merges x y)
      (h : FieldsAgree pool linked fields xs ys) : FieldsAgree pool linked (.leaf name kind :: fields) xs ys
  | message {linked next : Linked} {name type : String} {slot : Slot} {inner fields : List Field}
      {innerXs innerYs xs ys : List (String × Value)} (hslot : linked.slot? name = some slot)
      (hnext : pool.find? slot.target = some next) (hx : Value.member? name xs = some (.message innerXs))
      (hy : Value.member? name ys = some (.message innerYs))
      (hsame : linked.displaces slot.oneof fields = false → FieldsAgree pool next inner innerXs innerYs)
      (h : FieldsAgree pool linked fields xs ys) : FieldsAgree pool linked (.message name (.mk type inner) :: fields) xs ys

section

variable {pool : Pool} {linked : Linked} {slot : Slot} {fields : List Field} {o o' : Option Part}
  {xs ys : List (String × Value)} {ps qs : List Part}

theorem map_item_append : (o.toList ++ ps).map (·.item) = (o.map (·.item)).toList ++ ps.map (·.item) := by
  cases o <;> rfl

theorem map_item_leaf {o : Option Item} : (o.map fun i => Part.mk slot.oneof i 0 []).map (·.item) = o := by
  cases o <;> rfl

/-- A field whose place is taken leaves no item, so only one that stays has to have the same item in both. -/
theorem map_item_staying_congr
    (hfirst : linked.displaces slot.oneof fields = false → o.map (·.item) = o'.map (·.item))
    (hrest : ps.map (·.item) = qs.map (·.item)) :
    ((linked.staying slot fields o).toList ++ ps).map (·.item) =
      ((linked.staying slot fields o').toList ++ qs).map (·.item) := by
  rw [map_item_append, map_item_append, hrest]
  cases hlost : linked.displaces slot.oneof fields with
  | true =>
    unfold Descriptor.Linked.staying
    rw [hlost]
    rfl
  | false => rw [staying_of_displaces hlost, staying_of_displaces hlost, hfirst hlost]

/-- The item of a field that stays can be told from those of later fields. -/
theorem FieldsStay.split (hx : FieldsStay pool linked fields xs ps) (hy : FieldsStay pool linked fields ys qs)
    (hsound : linked.IsSound) {name : String} (hslot : linked.slot? name = some slot)
    (hname : name ∉ fields.map (·.name)) (ho : ∀ p ∈ o, p.item.number = slot.number)
    (ho' : ∀ p ∈ o', p.item.number = slot.number)
    (hperm : (((linked.staying slot fields o).toList ++ ps).map (·.item)).Perm
      (((linked.staying slot fields o').toList ++ qs).map (·.item))) :
    (linked.displaces slot.oneof fields = false → o.map (·.item) = o'.map (·.item)) ∧
      (ps.map (·.item)).Perm (qs.map (·.item)) := by
  have hown : ∀ o : Option Part, (∀ p ∈ o, p.item.number = slot.number) →
      ∀ i ∈ (linked.staying slot fields o).map (·.item), i.number = slot.number := by
    intro o ho i hi
    obtain ⟨p, hp, rfl⟩ := Option.map_eq_some_iff.mp hi
    exact ho p (mem_of_mem_staying hp).2
  rw [map_item_append, map_item_append] at hperm
  obtain ⟨hfirst, hrest⟩ := eq_of_perm_append (hown o ho) (hown o' ho') (hx.number_ne hsound hslot hname)
    (hy.number_ne hsound hslot hname) hperm
  refine ⟨fun hstays => ?_, hrest⟩
  rw [staying_of_displaces hstays, staying_of_displaces hstays] at hfirst
  exact hfirst

theorem joinParts_eq_of_nestedPart {next : Linked} {inner inner' : List Part}
    (h : (nestedPart slot next inner).item = (nestedPart slot next inner').item) : joinParts inner = joinParts inner' := by
  rw [item_nestedPart, item_nestedPart] at h
  by_cases htype : slot.type = .group
  · rw [if_pos htype, if_pos htype] at h
    exact (Item.group.inj h).2
  · rw [if_neg htype, if_neg htype] at h
    exact (Item.delimited.inj h).2

theorem forall_length_lt_of_nestedPart {next : Linked} {inner : List Part}
    (h : (nestedPart slot next inner).item.write.length < maxReadable) : ∀ p ∈ inner, p.item.write.length < maxReadable :=
  forall_length_lt (Nat.lt_trans (length_joinParts_lt_nestedPart slot next inner) h)

/-- Messages of which the same items stay agree. -/
theorem FieldsStay.agree_of_perm (hx : FieldsStay pool linked fields xs ps) (hy : FieldsStay pool linked fields ys qs)
    (hpool : pool.IsSound) (hsound : linked.IsSound) (hnames : (fields.map (·.name)).Nodup)
    (hdistinct : haveDistinctNames fields) (hps : ∀ p ∈ ps, p.item.write.length < maxReadable)
    (hqs : ∀ q ∈ qs, q.item.write.length < maxReadable) (hperm : (ps.map (·.item)).Perm (qs.map (·.item))) :
    FieldsAgree pool linked fields xs ys := by
  -- The item of each field in turn is told from the others by its number. Nested messages are told from their bytes.
  induction hx generalizing ys qs with
  | nil => exact .nil
  | @leaf linked name kind x slot o fields xs ps hfind hx hslot hitem hrest ih =>
    rw [List.map_cons, List.nodup_cons] at hnames
    cases hy with
    | @leaf _ _ _ y other o' _ _ qs hfind' hy hslot' hitem' hrest' =>
      rw [hslot, Option.some.injEq] at hslot'
      rw [← hslot'] at hitem' hperm hqs
      obtain ⟨hfirst, hlater⟩ := hrest.split hrest' hsound hslot hnames.1 (number_of_leafItem hitem)
        (number_of_leafItem hitem') hperm
      refine .leaf hslot hfind hfind' (fun hstays => ?_) (ih hrest' hsound hnames.2 hdistinct
        (fun p hp => hps p (List.mem_append_right _ hp)) (fun q hq => hqs q (List.mem_append_right _ hq)) hlater)
      have hitems := hfirst hstays
      rw [map_item_leaf, map_item_leaf] at hitems
      exact (leafItem_eq_iff hx hy hitem hitem').mp hitems
  | @message linked next name type slot inner fields innerXs xs innerPs ps hfind hslot hnext hinner hrest ihx ih =>
    rw [List.map_cons, List.nodup_cons] at hnames
    cases hy with
    | @message _ next' _ _ other _ _ innerYs _ innerQs qs hfind' hslot' hnext' hinner' hrest' =>
      rw [hslot, Option.some.injEq] at hslot'
      rw [← hslot'] at hnext' hperm hqs
      rw [hnext, Option.some.injEq] at hnext'
      rw [← hnext'] at hinner' hperm hqs
      obtain ⟨hfirst, hlater⟩ := hrest.split hrest' hsound hslot hnames.1 number_of_nestedPart number_of_nestedPart hperm
      refine .message hslot hnext hfind hfind' (fun hstays => ?_) (ih hrest' hsound hnames.2 hdistinct.2
        (fun p hp => hps p (List.mem_append_right _ hp)) (fun q hq => hqs q (List.mem_append_right _ hq)) hlater)
      -- What stays of the nested messages is shorter than their parts, which stay.
      have hmem : ∀ {inner : List Part} {ps : List Part}, nestedPart slot next inner ∈
          (linked.staying slot fields (some (nestedPart slot next inner))).toList ++ ps := by
        intro inner ps
        rw [staying_of_displaces hstays]
        exact List.mem_cons_self
      have hshort := forall_length_lt_of_nestedPart (hps _ hmem)
      have hshort' := forall_length_lt_of_nestedPart (hqs _ hmem)
      have hsoundNext := hpool.of_find? hnext
      have hbytes := joinParts_eq_of_nestedPart (Option.some.inj (hfirst hstays))
      have hinnerPerm := perm_of_joinParts_eq
        (fun p hp => hinner.readable hpool hsoundNext p hp (hshort p hp))
        (fun q hq => hinner'.readable hpool hsoundNext q hq (hshort' q hq)) hbytes
      exact ihx hinner' hsoundNext hdistinct.1.1 hdistinct.1.2 hshort hshort' hinnerPerm

/-- Messages that agree leave the same items. -/
theorem FieldsAgree.items_eq (h : FieldsAgree pool linked fields xs ys) (hx : FieldsStay pool linked fields xs ps)
    (hy : FieldsStay pool linked fields ys qs) : ps.map (·.item) = qs.map (·.item) := by
  induction h generalizing ps qs with
  | nil =>
    cases hx
    cases hy
    rfl
  | leaf hslot hfind hfind' hsame _ ih =>
    cases hx with
    | leaf hfindX hx hslotX hitem hrest =>
      cases hy with
      | leaf hfindY hy hslotY hitem' hrest' =>
        rw [hslot, Option.some.injEq] at hslotX hslotY
        rw [hfind, Option.some.injEq] at hfindX
        rw [hfind', Option.some.injEq] at hfindY
        subst hslotX hslotY hfindX hfindY
        refine map_item_staying_congr (fun hstays => ?_) (ih hrest hrest')
        rw [map_item_leaf, map_item_leaf]
        exact (leafItem_eq_iff hx hy hitem hitem').mpr (hsame hstays)
  | message hslot hnext hfind hfind' _ _ ihx ih =>
    cases hx with
    | message hfindX hslotX hnextX hinner hrest =>
      cases hy with
      | message hfindY hslotY hnextY hinner' hrest' =>
        rw [hslot, Option.some.injEq] at hslotX hslotY
        subst hslotX hslotY
        rw [hnext, Option.some.injEq] at hnextX hnextY
        rw [hfind, Option.some.injEq, Value.message.injEq] at hfindX
        rw [hfind', Option.some.injEq, Value.message.injEq] at hfindY
        subst hnextX hnextY hfindX hfindY
        refine map_item_staying_congr (fun hstays => ?_) (ih hrest hrest')
        rw [Option.map_some, Option.map_some, item_nestedPart, item_nestedPart,
          joinParts_congr (ihx hstays hinner hinner')]

/-- Messages whose bytes are not too many have the same bytes just when they agree. -/
theorem FieldsStay.joinParts_eq_iff (hx : FieldsStay pool linked fields xs ps) (hy : FieldsStay pool linked fields ys qs)
    (hpool : pool.IsSound) (hsound : linked.IsSound) (hnames : (fields.map (·.name)).Nodup)
    (hdistinct : haveDistinctNames fields) (hps : (joinParts ps).length < maxReadable)
    (hqs : (joinParts qs).length < maxReadable) : joinParts ps = joinParts qs ↔ FieldsAgree pool linked fields xs ys := by
  constructor
  · intro hbytes
    have hshort := forall_length_lt hps
    have hshort' := forall_length_lt hqs
    have hperm := perm_of_joinParts_eq (fun p hp => hx.readable hpool hsound p hp (hshort p hp))
      (fun q hq => hy.readable hpool hsound q hq (hshort' q hq)) hbytes
    exact hx.agree_of_perm hy hpool hsound hnames hdistinct hshort hshort' hperm
  · exact fun hagree => joinParts_congr (hagree.items_eq hx hy)

/-! ## 5. Messages that are the same -/

theorem MembersSame.exists_of_member? (h : MembersSame xs ys) {name : String} {x : Value}
    (hfind : Value.member? name xs = some x) : ∃ y, Value.member? name ys = some y ∧ x.Same y := by
  induction xs with
  | nil => cases hfind
  | cons p xs ih =>
    cases h with
    | @cons first z y _ _ hfound hz h =>
      unfold Value.member? at hfind
      rw [List.find?_cons] at hfind
      by_cases hname : first = name
      · rw [beq_iff_eq.mpr hname] at hfind
        cases hfind
        rw [hname] at hfound
        exact ⟨y, hfound, hz⟩
      · rw [beq_false_of_ne hname] at hfind
        exact ih h hfind

theorem membersSame_of_forall (h : ∀ p ∈ xs, ∃ y, Value.member? p.1 ys = some y ∧ p.2.Same y) : MembersSame xs ys := by
  induction xs with
  | nil => exact .nil
  | cons p xs ih =>
    obtain ⟨y, hfind, hsame⟩ := h p List.mem_cons_self
    exact .cons hfind hsame (ih fun q hq => h q (List.mem_cons_of_mem _ hq))

/-- Two messages have the same member for a field. -/
def Field.IsSameIn (f : Field) (xs ys : List (String × Value)) : Prop :=
  ∃ x y, Value.member? f.name xs = some x ∧ Value.member? f.name ys = some y ∧ x.Same y

/-- Messages are the same when they are so field by field and have no other members. -/
theorem membersSame_of_fields (hnames : (fields.map (·.name)).Nodup) (hlength : xs.length = fields.length)
    (h : ∀ f ∈ fields, f.IsSameIn xs ys) : MembersSame xs ys := by
  have hmem : ∀ {name : String} {x : Value}, Value.member? name xs = some x → name ∈ xs.map (·.1) := by
    intro name x hfind
    obtain ⟨p, hp, -⟩ := Option.map_eq_some_iff.mp hfind
    have hname : p.1 = name := by simpa using List.find?_some hp
    exact hname ▸ List.mem_map_of_mem (List.mem_of_find?_eq_some hp)
  have hsub : fields.map (·.name) ⊆ xs.map (·.1) := by
    intro name hname
    obtain ⟨f, hf, rfl⟩ := List.mem_map.mp hname
    obtain ⟨x, -, hx, -, -⟩ := h f hf
    exact hmem hx
  -- There are as many members as fields, so the members have the names of the fields and no others.
  have hperm : (fields.map (·.name)).Perm (xs.map (·.1)) := by
    apply (List.subperm_of_subset hnames hsub).perm_of_length_le
    rw [List.length_map, List.length_map, hlength]
  have hnodup := hperm.nodup_iff.mp hnames
  apply membersSame_of_forall
  intro p hp
  obtain ⟨f, hf, hname⟩ := List.mem_map.mp (hperm.mem_iff.mpr (List.mem_map_of_mem hp))
  obtain ⟨x, y, hx, hy, hsame⟩ := h f hf
  rw [hname] at hx hy
  rw [member?_of_mem hnodup hp, Option.some.injEq] at hx
  rw [← hx] at hsame
  exact ⟨y, hy, hsame⟩

theorem LeafKind.Admits.eq_of_same {kind : LeafKind} {x y : Value} (h : kind.Admits x) (hsame : x.Same y) : x = y := by
  cases h with
  | bool | int | uint | string | bytes | bytesHex | bytesAddress =>
    cases hsame
    rfl

/-- Messages that are the same agree. -/
theorem FieldsStay.agree_of_same (hx : FieldsStay pool linked fields xs ps) (hy : FieldsStay pool linked fields ys qs)
    (hsame : MembersSame xs ys) : FieldsAgree pool linked fields xs ys := by
  induction hx generalizing ys qs with
  | nil => exact .nil
  | leaf hfind hx hslot _ _ ih =>
    cases hy with
    | leaf hfind' _ _ _ hrest' =>
      obtain ⟨y, hy, hxy⟩ := hsame.exists_of_member? hfind
      exact .leaf hslot hfind hy (fun _ => .inl (hx.eq_of_same hxy)) (ih hrest' hsame)
  | message hfind hslot hnext _ _ ihx ih =>
    cases hy with
    | message hfind' hslot' hnext' hinner' hrest' =>
      rw [hslot, Option.some.injEq] at hslot'
      rw [← hslot', hnext, Option.some.injEq] at hnext'
      rw [← hnext'] at hinner'
      obtain ⟨y, hy, hxy⟩ := hsame.exists_of_member? hfind
      rw [hfind', Option.some.injEq] at hy
      rw [← hy] at hxy
      cases hxy with
      | message _ hinnerSame =>
        exact .message hslot hnext hfind hfind' (fun _ => ihx hinner' hinnerSame) (ih hrest' hsame)

/-- Where no two fields share a oneof, no later field displaces what is in a slot. -/
theorem displaces_eq_false_of_hasNoRivals (hrivals : linked.HasNoRivals) {name : String}
    (hslot : linked.slot? name = some slot) (hname : name ∉ fields.map (·.name)) :
    linked.displaces slot.oneof fields = false := by
  rw [Bool.eq_false_iff]
  intro hlost
  unfold Descriptor.Linked.displaces at hlost
  rw [Bool.and_eq_true, List.any_eq_true] at hlost
  obtain ⟨hsome, f, hf, hother⟩ := hlost
  obtain ⟨other, hfound, honeof⟩ : ∃ other, linked.slot? f.name = some other ∧ (other.oneof == slot.oneof) = true := by
    cases hfound : linked.slot? f.name with
    | none =>
      rw [hfound] at hother
      cases hother
    | some other =>
      rw [hfound] at hother
      exact ⟨other, rfl, hother⟩
  obtain ⟨hmem, hslotName⟩ := Descriptor.Linked.mem_of_slot? hslot
  obtain ⟨hotherMem, hotherName⟩ := Descriptor.Linked.mem_of_slot? hfound
  have hsame := hrivals slot hmem other hotherMem hsome (beq_iff_eq.mp honeof).symm
  rw [hslotName, hotherName] at hsame
  exact hname (hsame ▸ List.mem_map_of_mem hf)

/-- Where no two fields share a oneof and slots have the types of their fields, messages that agree are the same. -/
theorem FieldsAgree.membersSame {lib : Library} {type : String} (h : FieldsAgree lib.pool linked fields xs ys)
    (hfields : Library.FieldsLinked lib type linked fields) (hx : FieldsAre LeafKind.Admits fields xs)
    (hy : FieldsAre LeafKind.Admits fields ys) (hlength : xs.length = fields.length)
    (hnames : (fields.map (·.name)).Nodup) (hdistinct : haveDistinctNames fields)
    (hrivals : ∀ last, Visits lib.pool linked fields last → last.HasNoRivals) : MembersSame xs ys := by
  apply membersSame_of_fields hnames hlength
  clear hlength
  induction hfields generalizing xs ys with
  | nil => simp
  | @leaf type name kind linked slot fields hslot hsingle hkind _ _ _ ih =>
    rw [List.map_cons, List.nodup_cons] at hnames
    have hstays := displaces_eq_false_of_hasNoRivals (hrivals linked .here) hslot hnames.1
    cases h with
    | leaf hslot' hfind hfind' hsame h =>
      cases hx with
      | leaf hfindX hadmX hx =>
        cases hy with
        | leaf hfindY hadmY hy =>
          rw [hslot, Option.some.injEq] at hslot'
          rw [← hslot'] at hsame
          rw [hfind, Option.some.injEq] at hfindX
          rw [hfind', Option.some.injEq] at hfindY
          rw [← hfindX] at hadmX
          rw [← hfindY] at hadmY
          have hequal := hkind.eq_of_merges hadmX hadmY (hsame hstays)
          refine List.forall_mem_cons.mpr ⟨⟨_, _, hfind, hfind', ?_⟩, ?_⟩
          · rw [hequal]
            exact hadmY.same
          · exact ih h hx hy hnames.2 hdistinct fun last hl => hrivals last hl.cons
  | @message type name target linked next slot inner fields hslot _ _ hnext _ _ _ ihx ih =>
    rw [List.map_cons, List.nodup_cons] at hnames
    have hstays := displaces_eq_false_of_hasNoRivals (hrivals linked .here) hslot hnames.1
    cases h with
    | message hslot' hnext' hfind hfind' hsame h =>
      cases hx with
      | message hfindX hlengthX hinnerX hx =>
        cases hy with
        | message hfindY hlengthY hinnerY hy =>
          rw [hslot, Option.some.injEq] at hslot'
          rw [← hslot'] at hnext' hsame
          rw [hnext, Option.some.injEq] at hnext'
          rw [hfind, Option.some.injEq, Value.message.injEq] at hfindX
          rw [hfind', Option.some.injEq, Value.message.injEq] at hfindY
          subst hnext' hfindX hfindY
          have hinner := membersSame_of_fields hdistinct.1.1 hlengthX (ihx (hsame hstays) hinnerX hinnerY hdistinct.1.1
            hdistinct.1.2 fun last hl => hrivals last (.inside List.mem_cons_self hslot hnext hl))
          exact List.forall_mem_cons.mpr ⟨⟨_, _, hfind, hfind', .message (hlengthX.trans hlengthY.symm) hinner⟩,
            ih h hx hy hnames.2 hdistinct.2 fun last hl => hrivals last hl.cons⟩

end

/-! ## 6. Libraries -/

namespace Library

variable {lib : Library} {name : String} {schema : Schema} {v w : Value} {b c : Bytes}

/-- Two values of a schema agree in what is written of them. Of the schema without a name nothing is written. -/
def Agree (lib : Library) (schema : Schema) (v w : Value) : Prop :=
  schema.name.isEmpty = false → ∀ linked, lib.linked? schema.name = some linked →
    FieldsAgree lib.pool linked schema.fields v.members w.members

/-- The bytes of a message are those of the parts that stay. -/
theorem exists_stay_of_encode (hlib : lib.IsLoaded) (hname : schema.name.isEmpty = false)
    {members : List (String × Value)} (hv : FieldsAre LeafKind.Admits schema.fields members)
    (hb : lib.encode schema (.message members) = .ok b) {linked : Linked}
    (hfind : lib.linked? schema.name = some linked) :
    ∃ parts, FieldsStay lib.pool linked schema.fields members parts ∧ (joinParts parts).length < maxReadable ∧
      b = joinParts parts := by
  obtain ⟨linked', parts, hfind', hparts, -, -, -, hsize, rfl⟩ := (encode_eq_ok_iff hname).mp hb
  rw [parts_of_linked? hfind] at hparts
  have hlinked := hlib.tellsOneofs.of_find? hfind
  obtain ⟨rest, hstay, hrest⟩ := hv.exists_stay hlib.tellsOneofs hlinked hparts
  rw [List.filter_nil, List.nil_append] at hrest
  rw [hrest] at hsize ⊢
  exact ⟨rest, hstay, Nat.lt_of_le_of_lt hsize (show maxMessageSize < maxReadable by decide), rfl⟩

/-- Two values are written as the same bytes just when they agree in what is written of them: all but the fields whose place a
later one in their oneof takes. So no two different values are written alike where no two fields share a oneof. -/
theorem encode_eq_iff_agree (hlib : lib.IsLoaded) (hschema : lib.schema name = .ok schema)
    (hdistinct : schema.HasDistinctNames) (hv : schema.IsOf LeafKind.Admits v) (hw : schema.IsOf LeafKind.Admits w)
    (hb : lib.encode schema v = .ok b) (hc : lib.encode schema w = .ok c) :
    (b = c ↔ lib.Agree schema v w) ∧
    (lib.HasNoRivals schema → (∀ type, lib.Meets (bareName name) type → lib.IsFaithful type) → (b = c ↔ v.Same w)) := by
  obtain ⟨xs, rfl, hxs, hv⟩ := hv
  obtain ⟨ys, rfl, hys, hw⟩ := hw
  cases hname : schema.name.isEmpty with
  | true =>
    obtain ⟨hencode, -⟩ := @decode_encode_nothing lib schema xs hname
    obtain ⟨hencode', -⟩ := @decode_encode_nothing lib schema ys hname
    rw [hencode] at hb
    rw [hencode'] at hc
    cases hb
    cases hc
    refine ⟨⟨fun _ hnamed => ?_, fun _ => rfl⟩, fun _ hfaithful => ⟨fun _ => ?_, fun _ => rfl⟩⟩
    · rw [hname] at hnamed
      cases hnamed
    · rcases exists_linked_of_schema hlib hschema hfaithful with rfl | ⟨hnamed, -⟩
      · rw [List.length_eq_zero_iff.mp hxs, List.length_eq_zero_iff.mp hys]
        exact .message rfl .nil
      · rw [hname] at hnamed
        cases hnamed
  | false =>
    have hpool := hlib.isSound
    obtain ⟨linked, -, hfind, -⟩ := (encode_eq_ok_iff hname).mp hb
    have hsound := hpool.of_find? hfind
    have hnames := Schema.hasDistinctNames_iff.mp hdistinct
    obtain ⟨ps, hx, hps, rfl⟩ := exists_stay_of_encode hlib hname hv hb hfind
    obtain ⟨qs, hy, hqs, rfl⟩ := exists_stay_of_encode hlib hname hw hc hfind
    have hiff := hx.joinParts_eq_iff hy hpool hsound hnames.1 hnames.2 hps hqs
    have hagree : lib.Agree schema (.message xs) (.message ys) ↔ FieldsAgree lib.pool linked schema.fields xs ys := by
      constructor
      · exact fun h => h hname linked hfind
      · intro h _ other hother
        rw [hfind, Option.some.injEq] at hother
        exact hother ▸ h
    refine ⟨hiff.trans hagree.symm, fun hrivals hfaithful => hiff.trans ⟨fun h => ?_, fun h => ?_⟩⟩
    · rcases exists_linked_of_schema hlib hschema hfaithful with rfl | ⟨-, linked', hfind', -, hfields⟩
      · cases hname
      · rw [hfind, Option.some.injEq] at hfind'
        rw [← hfind'] at hfields
        exact .message (hxs.trans hys.symm) (h.membersSame hfields hv hw hxs hnames.1 hnames.2 (hrivals linked hfind))
    · cases h with
      | message _ hsame => exact hx.agree_of_same hy hsame

/-- Two numbers in the one field of a message type are not written alike. -/
theorem encode_fiveAndSix :
    ofBytes plainFile = .ok (ofPlain (Descriptor.File.ofBytes plainFile)) ∧ ∃ b c,
      (ofPlain (Descriptor.File.ofBytes plainFile)).encode (numberSchema "A" "x") (.message [("x", .int 5)]) = .ok b ∧
      (ofPlain (Descriptor.File.ofBytes plainFile)).encode (numberSchema "A" "x") (.message [("x", .int 6)]) = .ok c ∧
      ¬ (ofPlain (Descriptor.File.ofBytes plainFile)).Agree (numberSchema "A" "x") (.message [("x", .int 5)])
        (.message [("x", .int 6)]) ∧ b ≠ c := by
  have hfile : isNumberFile "A" "x" plainFile = true := isNumberFile_files.1
  obtain ⟨hload, hschema, -⟩ := of_isNumberFile hfile
  have hlib := isLoaded_ofBytes hload
  have hrivals := hasNoRivals_number hfile
  have hdepth : (numberSchema "A" "x").depth < Wire.maxDepth := by decide
  have hwritten : ∀ n : Int, 0 ≤ n → n < 0x10000000000000000 → ∃ b,
      (ofPlain (Descriptor.File.ofBytes plainFile)).encode (numberSchema "A" "x") (.message [("x", .int n)]) = .ok b := by
    intro n hlow hhigh
    have hcarries := (carries_number_iff hfile hlow hhigh).mpr ⟨by decide, by decide⟩
    obtain ⟨b, hb, -⟩ := (decode_encode_iff hlib.isSound (holds_number "A" "x" hlow hhigh)
      (hasDistinctNames_number "A" "x") hrivals hdepth).mpr hcarries
    exact ⟨b, hb⟩
  obtain ⟨b, hb⟩ := hwritten 5 (by decide) (by decide)
  obtain ⟨c, hc⟩ := hwritten 6 (by decide) (by decide)
  obtain ⟨hagree, hsame⟩ := encode_eq_iff_agree hlib hschema (hasDistinctNames_number "A" "x") (isOf_number "A" "x" 5)
    (isOf_number "A" "x" 6) hb hc
  have hne : b ≠ c := by
    intro hbytes
    cases (hsame hrivals fun type _ => isFaithful_number hfile type).mp hbytes with
    | message _ h =>
      cases h with
      | cons hfind hx _ =>
        rw [member?_singleton, Option.some.injEq] at hfind
        rw [← hfind] at hx
        cases hx
  exact ⟨hload, b, c, hb, hc, fun h => hne (hagree.mpr h), hne⟩

/-- Two different values whose numbers are in range are written as the same bytes: of two numbers in one oneof the first one
is lost. -/
theorem first_lost_of_choice :
    ofBytes choiceFile = .ok (ofPlain (Descriptor.File.ofBytes choiceFile)) ∧
      (ofPlain (Descriptor.File.ofBytes choiceFile)).schema "A" = .ok choiceSchema ∧
      choiceSchema.IsOf LeafKind.Admits (choiceValue 1 2) ∧ choiceSchema.IsOf LeafKind.Admits (choiceValue 3 2) ∧
      (ofPlain (Descriptor.File.ofBytes choiceFile)).outOfRange? choiceSchema (choiceValue 1 2) = none ∧
      (ofPlain (Descriptor.File.ofBytes choiceFile)).outOfRange? choiceSchema (choiceValue 3 2) = none ∧
      ¬ (choiceValue 1 2).Same (choiceValue 3 2) ∧
      (ofPlain (Descriptor.File.ofBytes choiceFile)).encode choiceSchema (choiceValue 1 2) = .ok [16, 2] ∧
      (ofPlain (Descriptor.File.ofBytes choiceFile)).encode choiceSchema (choiceValue 3 2) = .ok [16, 2] := by
  have hfile := isChoiceFile_choiceFile
  have hone : (0 : Int) ≤ 1 ∧ (1 : Int) < 0x10000000000000000 := by decide
  have htwo : (0 : Int) ≤ 2 ∧ (2 : Int) < 0x10000000000000000 := by decide
  have hthree : (0 : Int) ≤ 3 ∧ (3 : Int) < 0x10000000000000000 := by decide
  have hbytes : Wire.writeVarint 2 (residue 2) = [16, 2] := by decide +kernel
  have hfirst := encode_choice hfile hone htwo
  have hsecond := encode_choice hfile hthree htwo
  rw [hbytes] at hfirst hsecond
  refine ⟨(of_isSingleFile hfile).1, schema_choice hfile, isOf_choice 1 2, isOf_choice 3 2, outOfRange?_choice hfile hone htwo,
    outOfRange?_choice hfile hthree htwo, ?_, hfirst, hsecond⟩
  intro hsame
  cases hsame with
  | message _ h =>
    cases h with
    | cons hfind hx _ =>
      have hthreeFound : Value.member? "x" [("x", .int 3), ("y", .int 2)] = some (.int 3) := rfl
      rw [hthreeFound, Option.some.injEq] at hfind
      rw [← hfind] at hx
      cases hx

end Library

end ContractShell
