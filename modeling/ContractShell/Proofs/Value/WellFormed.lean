import ContractShell.Proofs.Value.Parts

/-!
What is written as a message is a message: its items are read back, and every content has the shape that the pool asks for.

## Main statements

* `FieldsWrite.readable`: the item of a part is read back.
* `FieldsWrite.fits`: the content of a part has the shape of its slot.
* `FieldsWrite.wellFormed`: the bytes of the parts are a message of the linked type.
-/

namespace ContractShell

open Descriptor (FieldType Slot Linked Pool)
open Wire (Item Layout Layouts Shape)

/-! ## 1. Readable parts -/

/-- The longest message that can be written is far shorter than what a length can hold. -/
def maxReadable : Nat := 2 ^ 35

theorem readable_of_isPlain {slot : Slot} (hn : Wire.IsNumber slot.number) {i : Item} (h : IsPlain slot i)
    (hlen : i.write.length < maxReadable) : i.Readable 0 := by
  have hbody := i.length_body_lt
  cases h with
  | varint hv => exact .varint hn hv
  | string _ _ | bytes _ =>
    rw [Item.body, List.length_append] at hbody
    exact .delimited hn (Nat.lt_of_le_of_lt (by omega) hlen)

section

variable {pool : Pool} {linked : Linked} {fields : List Field} {members : List (String × Value)}
  {outs : List (Slot × Option Part)}

/-- The parts of a message that is not too long are as short. -/
theorem forall_length_lt {parts : List Part} (h : (joinParts parts).length < maxReadable) :
    ∀ p ∈ parts, p.item.write.length < maxReadable :=
  fun _ hp => Nat.lt_of_le_of_lt (length_write_le_joinParts hp) h

/-- The items of readable parts are readable in the depth of all of them. -/
theorem readable_sortedItems {parts : List Part} (h : ∀ p ∈ parts, p.item.Readable p.depth) {depth : Nat}
    (hdepth : partsDepth parts ≤ depth) : ∀ i ∈ sortedItems parts, i.Readable depth := by
  intro i hi
  obtain ⟨p, hp, rfl⟩ := mem_sortedItems.mp hi
  exact (h p hp).mono (partsDepth_le_iff.mp hdepth p hp)

/-- The items of a message are read back from its bytes, in the order in which they are written. -/
theorem items?_joinParts {parts : List Part} (h : ∀ p ∈ parts, p.item.Readable p.depth) {depth : Nat}
    (hdepth : partsDepth parts ≤ depth) : Wire.items? depth (joinParts parts) = some (sortedItems parts) :=
  Wire.items?_write (readable_sortedItems h hdepth)

/-- A nested message is read back when the parts in it are. -/
theorem readable_nestedPart {slot : Slot} (hnumber : Wire.IsNumber slot.number) {next : Linked} {inner : List Part}
    (hinner : ∀ p ∈ inner, p.item.Readable p.depth) (hlen : (joinParts inner).length < maxReadable) :
    (nestedPart slot next inner).item.Readable (nestedPart slot next inner).depth := by
  have hdepth : (nestedPart slot next inner).depth = partsDepth inner + 1 := rfl
  rw [hdepth, item_nestedPart]
  by_cases htype : slot.type = .group
  · rw [if_pos htype]
    exact .group hnumber (readable_sortedItems hinner (Nat.le_refl _))
  · rw [if_neg htype]
    exact .delimited hnumber hlen

/-- The item of a part is read back. -/
theorem FieldsWrite.readable (h : FieldsWrite pool linked fields members outs) (hpool : pool.IsSound)
    (hsound : linked.IsSound) :
    ∀ p ∈ written outs, p.item.write.length < maxReadable → p.item.Readable p.depth := by
  -- A nested message is shorter than the part that holds it, so its own parts are short enough too.
  induction h with
  | nil => simp [written]
  | leaf hslot hitem _ ih =>
    intro p hp hlen
    rw [written_cons, List.mem_append, Option.mem_toList, Option.map_eq_some_iff] at hp
    rcases hp with ⟨i, hi, rfl⟩ | hp
    · have hnumber := hsound.inRange _ (Descriptor.Linked.mem_of_slot? hslot).1
      exact readable_of_isPlain hnumber (isPlain_of_written (written_of_leafItem hitem).2.2 hi) hlen
    · exact ih hsound p hp hlen
  | @message linked next _ _ slot _ _ _ _ innerOuts _ hslot _ _ hfind _ _ _ ihx ih =>
    intro p hp hlen
    rw [written_cons, List.mem_append, Option.mem_toList] at hp
    rcases hp with hp | hp
    · cases hp
      have hnumber := hsound.inRange _ (Descriptor.Linked.mem_of_slot? hslot).1
      have hshort := Nat.lt_trans (length_joinParts_lt_nestedPart slot next (written innerOuts)) hlen
      exact readable_nestedPart hnumber
        (fun p hp => ihx (hpool.of_find? hfind) p hp (forall_length_lt hshort p hp)) hshort
    · exact ih hsound p hp hlen

/-! ## 2. Shapes -/

theorem Descriptor.Pool.layoutOf_layouts {type : String} (hfind : pool.find? type = some linked) :
    pool.layouts.layoutOf type =
      ⟨(Pool.slotsOf pool linked).filterMap fun s => (Pool.shapeOf? s).map (s.number, ·), linked.isContainer⟩ := by
  unfold Layouts.layoutOf Pool.layouts
  rw [List.find?_map]
  unfold Pool.find? at hfind
  have hsame : ((fun entry : String × Layout => entry.1 == type) ∘ fun m : Linked =>
      (m.name, Layout.mk ((Pool.slotsOf pool m).filterMap fun s => (Pool.shapeOf? s).map (s.number, ·)) m.isContainer)) =
      fun m : Linked => m.name == type := rfl
  rw [hsame, hfind]
  rfl

/-- The layout of a type asks for the shape of a field, since no other field has its number. -/
theorem Descriptor.Pool.shape?_layoutOf {type : String} (hfind : pool.find? type = some linked) (hsound : linked.IsSound)
    {slot : Slot} (hslot : slot ∈ linked.slots) :
    (pool.layouts.layoutOf type).shape? slot.number = Pool.shapeOf? slot := by
  -- Extensions with the number of a field have no part in the layout, so the number belongs to the slot alone.
  have honly : ∀ s ∈ Pool.slotsOf pool linked, s.number = slot.number → s = slot := by
    intro s hs hnumber
    rcases List.mem_append.mp hs with hs | hs
    · exact hsound.eq_of_number hs hslot hnumber
    · have hother := List.all_eq_true.mp (List.mem_filter.mp hs).2 slot hslot
      rw [bne_iff_ne] at hother
      exact absurd hnumber.symm hother
  have hmem : slot ∈ Pool.slotsOf pool linked := List.mem_append_left _ hslot
  rw [Pool.layoutOf_layouts hfind, Layout.shape?]
  cases hfound : ((Pool.slotsOf pool linked).filterMap fun s => (Pool.shapeOf? s).map (s.number, ·)).find?
      (·.1 == slot.number) with
  | some entry =>
    obtain ⟨s, hs, hentry⟩ := List.mem_filterMap.mp (List.mem_of_find?_eq_some hfound)
    obtain ⟨shape, hshape, rfl⟩ := Option.map_eq_some_iff.mp hentry
    have hnumber : s.number = slot.number := by simpa using List.find?_some hfound
    rw [← honly s hs hnumber, hshape]
    rfl
  | none =>
    cases hshape : Pool.shapeOf? slot with
    | none => rfl
    | some shape =>
      have hentry := List.find?_eq_none.mp hfound (slot.number, shape)
        (List.mem_filterMap.mpr ⟨slot, hmem, by rw [hshape]; rfl⟩)
      simp at hentry

/-- The content of a plain item has the shape of its slot. -/
theorem contentFits_of_isPlain {layout : Layout} {slot : Slot}
    (hshape : layout.shape? slot.number = Pool.shapeOf? slot) {i : Item} (h : IsPlain slot i)
    (inner : String → Bytes → Bool) : Wire.contentFits layout inner i = true := by
  cases h with
  | varint _ => rfl
  | string htype hp =>
    rw [Wire.contentFits, hshape, Pool.shapeOf?, htype]
    cases hchecks : slot.checksText with
    | true => exact hp
    | false => rfl
  | bytes htype =>
    rw [Wire.contentFits, hshape, Pool.shapeOf?, htype]
    cases slot.repeated <;> rfl

/-- The content of a nested message fits when it is a message of the slot's target. -/
theorem contentFits_nestedPart {layout : Layout} {slot : Slot} (htype : slot.type.isMessage = true)
    (hshape : layout.shape? slot.number = Pool.shapeOf? slot) {next : Linked} {parts : List Part}
    {inner : String → Bytes → Bool} (hinner : inner slot.target (joinParts parts) = true) :
    Wire.contentFits layout inner (nestedPart slot next parts).item = true := by
  rw [item_nestedPart]
  cases htype' : slot.type with
  | message =>
    rw [if_neg (by decide), Wire.contentFits, hshape, Pool.shapeOf?, htype']
    exact hinner
  | group =>
    rw [if_pos rfl, Wire.contentFits, hshape, Pool.shapeOf?, htype']
    exact hinner
  | _ =>
    rw [htype'] at htype
    cases htype

/-! ## 3. Whole messages -/

/-- The content of a part has the shape that a layout asks for, where messages are at most so long and so deep. -/
def Part.Fits (layouts : Layouts) (layout : Layout) (p : Part) : Prop :=
  ∀ fuel depth, p.item.write.length ≤ fuel + 1 → p.depth ≤ depth →
    Wire.contentFits layout (fun type b => depth != 0 && Wire.wellFormedWithin layouts fuel (depth - 1) type b) p.item = true

/-- Parts that can be read and that fit are a message. -/
theorem wellFormedWithin_joinParts {type : String} (hfind : pool.find? type = some linked) (hsound : linked.IsSound)
    (hslots : ∀ out ∈ outs, out.1 ∈ linked.slots) (hreadable : ∀ p ∈ written outs, p.item.Readable p.depth)
    (hfits : ∀ p ∈ written outs, p.Fits pool.layouts (pool.layouts.layoutOf type)) {fuel depth : Nat}
    (hfuel : (joinParts (written outs)).length ≤ fuel) (hdepth : partsDepth (written outs) ≤ depth) :
    Wire.wellFormedWithin pool.layouts fuel depth type (joinParts (written outs)) = true := by
  have hitems := items?_joinParts hreadable hdepth
  -- Without fuel there are no bytes, and so no items.
  cases fuel with
  | zero =>
    have hnil : sortedItems (written outs) = [] := by
      rw [List.length_eq_zero_iff.mp (Nat.le_zero.mp hfuel), Wire.items?_nil] at hitems
      exact (Option.some.inj hitems).symm
    rw [Wire.wellFormedWithin, hitems, hnil]
    rfl
  | succ fuel =>
    rw [Wire.wellFormedWithin, hitems]
    simp only
    by_cases hcontainer : (pool.layouts.layoutOf type).isContainer = true
    · -- A container has no fields, so nothing was written.
      have hnone : outs = [] := by
        rw [Pool.layoutOf_layouts hfind] at hcontainer
        rw [hsound.container hcontainer] at hslots
        exact List.eq_nil_iff_forall_not_mem.mpr fun out hout => List.not_mem_nil (hslots out hout)
      have hnil : sortedItems (written []) = [] := by
        rw [written, List.filterMap_nil, sortedItems, sortedParts, List.mergeSort_nil, List.map_nil]
      rw [if_pos hcontainer, hnone, hnil]
      rfl
    · rw [if_neg hcontainer, List.all_eq_true]
      intro i hi
      obtain ⟨p, hp, rfl⟩ := mem_sortedItems.mp hi
      exact hfits p hp fuel depth (Nat.le_trans (length_write_le_joinParts hp) hfuel)
        (partsDepth_le_iff.mp hdepth p hp)

/-- The content of a part has the shape of its slot. -/
theorem FieldsWrite.fits (h : FieldsWrite pool linked fields members outs) (hpool : pool.IsSound) {type : String}
    (hfind : pool.find? type = some linked) :
    ∀ p ∈ written outs, p.item.write.length < maxReadable → p.Fits pool.layouts (pool.layouts.layoutOf type) := by
  -- A part has more bytes than the message in it, which pays for the fuel of one level.
  induction h generalizing type with
  | nil => simp [written]
  | leaf hslot hitem _ ih =>
    intro p hp hlen
    rw [written_cons, List.mem_append, Option.mem_toList, Option.map_eq_some_iff] at hp
    rcases hp with ⟨i, hi, rfl⟩ | hp
    · have hshape := Pool.shape?_layoutOf hfind (hpool.of_find? hfind) (Descriptor.Linked.mem_of_slot? hslot).1
      intro fuel depth _ _
      exact contentFits_of_isPlain hshape (isPlain_of_written (written_of_leafItem hitem).2.2 hi) _
    · exact ih hfind p hp hlen
  | @message linked next _ _ slot _ _ _ _ innerOuts _ hslot _ htype hnext _ hx _ ihx ih =>
    intro p hp hlen
    rw [written_cons, List.mem_append, Option.mem_toList] at hp
    rcases hp with hp | hp
    · cases hp
      have hshape := Pool.shape?_layoutOf hfind (hpool.of_find? hfind) (Descriptor.Linked.mem_of_slot? hslot).1
      have hshorter := length_joinParts_lt_nestedPart slot next (written innerOuts)
      have hinnerLen := forall_length_lt (Nat.lt_trans hshorter hlen)
      intro fuel depth hfuel hdepth
      have hdepth : partsDepth (written innerOuts) + 1 ≤ depth := hdepth
      have hpositive : (depth != 0) = true := bne_iff_ne.mpr (by omega)
      apply contentFits_nestedPart htype hshape
      rw [hpositive, Bool.true_and]
      exact wellFormedWithin_joinParts hnext (hpool.of_find? hnext) hx.mem_slots
        (fun p hp => hx.readable hpool (hpool.of_find? hnext) p hp (hinnerLen p hp))
        (fun p hp => ihx hnext p hp (hinnerLen p hp)) (by omega) (by omega)
    · exact ih hfind p hp hlen

/-- What is written as a message of a type is one. -/
theorem FieldsWrite.wellFormed (h : FieldsWrite pool linked fields members outs) (hpool : pool.IsSound) {type : String}
    (hfind : pool.find? type = some linked) (hlen : (joinParts (written outs)).length < maxReadable)
    (hdepth : partsDepth (written outs) ≤ Wire.maxDepth) :
    Wire.wellFormed pool.layouts type (joinParts (written outs)) = true :=
  wellFormedWithin_joinParts hfind (hpool.of_find? hfind) h.mem_slots
    (fun p hp => h.readable hpool (hpool.of_find? hfind) p hp (forall_length_lt hlen p hp))
    (fun p hp => h.fits hpool hfind p hp (forall_length_lt hlen p hp)) (Nat.le_refl _) hdepth

end

end ContractShell
