import ContractShell.Proofs.Wire.Reading
import ContractShell.Wire.Layout

/-!
Records: messages without groups, part after part.

A record is written as its parts in the order of their numbers, so what a reader finds of one number is what was written of
that number. Which bytes are a message of a type is said here without fuel.

## Main statements

* `itemsOf_write`: the parts of a record are read back.
* `items?_iff`, `skips_of_eq_some`: the readers of items and of groups, step by step.
* `isMessage_iff`: bytes are a message when their items can be read and every content has its shape.
* `isMessage_write`: a record is a message when the contents of its parts have their shapes.
* `lt_number_of_mem`: where every byte is the tag of a number above a bound, all items have such numbers.
-/

namespace ContractShell.Wire

/-! ## 1. Parts -/

/-- Parts with a length, all of one number. -/
def delimitedItems (number : Nat) (ps : List Bytes) : List Item := ps.map (.delimited number)

/-- Parts that are varints, all of one number. -/
def varintItems (number : Nat) (vs : List Nat) : List Item := vs.map (.varint number)

theorem flatMap_write_delimitedItems (n : Nat) (ps : List Bytes) :
    (delimitedItems n ps).flatMap Item.write = ps.flatMap (writeDelimited n) := by
  rw [delimitedItems, List.flatMap_map]
  rfl

theorem flatMap_write_varintItems (n : Nat) (vs : List Nat) :
    (varintItems n vs).flatMap Item.write = vs.flatMap (writeVarint n) := by
  rw [varintItems, List.flatMap_map]
  rfl

section

variable (k n : Nat) (is js : List Item) (ps : List Bytes) (vs : List Nat)

@[simp] theorem payloads_append : payloads k (is ++ js) = payloads k is ++ payloads k js := List.filterMap_append ..

@[simp] theorem numbers_append : numbers k (is ++ js) = numbers k is ++ numbers k js := List.filterMap_append ..

@[simp] theorem packedNumbers_append : packedNumbers k (is ++ js) = packedNumbers k is ++ packedNumbers k js :=
  List.flatMap_append ..

@[simp] theorem payloads_delimitedItems : payloads k (delimitedItems n ps) = if n = k then ps else [] := by
  unfold payloads delimitedItems
  rw [List.filterMap_map]
  show List.filterMap (fun p => if n = k then some p else none) ps = _
  by_cases h : n = k <;> simp [h]

@[simp] theorem payloads_varintItems : payloads k (varintItems n vs) = [] := by
  simp [payloads, varintItems, List.filterMap_map]

@[simp] theorem numbers_varintItems : numbers k (varintItems n vs) = if n = k then vs else [] := by
  unfold numbers varintItems
  rw [List.filterMap_map]
  show List.filterMap (fun v => if n = k then some v else none) vs = _
  by_cases h : n = k <;> simp [h]

@[simp] theorem numbers_delimitedItems : numbers k (delimitedItems n ps) = [] := by
  simp [numbers, delimitedItems, List.filterMap_map]

@[simp] theorem packedNumbers_varintItems : packedNumbers k (varintItems n vs) = if n = k then vs else [] := by
  unfold packedNumbers varintItems
  rw [List.flatMap_map]
  by_cases h : n = k <;> simp [h]

/-- Payloads of another number hold no varints of this one. -/
@[simp] theorem packedNumbers_delimitedItems {k n : Nat} (h : n ≠ k) (ps : List Bytes) :
    packedNumbers k (delimitedItems n ps) = [] := by
  simp [packedNumbers, delimitedItems, List.flatMap_map, h]

theorem mem_payloads {p : Bytes} : p ∈ payloads k is ↔ .delimited k p ∈ is := by
  unfold payloads
  rw [List.mem_filterMap]
  constructor
  · rintro ⟨i, hi, hp⟩
    cases i with
    | delimited n q =>
      by_cases h : n = k
      · simp only [h, if_true, Option.some.injEq] at hp
        rwa [← hp, ← h]
      · simp [h] at hp
    | _ => cases hp
  · exact fun h => ⟨.delimited k p, h, if_pos rfl⟩

@[simp] theorem forall_mem_delimitedItems {P : Item → Prop} :
    (∀ i ∈ delimitedItems n ps, P i) ↔ ∀ p ∈ ps, P (.delimited n p) := List.forall_mem_map

@[simp] theorem forall_mem_varintItems {P : Item → Prop} :
    (∀ i ∈ varintItems n vs, P i) ↔ ∀ v ∈ vs, P (.varint n v) := List.forall_mem_map

end

/-! ## 2. Reading records -/

/-- An item that is no group, and whose number and value can be read back. -/
inductive Item.IsFlat : Item → Prop where
  | varint {n v : Nat} (hn : IsNumber n) (hv : v < 2 ^ 64) : IsFlat (.varint n v)
  | delimited {n : Nat} {p : Bytes} (hn : IsNumber n) : IsFlat (.delimited n p)

@[simp] theorem Item.isFlat_varint_iff {n v : Nat} : (Item.varint n v).IsFlat ↔ IsNumber n ∧ v < 2 ^ 64 :=
  ⟨fun h => by cases h with | varint hn hv => exact ⟨hn, hv⟩, fun h => .varint h.1 h.2⟩

@[simp] theorem Item.isFlat_delimited_iff {n : Nat} {p : Bytes} : (Item.delimited n p).IsFlat ↔ IsNumber n :=
  ⟨fun h => by cases h with | delimited hn => exact hn, .delimited⟩

/-- Bytes that are short enough for their length to be read back in front of them. -/
def IsShort (b : Bytes) : Prop := b.length < 2 ^ 35

theorem length_write_le {i : Item} {is : List Item} (h : i ∈ is) : i.write.length ≤ (is.flatMap Item.write).length := by
  induction is with
  | nil => cases h
  | cons j is ih =>
    rw [List.flatMap_cons, List.length_append]
    rcases List.mem_cons.mp h with rfl | h
    · exact Nat.le_add_right _ _
    · exact Nat.le_trans (ih h) (Nat.le_add_left _ _)

/-- The parts of a short record are short. -/
theorem isShort_of_mem {n : Nat} {p : Bytes} {is : List Item} (h : p ∈ payloads n is)
    (hshort : IsShort (is.flatMap Item.write)) : IsShort p := by
  have hbody := (Item.delimited n p).length_body_lt
  rw [Item.body, List.length_append] at hbody
  have hle := length_write_le ((mem_payloads n is).mp h)
  unfold IsShort at hshort ⊢
  omega

theorem items?_record {is : List Item} (hflat : ∀ i ∈ is, i.IsFlat) (hshort : IsShort (is.flatMap Item.write))
    (depth : Nat) : items? depth (is.flatMap Item.write) = some is := by
  refine items?_write fun i hi => ?_
  cases hflat i hi with
  | varint hn hv => exact .varint hn hv
  | delimited hn => exact .delimited hn (isShort_of_mem ((mem_payloads _ is).mpr hi) hshort)

/-- The parts of a record are read back. -/
theorem itemsOf_write {is : List Item} (hflat : ∀ i ∈ is, i.IsFlat) (hshort : IsShort (is.flatMap Item.write)) :
    itemsOf (is.flatMap Item.write) = is := by
  rw [itemsOf, items?_record hflat hshort, Option.getD_some]

/-! ## 3. Parts, one after the other -/

/-- The items of bytes, read one after the other. -/
inductive Lists (depth : Nat) : Bytes → List Item → Prop where
  | nil : Lists depth [] []
  | cons {s r : Bytes} {i : Item} {is : List Item} (hread : readItem? depth s = some (i, r)) (hrest : Lists depth r is) :
      Lists depth s (i :: is)

theorem items?_iff {depth : Nat} {s : Bytes} {is : List Item} : items? depth s = some is ↔ Lists depth s is := by
  constructor
  · intro h
    induction hn : s.length using Nat.strongRecOn generalizing s is with
    | ind n ih =>
      subst hn
      rw [items?] at h
      split at h
      · rename_i hnil
        cases h
        rw [List.isEmpty_iff.mp hnil]
        exact .nil
      · split at h
        · cases h
        · rename_i i r hread
          obtain ⟨rest, hrest, heq⟩ := Option.map_eq_some_iff.mp h
          cases heq
          exact .cons hread (ih _ (readItem?_length_lt hread) hrest rfl)
  · intro h
    induction h with
    | nil => exact items?_nil depth
    | cons hread _ ih => rw [items?_of_readItem? hread, ih, Option.map_some]

/-! ## 4. Messages of a type -/

/-- The bytes that a part encloses. -/
def Item.content : Item → Bytes
  | .delimited _ p => p
  | .group _ c => c
  | _ => []

theorem length_content_lt {depth : Nat} {s r : Bytes} {i : Item} (h : readItem? depth s = some (i, r)) :
    i.content.length < s.length := by
  have hpos : 0 < s.length := Nat.lt_of_le_of_lt (Nat.zero_le _) (readItem?_length_lt h)
  unfold readItem? at h
  split at h
  · cases h
  · obtain ⟨_, -, heq⟩ := Option.map_eq_some_iff.mp h
    cases heq
    exact hpos
  · obtain ⟨_, -, heq⟩ := Option.map_eq_some_iff.mp h
    cases heq
    exact hpos
  · rename_i htag
    have hlt := readTag?_length_lt htag
    obtain ⟨_, hpayload, heq⟩ := Option.map_eq_some_iff.mp h
    cases heq
    unfold readPayload? at hpayload
    split at hpayload
    · rename_i hgroups
      have := readGroups?_length_lt hgroups
      split at hpayload
      · cases hpayload
        simp only [Item.content, List.length_take]
        omega
      · cases hpayload
    · cases hpayload
  · rename_i htag
    have hlt := readTag?_length_lt htag
    obtain ⟨_, hgroup, heq⟩ := Option.map_eq_some_iff.mp h
    cases heq
    obtain ⟨_, -, heq⟩ := Option.map_eq_some_iff.mp hgroup
    cases heq
    simp only [Item.content, List.length_take]
    omega
  · obtain ⟨_, -, heq⟩ := Option.map_eq_some_iff.mp h
    cases heq
    exact hpos
  · cases h

/-- What a part of a message encloses is shorter than the message. -/
theorem length_content_lt_of_mem {depth : Nat} {s : Bytes} {is : List Item} (h : items? depth s = some is) :
    ∀ i ∈ is, i.content.length < s.length := by
  rw [items?_iff] at h
  induction h with
  | nil => simp
  | cons hread _ ih =>
    have hlt := readItem?_length_lt hread
    exact List.forall_mem_cons.mpr ⟨length_content_lt hread, fun j hj => Nat.lt_trans (ih j hj) hlt⟩

section

variable {layouts : Layouts}

/-- Bytes are a message of a type, with at most `depth` levels below it. -/
def IsMessage (layouts : Layouts) (depth : Nat) (type : String) (s : Bytes) : Prop :=
  wellFormedWithin layouts s.length depth type s = true

/-- Bytes are a message of a type one level below a message that may have `depth` levels below it. -/
def innerFits (layouts : Layouts) (depth : Nat) (type : String) (s : Bytes) : Bool :=
  depth != 0 && wellFormedWithin layouts s.length (depth - 1) type s

theorem innerFits_iff {depth : Nat} {type : String} {s : Bytes} :
    innerFits layouts depth type s = true ↔ ∃ below, depth = below + 1 ∧ IsMessage layouts below type s := by
  unfold innerFits IsMessage
  cases depth with
  | zero => simp
  | succ below => simp

theorem contentFits_mono {layout : Layout} {inner inner' : String → Bytes → Bool} {i : Item}
    (h : ∀ type, inner type i.content = true → inner' type i.content = true) (hfits : contentFits layout inner i = true) :
    contentFits layout inner' i = true := by
  cases i with
  | delimited n p =>
    simp only [contentFits] at hfits ⊢
    cases hshape : layout.shape? n with
    | none => rfl
    | some shape =>
      rw [hshape] at hfits
      cases shape with
      | message type => exact h type hfits
      | _ => exact hfits
  | group n c =>
    simp only [contentFits] at hfits ⊢
    cases hshape : layout.shape? n with
    | none => rfl
    | some shape =>
      rw [hshape] at hfits
      cases shape with
      | group type => exact h type hfits
      | _ => exact hfits
  | _ => rfl

theorem contentFits_congr {layout : Layout} {inner inner' : String → Bytes → Bool} {i : Item}
    (h : ∀ type, inner type i.content = inner' type i.content) :
    contentFits layout inner i = contentFits layout inner' i :=
  Bool.eq_iff_iff.mpr ⟨contentFits_mono fun type => (h type ▸ ·), contentFits_mono fun type => (h type ▸ ·)⟩

variable (hplain : ∀ type, (layouts.layoutOf type).isContainer = false)

include hplain

/-- Fuel for every byte is enough, and more makes no difference. -/
theorem wellFormedWithin_of_length_le {fuel : Nat} {s : Bytes} (h : s.length ≤ fuel) (depth : Nat) (type : String) :
    wellFormedWithin layouts fuel depth type s = match items? depth s with
      | none => false
      | some is => is.all (contentFits (layouts.layoutOf type) (innerFits layouts depth)) := by
  -- The induction is on the length: what a part encloses is shorter, so one level less of fuel is enough for it.
  induction hn : s.length using Nat.strongRecOn generalizing s fuel depth type with
  | ind n ih =>
    subst hn
    rw [wellFormedWithin.eq_def]
    cases hitems : items? depth s with
    | none => rfl
    | some is =>
      have hlt := length_content_lt_of_mem hitems
      cases fuel with
      | zero =>
        have hnone : is = [] := by
          rw [List.length_eq_zero_iff.mp (Nat.le_zero.mp h), items?_nil] at hitems
          exact (Option.some.inj hitems).symm
        rw [hnone]
        rfl
      | succ fuel =>
        dsimp only
        rw [if_neg (by rw [hplain type]; decide)]
        rw [Bool.eq_iff_iff, List.all_eq_true, List.all_eq_true]
        refine forall₂_congr fun i hi => ?_
        have hfuel : i.content.length ≤ fuel := Nat.le_of_lt_succ (Nat.lt_of_lt_of_le (hlt i hi) h)
        rw [contentFits_congr fun inner => ?_]
        unfold innerFits
        rw [ih _ (hlt i hi) hfuel (depth - 1) inner rfl, ih _ (hlt i hi) (Nat.le_refl _) (depth - 1) inner rfl]

/-- Bytes are a message when their items can be read and every content has its shape. -/
theorem isMessage_iff {depth : Nat} {type : String} {s : Bytes} : IsMessage layouts depth type s ↔
    ∃ is, items? depth s = some is ∧ ∀ i ∈ is, contentFits (layouts.layoutOf type) (innerFits layouts depth) i = true := by
  rw [IsMessage, wellFormedWithin_of_length_le hplain (Nat.le_refl _)]
  cases items? depth s with
  | none => simp
  | some is => simp

/-- A record is a message when the contents of its parts have their shapes. -/
theorem isMessage_write {is : List Item} (hflat : ∀ i ∈ is, i.IsFlat) (hshort : IsShort (is.flatMap Item.write))
    {depth : Nat} {type : String}
    (hfits : ∀ i ∈ is, contentFits (layouts.layoutOf type) (innerFits layouts depth) i = true) :
    IsMessage layouts depth type (is.flatMap Item.write) :=
  (isMessage_iff hplain).mpr ⟨is, items?_record hflat hshort depth, hfits⟩

end

/-! ## 5. What is left -/

theorem readGroups?_suffix {room n : Nat} {s r : Bytes} (h : readGroups? room s = some (n, r)) : r <:+ s := by
  induction room generalizing s n with
  | zero => cases h
  | succ room ih =>
    cases s with
    | nil => cases h
    | cons b t =>
      rw [readGroups?] at h
      split at h
      · cases h
        exact List.suffix_cons _ _
      · obtain ⟨_, hmore, heq⟩ := Option.map_eq_some_iff.mp h
        cases heq
        exact (ih hmore).trans (List.suffix_cons _ _)

theorem readVarint?_suffix {n : Nat} {s r : Bytes} (h : readVarint? s = some (n, r)) : r <:+ s := by
  obtain ⟨_, hgroups, heq⟩ := Option.map_eq_some_iff.mp h
  cases heq
  exact readGroups?_suffix hgroups

theorem readFixed?_suffix {n v : Nat} {s r : Bytes} (h : readFixed? n s = some (v, r)) : r <:+ s := by
  unfold readFixed? at h
  split at h
  · cases h
    exact List.drop_suffix _ _
  · cases h

theorem readPayload?_suffix {p s r : Bytes} (h : readPayload? s = some (p, r)) : r <:+ s := by
  unfold readPayload? at h
  split at h
  · rename_i hgroups
    split at h
    · cases h
      exact (List.drop_suffix _ _).trans (readGroups?_suffix hgroups)
    · cases h
  · cases h

theorem readTag?_suffix {n w : Nat} {s r : Bytes} (h : readTag? s = some (n, w, r)) : r <:+ s := by
  unfold readTag? at h
  split at h
  · rename_i hgroups
    split at h
    · cases h
      exact readGroups?_suffix hgroups
    · cases h
  · cases h

/-- The content of an item that is no group lies in front of some bytes. `how` says how it is written. -/
def IsContent (how : Nat) (r t : Bytes) : Prop :=
  (how = 0 ∧ ∃ v, readVarint? r = some (v, t)) ∨ (how = 1 ∧ ∃ v, readFixed? 8 r = some (v, t)) ∨
    (how = 2 ∧ ∃ p, readPayload? r = some (p, t)) ∨ (how = 5 ∧ ∃ v, readFixed? 4 r = some (v, t))

theorem IsContent.suffix {how : Nat} {r t : Bytes} (h : IsContent how r t) : t <:+ r := by
  rcases h with ⟨-, _, hv⟩ | ⟨-, _, hv⟩ | ⟨-, _, hp⟩ | ⟨-, _, hv⟩
  · exact readVarint?_suffix hv
  · exact readFixed?_suffix hv
  · exact readPayload?_suffix hp
  · exact readFixed?_suffix hv

/-- Open groups are skipped item by item: a group is opened, or closed, or a content is passed over. -/
inductive Skips (depth : Nat) : List Nat → Bytes → Bytes → Bytes × Bytes → Prop where
  | done (last s : Bytes) : Skips depth [] last s (last, s)
  | content {current number how : Nat} {outer : List Nat} {last s r t : Bytes} {x : Bytes × Bytes}
      (hopen : (current :: outer).length ≤ depth) (htag : readTag? s = some (number, how, r)) (hcontent : IsContent how r t)
      (hrest : Skips depth (current :: outer) last t x) : Skips depth (current :: outer) last s x
  | start {current number : Nat} {outer : List Nat} {last s r : Bytes} {x : Bytes × Bytes}
      (hopen : (current :: outer).length ≤ depth) (htag : readTag? s = some (number, 3, r))
      (hrest : Skips depth (number :: current :: outer) last r x) : Skips depth (current :: outer) last s x
  | stop {current : Nat} {outer : List Nat} {last s r : Bytes} {x : Bytes × Bytes}
      (hopen : (current :: outer).length ≤ depth) (htag : readTag? s = some (current, 4, r))
      (hrest : Skips depth outer s r x) : Skips depth (current :: outer) last s x

theorem skips_of_eq_some {depth : Nat} {opened : List Nat} {last s : Bytes} {x : Bytes × Bytes}
    (h : skipGroups? depth opened last s = some x) : Skips depth opened last s x := by
  -- The induction is on the bytes that are left, of which every tag takes some.
  induction hs : s.length using Nat.strongRecOn generalizing s opened last with
  | ind n ih =>
    subst hs
    cases opened with
    | nil =>
      rw [skipGroups?] at h
      cases h
      exact .done last s
    | cons current outer =>
      rw [skipGroups?_cons] at h
      by_cases hdeep : depth < (current :: outer).length
      · rw [if_pos hdeep] at h
        cases h
      rw [if_neg hdeep] at h
      have hopen : (current :: outer).length ≤ depth := Nat.not_lt.mp hdeep
      obtain ⟨⟨number, how, r⟩, htag, h⟩ := Option.bind_eq_some_iff.mp h
      have hlt := readTag?_length_lt htag
      simp only at h
      split at h
      · exact .start hopen htag (ih _ hlt h rfl)
      · split at h
        · rename_i hsame
          exact .stop hopen (hsame ▸ htag) (ih _ hlt h rfl)
        · cases h
      · obtain ⟨t, hend, h⟩ := Option.bind_eq_some_iff.mp h
        have hnext := Nat.lt_of_le_of_lt (contentEnd?_length_le hend) hlt
        exact .content hopen htag (contentEnd?_eq_some_iff.mp hend) (ih _ hnext h rfl)

/-- What is left after open groups is the end of the bytes, whichever items lie in them. -/
theorem Skips.suffix {depth : Nat} {opened : List Nat} {last s : Bytes} {x : Bytes × Bytes}
    (h : Skips depth opened last s x) : x.2 <:+ s := by
  induction h with
  | done => exact List.suffix_refl _
  | content _ htag hcontent _ ih => exact ih.trans (hcontent.suffix.trans (readTag?_suffix htag))
  | start _ htag _ ih => exact ih.trans (readTag?_suffix htag)
  | stop _ htag _ ih => exact ih.trans (readTag?_suffix htag)

/-- An item is read from its tag, and what is left after it is the end of the bytes. -/
theorem readItem?_tag {depth : Nat} {s r : Bytes} {i : Item} (h : readItem? depth s = some (i, r)) :
    r <:+ s ∧ ∃ how t, readTag? s = some (i.number, how, t) := by
  unfold readItem? at h
  split at h
  · cases h
  · rename_i htag
    obtain ⟨_, hvalue, heq⟩ := Option.map_eq_some_iff.mp h
    cases heq
    exact ⟨(readVarint?_suffix hvalue).trans (readTag?_suffix htag), _, _, htag⟩
  · rename_i htag
    obtain ⟨_, hvalue, heq⟩ := Option.map_eq_some_iff.mp h
    cases heq
    exact ⟨(readFixed?_suffix hvalue).trans (readTag?_suffix htag), _, _, htag⟩
  · rename_i htag
    obtain ⟨_, hpayload, heq⟩ := Option.map_eq_some_iff.mp h
    cases heq
    exact ⟨(readPayload?_suffix hpayload).trans (readTag?_suffix htag), _, _, htag⟩
  · rename_i htag
    obtain ⟨_, hgroup, heq⟩ := Option.map_eq_some_iff.mp h
    cases heq
    obtain ⟨_, hskip, heq⟩ := Option.map_eq_some_iff.mp hgroup
    cases heq
    exact ⟨(skips_of_eq_some hskip).suffix.trans (readTag?_suffix htag), _, _, htag⟩
  · rename_i htag
    obtain ⟨_, hvalue, heq⟩ := Option.map_eq_some_iff.mp h
    cases heq
    exact ⟨(readFixed?_suffix hvalue).trans (readTag?_suffix htag), _, _, htag⟩
  · cases h

/-- A tag that is a single byte gives the number in it. -/
theorem number_of_readTag? {n how : Nat} {b : UInt8} {s t : Bytes} (hb : b.toNat < 128)
    (h : readTag? (b :: s) = some (n, how, t)) : n = b.toNat / 8 := by
  unfold readTag? at h
  rw [maxTag, readGroups?, if_pos hb] at h
  dsimp only at h
  split at h
  · cases h
    rfl
  · cases h

/-- Where every byte is the whole tag of a number above a bound, all items have such numbers. -/
theorem lt_number_of_mem (bound : Nat) {depth : Nat} {s : Bytes} {is : List Item} (h : items? depth s = some is)
    (hs : ∀ b ∈ s, b.toNat < 128 ∧ bound < b.toNat / 8) : ∀ i ∈ is, bound < i.number := by
  rw [items?_iff] at h
  induction h with
  | nil => simp
  | @cons s r i is hread _ ih =>
    obtain ⟨hsuffix, how, t, htag⟩ := readItem?_tag hread
    refine List.forall_mem_cons.mpr ⟨?_, ih fun b hb => hs b (hsuffix.mem hb)⟩
    cases s with
    | nil => cases htag
    | cons b s =>
      obtain ⟨hsingle, hbound⟩ := hs b List.mem_cons_self
      rwa [number_of_readTag? hsingle htag]

/-! ## 6. More levels -/

section

variable {depth depth' : Nat} (hle : depth ≤ depth')

include hle

/-- What is skipped where some groups may be open is skipped where more may be. -/
theorem Skips.mono {opened : List Nat} {last s : Bytes} {x : Bytes × Bytes} (h : Skips depth opened last s x) :
    skipGroups? depth' opened last s = some x := by
  induction h with
  | done => rw [skipGroups?]
  | content hopen htag hcontent _ ih => rw [skipGroups?_of_tag (Nat.le_trans hopen hle) htag hcontent, ih]
  | start hopen htag _ ih => rw [skipGroups?_of_start (Nat.le_trans hopen hle) htag, ih]
  | stop hopen htag _ ih => rw [skipGroups?_of_stop (Nat.le_trans hopen hle) htag, ih]

theorem readItem?_mono {s r : Bytes} {i : Item} (h : readItem? depth s = some (i, r)) :
    readItem? depth' s = some (i, r) := by
  unfold readItem? at h ⊢
  split at h
  · cases h
  · exact h
  · exact h
  · exact h
  · obtain ⟨_, hgroup, heq⟩ := Option.map_eq_some_iff.mp h
    obtain ⟨_, hskip, hcontent⟩ := Option.map_eq_some_iff.mp hgroup
    have hmore := (skips_of_eq_some hskip).mono hle
    rw [readGroup?, hmore, Option.map_some, hcontent, Option.map_some, heq]
  · exact h
  · cases h

theorem items?_mono {s : Bytes} {is : List Item} (h : items? depth s = some is) : items? depth' s = some is := by
  rw [items?_iff] at h ⊢
  induction h with
  | nil => exact .nil
  | cons hread _ ih => exact .cons (readItem?_mono hle hread) ih

/-- A message is one where more levels are allowed. -/
theorem IsMessage.mono {layouts : Layouts} (hplain : ∀ type, (layouts.layoutOf type).isContainer = false) {type : String}
    {s : Bytes} (h : IsMessage layouts depth type s) : IsMessage layouts depth' type s := by
  induction hn : s.length using Nat.strongRecOn generalizing s type depth depth' with
  | ind n ih =>
    subst hn
    obtain ⟨is, his, hfits⟩ := (isMessage_iff hplain).mp h
    refine (isMessage_iff hplain).mpr
      ⟨is, items?_mono hle his, fun i hi => contentFits_mono (fun inner hinner => ?_) (hfits i hi)⟩
    obtain ⟨below, rfl, hbelow⟩ := innerFits_iff.mp hinner
    have hlt := length_content_lt_of_mem his i hi
    exact innerFits_iff.mpr ⟨depth' - 1, by omega, ih _ hlt (by omega) hbelow rfl⟩

end

end ContractShell.Wire
