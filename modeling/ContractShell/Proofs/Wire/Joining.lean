import ContractShell.Proofs.Wire.Records

/-!
Messages in parts: what is read of bytes is read of them in front of others, so the items of several messages, one after the
other, are the items of all of them.

## Main statements

* `readItem?_append`: an item is read whatever comes after it.
* `Lists.append`: the items of two messages are those of the bytes of both.
* `exists_items_of_isNested`: what a message of some type is made of.
* `areOf_itemsOf_flatten`: several messages of a type are together made of what one message of that type is made of.
-/

namespace ContractShell.Wire

/-! ## 1. Reading in front of other bytes -/

section

variable {s r : Bytes} (t : Bytes)

theorem readGroups?_append {room n : Nat} (h : readGroups? room s = some (n, r)) :
    readGroups? room (s ++ t) = some (n, r ++ t) := by
  induction room generalizing s n with
  | zero => cases h
  | succ room ih =>
    cases s with
    | nil => cases h
    | cons b s =>
      rw [readGroups?] at h
      rw [List.cons_append, readGroups?]
      by_cases hb : b.toNat < 128
      · rw [if_pos hb] at h ⊢
        cases h
        rfl
      · rw [if_neg hb] at h ⊢
        obtain ⟨⟨m, u⟩, hmore, heq⟩ := Option.map_eq_some_iff.mp h
        cases heq
        rw [ih hmore]
        rfl

theorem readVarint?_append {n : Nat} (h : readVarint? s = some (n, r)) : readVarint? (s ++ t) = some (n, r ++ t) := by
  obtain ⟨⟨m, u⟩, hgroups, heq⟩ := Option.map_eq_some_iff.mp h
  cases heq
  unfold readVarint?
  rw [readGroups?_append t hgroups]
  rfl

theorem readTag?_append {n how : Nat} (h : readTag? s = some (n, how, r)) :
    readTag? (s ++ t) = some (n, how, r ++ t) := by
  unfold readTag? at h ⊢
  cases hgroups : readGroups? maxTag s with
  | none =>
    rw [hgroups] at h
    cases h
  | some x =>
    obtain ⟨tag, u⟩ := x
    rw [hgroups] at h
    rw [readGroups?_append t hgroups]
    dsimp only at h ⊢
    by_cases htag : tag < 0x100000000 ∧ 8 ≤ tag
    · rw [if_pos htag] at h ⊢
      cases h
      rfl
    · rw [if_neg htag] at h
      cases h

theorem readFixed?_append {size n : Nat} (h : readFixed? size s = some (n, r)) :
    readFixed? size (s ++ t) = some (n, r ++ t) := by
  unfold readFixed? at h ⊢
  by_cases hsize : size ≤ s.length
  · have hmore : size ≤ (s ++ t).length := by
      rw [List.length_append]
      omega
    rw [if_pos hsize] at h
    cases h
    rw [if_pos hmore, List.take_append_of_le_length hsize, List.drop_append_of_le_length hsize]
  · rw [if_neg hsize] at h
    cases h

theorem readPayload?_append {p : Bytes} (h : readPayload? s = some (p, r)) :
    readPayload? (s ++ t) = some (p, r ++ t) := by
  unfold readPayload? at h ⊢
  cases hgroups : readGroups? maxLength s with
  | none =>
    rw [hgroups] at h
    cases h
  | some x =>
    obtain ⟨size, u⟩ := x
    rw [hgroups] at h
    rw [readGroups?_append t hgroups]
    dsimp only at h ⊢
    by_cases hsize : size ≤ u.length
    · have hmore : size ≤ (u ++ t).length := by
        rw [List.length_append]
        omega
      rw [if_pos hsize] at h
      cases h
      rw [if_pos hmore, List.take_append_of_le_length hsize, List.drop_append_of_le_length hsize]
    · rw [if_neg hsize] at h
      cases h

theorem IsContent.append {how : Nat} (h : IsContent how s r) : IsContent how (s ++ t) (r ++ t) := by
  rcases h with ⟨hhow, v, hv⟩ | ⟨hhow, v, hv⟩ | ⟨hhow, p, hp⟩ | ⟨hhow, v, hv⟩
  · exact .inl ⟨hhow, v, readVarint?_append t hv⟩
  · exact .inr (.inl ⟨hhow, v, readFixed?_append t hv⟩)
  · exact .inr (.inr (.inl ⟨hhow, p, readPayload?_append t hp⟩))
  · exact .inr (.inr (.inr ⟨hhow, v, readFixed?_append t hv⟩))

/-- Open groups end at the same place whatever comes after them. -/
theorem Skips.append {depth : Nat} {opened : List Nat} {last : Bytes} {x : Bytes × Bytes}
    (h : Skips depth opened last s x) : Skips depth opened (last ++ t) (s ++ t) (x.1 ++ t, x.2 ++ t) := by
  induction h with
  | done last s => exact .done _ _
  | content hopen htag hcontent _ ih => exact .content hopen (readTag?_append t htag) (hcontent.append t) ih
  | start hopen htag _ ih => exact .start hopen (readTag?_append t htag) ih
  | stop hopen htag _ ih => exact .stop hopen (readTag?_append t htag) ih

theorem readGroup?_append {depth number : Nat} {c : Bytes} (h : readGroup? depth number s = some (c, r)) :
    readGroup? depth number (s ++ t) = some (c, r ++ t) := by
  obtain ⟨⟨e, u⟩, hskip, heq⟩ := Option.map_eq_some_iff.mp h
  cases heq
  have hmore := ((skips_of_eq_some hskip).append t).mono (Nat.le_refl depth)
  -- The content is cut off by its length, which the bytes behind do not change.
  have hlength : (s ++ t).length - (e ++ t).length = s.length - e.length := by
    rw [List.length_append, List.length_append]
    omega
  unfold readGroup?
  rw [hmore]
  dsimp only [Option.map_some]
  rw [hlength, List.take_append_of_le_length (Nat.sub_le _ _)]

/-- An item is read whatever comes after it. -/
theorem readItem?_append {depth : Nat} {i : Item} (h : readItem? depth s = some (i, r)) :
    readItem? depth (s ++ t) = some (i, r ++ t) := by
  unfold readItem? at h ⊢
  cases htag : readTag? s with
  | none =>
    rw [htag] at h
    cases h
  | some x =>
    obtain ⟨number, how, u⟩ := x
    rw [htag] at h
    rw [readTag?_append t htag]
    -- The cases are the ways in which a content is written.
    split at h
    · cases ‹some _ = none›
    · cases ‹some _ = some _›
      obtain ⟨⟨v, w⟩, hv, heq⟩ := Option.map_eq_some_iff.mp h
      cases heq
      simp only [readVarint?_append t hv, Option.map_some]
    · cases ‹some _ = some _›
      obtain ⟨⟨v, w⟩, hv, heq⟩ := Option.map_eq_some_iff.mp h
      cases heq
      simp only [readFixed?_append t hv, Option.map_some]
    · cases ‹some _ = some _›
      obtain ⟨⟨p, w⟩, hp, heq⟩ := Option.map_eq_some_iff.mp h
      cases heq
      simp only [readPayload?_append t hp, Option.map_some]
    · cases ‹some _ = some _›
      obtain ⟨⟨c, w⟩, hc, heq⟩ := Option.map_eq_some_iff.mp h
      cases heq
      simp only [readGroup?_append t hc, Option.map_some]
    · cases ‹some _ = some _›
      obtain ⟨⟨v, w⟩, hv, heq⟩ := Option.map_eq_some_iff.mp h
      cases heq
      simp only [readFixed?_append t hv, Option.map_some]
    · cases h

end

/-- The items of two messages are those of the bytes of both. -/
theorem Lists.append {depth : Nat} {s t : Bytes} {is js : List Item} (hs : Lists depth s is) (ht : Lists depth t js) :
    Lists depth (s ++ t) (is ++ js) := by
  induction hs with
  | nil => exact ht
  | cons hread _ ih => exact .cons (readItem?_append t hread) ih

/-! ## 2. Numbers in items -/

theorem readVarint?_lt {n : Nat} {s r : Bytes} (h : readVarint? s = some (n, r)) : n < 2 ^ 64 := by
  obtain ⟨⟨m, u⟩, -, heq⟩ := Option.map_eq_some_iff.mp h
  cases heq
  exact Nat.mod_lt m (by decide)

/-- The varints that are read fit in sixty-four bits. -/
theorem Lists.varint_lt {depth : Nat} {s : Bytes} {is : List Item} (h : Lists depth s is) {n v : Nat}
    (hmem : .varint n v ∈ is) : v < 2 ^ 64 := by
  induction h with
  | nil => cases hmem
  | cons hread _ ih =>
    rcases List.mem_cons.mp hmem with rfl | hmem
    · unfold readItem? at hread
      -- Only the first way of writing a content gives a varint.
      split at hread
      · cases hread
      · obtain ⟨x, hv, heq⟩ := Option.map_eq_some_iff.mp hread
        cases heq
        exact readVarint?_lt hv
      iterate 4
        · obtain ⟨x, -, heq⟩ := Option.map_eq_some_iff.mp hread
          cases heq
      · cases hread
    · exact ih hmem

theorem mem_numbers {n v : Nat} {is : List Item} : v ∈ numbers n is ↔ .varint n v ∈ is := by
  unfold numbers
  rw [List.mem_filterMap]
  constructor
  · rintro ⟨i, hi, hv⟩
    cases i with
    | varint k w =>
      by_cases hk : k = n
      · simp only [hk, if_true, Option.some.injEq] at hv
        rwa [← hv, ← hk]
      · simp [hk] at hv
    | _ => cases hv
  · exact fun h => ⟨.varint n v, h, if_pos rfl⟩

/-! ## 3. Messages inside messages -/

section

variable {layouts : Layouts} {type : String}

/-- Bytes are a message of a type at some level. -/
def IsNested (layouts : Layouts) (type : String) (s : Bytes) : Prop :=
  ∃ fuel depth, depth ≤ maxDepth ∧ wellFormedWithin layouts fuel depth type s = true

/-- The content of an item has the shape that a type asks for at some level. -/
def Item.Fits (layouts : Layouts) (type : String) (i : Item) : Prop :=
  ∃ fuel depth, depth ≤ maxDepth ∧ contentFits (layouts.layoutOf type)
    (fun t p => depth != 0 && wellFormedWithin layouts fuel (depth - 1) t p) i = true

theorem isNested_nil : IsNested layouts type [] := ⟨0, 0, Nat.zero_le _, by rw [wellFormedWithin, items?_nil]; rfl⟩

theorem isNested_of_wellFormed {s : Bytes} (h : wellFormed layouts type s = true) : IsNested layouts type s :=
  ⟨s.length, maxDepth, Nat.le_refl _, h⟩

/-- Bytes that are a message one level down are one at some level. -/
theorem isNested_below {fuel depth : Nat} (hdepth : depth ≤ maxDepth) {s : Bytes}
    (h : (depth != 0 && wellFormedWithin layouts fuel (depth - 1) type s) = true) : IsNested layouts type s := by
  rw [Bool.and_eq_true] at h
  exact ⟨fuel, depth - 1, Nat.le_trans (Nat.sub_le _ _) hdepth, h.2⟩

section

variable {n : Nat} {p : Bytes}

theorem Item.Fits.text (h : (Item.delimited n p).Fits layouts type)
    (hshape : (layouts.layoutOf type).shape? n = some .text) : Text.Utf8.valid p = true := by
  obtain ⟨fuel, depth, -, hfits⟩ := h
  rw [contentFits, hshape] at hfits
  exact hfits

theorem Item.Fits.message {inner : String} (h : (Item.delimited n p).Fits layouts type)
    (hshape : (layouts.layoutOf type).shape? n = some (.message inner)) : IsNested layouts inner p := by
  obtain ⟨fuel, depth, hdepth, hfits⟩ := h
  rw [contentFits, hshape] at hfits
  exact isNested_below hdepth hfits

theorem Item.Fits.group {inner : String} (h : (Item.group n p).Fits layouts type)
    (hshape : (layouts.layoutOf type).shape? n = some (.group inner)) : IsNested layouts inner p := by
  obtain ⟨fuel, depth, hdepth, hfits⟩ := h
  rw [contentFits, hshape] at hfits
  exact isNested_below hdepth hfits

end

/-- A message of a type that is no container is made of items that fit the type. -/
theorem exists_items_of_isNested (hplain : (layouts.layoutOf type).isContainer = false) {s : Bytes}
    (h : IsNested layouts type s) : ∃ is, Lists maxDepth s is ∧ ∀ i ∈ is, i.Fits layouts type := by
  obtain ⟨fuel, depth, hdepth, hformed⟩ := h
  rw [wellFormedWithin.eq_def] at hformed
  cases hitems : items? depth s with
  | none =>
    rw [hitems] at hformed
    cases hformed
  | some is =>
    rw [hitems] at hformed
    refine ⟨is, items?_iff.mp (items?_mono hdepth hitems), ?_⟩
    cases fuel with
    | zero =>
      rw [List.isEmpty_iff.mp hformed]
      simp
    | succ fuel =>
      dsimp only at hformed
      rw [if_neg (by rw [hplain]; exact Bool.false_ne_true), List.all_eq_true] at hformed
      exact fun i hi => ⟨fuel, depth, hdepth, hformed i hi⟩

/-- Several messages of a type, one after the other, are made of items that fit the type. -/
theorem exists_items_flatten (hplain : (layouts.layoutOf type).isContainer = false) {ps : List Bytes}
    (h : ∀ p ∈ ps, IsNested layouts type p) : ∃ is, Lists maxDepth ps.flatten is ∧ ∀ i ∈ is, i.Fits layouts type := by
  induction ps with
  | nil => exact ⟨[], .nil, by simp⟩
  | cons p ps ih =>
    rw [List.forall_mem_cons] at h
    obtain ⟨is, hp, his⟩ := exists_items_of_isNested hplain h.1
    obtain ⟨js, hps, hjs⟩ := ih h.2
    exact ⟨is ++ js, hp.append hps, List.forall_mem_append.mpr ⟨his, hjs⟩⟩

/-- Items of a message of a type: their numbers fit in sixty-four bits, and their contents have the shapes that the type asks
for, unless it is a container. -/
structure AreOf (layouts : Layouts) (type : String) (is : List Item) : Prop where
  small : ∀ n v, .varint n v ∈ is → v < 2 ^ 64
  fits : (layouts.layoutOf type).isContainer = false → ∀ i ∈ is, i.Fits layouts type

/-- What is read of several messages of a type are items of one. -/
theorem areOf_itemsOf_flatten {ps : List Bytes} (h : ∀ p ∈ ps, IsNested layouts type p) :
    AreOf layouts type (itemsOf ps.flatten) := by
  constructor
  · intro n v hmem
    unfold itemsOf at hmem
    cases hitems : items? maxDepth ps.flatten with
    | none =>
      rw [hitems] at hmem
      cases hmem
    | some is =>
      rw [hitems] at hmem
      exact (items?_iff.mp hitems).varint_lt hmem
  · intro hplain
    obtain ⟨is, hlists, hfits⟩ := exists_items_flatten hplain h
    rw [itemsOf, items?_iff.mpr hlists]
    exact hfits

theorem areOf_itemsOf {s : Bytes} (h : IsNested layouts type s) : AreOf layouts type (itemsOf s) := by
  have hall : ∀ p ∈ [s], IsNested layouts type p := List.forall_mem_singleton.mpr h
  have hjoined := areOf_itemsOf_flatten hall
  rwa [List.flatten_singleton] at hjoined

end

end ContractShell.Wire
