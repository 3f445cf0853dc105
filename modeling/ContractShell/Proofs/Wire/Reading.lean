import ContractShell.Proofs.Bytes.Digits
import ContractShell.Wire.Item

/-!
Reading what was written: numbers, tags, payloads, groups and whole messages.

## Main statements

* `readVarint?_varint`: a number is read back from its varint.
* `skipGroups?_write`: an item in open groups is passed over as a whole.
* `items?_write`: the items of a message are read back from its bytes.
-/

namespace ContractShell.Wire

/-! ## 1. Varints -/

theorem varint_ne_nil (n : Nat) : varint n ≠ [] := by
  rw [varint]
  by_cases hn : n < 128
  · rw [if_pos hn]
    exact List.cons_ne_nil _ _
  · rw [if_neg hn]
    exact List.cons_ne_nil _ _

theorem length_varint_le {count n : Nat} (h : n < 128 ^ (count + 1)) : (varint n).length ≤ count + 1 := by
  induction count generalizing n with
  | zero =>
    rw [Nat.zero_add, Nat.pow_one] at h
    rw [varint, if_pos h]
    exact Nat.le_refl 1
  | succ count ih =>
    rw [varint]
    by_cases hn : n < 128
    · rw [if_pos hn, List.length_singleton]
      exact Nat.le_add_left 1 _
    · have hmore : n / 128 < 128 ^ (count + 1) := by
        rw [Nat.pow_succ] at h
        omega
      rw [if_neg hn, List.length_cons]
      exact Nat.succ_le_succ (ih hmore)

/-- A number is read back where there is room for all its groups. -/
theorem readGroups?_varint {room n : Nat} (h : n < 128 ^ (room + 1)) (r : Bytes) :
    readGroups? (room + 1) (varint n ++ r) = some (n, r) := by
  induction room generalizing n with
  | zero =>
    rw [Nat.zero_add, Nat.pow_one] at h
    have hbyte : (UInt8.ofNat n).toNat = n := by
      rw [UInt8.toNat_ofNat']
      omega
    rw [varint, if_pos h, List.singleton_append, readGroups?, hbyte, if_pos h]
  | succ room ih =>
    rw [varint]
    by_cases hn : n < 128
    · have hbyte : (UInt8.ofNat n).toNat = n := by
        rw [UInt8.toNat_ofNat']
        omega
      rw [if_pos hn, List.singleton_append, readGroups?, hbyte, if_pos hn]
    · have hbyte : (UInt8.ofNat (n % 128 + 128)).toNat = n % 128 + 128 := by
        rw [UInt8.toNat_ofNat']
        omega
      have hmore : n / 128 < 128 ^ (room + 1) := by
        rw [Nat.pow_succ] at h
        omega
      have hsum : n % 128 + 128 * (n / 128) = n := Nat.mod_add_div n 128
      rw [if_neg hn, List.cons_append, readGroups?, hbyte, if_neg (by omega), ih hmore]
      simp only [Option.map_some, Nat.add_sub_cancel, hsum]

/-- A number is read back from its varint. -/
theorem readVarint?_varint {n : Nat} (h : n < 2 ^ 64) (r : Bytes) : readVarint? (varint n ++ r) = some (n, r) := by
  have hroom : n < 128 ^ (9 + 1) := by omega
  have hmod : n % 0x10000000000000000 = n := Nat.mod_eq_of_lt h
  unfold readVarint?
  rw [maxVarint, readGroups?_varint hroom]
  simp only [Option.map_some, hmod]

/-! ## 2. Tags, payloads and fixed numbers -/

/-- The numbers that fields may have. -/
def IsNumber (n : Nat) : Prop := 0 < n ∧ n < 2 ^ 29

theorem readTag?_varint {n how : Nat} (hn : IsNumber n) (hhow : how < 8) (r : Bytes) :
    readTag? (varint (n * 8 + how) ++ r) = some (n, how, r) := by
  obtain ⟨hpos, hlt⟩ := hn
  have hroom : n * 8 + how < 128 ^ (4 + 1) := by omega
  unfold readTag?
  rw [maxTag, readGroups?_varint hroom]
  simp only
  rw [if_pos (by omega)]
  congr 2
  · omega
  · congr 1
    omega

/-- How the content of an item is written, as its tag says it. -/
def Item.how : Item → Nat
  | .varint _ _ => 0
  | .fixed64 _ _ => 1
  | .delimited _ _ => 2
  | .group _ _ => 3
  | .fixed32 _ _ => 5

/-- The bytes of an item after its tag. -/
def Item.body : Item → Bytes
  | .varint _ v => Wire.varint v
  | .fixed64 _ v => (Bytes.ofNat 8 v).reverse
  | .delimited _ p => Wire.varint p.length ++ p
  | .group n c => c ++ Wire.varint (n * 8 + 4)
  | .fixed32 _ v => (Bytes.ofNat 4 v).reverse

theorem Item.write_eq (i : Item) : i.write = Wire.varint (i.number * 8 + i.how) ++ i.body := by
  cases i <;> simp [write, writeVarint, varintTag, writeDelimited, delimitedTag, writeGroup, writeFixed, number, how, body]

/-- An item is longer than what comes after its tag. -/
theorem Item.length_body_lt (i : Item) : i.body.length < i.write.length := by
  have hpos := List.length_pos_iff.mpr (varint_ne_nil (i.number * 8 + i.how))
  rw [i.write_eq, List.length_append]
  omega

/-- The tag of an item is read back, and the bytes after it are left. -/
theorem readTag?_write (i : Item) (hn : IsNumber i.number) (r : Bytes) :
    readTag? (i.write ++ r) = some (i.number, i.how, i.body ++ r) := by
  have hhow : i.how < 8 := by
    cases i <;> simp [Item.how]
  rw [i.write_eq, List.append_assoc]
  exact readTag?_varint hn hhow _

theorem readPayload?_varint {p : Bytes} (h : p.length < 2 ^ 35) (r : Bytes) :
    readPayload? (varint p.length ++ (p ++ r)) = some (p, r) := by
  have hroom : p.length < 128 ^ (4 + 1) := by omega
  unfold readPayload?
  rw [maxLength, readGroups?_varint hroom]
  simp only [List.length_append, List.take_left, List.drop_left]
  rw [if_pos (by omega)]

theorem readFixed?_ofNat {size n : Nat} (h : n < 256 ^ size) (r : Bytes) :
    readFixed? size ((Bytes.ofNat size n).reverse ++ r) = some (n, r) := by
  have hlen : (Bytes.ofNat size n).reverse.length = size := by rw [List.length_reverse, Bytes.length_ofNat]
  unfold readFixed?
  rw [if_pos (by rw [List.length_append, hlen]; omega), List.take_left' hlen, List.drop_left' hlen,
    List.reverse_reverse, Bytes.toNat_ofNat h]

/-! ## 3. Readable items -/

/-- An item whose bytes are read back as that item where at most so many groups may be open. The content of a group
consists of items itself. -/
inductive Item.Readable : Nat → Item → Prop where
  | varint {depth n v : Nat} (hn : IsNumber n) (hv : v < 2 ^ 64) : Readable depth (.varint n v)
  | fixed64 {depth n v : Nat} (hn : IsNumber n) (hv : v < 256 ^ 8) : Readable depth (.fixed64 n v)
  | delimited {depth n : Nat} {p : Bytes} (hn : IsNumber n) (hp : p.length < 2 ^ 35) : Readable depth (.delimited n p)
  | group {depth n : Nat} {is : List Item} (hn : IsNumber n) (his : ∀ i ∈ is, Readable depth i) :
      Readable (depth + 1) (.group n (is.flatMap Item.write))
  | fixed32 {depth n v : Nat} (hn : IsNumber n) (hv : v < 256 ^ 4) : Readable depth (.fixed32 n v)

/-- More groups may be open. -/
theorem Item.Readable.mono {depth depth' : Nat} {i : Item} (h : i.Readable depth) (hle : depth ≤ depth') :
    i.Readable depth' := by
  induction h generalizing depth' with
  | varint hn hv => exact .varint hn hv
  | fixed64 hn hv => exact .fixed64 hn hv
  | delimited hn hp => exact .delimited hn hp
  | group hn _ ih =>
    obtain ⟨d, rfl⟩ : ∃ d, depth' = d + 1 := ⟨depth' - 1, by omega⟩
    exact .group hn fun i hi => ih i hi (by omega)
  | fixed32 hn hv => exact .fixed32 hn hv

section

variable {depth current number : Nat} {outer : List Nat} {last s r t : Bytes}

theorem contentEnd?_eq_some_iff {how : Nat} :
    contentEnd? how r = some t ↔
      (how = 0 ∧ ∃ v, readVarint? r = some (v, t)) ∨ (how = 1 ∧ ∃ v, readFixed? 8 r = some (v, t)) ∨
        (how = 2 ∧ ∃ p, readPayload? r = some (p, t)) ∨ (how = 5 ∧ ∃ v, readFixed? 4 r = some (v, t)) := by
  unfold contentEnd?
  split
  · simp
  · simp
  · simp
  · simp
  · rename_i hvarint height hpayload hfour
    constructor
    · intro h
      cases h
    · rintro (⟨rfl, -⟩ | ⟨rfl, -⟩ | ⟨rfl, -⟩ | ⟨rfl, -⟩)
      · exact absurd rfl hvarint
      · exact absurd rfl height
      · exact absurd rfl hpayload
      · exact absurd rfl hfour

/-- What is passed over after a tag that does not open or close a group. -/
theorem skipGroups?_of_tag {how : Nat} (hdepth : (current :: outer).length ≤ depth)
    (htag : readTag? s = some (number, how, r))
    (hcontent : (how = 0 ∧ ∃ v, readVarint? r = some (v, t)) ∨ (how = 1 ∧ ∃ v, readFixed? 8 r = some (v, t)) ∨
      (how = 2 ∧ ∃ p, readPayload? r = some (p, t)) ∨ (how = 5 ∧ ∃ v, readFixed? 4 r = some (v, t))) :
    skipGroups? depth (current :: outer) last s = skipGroups? depth (current :: outer) last t := by
  have hend := contentEnd?_eq_some_iff.mpr hcontent
  rw [skipGroups?_cons, if_neg (Nat.not_lt.mpr hdepth), htag, Option.bind_some]
  rcases hcontent with ⟨rfl, -⟩ | ⟨rfl, -⟩ | ⟨rfl, -⟩ | ⟨rfl, -⟩
  all_goals
    show (contentEnd? _ r).bind _ = _
    rw [hend, Option.bind_some]

theorem skipGroups?_of_start (hdepth : (current :: outer).length ≤ depth) (htag : readTag? s = some (number, 3, r)) :
    skipGroups? depth (current :: outer) last s = skipGroups? depth (number :: current :: outer) last r := by
  rw [skipGroups?_cons, if_neg (Nat.not_lt.mpr hdepth), htag, Option.bind_some]
  rfl

theorem skipGroups?_of_stop (hdepth : (current :: outer).length ≤ depth) (htag : readTag? s = some (current, 4, r)) :
    skipGroups? depth (current :: outer) last s = skipGroups? depth outer s r := by
  rw [skipGroups?_cons, if_neg (Nat.not_lt.mpr hdepth), htag, Option.bind_some]
  exact if_pos rfl

end

/-- Items are passed over one after the other. -/
theorem skipGroups?_flatMap {depth : Nat} {opened : List Nat} {is : List Item}
    (h : ∀ i ∈ is, ∀ last r, ∃ last', skipGroups? depth opened last (i.write ++ r) = skipGroups? depth opened last' r)
    (last r : Bytes) :
    ∃ last', skipGroups? depth opened last (is.flatMap Item.write ++ r) = skipGroups? depth opened last' r := by
  induction is generalizing last with
  | nil => exact ⟨last, rfl⟩
  | cons i is ih =>
    obtain ⟨next, hnext⟩ := h i (by simp) last (is.flatMap Item.write ++ r)
    obtain ⟨last', hlast⟩ := ih (fun j hj => h j (List.mem_cons_of_mem i hj)) next
    exact ⟨last', by rw [List.flatMap_cons, List.append_assoc, hnext, hlast]⟩

/-- An item in open groups is passed over as a whole. The last end that was found is forgotten, since the open groups still
have to end. -/
theorem skipGroups?_write {depth free : Nat} {i : Item} (h : i.Readable free) {current : Nat} {outer : List Nat}
    (hdepth : (current :: outer).length + free ≤ depth) (last r : Bytes) :
    ∃ last', skipGroups? depth (current :: outer) last (i.write ++ r) =
      skipGroups? depth (current :: outer) last' r := by
  have hopen : (current :: outer).length ≤ depth := by omega
  induction h generalizing current outer last r with
  | @varint _ n v hn hv =>
    have htag := readTag?_write (.varint n v) hn r
    exact ⟨last, skipGroups?_of_tag hopen htag (.inl ⟨rfl, v, readVarint?_varint hv r⟩)⟩
  | @fixed64 _ n v hn hv =>
    have htag := readTag?_write (.fixed64 n v) hn r
    exact ⟨last, skipGroups?_of_tag hopen htag (.inr (.inl ⟨rfl, v, readFixed?_ofNat hv r⟩))⟩
  | @delimited _ n p hn hp =>
    have htag := readTag?_write (.delimited n p) hn r
    have hpayload : readPayload? ((Item.delimited n p).body ++ r) = some (p, r) := by
      rw [Item.body, List.append_assoc, readPayload?_varint hp r]
    exact ⟨last, skipGroups?_of_tag hopen htag (.inr (.inr (.inl ⟨rfl, p, hpayload⟩)))⟩
  | @group free n is hn _ ih =>
    -- The group is opened, its items are passed over, and its end closes it.
    have hstart := readTag?_write (.group n (is.flatMap Item.write)) hn r
    have hstop : readTag? (varint (n * 8 + 4) ++ r) = some (n, 4, r) := readTag?_varint hn (by decide) r
    have hlen : (n :: current :: outer).length + free ≤ depth := by
      rw [List.length_cons]
      omega
    obtain ⟨next, hnext⟩ :=
      skipGroups?_flatMap (fun i hi last r => ih i hi hlen last r (by omega)) last (varint (n * 8 + 4) ++ r)
    refine ⟨varint (n * 8 + 4) ++ r, ?_⟩
    rw [Item.body, List.append_assoc] at hstart
    rw [skipGroups?_of_start hopen hstart]
    exact hnext.trans (skipGroups?_of_stop (by omega) hstop)
  | @fixed32 _ n v hn hv =>
    have htag := readTag?_write (.fixed32 n v) hn r
    exact ⟨last, skipGroups?_of_tag hopen htag (.inr (.inr (.inr ⟨rfl, v, readFixed?_ofNat hv r⟩)))⟩

/-! ## 4. Messages -/

/-- The content of a group is read up to the group's end. -/
theorem readGroup?_flatMap {depth free n : Nat} {is : List Item} (hn : IsNumber n) (his : ∀ i ∈ is, i.Readable free)
    (hdepth : free + 1 ≤ depth) (r : Bytes) :
    readGroup? depth n (is.flatMap Item.write ++ (varint (n * 8 + 4) ++ r)) = some (is.flatMap Item.write, r) := by
  have hlen : [n].length + free ≤ depth := by
    rw [List.length_singleton]
    omega
  have hstop : readTag? (varint (n * 8 + 4) ++ r) = some (n, 4, r) := readTag?_varint hn (by decide) r
  obtain ⟨last, hlast⟩ := skipGroups?_flatMap (fun i hi last r => skipGroups?_write (his i hi) hlen last r)
    (is.flatMap Item.write ++ (varint (n * 8 + 4) ++ r)) (varint (n * 8 + 4) ++ r)
  have hend : skipGroups? depth [n] last (varint (n * 8 + 4) ++ r) = some (varint (n * 8 + 4) ++ r, r) := by
    rw [skipGroups?_of_stop (by omega) hstop, skipGroups?]
  unfold readGroup?
  rw [hlast, hend]
  simp only [Option.map_some, List.length_append, Nat.add_sub_cancel, List.take_left]

/-- An item is read back from its bytes. -/
theorem readItem?_write {depth : Nat} {i : Item} (h : i.Readable depth) (r : Bytes) :
    readItem? depth (i.write ++ r) = some (i, r) := by
  cases h with
  | @varint _ n v hn hv =>
    have htag := readTag?_write (.varint n v) hn r
    simp only [readItem?, htag, Item.how, Item.body, Item.number, readVarint?_varint hv r, Option.map_some]
  | @fixed64 _ n v hn hv =>
    have htag := readTag?_write (.fixed64 n v) hn r
    simp only [readItem?, htag, Item.how, Item.body, Item.number, readFixed?_ofNat hv r, Option.map_some]
  | @delimited _ n p hn hp =>
    have htag := readTag?_write (.delimited n p) hn r
    simp only [readItem?, htag, Item.how, Item.body, Item.number, List.append_assoc, readPayload?_varint hp r,
      Option.map_some]
  | @group free n is hn his =>
    have htag := readTag?_write (.group n (is.flatMap Item.write)) hn r
    have hcontent := readGroup?_flatMap hn his (Nat.le_refl (free + 1)) r
    simp only [readItem?, htag, Item.how, Item.body, Item.number, List.append_assoc, hcontent, Option.map_some]
  | @fixed32 _ n v hn hv =>
    have htag := readTag?_write (.fixed32 n v) hn r
    simp only [readItem?, htag, Item.how, Item.body, Item.number, readFixed?_ofNat hv r, Option.map_some]

/-- The items of a message are read back from its bytes. -/
theorem items?_write {depth : Nat} {is : List Item} (h : ∀ i ∈ is, i.Readable depth) :
    items? depth (is.flatMap Item.write) = some is := by
  induction is with
  | nil => exact items?_nil depth
  | cons i is ih =>
    have hread := readItem?_write (h i (by simp)) (is.flatMap Item.write)
    rw [List.flatMap_cons, items?_of_readItem? hread, ih fun j hj => h j (List.mem_cons_of_mem i hj), Option.map_some]

end ContractShell.Wire
