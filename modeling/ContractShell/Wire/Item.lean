import ContractShell.Bytes.Basic

/-!
Items: the numbered parts of a message's bytes.

Numbers are written as varints: groups of seven bits, lowest first, every byte but the last with its high bit set. A varint
takes at most ten bytes and is read modulo `2 ^ 64`; groups of zeros at its end are allowed.

A part is a varint, four or eight bytes, a byte string with its length in front, or a group, which encloses other items
between a start and an end of the same number. What an item means is said by the type of the message.

## Main statements

* `readVarint?_length_lt`: reading a varint takes at least one byte.
* `readItem?_length_lt`: reading an item takes at least one byte, so reading all items ends.
-/

namespace ContractShell.Wire

/-! ## 1. Varints -/

/-- The bytes of a number. -/
def varint (n : Nat) : Bytes :=
  if n < 128 then [UInt8.ofNat n] else UInt8.ofNat (n % 128 + 128) :: varint (n / 128)
termination_by n
decreasing_by omega

/-- The most bytes of a varint. -/
def maxVarint : Nat := 10

/-- The groups of a varint of at most `room` bytes, as one number; and the bytes after it. -/
def readGroups? : Nat → Bytes → Option (Nat × Bytes)
  | 0, _ => none
  | _, [] => none
  | room + 1, b :: r =>
    if b.toNat < 128 then some (b.toNat, r)
    else (readGroups? room r).map fun (n, t) => (b.toNat - 128 + 128 * n, t)

theorem readGroups?_length_lt {room n : Nat} {s r : Bytes} (h : readGroups? room s = some (n, r)) :
    r.length < s.length := by
  induction room generalizing s n with
  | zero => cases h
  | succ room ih =>
    cases s with
    | nil => cases h
    | cons b t =>
      simp only [readGroups?] at h
      split at h
      · cases h
        simp
      · obtain ⟨⟨m, u⟩, h1, h2⟩ := Option.map_eq_some_iff.mp h
        cases h2
        exact Nat.lt_succ_of_lt (ih h1)

/-- The number at the start of a byte string, and the bytes after it. -/
def readVarint? (s : Bytes) : Option (Nat × Bytes) :=
  (readGroups? maxVarint s).map fun (n, r) => (n % 0x10000000000000000, r)

theorem readVarint?_length_lt {n : Nat} {s r : Bytes} (h : readVarint? s = some (n, r)) : r.length < s.length := by
  obtain ⟨⟨m, u⟩, h1, h2⟩ := Option.map_eq_some_iff.mp h
  cases h2
  exact readGroups?_length_lt h1

/-! ## 2. Items -/

/-- A numbered part of a message. The content of a group is the bytes between its start and its end. -/
inductive Item where
  | varint (number value : Nat)
  | fixed64 (number value : Nat)
  | delimited (number : Nat) (payload : Bytes)
  | group (number : Nat) (content : Bytes)
  | fixed32 (number value : Nat)
  deriving DecidableEq, Repr

/-- The number of an item. -/
def Item.number : Item → Nat
  | .varint n _ => n
  | .fixed64 n _ => n
  | .delimited n _ => n
  | .group n _ => n
  | .fixed32 n _ => n

/-! ## 3. Writing -/

/-- The tag of a varint item. -/
def varintTag (number : Nat) : Bytes := varint (number * 8)

/-- The tag of an item with a length. -/
def delimitedTag (number : Nat) : Bytes := varint (number * 8 + 2)

/-- The bytes of a varint item. -/
def writeVarint (number value : Nat) : Bytes := varintTag number ++ varint value

/-- The bytes of an item with a length. -/
def writeDelimited (number : Nat) (payload : Bytes) : Bytes :=
  delimitedTag number ++ varint payload.length ++ payload

/-- The bytes of a group: the start, the content, and the end. -/
def writeGroup (number : Nat) (content : Bytes) : Bytes :=
  varint (number * 8 + 3) ++ content ++ varint (number * 8 + 4)

/-- The bytes of an item of a fixed size, lowest byte first. `how` says the size in the tag. -/
def writeFixed (number how size value : Nat) : Bytes := varint (number * 8 + how) ++ (Bytes.ofNat size value).reverse

/-- The bytes of an item. -/
def Item.write : Item → Bytes
  | .varint n v => writeVarint n v
  | .fixed64 n v => writeFixed n 1 8 v
  | .delimited n p => writeDelimited n p
  | .group n c => writeGroup n c
  | .fixed32 n v => writeFixed n 5 4 v

/-! ## 4. Reading -/

/-- The most bytes of a tag. -/
def maxTag : Nat := 5

/-- The most bytes of a length. -/
def maxLength : Nat := 5

/-- A tag: the number of an item, which is not zero, and how its content is written; and the bytes after it. -/
def readTag? (s : Bytes) : Option (Nat × Nat × Bytes) :=
  match readGroups? maxTag s with
  | some (n, r) => if n < 0x100000000 ∧ 8 ≤ n then some (n / 8, n % 8, r) else none
  | none => none

theorem readTag?_length_lt {n w : Nat} {s r : Bytes} (h : readTag? s = some (n, w, r)) : r.length < s.length := by
  simp only [readTag?] at h
  split at h
  · rename_i h1
    split at h
    · cases h
      exact readGroups?_length_lt h1
    · cases h
  · cases h

/-- `n` bytes as a number, lowest byte first; and the bytes after them. -/
def readFixed? (n : Nat) (s : Bytes) : Option (Nat × Bytes) :=
  if n ≤ s.length then some (Bytes.toNat (s.take n).reverse, s.drop n) else none

theorem readFixed?_length_le {n v : Nat} {s r : Bytes} (h : readFixed? n s = some (v, r)) : r.length ≤ s.length := by
  simp only [readFixed?] at h
  split at h
  · cases h
    simp
  · cases h

/-- A byte string with its length in front; and the bytes after it. -/
def readPayload? (s : Bytes) : Option (Bytes × Bytes) :=
  match readGroups? maxLength s with
  | some (n, r) => if n ≤ r.length then some (r.take n, r.drop n) else none
  | none => none

theorem readPayload?_length_le {p s r : Bytes} (h : readPayload? s = some (p, r)) : r.length ≤ s.length := by
  simp only [readPayload?] at h
  split at h
  · rename_i h1
    have := readGroups?_length_lt h1
    split at h
    · cases h
      simp only [List.length_drop]
      omega
    · cases h
  · cases h

/-- Skips the innermost group of a list of open groups and all those around it: the bytes from the last end on, and those
after it. `last` is what the last end found so far starts. At most `depth` groups may be open at once. -/
def skipGroups? (depth : Nat) (opened : List Nat) (last s : Bytes) : Option (Bytes × Bytes) :=
  match opened with
  | [] => some (last, s)
  | current :: outer =>
    if depth < opened.length then none
    else
      match ht : readTag? s with
      | none => none
      | some (number, how, r) =>
        have : r.length < s.length := readTag?_length_lt ht
        if how = 0 then
          match hv : readVarint? r with
          | some (_, t) => have := readVarint?_length_lt hv; skipGroups? depth opened last t
          | none => none
        else if how = 1 then
          match hv : readFixed? 8 r with
          | some (_, t) => have := readFixed?_length_le hv; skipGroups? depth opened last t
          | none => none
        else if how = 2 then
          match hv : readPayload? r with
          | some (_, t) => have := readPayload?_length_le hv; skipGroups? depth opened last t
          | none => none
        else if how = 3 then skipGroups? depth (number :: opened) last r
        else if how = 4 then if number = current then skipGroups? depth outer s r else none
        else if how = 5 then
          match hv : readFixed? 4 r with
          | some (_, t) => have := readFixed?_length_le hv; skipGroups? depth opened last t
          | none => none
        else none
termination_by s.length

/-- The bytes after the content of an item that is no group. `how` says how the content is written. -/
def contentEnd? (how : Nat) (s : Bytes) : Option Bytes :=
  match how with
  | 0 => (readVarint? s).map (·.2)
  | 1 => (readFixed? 8 s).map (·.2)
  | 2 => (readPayload? s).map (·.2)
  | 5 => (readFixed? 4 s).map (·.2)
  | _ => none

theorem contentEnd?_length_le {how : Nat} {s r : Bytes} (h : contentEnd? how s = some r) : r.length ≤ s.length := by
  unfold contentEnd? at h
  split at h
  · obtain ⟨⟨v, t⟩, hread, rfl⟩ := Option.map_eq_some_iff.mp h
    exact Nat.le_of_lt (readVarint?_length_lt hread)
  · obtain ⟨⟨v, t⟩, hread, rfl⟩ := Option.map_eq_some_iff.mp h
    exact readFixed?_length_le hread
  · obtain ⟨⟨p, t⟩, hread, rfl⟩ := Option.map_eq_some_iff.mp h
    exact readPayload?_length_le hread
  · obtain ⟨⟨v, t⟩, hread, rfl⟩ := Option.map_eq_some_iff.mp h
    exact readFixed?_length_le hread
  · cases h

/-- Inside a group the next tag says how to go on: a group is opened, or closed, or a content is passed over. -/
theorem skipGroups?_cons (depth current : Nat) (outer : List Nat) (last s : Bytes) :
    skipGroups? depth (current :: outer) last s =
      if depth < (current :: outer).length then none
      else (readTag? s).bind fun (number, how, r) =>
        match how with
        | 3 => skipGroups? depth (number :: current :: outer) last r
        | 4 => if number = current then skipGroups? depth outer s r else none
        | _ => (contentEnd? how r).bind (skipGroups? depth (current :: outer) last) := by
  rw [skipGroups?.eq_def]
  simp only
  by_cases hdeep : depth < (current :: outer).length
  · rw [if_pos hdeep, if_pos hdeep]
  rw [if_neg hdeep, if_neg hdeep]
  split
  · rename_i htag
    rw [htag, Option.bind_none]
  · rename_i number how r htag
    rw [htag, Option.bind_some]
    -- A content is read in the branch of its own kind, and what follows is the same for all of them.
    match how with
    | 0 | 1 | 2 | 5 =>
      simp +decide only [if_true, if_false, contentEnd?]
      split <;> rename_i hread <;> rw [hread] <;> rfl
    | 3 | 4 => rfl
    | how + 6 => rfl

theorem skipGroups?_length_le (depth : Nat) (opened : List Nat) (last s : Bytes) {e r : Bytes}
    (h : skipGroups? depth opened last s = some (e, r)) : r.length ≤ s.length := by
  induction hs : s.length using Nat.strongRecOn generalizing s opened last with
  | ind n ih =>
    subst hs
    cases opened with
    | nil =>
      rw [skipGroups?] at h
      cases h
      exact Nat.le_refl _
    | cons current outer =>
      rw [skipGroups?_cons] at h
      split at h
      · cases h
      obtain ⟨⟨number, how, t⟩, htag, h⟩ := Option.bind_eq_some_iff.mp h
      have hlt := readTag?_length_lt htag
      simp only at h
      split at h
      · exact Nat.le_trans (ih _ hlt _ _ _ h rfl) (Nat.le_of_lt hlt)
      · split at h
        · exact Nat.le_trans (ih _ hlt _ _ _ h rfl) (Nat.le_of_lt hlt)
        · cases h
      · obtain ⟨next, hend, h⟩ := Option.bind_eq_some_iff.mp h
        have hnext := Nat.lt_of_le_of_lt (contentEnd?_length_le hend) hlt
        exact Nat.le_trans (ih _ hnext _ _ _ h rfl) (Nat.le_of_lt hnext)

/-- The content of a group that was just opened, and the bytes after it. -/
def readGroup? (depth number : Nat) (s : Bytes) : Option (Bytes × Bytes) :=
  (skipGroups? depth [number] s s).map fun (e, r) => (s.take (s.length - e.length), r)

theorem readGroup?_length_le {depth number : Nat} {s c r : Bytes} (h : readGroup? depth number s = some (c, r)) :
    r.length ≤ s.length := by
  obtain ⟨⟨e, t⟩, h1, h2⟩ := Option.map_eq_some_iff.mp h
  cases h2
  exact skipGroups?_length_le _ _ _ _ h1

/-- The item at the start of a byte string, and the bytes after it. -/
def readItem? (depth : Nat) (s : Bytes) : Option (Item × Bytes) :=
  match readTag? s with
  | none => none
  | some (number, 0, r) => (readVarint? r).map fun (v, t) => (.varint number v, t)
  | some (number, 1, r) => (readFixed? 8 r).map fun (v, t) => (.fixed64 number v, t)
  | some (number, 2, r) => (readPayload? r).map fun (p, t) => (.delimited number p, t)
  | some (number, 3, r) => (readGroup? depth number r).map fun (c, t) => (.group number c, t)
  | some (number, 5, r) => (readFixed? 4 r).map fun (v, t) => (.fixed32 number v, t)
  | some _ => none

theorem readItem?_length_lt {depth : Nat} {s r : Bytes} {i : Item} (h : readItem? depth s = some (i, r)) :
    r.length < s.length := by
  simp only [readItem?] at h
  split at h
  · cases h
  · rename_i ht
    obtain ⟨⟨v, t⟩, h1, h2⟩ := Option.map_eq_some_iff.mp h
    cases h2
    exact Nat.lt_trans (readVarint?_length_lt h1) (readTag?_length_lt ht)
  · rename_i ht
    obtain ⟨⟨v, t⟩, h1, h2⟩ := Option.map_eq_some_iff.mp h
    cases h2
    exact Nat.lt_of_le_of_lt (readFixed?_length_le h1) (readTag?_length_lt ht)
  · rename_i ht
    obtain ⟨⟨v, t⟩, h1, h2⟩ := Option.map_eq_some_iff.mp h
    cases h2
    exact Nat.lt_of_le_of_lt (readPayload?_length_le h1) (readTag?_length_lt ht)
  · rename_i ht
    obtain ⟨⟨c, t⟩, h1, h2⟩ := Option.map_eq_some_iff.mp h
    cases h2
    exact Nat.lt_of_le_of_lt (readGroup?_length_le h1) (readTag?_length_lt ht)
  · rename_i ht
    obtain ⟨⟨v, t⟩, h1, h2⟩ := Option.map_eq_some_iff.mp h
    cases h2
    exact Nat.lt_of_le_of_lt (readFixed?_length_le h1) (readTag?_length_lt ht)
  · cases h

/-- The items of a message, unless its bytes are malformed. -/
def items? (depth : Nat) (s : Bytes) : Option (List Item) :=
  if s.isEmpty then some []
  else
    match h : readItem? depth s with
    | none => none
    | some (i, r) =>
      have : r.length < s.length := readItem?_length_lt h
      (items? depth r).map (i :: ·)
termination_by s.length

theorem items?_nil (depth : Nat) : items? depth [] = some [] := by
  rw [items?]
  rfl

theorem items?_of_readItem? {depth : Nat} {s r : Bytes} {i : Item} (h : readItem? depth s = some (i, r)) :
    items? depth s = (items? depth r).map (i :: ·) := by
  have hne : ¬ s.isEmpty = true := by
    intro hnil
    have hlt := readItem?_length_lt h
    rw [List.isEmpty_iff.mp hnil] at hlt
    exact absurd hlt (Nat.not_lt_zero _)
  rw [items?, if_neg hne]
  split
  · rename_i hnone
    rw [h] at hnone
    cases hnone
  · rename_i hsome
    rw [h] at hsome
    cases hsome
    rfl

end ContractShell.Wire
