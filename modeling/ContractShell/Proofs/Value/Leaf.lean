import ContractShell.Proofs.Text.Utf8
import ContractShell.Proofs.Value.Typing
import ContractShell.Proofs.Wire.Reading
import ContractShell.Value.Decoding
import ContractShell.Value.Encoding

/-!
Plain fields on the wire: which values a slot keeps, that is, gives back after they were written.

## Main statements

* `written_of_leafItem`: what can be written in a slot, and as which item.
* `leafValue_written`: a slot gives back just the values that it keeps.
-/

namespace ContractShell

open Descriptor (FieldType Slot Linked)
open Wire (Item)

/-! ## 1. What a slot keeps -/

/-- A value is one of a type of field. -/
inductive Takes : FieldType → Value → Prop where
  | bool (b : Bool) : Takes .bool (.bool b)
  | integer {type : FieldType} {range : Int × Int} {n : Int} (hrange : integerRange? type = some range)
      (hn : range.1 ≤ n ∧ n < range.2) : Takes type (.int n)
  | string (s : String) : Takes .string (.text s)
  | bytes (b : Bytes) : Takes .bytes (.bytes b)

/-- A slot gives a value back: it holds single values of a type that the value is of, and when it leaves out the value,
which it does with zero where it has no presence, then it may be left out and its default is that value. -/
structure Descriptor.Slot.Keeps (slot : Slot) (x : Value) : Prop where
  single : slot.repeated = false
  takes : Takes slot.type x
  given : slot.hasPresence = true ∨ x.isTruthy = true ∨ (slot.required = false ∧ defaultValue slot = x)

theorem type_of_integerRange? {type : FieldType} {range : Int × Int} (h : integerRange? type = some range) :
    (type = .int32 ∧ range = (-0x80000000, 0x80000000)) ∨
      (type = .int64 ∧ range = (-0x8000000000000000, 0x8000000000000000)) ∨
      (type = .uint32 ∧ range = (0, 0x100000000)) ∨ (type = .uint64 ∧ range = (0, 0x10000000000000000)) := by
  cases type <;> simp [integerRange?] at h <;> simp [h]

/-! ## 2. What is written in a slot -/

/-- What is written for a value in a slot. A slot for truth values takes numbers, and one for text takes bytes that are
text. -/
inductive Written (slot : Slot) : Value → Option Item → Prop where
  | flag (htype : slot.type = .bool) (b : Bool) : Written slot (.bool b) (flagItem slot b)
  | number (htype : slot.type = .bool) (n : Int) : Written slot (.int n) (flagItem slot (n != 0))
  | integer {range : Int × Int} {n : Int} (hrange : integerRange? slot.type = some range)
      (hn : range.1 ≤ n ∧ n < range.2) :
      Written slot (.int n) (unlessImplied slot (n == 0) (.varint slot.number (residue n)))
  | string (htype : slot.type = .string) (s : String) : Written slot (.text s) (bytesItem slot (Text.Utf8.ofString s))
  | spelled {b : Bytes} {s : List Char} (htype : slot.type = .string) (hb : Text.Utf8.decode b = .ok s) :
      Written slot (.bytes b) (bytesItem slot b)
  | bytes (htype : slot.type = .bytes) (b : Bytes) : Written slot (.bytes b) (bytesItem slot b)

section

variable {owner : String} {slot : Slot} {x : Value} {o : Option Item}

theorem written_of_integerItem {range : Int × Int} (hrange : integerRange? slot.type = some range)
    (h : integerItem owner slot range x = .ok o) : Written slot x o := by
  unfold integerItem at h
  split at h
  · split at h
    · rename_i hn
      cases h
      exact .integer hrange hn
    · cases h
  · cases h
  · cases h

theorem written_of_flagOf (htype : slot.type = .bool) (h : (flagOf slot x).map (flagItem slot) = .ok o) :
    Written slot x o := by
  unfold flagOf at h
  split at h
  · cases h
    exact .flag htype _
  · split at h
    · cases h
      exact .number htype _
    · cases h
  · cases h

/-- What can be written in a slot, and as which item. -/
theorem written_of_leafItem (h : leafItem owner slot x = .ok o) :
    slot.repeated = false ∧ slot.type.isMessage = false ∧ Written slot x o := by
  -- The type of the slot decides which values are taken and how they are written.
  unfold leafItem at h
  split at h
  · cases h
  · rename_i hplain
    simp only [Bool.or_eq_true, not_or, Bool.not_eq_true] at hplain
    refine ⟨hplain.1, hplain.2, ?_⟩
    split at h
    · rename_i htype
      exact written_of_flagOf htype h
    · rename_i htype
      cases h
      exact .string htype _
    · rename_i htype
      split at h
      · rename_i hdecode
        cases h
        exact .spelled htype hdecode
      · cases h
    · cases h
    · rename_i htype
      cases h
      exact .bytes htype _
    · cases h
    · split at h
      · rename_i hrange
        exact written_of_integerItem hrange h
      · cases h

/-- A value of a slot's type can be written. -/
theorem exists_leafItem (hsingle : slot.repeated = false) (h : Takes slot.type x) :
    ∃ o, leafItem owner slot x = .ok o := by
  unfold leafItem
  generalize htype : slot.type = type at h
  cases h with
  | bool b =>
    rw [hsingle]
    exact ⟨_, rfl⟩
  | @integer _ range n hrange hn =>
    have hitem : integerItem owner slot range (.int n) =
        .ok (unlessImplied slot (n == 0) (.varint slot.number (residue n))) := by
      unfold integerItem
      exact if_pos hn
    rw [hsingle]
    rcases type_of_integerRange? hrange with ⟨rfl, rfl⟩ | ⟨rfl, rfl⟩ | ⟨rfl, rfl⟩ | ⟨rfl, rfl⟩
    all_goals exact ⟨_, hitem⟩
  | string s =>
    rw [hsingle]
    exact ⟨_, rfl⟩
  | bytes b =>
    rw [hsingle]
    exact ⟨_, rfl⟩

/-! ## 3. The items of plain fields -/

/-- An item that can be written for a plain field. -/
inductive IsPlain (slot : Slot) : Item → Prop where
  | varint {n : Nat} (hn : n < 2 ^ 64) : IsPlain slot (.varint slot.number n)
  | string {p : Bytes} (htype : slot.type = .string) (hp : Text.Utf8.valid p = true) :
      IsPlain slot (.delimited slot.number p)
  | bytes {p : Bytes} (htype : slot.type = .bytes) : IsPlain slot (.delimited slot.number p)

theorem mem_unlessImplied {isZero : Bool} {i j : Item} (h : j ∈ unlessImplied slot isZero i) : j = i := by
  unfold unlessImplied at h
  split at h
  · cases h
  · exact (Option.some.inj h).symm

theorem isPlain_of_written (h : Written slot x o) {i : Item} (hi : i ∈ o) : IsPlain slot i := by
  have hflag : ∀ b : Bool, (if b then 1 else 0) < 2 ^ 64 := by decide
  cases h with
  | flag _ b =>
    rw [mem_unlessImplied hi]
    exact .varint (hflag b)
  | number _ n =>
    rw [mem_unlessImplied hi]
    exact .varint (hflag _)
  | integer _ _ =>
    rw [mem_unlessImplied hi]
    refine .varint ?_
    unfold residue
    omega
  | string htype s =>
    rw [mem_unlessImplied hi]
    exact .string htype (Text.Utf8.valid_ofString s)
  | spelled htype hb =>
    rw [mem_unlessImplied hi]
    refine .string htype ?_
    unfold Text.Utf8.valid
    rw [hb]
    rfl
  | bytes htype b =>
    rw [mem_unlessImplied hi]
    exact .bytes htype

theorem IsPlain.number {i : Item} (h : IsPlain slot i) : i.number = slot.number := by
  cases h <;> rfl

/-! ## 4. What a slot gives back -/

theorem leafValue_nil : leafValue slot [] = defaultValue slot := by
  unfold leafValue
  split <;> rfl

/-- The items with a number hold all payloads of that number. -/
theorem payloads_filter (n : Nat) (items : List Item) :
    Wire.payloads n (items.filter (·.number == n)) = Wire.payloads n items := by
  unfold Wire.payloads
  rw [List.filterMap_filter]
  congr 1
  funext i
  cases i <;> simp [Item.number]

theorem numbers_filter (n : Nat) (items : List Item) :
    Wire.numbers n (items.filter (·.number == n)) = Wire.numbers n items := by
  unfold Wire.numbers
  rw [List.filterMap_filter]
  congr 1
  funext i
  cases i <;> simp [Item.number]

/-- A slot's own items say what it holds. -/
theorem leafValue_filter (items : List Item) :
    leafValue slot (items.filter (·.number == slot.number)) = leafValue slot items := by
  unfold leafValue Wire.lastPayload?
  rw [payloads_filter, numbers_filter]

theorem leafValue_varint (hstring : slot.type ≠ .string) (hbytes : slot.type ≠ .bytes) (n : Nat) :
    leafValue slot [.varint slot.number n] = ofVarint slot.type n := by
  have hnumbers : Wire.numbers slot.number [.varint slot.number n] = [n] := by simp [Wire.numbers]
  unfold leafValue
  split
  · contradiction
  · contradiction
  · rw [hnumbers]
    rfl

theorem leafValue_string (htype : slot.type = .string) (p : Bytes) :
    leafValue slot [.delimited slot.number p] = textValue p := by
  have hpayload : Wire.lastPayload? slot.number [.delimited slot.number p] = some p := by
    simp [Wire.lastPayload?, Wire.payloads]
  unfold leafValue
  rw [htype, hpayload]
  rfl

theorem leafValue_bytes (htype : slot.type = .bytes) (p : Bytes) :
    leafValue slot [.delimited slot.number p] = .bytes p := by
  have hpayload : Wire.lastPayload? slot.number [.delimited slot.number p] = some p := by
    simp [Wire.lastPayload?, Wire.payloads]
  unfold leafValue
  rw [htype, hpayload]
  rfl

theorem exists_leafValue_bool (htype : slot.type = .bool) (items : List Item) :
    ∃ b, leafValue slot items = .bool b := by
  have hdefault : ∃ b, defaultValue slot = .bool b := by
    unfold defaultValue
    rw [htype]
    cases slot.default <;> exact ⟨_, rfl⟩
  unfold leafValue
  rw [htype]
  cases (Wire.numbers slot.number items).getLast? with
  | none => exact hdefault
  | some n => exact ⟨_, rfl⟩

/-- An integer in range is read back from its residue. -/
theorem ofVarint_residue {type : FieldType} {range : Int × Int} {n : Int} (hrange : integerRange? type = some range)
    (hn : range.1 ≤ n ∧ n < range.2) : ofVarint type (residue n) = .int n := by
  have hpow32 : Nat.pow 2 32 = 4294967296 := by decide
  have hpow31 : Nat.pow 2 (32 - 1) = 2147483648 := by decide
  have hpow64 : Nat.pow 2 64 = 18446744073709551616 := by decide
  have hpow63 : Nat.pow 2 (64 - 1) = 9223372036854775808 := by decide
  rcases type_of_integerRange? hrange with ⟨rfl, rfl⟩ | ⟨rfl, rfl⟩ | ⟨rfl, rfl⟩ | ⟨rfl, rfl⟩
  · simp only [ofVarint, Wire.signed, residue, hpow32, hpow31] at *
    congr 1
    split <;> omega
  · simp only [ofVarint, Wire.signed, residue, hpow64, hpow63] at *
    congr 1
    split <;> omega
  · simp only [ofVarint, residue] at *
    congr 1
    omega
  · simp only [ofVarint, residue] at *
    congr 1
    omega

/-- A value that can be written and read is kept unless it is left out and its default is another one. -/
theorem keeps_iff_of_leafValue {i : Item} (hsingle : slot.repeated = false) (htakes : Takes slot.type x)
    (hvalue : leafValue slot [i] = x) :
    (leafValue slot (unlessImplied slot (!x.isTruthy) i).toList = x ∧
        (slot.required = true → (unlessImplied slot (!x.isTruthy) i).isSome = true)) ↔
      slot.Keeps x := by
  unfold unlessImplied
  -- A value that is left out comes back as the default, and any other as what was written.
  by_cases himplied : (!x.isTruthy && !slot.hasPresence) = true
  · rw [if_pos himplied, Option.toList_none, leafValue_nil]
    rw [Bool.and_eq_true, Bool.not_eq_true', Bool.not_eq_true'] at himplied
    constructor
    · rintro ⟨hdefault, hrequired⟩
      refine ⟨hsingle, htakes, .inr (.inr ⟨?_, hdefault⟩)⟩
      cases hr : slot.required with
      | false => rfl
      | true => cases hrequired hr
    · rintro ⟨-, -, hpresence | htruthy | ⟨hrequired, hdefault⟩⟩
      · rw [himplied.2] at hpresence
        cases hpresence
      · rw [himplied.1] at htruthy
        cases htruthy
      · refine ⟨hdefault, fun hr => ?_⟩
        rw [hrequired] at hr
        cases hr
  · rw [if_neg himplied, Option.toList_some]
    constructor
    · rintro -
      refine ⟨hsingle, htakes, ?_⟩
      rw [Bool.and_eq_true, Bool.not_eq_true', Bool.not_eq_true', not_and, Bool.not_eq_false] at himplied
      cases ht : x.isTruthy with
      | true => exact .inr (.inl rfl)
      | false => exact .inl (himplied ht)
    · rintro -
      exact ⟨hvalue, fun _ => rfl⟩

theorem Text.Utf8.isEmpty_ofString (s : String) : (Text.Utf8.ofString s).isEmpty = s.isEmpty := by
  unfold Text.Utf8.ofString Text.Utf8.encode
  cases hs : s.toList with
  | nil =>
    have hempty : s = "" := String.toList_eq_nil_iff.mp hs
    rw [hempty]
    rfl
  | cons c r =>
    have hempty : s ≠ "" := by
      rintro rfl
      cases hs
    have hne : String.isEmpty s = false := by
      rw [Bool.eq_false_iff]
      exact fun h => hempty (String.isEmpty_iff.mp h)
    rw [hne, List.flatMap_cons]
    cases hb : Text.Utf8.encodeChar c with
    | nil => exact absurd hb (Text.Utf8.encodeChar_ne_nil c)
    | cons b bs => rfl

/-- Bytes that are text are no value of a field for text. -/
theorem textValue_ne_bytes {b d : Bytes} {s : List Char} (hb : Text.Utf8.decode b = .ok s) :
    textValue d ≠ .bytes b := by
  unfold textValue
  cases hd : Text.Utf8.toString? d with
  | some t => simp
  | none =>
    intro h
    cases h
    rw [Text.Utf8.toString?, hb] at hd
    cases hd

theorem defaultValue_ne_bytes {b : Bytes} {s : List Char} (htype : slot.type = .string)
    (hb : Text.Utf8.decode b = .ok s) : defaultValue slot ≠ .bytes b := by
  unfold defaultValue
  rw [htype]
  cases slot.default with
  | bytes d => exact textValue_ne_bytes hb
  | zero | number | flag => simp

/-- A slot gives back just the values that it keeps. -/
theorem leafValue_written (hsingle : slot.repeated = false) (h : Written slot x o) :
    (leafValue slot o.toList = x ∧ (slot.required = true → o.isSome = true)) ↔ slot.Keeps x := by
  cases h with
  | flag htype b =>
    have hvalue : leafValue slot [.varint slot.number (if b then 1 else 0)] = .bool b := by
      rw [leafValue_varint (by rw [htype]; decide) (by rw [htype]; decide), htype]
      cases b <;> rfl
    have hwritten : flagItem slot b =
        unlessImplied slot (!(Value.bool b).isTruthy) (.varint slot.number (if b then 1 else 0)) := rfl
    rw [hwritten]
    exact keeps_iff_of_leafValue hsingle (by rw [htype]; exact .bool b) hvalue
  | number htype n =>
    -- A slot for truth values gives back none but these.
    constructor
    · rintro ⟨hvalue, -⟩
      obtain ⟨b, hb⟩ := exists_leafValue_bool htype (flagItem slot (n != 0)).toList
      rw [hb] at hvalue
      cases hvalue
    · rintro ⟨-, htakes, -⟩
      rw [htype] at htakes
      cases htakes with
      | integer hrange _ => cases hrange
  | @integer range n hrange hn =>
    have hstring : slot.type ≠ .string := by
      intro htype
      rw [htype] at hrange
      cases hrange
    have hbytes : slot.type ≠ .bytes := by
      intro htype
      rw [htype] at hrange
      cases hrange
    have hvalue : leafValue slot [.varint slot.number (residue n)] = .int n := by
      rw [leafValue_varint hstring hbytes, ofVarint_residue hrange hn]
    have hzero : (n == 0) = !(Value.int n).isTruthy := by
      rw [Value.isTruthy, bne, Bool.not_not]
    rw [hzero]
    exact keeps_iff_of_leafValue hsingle (.integer hrange hn) hvalue
  | string htype s =>
    have hvalue : leafValue slot [.delimited slot.number (Text.Utf8.ofString s)] = .text s := by
      rw [leafValue_string htype, textValue, Text.Utf8.toString?_ofString]
    have hzero : (Text.Utf8.ofString s).isEmpty = !(Value.text s).isTruthy := by
      rw [Text.Utf8.isEmpty_ofString, Value.isTruthy, Bool.not_not]
    rw [bytesItem, hzero]
    exact keeps_iff_of_leafValue hsingle (by rw [htype]; exact .string s) hvalue
  | @spelled b s htype hb =>
    -- Bytes that are text come back as text, and so does what was left out.
    constructor
    · rintro ⟨hvalue, -⟩
      cases ho : bytesItem slot b with
      | none =>
        rw [ho, Option.toList_none, leafValue_nil] at hvalue
        exact absurd hvalue (defaultValue_ne_bytes htype hb)
      | some i =>
        rw [ho, mem_unlessImplied ho, Option.toList_some, leafValue_string htype] at hvalue
        exact absurd hvalue (textValue_ne_bytes hb)
    · rintro ⟨-, htakes, -⟩
      rw [htype] at htakes
      cases htakes
  | bytes htype b =>
    have hzero : b.isEmpty = !(Value.bytes b).isTruthy := by
      rw [Value.isTruthy, Bool.not_not]
    rw [bytesItem, hzero]
    exact keeps_iff_of_leafValue hsingle (by rw [htype]; exact .bytes b) (leafValue_bytes htype b)

end

end ContractShell
