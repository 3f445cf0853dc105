import ContractShell.Proofs.Library.Linking
import ContractShell.Proofs.Value.Range

/-!
Fields in oneofs.

Such a field tells whether it was given, so it is written even when it is zero, and then takes the place of what was put in
its oneof before.

## Main statements

* `Library.IsLoaded.tellsOneofs`: in a library the fields of oneofs tell whether they were given.
* `Library.encode_choice`: of two numbers in one oneof only the second one is written.
-/

namespace ContractShell

open Descriptor (File Linked Pool Slot)

namespace Descriptor

/-! ## 1. Presence -/

/-- A slot that is made of a field in a oneof tells whether the field was given. -/
theorem Slot.IsOf.hasPresence {slot : Slot} {third : Bool} {features : Features} {place : String} {f : Field}
    (h : slot.IsOf third features place f) (honeof : slot.oneof.isSome = true) (hsingle : slot.repeated = false) :
    slot.hasPresence = true := by
  obtain ⟨s, inEntry, h⟩ := h
  unfold Pool.slot? at h
  simp only [Option.bind_eq_bind, Option.bind_eq_some_iff] at h
  obtain ⟨⟨type, name, target⟩, -, default, -, hslot⟩ := h
  cases hslot
  have hindex : f.oneofIndex.isSome = true := by
    rw [← Option.isSome_map]
    exact honeof
  have hsingle : (f.effectiveLabel == .repeated) = false := hsingle
  show (!(f.effectiveLabel == .repeated) && (type.isMessage || f.oneofIndex.isSome || _)) = true
  rw [hsingle, hindex, Bool.or_true, Bool.true_or]
  rfl

/-- The slots of a message type that are in a oneof tell whether they were given. -/
def Linked.TellsOneofs (l : Linked) : Prop :=
  ∀ s ∈ l.slots, s.oneof.isSome = true → s.repeated = false → s.hasPresence = true

/-- All message types of a pool do so. -/
def Pool.TellsOneofs (p : Pool) : Prop := ∀ l ∈ p.messages, l.TellsOneofs

theorem Pool.TellsOneofs.of_find? {p : Pool} (hp : p.TellsOneofs) {type : String} {l : Linked}
    (h : p.find? type = some l) : l.TellsOneofs := hp l (Pool.mem_of_find? h).1

theorem Pool.tellsOneofs_empty : Pool.empty.TellsOneofs := by
  intro l hl
  cases hl

theorem Pool.tellsOneofs_link {p q : Pool} {f : File} (hp : p.TellsOneofs) (h : p.link? f = some q) : q.TellsOneofs := by
  obtain ⟨-, -, added, extensions, hadded, -, -, -, rfl⟩ := link?_eq_some_iff.mp h
  intro l hl
  rcases List.mem_append.mp hl with hl | hl
  · exact hp l hl
  · obtain ⟨m, -, hlinked⟩ := forall₂_mem_left (forall₂_of_mapM hadded) hl
    intro s hs honeof hsingle
    obtain ⟨field, -, hslot⟩ := forall₂_mem_left (Linked.isOf_of_linked? hlinked).slots hs
    exact hslot.hasPresence honeof hsingle

theorem Standard.tellsOneofs_pool : Standard.pool.TellsOneofs := by
  unfold Standard.pool
  cases h : Pool.empty.link? Standard.file with
  | none => exact Pool.tellsOneofs_empty
  | some q => exact Pool.tellsOneofs_link Pool.tellsOneofs_empty h

end Descriptor

/-- In a library the fields of oneofs tell whether they were given. -/
theorem Library.IsLoaded.tellsOneofs {lib : Library} (h : lib.IsLoaded) : lib.pool.TellsOneofs := by
  obtain ⟨files, hfiles⟩ := h
  obtain ⟨l, hload, rfl⟩ := ofFiles_eq_ok_iff.mp hfiles
  apply @loadFiles_keeps (fun l => l.pool.TellsOneofs) _ _ _ _ _ _ _ hload
  · intro f l l' _ hl hlink
    exact Descriptor.Pool.tellsOneofs_link hl (mem_names_of_link hlink).2
  · simp only [Loaded.start]
    exact Descriptor.Standard.tellsOneofs_pool

/-! ## 2. A choice of two numbers -/

/-- An unsigned number in the first oneof of its message type. -/
def choiceField (number : Int) (name : String) : Descriptor.Field :=
  { Descriptor.Standard.one .uint64 number name with oneofIndex := some 0 }

/-- The slot of such a number. -/
def choiceSlot (number : Int) (name : String) : Slot := (choiceField number name).plainSlot .third

/-- The schema of a message type with two numbers. -/
def choiceSchema : Schema := .mk "A" [.leaf "x" .uint, .leaf "y" .uint]

/-- A value of the schema. -/
def choiceValue (n m : Int) : Value := .message [("x", .int n), ("y", .int m)]

/-- The bytes are one plain file whose one message type has the two numbers in one oneof. -/
def isChoiceFile (b : Bytes) : Bool := Library.isSingleFile "A" [choiceField 1 "x", choiceField 2 "y"] b

theorem isOf_choice (n m : Int) : choiceSchema.IsOf LeafKind.Admits (choiceValue n m) :=
  ⟨_, rfl, rfl, .leaf rfl (.uint n) (.leaf rfl (.uint m) .nil)⟩

section

variable {n m : Int}

/-- The item of a number is there even if the number is zero. -/
theorem leafItem_choice {owner name : String} {number : Int} (hn : 0 ≤ n ∧ n < 0x10000000000000000) :
    leafItem owner (choiceSlot number name) (.int n) = .ok (some (.varint number.toNat (residue n))) := by
  have hrange : integerRange? (choiceSlot number name).type = some (0, 0x10000000000000000) := rfl
  have hpresence : (choiceSlot number name).hasPresence = true := rfl
  rw [leafItem_int rfl hrange, integerItem, if_pos hn, unlessImplied, hpresence, Bool.not_true, Bool.and_false]
  rfl

theorem joinParts_singleton (p : Part) : joinParts [p] = p.item.write := by
  simp only [joinParts, sortedItems, sortedParts, List.mergeSort_singleton, List.map_cons, List.map_nil,
    List.flatMap_cons, List.flatMap_nil, List.append_nil]

namespace Library

variable {b : Bytes}

theorem schema_choice (h : isChoiceFile b = true) : (ofPlain (File.ofBytes b)).schema "A" = .ok choiceSchema := by
  obtain ⟨-, ⟨m, hm, hfields⟩, -⟩ := of_isSingleFile h
  have hbare : bareName "A" = "A" := by decide +kernel
  rw [schema_eq_ok_iff, HasSchema, if_neg (by decide), hbare]
  refine ⟨m, _, hm, ?_, rfl⟩
  rw [hfields]
  exact .leaf rfl (.leaf rfl .nil)

theorem outOfRange?_choice (h : isChoiceFile b = true) (hn : 0 ≤ n ∧ n < 0x10000000000000000)
    (hm : 0 ≤ m ∧ m < 0x10000000000000000) :
    (ofPlain (File.ofBytes b)).outOfRange? choiceSchema (choiceValue n m) = none := by
  obtain ⟨-, ⟨message, hmessage, hfields⟩, -⟩ := of_isSingleFile h
  have hranges : ∀ name ∈ ["x", "y"], (ofPlain (File.ofBytes b)).rangeOf? "A" name = some (0, 0x10000000000000000) := by
    intro name hname
    unfold rangeOf?
    rw [hmessage, Option.bind_some, hfields]
    rcases List.mem_pair.mp hname with rfl | rfl
    · rfl
    · rfl
  rw [choiceSchema, outOfRange?, choiceValue, Value.members, firstOutOfRange?_leaf rfl, firstOutOfRange?_leaf rfl,
    hranges "x" (by simp), hranges "y" (by simp), outOf?, outOf?, if_pos hn, if_pos hm]
  rfl

theorem slot?_choice {linked : Descriptor.Linked} (hslots : linked.slots = [choiceSlot 1 "x", choiceSlot 2 "y"]) :
    linked.slot? "x" = some (choiceSlot 1 "x") ∧ linked.slot? "y" = some (choiceSlot 2 "y") ∧
      linked.slot? writingOperation = none := by
  unfold Descriptor.Linked.slot?
  rw [hslots]
  exact ⟨rfl, rfl, rfl⟩

/-- The second of two numbers in one oneof takes the place of the first one. -/
theorem parts_choice (h : isChoiceFile b = true) (hn : 0 ≤ n ∧ n < 0x10000000000000000)
    (hm : 0 ≤ m ∧ m < 0x10000000000000000) :
    choiceSchema.parts (ofPlain (File.ofBytes b)).pool (bareName choiceSchema.name) (choiceValue n m) =
      .ok [⟨some 0, .varint 2 (residue m), 0, []⟩] := by
  obtain ⟨-, -, linked, hlinked, hslots⟩ := of_isSingleFile h
  have hfind : (ofPlain (File.ofBytes b)).linked? choiceSchema.name = some linked := hlinked
  obtain ⟨hx, hy, -⟩ := slot?_choice hslots
  have hfields : choiceSchema.fields = [.leaf "x" .uint, .leaf "y" .uint] := by
    rw [choiceSchema, Schema.fields]
  have hmemberX : memberOf "x" (choiceValue n m) = .ok (.int n) := memberOf_of_member? rfl
  have hmemberY : memberOf "y" (choiceValue n m) = .ok (.int m) := memberOf_of_member? rfl
  have hfirst : fieldPart (ofPlain (File.ofBytes b)).pool linked (choiceValue n m) (.leaf "x" .uint) =
      .ok (some ⟨some 0, .varint 1 (residue n), 0, []⟩) :=
    (fieldPart_leaf_eq_ok_iff hmemberX).mpr ⟨_, _, hx, leafItem_choice hn, rfl⟩
  have hsecond : fieldPart (ofPlain (File.ofBytes b)).pool linked (choiceValue n m) (.leaf "y" .uint) =
      .ok (some ⟨some 0, .varint 2 (residue m), 0, []⟩) :=
    (fieldPart_leaf_eq_ok_iff hmemberY).mpr ⟨_, _, hy, leafItem_choice hm, rfl⟩
  rw [parts_of_linked? hfind, hfields, fieldParts, hfirst]
  simp only
  rw [fieldParts, hsecond]
  simp only
  rw [fieldParts]
  rfl

theorem length_writeVarint_residue_le (m : Int) : (Wire.writeVarint 2 (residue m)).length ≤ 20 := by
  have hresidue : residue m < 128 ^ (9 + 1) := by
    unfold residue
    omega
  have hvalue := Wire.length_varint_le hresidue
  have htag : (Wire.varint (2 * 8)).length ≤ 0 + 1 := Wire.length_varint_le (by decide)
  rw [Wire.writeVarint, Wire.varintTag, List.length_append]
  omega

/-- Of two numbers in one oneof only the second one is written. -/
theorem encode_choice (h : isChoiceFile b = true) (hn : 0 ≤ n ∧ n < 0x10000000000000000)
    (hm : 0 ≤ m ∧ m < 0x10000000000000000) :
    (ofPlain (File.ofBytes b)).encode choiceSchema (choiceValue n m) = .ok (Wire.writeVarint 2 (residue m)) := by
  obtain ⟨-, -, linked, hlinked, hslots⟩ := of_isSingleFile h
  have hname : choiceSchema.name.isEmpty = false := rfl
  apply (encode_eq_ok_iff hname).mpr
  refine ⟨linked, _, hlinked, parts_choice h hn hm, (slot?_choice hslots).2.2, ?_, ?_, ?_, ?_⟩
  · rw [lackingIn_eq_nil_iff, hslots]
    constructor
    · intro s hs hrequired
      rcases List.mem_pair.mp hs with rfl | rfl
      · cases hrequired
      · cases hrequired
    · intro p hp
      rw [List.mem_singleton.mp hp]
  · exact Nat.lt_of_le_of_lt (partsDepth_le_iff.mpr (by simp)) (show 0 < Wire.maxDepth by decide)
  · rw [joinParts_singleton]
    exact Nat.le_trans (length_writeVarint_residue_le m) (by decide)
  · rw [joinParts_singleton]
    rfl

end Library

end

/-- A file with one message type `A`, which has two numbers `x` and `y` in one oneof. -/
def choiceFile : Bytes :=
  [10, 1, 116, 34, 34, 10, 1, 65, 18, 11, 10, 1, 120, 24, 1, 32, 1, 40, 4, 72, 0, 18, 11, 10, 1, 121, 24, 2, 32, 1, 40, 4,
    72, 0, 66, 3, 10, 1, 111, 98, 6, 112, 114, 111, 116, 111, 51]

theorem isChoiceFile_choiceFile : isChoiceFile choiceFile = true := by
  decide +kernel

end ContractShell
