import ContractShell.Proofs.Library.Plain
import ContractShell.Proofs.Value.RoundTrip

/-!
Libraries whose one message type has one unsigned number.

Such a type carries every number of its range, unless its field has the name of an operation that writes or reads messages.
So a field's name alone can decide whether anything is sent.

## Main statements

* `Library.carries_number_iff`: when a number is carried.
-/

namespace ContractShell

open Descriptor (File Linked Slot)

/-! ## 1. Files -/

/-- The slot of the field. -/
def numberSlot (field : String) : Slot := (Descriptor.Standard.one .uint64 1 field).plainSlot .third

/-- The schema of the message type. -/
def numberSchema (type field : String) : Schema := .mk type [.leaf field .uint]

/-- The bytes are one plain file of the third dialect with one message type, whose one field is an unsigned number. No name
in the file is that of a standard definition. -/
def isNumberFile (type field : String) (b : Bytes) : Bool :=
  let f := File.ofBytes b
  !Wire.wellFormed Descriptor.formatLayouts Descriptor.fileSetType b &&
    Wire.wellFormed Descriptor.formatLayouts Descriptor.fileType b && !f.name.isEmpty && f.isPlain && f.isSound &&
    f.name != Descriptor.Standard.fileName && Descriptor.areDistinct (f.symbols.map (·.1)) &&
    f.symbols.all (fun d => (Descriptor.Standard.file.symbols.find? d.1).isNone) &&
    !(Descriptor.Standard.file.featuredMessages.map (·.1)).contains type && Library.bareName type == type &&
    !type.isEmpty && f.featuredMessages.map (fun m => (m.1, m.2.1, m.2.2.fields)) ==
      [(type, .third, [Descriptor.Standard.one .uint64 1 field])]

namespace Library

section

variable {type field : String} {b : Bytes}

theorem featuresOf_number (m : Descriptor.Message) (chosen : Bool) (field : String) :
    m.featuresOf chosen .third (Descriptor.Standard.one .uint64 1 field) = .third := by
  unfold Descriptor.Message.featuresOf Descriptor.Field.features
  split
  · rfl
  · rfl

/-- The library of such a file, and what it knows of the message type. -/
theorem of_isNumberFile (h : isNumberFile type field b = true) :
    ofBytes b = .ok (ofPlain (File.ofBytes b)) ∧
      (ofPlain (File.ofBytes b)).schema type = .ok (numberSchema type field) ∧
      ∃ linked, (ofPlain (File.ofBytes b)).linked? type = some linked ∧ linked.slots = [numberSlot field] := by
  unfold isNumberFile at h
  simp only [Bool.and_eq_true, Bool.not_eq_true', beq_iff_eq] at h
  obtain ⟨⟨hshape, htype⟩, hmessages⟩ := h
  have hsingle : isSingleFile type [Descriptor.Standard.one .uint64 1 field] b = true := by
    unfold isSingleFile
    simp only [Bool.and_eq_true, Bool.not_eq_true', beq_iff_eq]
    refine ⟨⟨hshape, hmessages⟩, List.all_eq_true.mpr fun m hm => List.all_eq_true.mpr fun f hf => ?_⟩
    have hmem := List.mem_map_of_mem (f := fun m => (m.1, m.2.1, m.2.2.fields)) hm
    rw [hmessages, List.mem_singleton, Prod.mk.injEq, Prod.mk.injEq] at hmem
    rw [hmem.2.2] at hf
    rw [List.mem_singleton.mp hf, hmem.2.1, featuresOf_number]
    rfl
  obtain ⟨hload, ⟨m, hm, hfields⟩, hlinked⟩ := of_isSingleFile hsingle
  refine ⟨hload, ?_, hlinked⟩
  rw [schema_eq_ok_iff, HasSchema, if_neg (by rw [htype]; exact Bool.false_ne_true), hshape.2]
  refine ⟨m, _, hm, ?_, rfl⟩
  rw [hfields]
  exact .leaf rfl .nil

theorem slot?_number {linked : Linked} (hslots : linked.slots = [numberSlot field]) (name : String) :
    linked.slot? name = if field = name then some (numberSlot field) else none := by
  unfold Descriptor.Linked.slot?
  have hname : (numberSlot field).name = field := rfl
  by_cases hfield : field = name
  · rw [hslots, if_pos hfield, List.find?_singleton, hname, if_pos (by rw [hfield]; exact beq_self_eq_true name)]
  · rw [hslots, if_neg hfield, List.find?_singleton, hname, if_neg (by rw [beq_iff_eq]; exact hfield)]

/-- A message of one number is at most twenty bytes long. -/
theorem length_number_le {linked : Linked} (hslots : linked.slots = [numberSlot field]) {pool : Descriptor.Pool}
    {x : Value} {outs : List (Slot × Option Part)}
    (h : FieldsWrite pool linked [.leaf field .uint] [(field, x)] outs) : (joinParts (written outs)).length ≤ 20 := by
  cases h with
  | @leaf _ _ _ _ slot o _ _ _ hslot hitem hrest =>
    cases hrest
    rw [slot?_number hslots, if_pos rfl, Option.some.injEq] at hslot
    rw [← hslot] at hitem ⊢
    have hnumber : (numberSlot field).number = 1 := rfl
    cases (written_of_leafItem hitem).2.2 with
    | flag htype | number htype | string htype | spelled htype | bytes htype => cases htype
    | @integer range n hrange hn =>
      unfold unlessImplied
      -- A zero is left out; any other number takes a byte for its tag and ten at most for itself.
      by_cases hzero : (n == 0 && !(numberSlot field).hasPresence) = true
      · have hnone : joinParts [] = [] := by simp only [joinParts, sortedItems, sortedParts, List.mergeSort_nil, List.map_nil,
          List.flatMap_nil]
        rw [if_pos hzero, Option.map_none, written_cons, Option.toList_none, List.nil_append, written, List.filterMap_nil,
          hnone]
        exact Nat.zero_le 20
      · have hresidue : residue n < 128 ^ (9 + 1) := by
          have hmod := Int.emod_lt_of_pos n (show (0 : Int) < 0x10000000000000000 by decide)
          unfold residue
          omega
        have hlen := Wire.length_varint_le hresidue
        have htag : (Wire.varint (1 * 8)).length ≤ 0 + 1 := Wire.length_varint_le (by decide)
        rw [if_neg hzero, hnumber]
        simp only [Option.map_some, written, List.filterMap_cons, List.filterMap_nil, joinParts, sortedItems, sortedParts,
          List.mergeSort_singleton, List.map_cons, List.map_nil, List.flatMap_cons, List.flatMap_nil, List.append_nil,
          Wire.Item.write, Wire.writeVarint, Wire.varintTag, List.length_append]
        omega

theorem hasNoRivals_number (h : isNumberFile type field b = true) :
    (ofPlain (File.ofBytes b)).HasNoRivals (numberSchema type field) := by
  obtain ⟨-, -, linked, hlinked, hslots⟩ := of_isNumberFile h
  intro other hfind last hvisits
  have hsame : (ofPlain (File.ofBytes b)).linked? type = some other := hfind
  rw [hlinked, Option.some.injEq] at hsame
  cases hvisits with
  | here =>
    intro s hs t _ hsome
    rw [← hsame, hslots] at hs
    rw [List.mem_singleton.mp hs] at hsome
    cases hsome
  | inside hmem =>
    rcases List.mem_singleton.mp hmem with hmem
    cases hmem

theorem hasDistinctNames_number (type field : String) : (numberSchema type field).HasDistinctNames :=
  ⟨List.nodup_singleton field, trivial⟩

theorem holds_number (type field : String) {n : Int} (hlow : 0 ≤ n) (hhigh : n < 0x10000000000000000) :
    (numberSchema type field).Holds (.message [(field, .int n)]) :=
  ⟨_, .leaf (.uint hlow hhigh) .nil, rfl⟩

/-- The bytes of a number are not too many. -/
theorem length_parts_number_le (h : isNumberFile type field b = true) {n : Int} (hlow : 0 ≤ n)
    (hhigh : n < 0x10000000000000000) :
    ∀ parts, (numberSchema type field).parts (ofPlain (File.ofBytes b)).pool (bareName (numberSchema type field).name)
      (.message [(field, .int n)]) = .ok parts → (joinParts parts).length ≤ maxMessageSize := by
  obtain ⟨-, -, linked, hlinked, hslots⟩ := of_isNumberFile h
  intro parts hparts
  have hwhole := @parts_eq_ok_iff _ (numberSchema type field) [(field, .int n)] linked hlinked
    (.leaf (.uint hlow hhigh) .nil) (hasDistinctNames_number type field) (hasNoRivals_number h) parts
  obtain ⟨outs, hwrite, rfl⟩ := hwhole.mp hparts
  have hlimit : 20 ≤ maxMessageSize := by decide
  exact Nat.le_trans (length_number_le hslots hwrite) hlimit

theorem args_number (type field : String) : (numberSchema type field).args = .ok [⟨field, .uint, false⟩] := by
  rw [numberSchema, Schema.args, argsOf, argsOf]
  rfl

theorem unbind_number (type field : String) {n : Int} (hlow : 0 ≤ n) (hhigh : n < 0x10000000000000000) :
    (numberSchema type field).unbind (.message [(field, .int n)]) = .ok [(field, toString n)] := by
  have hmember := @memberIn_of_mem [(field, Value.int n)] (List.nodup_singleton field) (field, .int n)
    List.mem_cons_self
  simp only at hmember
  rw [numberSchema, Schema.unbind, unbindFields, hmember]
  simp only [LeafKind.text_uint (isWritable_of_lt (n := n) (by omega))]
  rw [unbindFields]
  rfl

/-- A number of the range is carried unless the field has the name of an operation. -/
theorem carries_number_iff (h : isNumberFile type field b = true) {n : Int} (hlow : 0 ≤ n)
    (hhigh : n < 0x10000000000000000) :
    (ofPlain (File.ofBytes b)).Carries (numberSchema type field) (.message [(field, .int n)]) ↔
      field ≠ writingOperation ∧ field ≠ readingOperation := by
  obtain ⟨-, -, linked, hlinked, hslots⟩ := of_isNumberFile h
  have hslot := fun name => @slot?_number field linked hslots name
  constructor
  · -- The slot of the field is the only one, so an operation is hidden just when it has the name of the field.
    intro hcarries
    cases hcarries with
    | @message other _ _ hfind hwriting hreading =>
      have hsame : (ofPlain (File.ofBytes b)).linked? type = some other := hfind
      rw [hlinked, Option.some.injEq] at hsame
      rw [← hsame, hslot] at hwriting hreading
      constructor
      · intro hname
        rw [if_pos hname] at hwriting
        cases hwriting
      · intro hname
        rw [if_pos hname] at hreading
        cases hreading
  · rintro ⟨hwriting, hreading⟩
    have htype : type.isEmpty = false := by
      unfold isNumberFile at h
      simp only [Bool.and_eq_true, Bool.not_eq_true'] at h
      exact h.1.2
    have hrange : integerRange? (numberSlot field).type = some (0, 0x10000000000000000) := rfl
    refine .message htype hlinked ?_ ?_ ?_ ?_ ?_
    · rw [hslot, if_neg hwriting]
    · rw [hslot, if_neg hreading]
    · intro s hs hrequired
      rw [hslots] at hs
      rw [List.mem_singleton.mp hs] at hrequired
      cases hrequired
    · refine .leaf (by rw [hslot, if_pos rfl]) ⟨rfl, .integer hrange ⟨hlow, hhigh⟩, ?_⟩ .nil
      by_cases hzero : n = 0
      · rw [hzero]
        exact .inr (.inr ⟨rfl, rfl⟩)
      · exact .inr (.inl (by simpa [Value.isTruthy] using hzero))
    · exact length_parts_number_le h hlow hhigh

end

end Library

/-! ## 2. Two files -/

/-- A file with one message type `A`, which has one number `x`. -/
def plainFile : Bytes :=
  [10, 1, 116, 34, 14, 10, 1, 65, 18, 9, 10, 1, 120, 24, 1, 32, 1, 40, 4, 98, 6, 112, 114, 111, 116, 111, 51]

/-- A file with one message type `A`, whose one number has the name of the operation that writes. -/
def hidingFile : Bytes :=
  [10, 1, 116, 34, 30, 10, 1, 65, 18, 25, 10, 17, 83, 101, 114, 105, 97, 108, 105, 122, 101, 84, 111, 83, 116, 114, 105,
    110, 103, 24, 1, 32, 1, 40, 4, 98, 6, 112, 114, 111, 116, 111, 51]

theorem isNumberFile_files :
    isNumberFile "A" "x" plainFile = true ∧ isNumberFile "A" writingOperation hidingFile = true := by
  decide +kernel

end ContractShell
