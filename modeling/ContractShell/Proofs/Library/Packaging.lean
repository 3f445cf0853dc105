import ContractShell.Library.Basic
import ContractShell.Proofs.Bytes.Base64
import ContractShell.Proofs.Descriptor.Serialization
import ContractShell.Proofs.Steps

/-!
The packagings of type definitions: a set of files or a single file, as bytes or as base64 text in either alphabet.

A set and a single file are told apart by what they hold. In both, the first part is a byte string: a file in a set, the name
in a file. A name of printable characters is never a file with a name, because the tag of a name is no such character.

## Main statements

* `Descriptor.filesOf_set`, `Descriptor.filesOf_single`: the files of a set, and a single file, are found as they are.
* `packagings_agree`: all packagings of the same definitions load the same library.
* `not_filesOf_deepFile`: definitions that are nested as deep as a single file may be are too deep for a set.
-/

namespace ContractShell

open Wire (Item IsMessage IsShort delimitedItems payloads writeDelimited innerFits)

namespace Base64

/-! ## 1. Texts in either alphabet -/

/-- What the strict reader accepts is digits of the standard alphabet and padding. -/
theorem value?_of_readFrom {k : Cursor} {s : List Char} {b : Bytes} (h : readFrom true k s = .ok b) :
    ∀ c ∈ s, c = '=' ∨ (value? c).isSome = true := by
  induction s generalizing k b with
  | nil => simp
  | cons c r ih =>
    rw [readFrom] at h
    by_cases hpad : c = '='
    · refine List.forall_mem_cons.mpr ⟨.inl hpad, ?_⟩
      rw [if_pos hpad] at h
      split at h
      · split at h
        · cases h
        · rename_i hrest
          have hnil : r = [] := by simpa using hrest
          simp [hnil]
      · exact ih h
    · rw [if_neg hpad] at h
      cases hvalue : value? c with
      | none =>
        rw [hvalue] at h
        cases h
      | some v =>
        refine List.forall_mem_cons.mpr ⟨.inr (by rw [hvalue]; rfl), ?_⟩
        rw [hvalue] at h
        dsimp only at h
        split at h
        · cases h
        · split at h
          · obtain ⟨_, hread, -⟩ := of_map_eq_ok h
            exact ih hread
          · exact ih h

/-- Only the last two digits differ in the two alphabets, and in the address-safe one they are no standard digits. -/
theorem urlDigit_eq_digit {v : Nat} (hv : v < 64) (h : urlDigit v = '=' ∨ (value? (urlDigit v)).isSome = true) :
    urlDigit v = digit v := by
  have hall : ∀ v : Fin 64, urlDigit v.val = '=' ∨ (value? (urlDigit v.val)).isSome = true → urlDigit v.val = digit v.val := by
    decide +kernel
  exact hall ⟨v, hv⟩ h

/-- The strict reader reads an address-safe text in no other way than it was written: if it accepts the text, the text is a
standard one. -/
theorem eq_of_decode_encodeUrl {b c : Bytes} (h : decode true (encodeUrl b).toList = .ok c) : c = b := by
  have hread := h
  unfold decode at hread
  split at hread
  · cases hread
  · split at hread
    · cases hread
    · have hchars := value?_of_readFrom hread
      rw [encodeUrl, String.toList_ofList, encodeWith_eq] at hchars
      have hsame : encodeUrl b = encode b := by
        rw [encodeUrl, encode, encodeWith_eq, encodeWith_eq]
        refine congrArg String.ofList (congrArg (· ++ _) (List.map_congr_left fun v hv => ?_))
        exact urlDigit_eq_digit (sextets_lt b v hv) (hchars _ (List.mem_append_left _ (List.mem_map_of_mem hv)))
      rw [hsame, decode_encode] at h
      exact (Except.ok.inj h).symm

end Base64

/-- A library is loaded from base64 text in either alphabet as it is loaded from the bytes. -/
theorem Library.ofText_encode (b : Bytes) :
    Library.ofText (Base64.encode b) = Library.ofBytes b ∧ Library.ofText (Base64.encodeUrl b) = Library.ofBytes b := by
  constructor
  · rw [ofText, Base64.decode_encode]
  · rw [ofText]
    cases hstrict : Base64.decode true (Base64.encodeUrl b).toList with
    | ok c => rw [Base64.eq_of_decode_encodeUrl hstrict]
    | error f => rw [Base64.decodeUrl_encodeUrl]

namespace Descriptor

/-! ## 2. Sets -/

/-- The bytes of a set of files that are given as bytes. -/
def joinFiles (ps : List Bytes) : Bytes := ps.flatMap (writeDelimited 1)

theorem joinFiles_eq (ps : List Bytes) : joinFiles ps = (delimitedItems 1 ps).flatMap Item.write :=
  (Wire.flatMap_write_delimitedItems 1 ps).symm

theorem setBytes_eq (files : List File) : setBytes files = joinFiles (files.map File.bytes) := by
  rw [setBytes, writeEach, joinFiles, List.flatMap_map]

theorem isFlat_files (ps : List Bytes) : ∀ i ∈ delimitedItems 1 ps, i.IsFlat := by
  simp [Wire.IsNumber]

theorem layoutOf_set : formatLayouts.layoutOf fileSetType = ⟨[part 1 "FileDescriptorProto"], false⟩ := rfl

/-- Bytes of files make up a set just when each of them is a file one level below the set. -/
theorem isMessage_joinFiles_iff {ps : List Bytes} (hshort : IsShort (joinFiles ps)) :
    IsMessage formatLayouts Wire.maxDepth fileSetType (joinFiles ps) ↔
      ∀ p ∈ ps, IsMessage formatLayouts (Wire.maxDepth - 1) fileType p := by
  rw [joinFiles_eq] at hshort ⊢
  rw [Wire.isMessage_iff isContainer_layoutOf, Wire.items?_record (isFlat_files ps) hshort, layoutOf_set]
  have hfits (p : Bytes) : Wire.contentFits ⟨[part 1 "FileDescriptorProto"], false⟩ (innerFits formatLayouts Wire.maxDepth)
      (.delimited 1 p) = innerFits formatLayouts Wire.maxDepth fileType p := rfl
  have hbelow (p : Bytes) : innerFits formatLayouts Wire.maxDepth fileType p = true ↔
      IsMessage formatLayouts (Wire.maxDepth - 1) fileType p := by
    rw [Wire.innerFits_iff]
    exact ⟨fun ⟨below, hdepth, h⟩ => (show below = Wire.maxDepth - 1 by omega) ▸ h, fun h => ⟨Wire.maxDepth - 1, rfl, h⟩⟩
  simp only [Option.some.injEq, exists_eq_left', Wire.forall_mem_delimitedItems, hfits, hbelow]

theorem itemsOf_joinFiles {ps : List Bytes} (hshort : IsShort (joinFiles ps)) :
    Wire.itemsOf (joinFiles ps) = delimitedItems 1 ps := by
  rw [joinFiles_eq] at hshort ⊢
  exact Wire.itemsOf_write (isFlat_files ps) hshort

/-- A set of files with names is found as it is. -/
theorem filesOf_set {ps : List Bytes} (hne : ps ≠ []) (hshort : IsShort (joinFiles ps))
    (hps : ∀ p ∈ ps, IsMessage formatLayouts (Wire.maxDepth - 1) fileType p ∧ (File.ofBytes p).name ≠ "") :
    filesOf (joinFiles ps) = .ok (ps.map File.ofBytes) := by
  have hset : filesOfSet? (joinFiles ps) = some (ps.map File.ofBytes) := by
    have hmessage : Wire.wellFormed formatLayouts fileSetType (joinFiles ps) = true :=
      (isMessage_joinFiles_iff hshort).mpr fun p hp => (hps p hp).1
    rw [filesOfSet?, if_pos hmessage, itemsOf_joinFiles hshort, Wire.payloads_delimitedItems, if_pos rfl]
  have hnamed : ((ps.map File.ofBytes).all fun f => !f.name.isEmpty) = true := by
    rw [List.all_map, List.all_eq_true]
    intro p hp
    simpa [String.isEmpty_iff] using (hps p hp).2
  have hsome : (ps.map File.ofBytes).isEmpty = false := by
    cases ps with
    | nil => exact absurd rfl hne
    | cons p ps => rfl
  rw [filesOf, hset]
  simp only [Option.getD_some, hsome, hnamed, Bool.not_false, Bool.and_self, if_true]

/-! ## 3. Single files -/

/-- A byte is a character of ASCII that can be printed. -/
def IsPrintable (b : UInt8) : Prop := 0x20 ≤ b.toNat ∧ b.toNat ≤ 0x7E

/-- Printable bytes hold no name: its tag would be a line feed, and a printable byte is the tag of a higher number. -/
theorem name_ofBytes_of_printable {b : Bytes} (h : ∀ x ∈ b, IsPrintable x) : (File.ofBytes b).name = "" := by
  have hnone : payloads 1 (Wire.itemsOf b) = [] := by
    unfold Wire.itemsOf
    cases hitems : Wire.items? Wire.maxDepth b with
    | none => rfl
    | some is =>
      have hhigh := Wire.lt_number_of_mem 1 hitems fun x hx => by
        obtain ⟨hlow, hhigh⟩ := h x hx
        exact ⟨by omega, by omega⟩
      rw [Option.getD_some, List.eq_nil_iff_forall_not_mem]
      intro p hp
      exact absurd (hhigh _ ((Wire.mem_payloads 1 is).mp hp)) (Nat.lt_irrefl 1)
  exact nameAt_of (by rw [hnone]; rfl)

/-- A single file whose names are printable is found as it is, and no set is seen in it. -/
theorem filesOf_single {p : Bytes} (hmessage : IsMessage formatLayouts Wire.maxDepth fileType p)
    (hnamed : (File.ofBytes p).name ≠ "") (hprintable : ∀ q ∈ payloads 1 (Wire.itemsOf p), ∀ x ∈ q, IsPrintable x) :
    filesOf p = .ok [File.ofBytes p] := by
  have hset : (!((filesOfSet? p).getD []).isEmpty && ((filesOfSet? p).getD []).all fun f => !f.name.isEmpty) = false := by
    unfold filesOfSet?
    split
    · rw [Option.getD_some]
      cases hparts : payloads 1 (Wire.itemsOf p) with
      | nil => rfl
      | cons q qs =>
        have hq := name_ofBytes_of_printable (hprintable q (by rw [hparts]; exact List.mem_cons_self))
        simp [hq]
    · rfl
  have hsingle : fileOf? p = some (File.ofBytes p) := if_pos hmessage
  rw [filesOf]
  simp only [hset, Bool.false_eq_true, if_false, hsingle]
  rw [if_neg (by simpa [String.isEmpty_iff] using hnamed)]

/-! ## 4. Files -/

/-- Bytes that are as long as a message may be. -/
def IsMessageSize (b : Bytes) : Prop := b.length < 2 ^ 31

theorem IsMessageSize.isShort {b : Bytes} (h : IsMessageSize b) : IsShort b :=
  Nat.lt_trans h (by decide)

/-- A character of ASCII that can be printed. -/
def IsPrintableChar (c : Char) : Prop := 0x20 ≤ c.toNat ∧ c.toNat ≤ 0x7E

theorem isPrintable_ofString {s : String} (h : ∀ c ∈ s.toList, IsPrintableChar c) :
    ∀ b ∈ Text.Utf8.ofString s, IsPrintable b := by
  intro b hb
  obtain ⟨c, hc, hb⟩ := List.mem_flatMap.mp hb
  obtain ⟨hlow, hhigh⟩ := h c hc
  have hsingle : Text.Utf8.encodeChar c = [UInt8.ofNat c.toNat] := if_pos (by omega)
  rw [hsingle, List.mem_singleton] at hb
  rw [hb]
  unfold IsPrintable
  rw [Text.Utf8.toNat_ofNat_of_lt (by omega)]
  exact ⟨hlow, hhigh⟩

/-- The files of a set are found as they are. -/
theorem filesOf_setBytes {files : List File} (hne : files ≠ []) (hsize : IsMessageSize (setBytes files))
    (hfiles : ∀ f ∈ files, f.name ≠ "" ∧ f.IsWithin (Wire.maxDepth - 1)) : filesOf (setBytes files) = .ok files := by
  have hshort := hsize.isShort
  rw [setBytes_eq] at hshort ⊢
  have hfile : ∀ f ∈ files, IsShort f.bytes ∧ File.ofBytes f.bytes = f := by
    intro f hf
    have hmem : f.bytes ∈ payloads 1 (delimitedItems 1 (files.map File.bytes)) := by
      rw [Wire.payloads_delimitedItems, if_pos rfl]
      exact List.mem_map_of_mem hf
    rw [joinFiles_eq] at hshort
    have hshort := Wire.isShort_of_mem hmem hshort
    exact ⟨hshort, (hfiles f hf).2.ofBytes_bytes (by decide) hshort⟩
  rw [filesOf_set (by simpa using hne) hshort, List.map_map]
  · exact congrArg Except.ok ((List.map_congr_left fun f hf => (hfile f hf).2).trans (List.map_id files))
  · intro p hp
    obtain ⟨f, hf, rfl⟩ := List.mem_map.mp hp
    rw [(hfile f hf).2]
    exact ⟨(hfiles f hf).2.isMessage (hfile f hf).1, (hfiles f hf).1⟩

/-- A single file with a printable name is found as it is. -/
theorem filesOf_bytes {f : File} (hname : f.name ≠ "") (hprintable : ∀ c ∈ f.name.toList, IsPrintableChar c)
    (hwithin : f.IsWithin Wire.maxDepth) (hsize : IsMessageSize f.bytes) : filesOf f.bytes = .ok [f] := by
  have hback := hwithin.ofBytes_bytes (Nat.le_refl _) hsize.isShort
  have hparts : payloads 1 (Wire.itemsOf f.bytes) = nameParts f.name := by
    have hshort := hsize.isShort
    rw [f.bytes_eq] at hshort ⊢
    rw [Wire.itemsOf_write hwithin.isFlat_items hshort]
    simp [File.items]
  rw [filesOf_single (hwithin.isMessage hsize.isShort) (by rw [hback]; exact hname), hback]
  rw [hparts, nameParts]
  split
  · simp
  · simpa using isPrintable_ofString hprintable

/-! ## 5. A file that is too deep for a set -/

/-- A message type `A` that encloses others and nothing else. -/
def enclosing (nested : List Message) : Message := ⟨"A", [], [], nested, [], [], [], [], none⟩

/-- Message types `A`, so many of them nested in the first one, each in the one before. -/
def tower : Nat → Message
  | 0 => enclosing []
  | n + 1 => enclosing [tower n]

theorem ownWithin_enclosing (depth : Nat) (nested : List Message) : (enclosing nested).OwnWithin depth := by
  constructor <;> simp [enclosing, OptionsWithin]

theorem isWithin_tower (n : Nat) : (tower n).IsWithin n := by
  induction n with
  | zero => exact .bottom (ownWithin_enclosing 0 []) rfl
  | succ n ih =>
    exact .above (Nat.lt_succ_self n) (ownWithin_enclosing (n + 1) [tower n]) fun m hm => List.mem_singleton.mp hm ▸ ih

theorem length_writeDelimited_le {n : Nat} (hn : n < 16) {p : Bytes} (hp : IsShort p) :
    (writeDelimited n p).length ≤ p.length + 6 := by
  have htag : (Wire.delimitedTag n).length ≤ 0 + 1 := Wire.length_varint_le (by omega)
  have hlength : (Wire.varint p.length).length ≤ 4 + 1 := Wire.length_varint_le (by unfold IsShort at hp; omega)
  rw [writeDelimited, List.length_append, List.length_append]
  omega

theorem bytes_enclosing (nested : List Message) :
    (enclosing nested).bytes = writeDelimited 1 [65] ++ nested.flatMap fun m => writeDelimited 3 m.bytes := by
  have hname : writeName 1 "A" = writeDelimited 1 [65] := rfl
  rw [enclosing, Message.bytes, nestedBytes_eq, Wire.flatMap_write_delimitedItems, List.flatMap_map, hname]
  simp [writeEach, writeOptional]

theorem length_tower_le {n : Nat} (h : n ≤ 1000) : (tower n).bytes.length ≤ 13 * n + 7 := by
  induction n with
  | zero =>
    rw [tower, bytes_enclosing, List.flatMap_nil, List.append_nil]
    exact length_writeDelimited_le (by decide) (by unfold IsShort; decide)
  | succ n ih =>
    have hinner := ih (by omega)
    have hname : (writeDelimited 1 [65]).length ≤ 1 + 6 :=
      length_writeDelimited_le (by decide) (by unfold IsShort; decide)
    have houter : (writeDelimited 3 (tower n).bytes).length ≤ (tower n).bytes.length + 6 :=
      length_writeDelimited_le (by decide) (by unfold IsShort; omega)
    rw [tower, bytes_enclosing, List.flatMap_singleton, List.length_append]
    omega

theorem isShort_tower {n : Nat} (h : n ≤ 1000) : IsShort (tower n).bytes := by
  have hle := length_tower_le h
  unfold IsShort
  omega

/-- A tower is a message only where there are as many levels. -/
theorem le_of_isMessage_tower {n depth : Nat} (hn : n ≤ 1000)
    (h : IsMessage formatLayouts depth "google.protobuf.DescriptorProto" (tower n).bytes) : n ≤ depth := by
  -- The induction is on the height: what is nested in a tower is one level lower.
  induction n generalizing depth with
  | zero => exact Nat.zero_le _
  | succ n ih =>
    have hshort := isShort_tower hn
    rw [Message.bytes_eq] at h hshort
    obtain ⟨is, his, hfits⟩ := (Wire.isMessage_iff isContainer_layoutOf).mp h
    rw [Wire.items?_record (Message.isFlat_items _) hshort] at his
    cases his
    have hnested : Item.delimited 3 (tower n).bytes ∈ (tower (n + 1)).items := by
      rw [← Wire.mem_payloads]
      simp [Message.items, tower, enclosing]
    have hinner := hfits _ hnested
    rw [Message.layoutOf] at hinner
    obtain ⟨below, rfl, hbelow⟩ := Wire.innerFits_iff.mp hinner
    have := ih (by omega) hbelow
    omega

/-- A file with a tower of a hundred message types. -/
def deepFile : File := { File.blank "t" "" with messages := [tower 99] }

theorem isWithin_deepFile : deepFile.IsWithin Wire.maxDepth := by
  refine ⟨by simp [deepFile, File.blank], by simp [deepFile, File.blank], ?_, by simp [deepFile, File.blank],
    by simp [deepFile, File.blank], by simp [deepFile, File.blank], by simp [deepFile, File.blank],
    by simp [deepFile, File.blank, OptionsWithin]⟩
  intro m hm
  exact ⟨99, by decide, List.mem_singleton.mp hm ▸ isWithin_tower 99⟩

theorem bytes_deepFile : deepFile.bytes = writeDelimited 1 [116] ++ writeDelimited 4 (tower 99).bytes := by
  have hname : writeName 1 "t" = writeDelimited 1 [116] := rfl
  have hpackage : writeName 2 "" = [] := rfl
  simp [deepFile, File.blank, File.bytes, hname, hpackage, writeEach, writeOptional]

theorem length_deepFile_le : deepFile.bytes.length ≤ 1400 := by
  have htower := length_tower_le (show 99 ≤ 1000 by decide)
  have hname : (writeDelimited 1 [116]).length ≤ 1 + 6 :=
    length_writeDelimited_le (by decide) (by unfold IsShort; decide)
  have hmessage : (writeDelimited 4 (tower 99).bytes).length ≤ (tower 99).bytes.length + 6 :=
    length_writeDelimited_le (by decide) (isShort_tower (by decide))
  rw [bytes_deepFile, List.length_append]
  omega

/-- One level below a set, the file has too few levels for its tower. -/
theorem not_isMessage_deepFile : ¬ IsMessage formatLayouts (Wire.maxDepth - 1) fileType deepFile.bytes := by
  intro h
  have hshort : IsShort deepFile.bytes := by
    have hle := length_deepFile_le
    unfold IsShort
    omega
  rw [File.bytes_eq] at h hshort
  obtain ⟨is, his, hfits⟩ := (Wire.isMessage_iff isContainer_layoutOf).mp h
  rw [Wire.items?_record isWithin_deepFile.isFlat_items hshort] at his
  cases his
  have hmessage : Item.delimited 4 (tower 99).bytes ∈ deepFile.items := by
    rw [← Wire.mem_payloads]
    simp [File.items, deepFile]
  have hinner := hfits _ hmessage
  rw [File.layoutOf] at hinner
  obtain ⟨below, hdepth, hbelow⟩ := Wire.innerFits_iff.mp hinner
  have hle := le_of_isMessage_tower (by decide) hbelow
  have hmax : Wire.maxDepth = 100 := rfl
  omega

/-- The file is found as it is in its own bytes, but not in the bytes of the set that holds it. -/
theorem not_filesOf_deepFile : deepFile.name = "t" ∧ deepFile.IsWithin Wire.maxDepth ∧
    filesOf deepFile.bytes = .ok [deepFile] ∧ filesOf (setBytes [deepFile]) ≠ .ok [deepFile] := by
  have hle := length_deepFile_le
  have hprintable : ∀ c ∈ deepFile.name.toList, IsPrintableChar c := by
    intro c hc
    rw [show deepFile.name.toList = ['t'] from rfl, List.mem_singleton] at hc
    subst hc
    exact ⟨by decide, by decide⟩
  refine ⟨rfl, isWithin_deepFile,
    filesOf_bytes (by decide) hprintable isWithin_deepFile (by unfold IsMessageSize; omega), ?_⟩
  have hshort : IsShort (joinFiles [deepFile.bytes]) := by
    have hlength : (writeDelimited 1 deepFile.bytes).length ≤ deepFile.bytes.length + 6 :=
      length_writeDelimited_le (by decide) (by unfold IsShort; omega)
    rw [joinFiles, List.flatMap_singleton]
    unfold IsShort
    omega
  have hnone : filesOfSet? (joinFiles [deepFile.bytes]) = none := by
    refine if_neg fun h => not_isMessage_deepFile ?_
    exact (isMessage_joinFiles_iff hshort).mp h _ (List.mem_singleton_self _)
  rw [show setBytes [deepFile] = joinFiles [deepFile.bytes] from setBytes_eq [deepFile], filesOf, hnone]
  simp only [Option.getD_none, List.isEmpty_nil, Bool.not_true, Bool.false_and, Bool.false_eq_true, if_false]
  -- What is read in place of the set is a file without messages, under a name that the set's file makes up.
  cases hfile : fileOf? (joinFiles [deepFile.bytes]) with
  | none => exact nofun
  | some f =>
    dsimp only
    split
    · exact nofun
    · intro hsame
      have hf : f = deepFile := List.head_eq_of_cons_eq (Except.ok.inj hsame)
      unfold fileOf? at hfile
      split at hfile
      · have hmessages := congrArg File.messages ((Option.some.inj hfile).trans hf)
        rw [File.ofBytes, itemsOf_joinFiles hshort] at hmessages
        simp [deepFile] at hmessages
      · cases hfile

end Descriptor

/-! ## 6. Libraries -/

open Descriptor (File IsMessageSize IsPrintable IsPrintableChar filesOf setBytes joinFiles formatLayouts fileType)

/-- All packagings of the same definitions load the same library, where protobuf can hold them: no message is longer or nested
deeper than it may be, and a set takes one level itself.

The files of a set that is not empty are found as they are, if all have names; so is a single file with a name of printable
ASCII, which is never taken for a set. This holds of files that are given as definitions, and of any bytes that are files.
Base64 text is read as the bytes that it stands for, in either alphabet, whatever the bytes are. So a file is loaded in the
same way from a set that holds it alone, from its own bytes, and from the text of either. -/
theorem packagings_agree :
    (∀ files : List File, files ≠ [] → IsMessageSize (setBytes files) →
      (∀ f ∈ files, f.name ≠ "" ∧ f.IsWithin (Wire.maxDepth - 1)) → filesOf (setBytes files) = .ok files) ∧
    (∀ f : File, f.name ≠ "" → (∀ c ∈ f.name.toList, IsPrintableChar c) → f.IsWithin Wire.maxDepth →
      IsMessageSize f.bytes → filesOf f.bytes = .ok [f]) ∧
    (∀ ps : List Bytes, ps ≠ [] → IsMessageSize (joinFiles ps) →
      (∀ p ∈ ps, IsMessage formatLayouts (Wire.maxDepth - 1) fileType p ∧ (File.ofBytes p).name ≠ "") →
      filesOf (joinFiles ps) = .ok (ps.map File.ofBytes)) ∧
    (∀ p : Bytes, IsMessage formatLayouts Wire.maxDepth fileType p → (File.ofBytes p).name ≠ "" →
      (∀ q ∈ payloads 1 (Wire.itemsOf p), ∀ b ∈ q, IsPrintable b) → filesOf p = .ok [File.ofBytes p]) ∧
    (∀ b : Bytes, Library.ofText (Base64.encode b) = Library.ofBytes b ∧
      Library.ofText (Base64.encodeUrl b) = Library.ofBytes b) ∧
    ∀ f : File, f.name ≠ "" → (∀ c ∈ f.name.toList, IsPrintableChar c) → f.IsWithin (Wire.maxDepth - 1) →
      IsMessageSize (setBytes [f]) → ∀ b ∈ [setBytes [f], f.bytes], Library.ofBytes b = Library.ofFiles [f] ∧
        Library.ofText (Base64.encode b) = Library.ofFiles [f] ∧
        Library.ofText (Base64.encodeUrl b) = Library.ofFiles [f] := by
  refine ⟨fun _ => Descriptor.filesOf_setBytes, fun _ => Descriptor.filesOf_bytes,
    fun ps hne hsize => Descriptor.filesOf_set hne hsize.isShort, fun _ => Descriptor.filesOf_single,
    Library.ofText_encode, ?_⟩
  intro f hname hprintable hwithin hsize b hb
  have hsingle : IsMessageSize f.bytes := by
    have hlt := (Item.delimited 1 f.bytes).length_body_lt
    rw [Item.body, List.length_append] at hlt
    have hset : setBytes [f] = (Item.delimited 1 f.bytes).write := List.append_nil _
    rw [hset] at hsize
    unfold IsMessageSize at hsize ⊢
    omega
  have hfiles : filesOf b = .ok [f] := by
    rw [List.mem_cons, List.mem_singleton] at hb
    rcases hb with rfl | rfl
    · exact Descriptor.filesOf_setBytes (List.cons_ne_nil _ _) hsize fun g hg =>
        List.mem_singleton.mp hg ▸ ⟨hname, hwithin⟩
    · exact Descriptor.filesOf_bytes hname hprintable (hwithin.mono (by decide)) hsingle
  have hload : Library.ofBytes b = Library.ofFiles [f] := by
    rw [Library.ofBytes, hfiles]
  exact ⟨hload, (Library.ofText_encode b).1.trans hload, (Library.ofText_encode b).2.trans hload⟩

end ContractShell
