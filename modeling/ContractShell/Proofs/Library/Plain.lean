import ContractShell.Proofs.Descriptor.Soundness
import ContractShell.Proofs.Library.Derivation

/-!
Libraries of one file that refers to no definition.

No field of such a file has a message or an enumeration as its type, nothing is extended and no service is offered. So the
file is linked whatever else is there, as long as its names are new, and each of its fields becomes a slot by itself.

## Main statements

* `Pool.link?_of_isPlain`: what linking such a file adds to a pool.
* `Library.ofFiles_of_isPlain`: the library of such a file.
* `Library.linked?_of_isPlain`: its message types are linked as they are declared.
* `Library.of_isSingleFile`: the library of a plain file with one message type.
-/

namespace ContractShell

namespace Descriptor

/-! ## 1. Fields and files -/

/-- A field of a plain type without a default. -/
def Field.isPlain (f : Field) : Bool := f.type.any (fun t => !t.isNamed) && f.typeName.isNone && f.default.isNone

/-- A file that needs no definition besides its own, and none of its own either. -/
def File.isPlain (f : File) : Bool :=
  f.dependencies.isEmpty && f.lacking.isEmpty && f.allExtensions.isEmpty && f.services.isEmpty &&
    f.featuredMessages.all fun m => m.2.2.fields.all Field.isPlain

/-- The slot of a field of a plain type. -/
def Field.plainSlot (features : Features) (f : Field) : Slot where
  name := f.name
  number := f.number.toNat
  type := f.effectiveType
  target := ""
  repeated := f.effectiveLabel == .repeated
  required := f.finalLabel features == .required
  hasPresence := !(f.effectiveLabel == .repeated) && (f.oneofIndex.isSome || features.presence != .implicit)
  oneof := f.oneofIndex.map Int.toNat
  checksText := features.checksText
  default := .zero

/-- A message type whose fields are plain, with its slots. -/
def plainLinked (chosen : Bool) (m : String × Features × Message) : Linked where
  name := m.1
  slots := m.2.2.fields.map fun f => f.plainSlot (m.2.2.featuresOf chosen m.2.1 f)
  extensionRanges := m.2.2.extensionRanges
  isContainer := m.2.2.isContainer

namespace Pool

/-! ## 2. Linking -/

/-- A plain field becomes a slot whatever names there are. -/
theorem slot?_of_isPlain {f : Field} (h : f.isPlain = true) (s : Symbols) (third inEntry : Bool) (features : Features)
    (place : String) : slot? s third features inEntry place f = some (f.plainSlot features) := by
  obtain ⟨name, number, label, type, typeName, extendee, default, options, oneofIndex, jsonName, ownOneof⟩ := f
  unfold Field.isPlain at h
  rw [Bool.and_eq_true, Bool.and_eq_true, Option.isNone_iff_eq_none, Option.isNone_iff_eq_none] at h
  obtain ⟨⟨htype, rfl⟩, rfl⟩ := h
  cases type with
  | none => cases htype
  | some t =>
    cases t with
    | message | group | enum => cases htype
    | _ => rfl

theorem linked?_of_isPlain {m : String × Features × Message} (h : m.2.2.fields.all Field.isPlain = true) (s : Symbols)
    (third chosen : Bool) : linked? s third chosen m = some (plainLinked chosen m) := by
  obtain ⟨name, features, message⟩ := m
  unfold linked?
  have hslots := @mapM_eq_some_map _ _
    (fun f => slot? s third (message.featuresOf chosen features f) message.isMapEntry name f)
    (fun f => f.plainSlot (message.featuresOf chosen features f)) message.fields
    fun f hf => slot?_of_isPlain (List.all_eq_true.mp h f hf) s third _ _ name
  simp only [hslots]
  rfl

/-- A plain file adds its names and its message types to a pool, and no more. -/
theorem link?_of_isPlain {p : Pool} {f : File} (hplain : f.isPlain = true) (hsound : f.isSound = true)
    (hnew : p.areNew f.symbols = true)
    (hdistinct : arePairsDistinct (p.extensions.map fun x => (x.1, x.2.number)) = true) :
    p.link? f = some ⟨p.symbols ++ f.symbols, p.messages ++ f.featuredMessages.map (plainLinked f.hasEdition),
      p.extensions⟩ := by
  unfold File.isPlain at hplain
  simp only [Bool.and_eq_true, List.isEmpty_iff] at hplain
  obtain ⟨⟨⟨-, hextensions⟩, hservices⟩, hfields⟩ := hplain
  rw [link?_eq_some_iff]
  -- There are neither extensions nor services, and the slots need no names.
  refine ⟨hsound, hnew, f.featuredMessages.map (plainLinked f.hasEdition), [], ?_, ?_, ?_, ?_, ?_⟩
  · exact mapM_eq_some_map fun m hm => linked?_of_isPlain (List.all_eq_true.mp hfields m hm) _ _ _
  · rw [hextensions]
    rfl
  · rw [List.append_nil]
    exact hdistinct
  · rw [hservices]
    rfl
  · rw [List.append_nil]

end Pool

/-! ## 3. The standard definitions -/

namespace Standard

/-- The standard pool has no definitions besides those of the standard file. -/
theorem pool_eq : pool = Pool.empty ∨ ∃ added, pool = ⟨file.symbols, added, []⟩ ∧
    added.map (·.name) = file.featuredMessages.map (·.1) := by
  unfold pool
  cases h : Pool.empty.link? file with
  | none => exact .inl rfl
  | some q =>
    right
    obtain ⟨-, -, added, extensions, hadded, hextensions, -, -, rfl⟩ := Pool.link?_eq_some_iff.mp h
    have hnone : file.allExtensions = [] := List.isEmpty_iff.mp (by decide +kernel)
    rw [hnone] at hextensions
    cases hextensions
    refine ⟨added, rfl, (map_eq_of_forall₂ ?_ (forall₂_of_mapM hadded)).symm⟩
    rintro ⟨name, features, m⟩ l hl
    unfold Pool.linked? at hl
    simp only [Option.bind_eq_bind, Option.bind_eq_some_iff] at hl
    obtain ⟨slots, -, hl⟩ := hl
    cases hl
    rfl

theorem extensions_pool : pool.extensions = [] := by
  rcases pool_eq with h | ⟨added, h, -⟩
  · rw [h]
    rfl
  · rw [h]

/-- Names that the standard file does not declare are new to the standard pool. -/
theorem areNew_pool {declared : Symbols} (hdistinct : areDistinct (declared.map (·.1)) = true)
    (hnew : declared.all (fun d => (file.symbols.find? d.1).isNone) = true) : pool.areNew declared = true := by
  unfold Pool.areNew
  rw [hdistinct, Bool.true_and]
  rcases pool_eq with h | ⟨added, h, -⟩
  · rw [h, List.all_eq_true]
    intro d _
    rfl
  · rw [h]
    exact hnew

/-- The standard pool knows no message type that the standard file does not declare. -/
theorem find?_pool_of_not_mem {name : String} (h : name ∉ file.featuredMessages.map (·.1)) : pool.find? name = none := by
  rw [Pool.find?, List.find?_eq_none]
  intro l hl heq
  rw [beq_iff_eq] at heq
  rcases pool_eq with hpool | ⟨added, hpool, hnames⟩
  · rw [hpool] at hl
    cases hl
  · rw [hpool] at hl
    apply h
    rw [← hnames, ← heq]
    exact List.mem_map_of_mem hl

end Standard

end Descriptor

/-! ## 4. Libraries -/

open Descriptor (File)

namespace Library

/-- The library of one plain file. -/
def ofPlain (f : File) : Library where
  files := [f]
  messages := f.allMessages.reverse
  pool :=
    { symbols := Descriptor.Standard.pool.symbols ++ f.symbols
      messages := Descriptor.Standard.pool.messages ++ f.featuredMessages.map (Descriptor.plainLinked f.hasEdition)
      extensions := Descriptor.Standard.pool.extensions }

/-- A plain file is loaded when it keeps the rules and its names are not those of the standard definitions. -/
theorem ofFiles_of_isPlain {f : File} (hplain : f.isPlain = true) (hsound : f.isSound = true)
    (hname : f.name ≠ Descriptor.Standard.fileName) (hnew : Descriptor.Standard.pool.areNew f.symbols = true) :
    ofFiles [f] = .ok (ofPlain f) := by
  have hlink := Descriptor.Pool.link?_of_isPlain hplain hsound hnew (by rw [Descriptor.Standard.extensions_pool]; rfl)
  unfold File.isPlain at hplain
  simp only [Bool.and_eq_true, List.isEmpty_iff] at hplain
  obtain ⟨⟨⟨⟨hdependencies, hlacking⟩, -⟩, -⟩, -⟩ := hplain
  have hset : fileSet [f] = [f] := rfl
  have hfind : fileNamed? (availableFiles [f]) f.name = some f := by
    unfold availableFiles fileNamed?
    split
    · simp
    · simp
  have hfresh : f.name ∉ Loaded.start.names := by
    simp only [Loaded.start, List.mem_singleton]
    exact hname
  -- The file depends on none, so it is linked at once.
  have hfile : loadFile (availableFiles [f]) [] Loaded.start f.name = Loaded.start.link f := by
    rw [loadFile_of_some hfresh List.not_mem_nil hfind, hdependencies, loadFiles]
    rfl
  have hloaded : Loaded.start.link f = .ok ⟨f.name :: Loaded.start.names, (ofPlain f).pool⟩ := by
    unfold Loaded.link
    rw [hlacking]
    simp only [Loaded.start, hlink]
    rfl
  unfold ofFiles
  simp only [hset, List.map_cons, List.map_nil, loadFiles, hfile, hloaded, List.flatMap_cons, List.flatMap_nil, List.append_nil]
  rfl

/-- The library of a byte string that is one plain file. -/
theorem ofBytes_of_isPlain {b : Bytes} (hset : Wire.wellFormed Descriptor.formatLayouts Descriptor.fileSetType b = false)
    (hfile : Wire.wellFormed Descriptor.formatLayouts Descriptor.fileType b = true)
    (hnamed : (File.ofBytes b).name.isEmpty = false) (hplain : (File.ofBytes b).isPlain = true)
    (hsound : (File.ofBytes b).isSound = true) (hname : (File.ofBytes b).name ≠ Descriptor.Standard.fileName)
    (hnew : Descriptor.Standard.pool.areNew (File.ofBytes b).symbols = true) :
    ofBytes b = .ok (ofPlain (File.ofBytes b)) := by
  have hfiles : Descriptor.filesOf b = .ok [File.ofBytes b] := by
    unfold Descriptor.filesOf Descriptor.filesOfSet? Descriptor.fileOf?
    rw [hset, hfile]
    simp [hnamed]
  unfold ofBytes
  rw [hfiles]
  exact ofFiles_of_isPlain hplain hsound hname hnew

theorem nodup_of_areDistinct {names : List String} (h : Descriptor.areDistinct names = true) : names.Nodup := by
  induction names with
  | nil => exact List.nodup_nil
  | cons name names ih =>
    rw [Descriptor.areDistinct, Bool.and_eq_true, Bool.not_eq_true', List.contains_eq_mem, decide_eq_false_iff_not] at h
    rw [List.nodup_cons]
    exact ⟨h.1, ih h.2⟩

/-- No two message types of a file whose names are new have one name. -/
theorem nodup_names_of_areNew {f : File} {p : Descriptor.Pool} (hnew : p.areNew f.symbols = true) :
    (f.featuredMessages.map (·.1)).Nodup := by
  unfold Descriptor.Pool.areNew at hnew
  rw [Bool.and_eq_true] at hnew
  have hnodup := nodup_of_areDistinct hnew.1
  unfold File.symbols File.allMessages at hnodup
  simp only [List.map_append, List.map_map] at hnodup
  exact (List.nodup_append.mp (List.nodup_append.mp (List.nodup_append.mp hnodup).1).1).1

section

variable {f : File} {m : String × Descriptor.Features × Descriptor.Message}

/-- The message types of a plain file are declared in its library. -/
theorem declared?_of_isPlain (hnew : Descriptor.Standard.pool.areNew f.symbols = true) (hm : m ∈ f.featuredMessages) :
    (ofPlain f).declared? m.1 = some m.2.2 := by
  have hnames : (f.allMessages.reverse.map (·.1)).Nodup := by
    rw [List.map_reverse, List.nodup_reverse, File.allMessages, List.map_map]
    exact nodup_names_of_areNew hnew
  have hmem : (m.1, m.2.2) ∈ f.allMessages.reverse :=
    List.mem_reverse.mpr (List.mem_map_of_mem (f := fun x => (x.1, x.2.2)) hm)
  have hfind := find?_eq_some_of_nodup hnames hmem
  unfold declared? ofPlain
  simp only at hfind ⊢
  rw [hfind]
  rfl

/-- The message types of a plain file are linked as they are declared. -/
theorem linked?_of_isPlain (hnew : Descriptor.Standard.pool.areNew f.symbols = true) (hm : m ∈ f.featuredMessages)
    (hbare : bareName m.1 = m.1) (hother : m.1 ∉ Descriptor.Standard.file.featuredMessages.map (·.1)) :
    (ofPlain f).linked? m.1 = some (Descriptor.plainLinked f.hasEdition m) := by
  have hnames : ((f.featuredMessages.map (Descriptor.plainLinked f.hasEdition)).map (·.name)).Nodup := by
    rw [List.map_map]
    exact nodup_names_of_areNew hnew
  have hfind := find?_eq_some_of_nodup hnames (List.mem_map_of_mem hm)
  have hstandard := Descriptor.Standard.find?_pool_of_not_mem hother
  unfold Descriptor.Pool.find? at hstandard
  unfold linked? Descriptor.Pool.find? ofPlain
  rw [hbare, List.find?_append, hstandard, Option.none_or]
  exact hfind

end

/-! ## 5. One message type -/

/-- The bytes are one plain file of the third dialect with one message type, whose fields choose no features. No name in the
file is that of a standard definition. -/
def isSingleFile (type : String) (fields : List Descriptor.Field) (b : Bytes) : Bool :=
  let f := File.ofBytes b
  !Wire.wellFormed Descriptor.formatLayouts Descriptor.fileSetType b &&
    Wire.wellFormed Descriptor.formatLayouts Descriptor.fileType b && !f.name.isEmpty && f.isPlain && f.isSound &&
    f.name != Descriptor.Standard.fileName && Descriptor.areDistinct (f.symbols.map (·.1)) &&
    f.symbols.all (fun d => (Descriptor.Standard.file.symbols.find? d.1).isNone) &&
    !(Descriptor.Standard.file.featuredMessages.map (·.1)).contains type && bareName type == type &&
    f.featuredMessages.map (fun m => (m.1, m.2.1, m.2.2.fields)) == [(type, .third, fields)] &&
    f.featuredMessages.all fun m => m.2.2.fields.all fun g => m.2.2.featuresOf f.hasEdition m.2.1 g == .third

/-- The library of such a file, and what it knows of the message type. -/
theorem of_isSingleFile {type : String} {fields : List Descriptor.Field} {b : Bytes}
    (h : isSingleFile type fields b = true) :
    ofBytes b = .ok (ofPlain (File.ofBytes b)) ∧
      (∃ m, (ofPlain (File.ofBytes b)).declared? type = some m ∧ m.fields = fields) ∧
      ∃ linked, (ofPlain (File.ofBytes b)).linked? type = some linked ∧
        linked.slots = fields.map fun f => f.plainSlot .third := by
  unfold isSingleFile at h
  simp only [Bool.and_eq_true, Bool.not_eq_true', bne_iff_ne, beq_iff_eq, List.contains_eq_mem,
    decide_eq_false_iff_not] at h
  obtain ⟨⟨⟨⟨⟨⟨⟨⟨⟨⟨⟨hset, hfile⟩, hnamed⟩, hplain⟩, hsound⟩, hname⟩, hdistinct⟩, hfresh⟩, hother⟩, hbare⟩,
    hmessages⟩, hfeatures⟩ := h
  -- All that is known of the file are its names and the fields of its one message type.
  have hnew := Descriptor.Standard.areNew_pool hdistinct hfresh
  obtain ⟨⟨name, features, message⟩, hsingle, hmessage⟩ := List.map_eq_singleton_iff.mp hmessages
  simp only [Prod.mk.injEq] at hmessage
  obtain ⟨rfl, rfl, rfl⟩ := hmessage
  have hmem : (name, Descriptor.Features.third, message) ∈ (File.ofBytes b).featuredMessages := by
    rw [hsingle]
    exact List.mem_singleton_self _
  have hthird := List.all_eq_true.mp (List.all_eq_true.mp hfeatures _ hmem)
  have hdeclared := declared?_of_isPlain hnew hmem
  have hlinked := linked?_of_isPlain hnew hmem hbare hother
  refine ⟨ofBytes_of_isPlain hset hfile hnamed hplain hsound hname hnew, ⟨message, hdeclared, rfl⟩, _, hlinked, ?_⟩
  unfold Descriptor.plainLinked
  apply List.map_congr_left
  intro f hf
  rw [beq_iff_eq.mp (hthird f hf)]

end Library

end ContractShell
