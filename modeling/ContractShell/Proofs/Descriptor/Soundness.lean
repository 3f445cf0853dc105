import ContractShell.Library.Basic
import ContractShell.Proofs.Correspondence
import ContractShell.Proofs.Wire.Reading
import Mathlib.Data.List.Nodup

/-!
Sound pools: the fields of every linked message type have different names and different numbers, which are numbers that a
tag can hold.

## Main statements

* `Pool.isSound_link`: linking a file keeps a pool sound.
* `loadFiles_keeps`: what linking each file keeps is kept when all are loaded.
* `Library.IsLoaded.isSound`: the pool of every library is sound.
-/

namespace ContractShell

namespace Descriptor

/-! ## 1. Message types -/

/-- The slots of a message type are told apart by their names and by their numbers. A container has none. -/
structure Linked.IsSound (l : Linked) : Prop where
  names : (l.slots.map (·.name)).Nodup
  numbers : (l.slots.map (·.number)).Nodup
  inRange : ∀ s ∈ l.slots, Wire.IsNumber s.number
  container : l.isContainer = true → l.slots = []

/-- All message types of a pool are sound. -/
def Pool.IsSound (p : Pool) : Prop := ∀ l ∈ p.messages, l.IsSound

/-- Fields without clashes have names and numbers that are new and differ from each other. -/
theorem of_noClashes {separate lenient : Bool} {names documents : List String} {numbers : List Int}
    {fields : List Field} (h : noClashes separate lenient names documents numbers fields = true) :
    (∀ f ∈ fields, f.name ∉ names) ∧ (fields.map (·.name)).Nodup ∧
      (∀ f ∈ fields, f.number ∉ numbers ∧ 1 ≤ f.number ∧ f.number ≤ maxFieldNumber) ∧
      (fields.map (·.number)).Nodup := by
  -- The lists hold what came before, so what is new to them differs from every earlier field.
  induction fields generalizing names documents numbers with
  | nil => simp
  | cons f r ih =>
    rw [noClashes] at h
    simp only [Bool.and_eq_true, Bool.not_eq_true', List.contains_eq_mem, decide_eq_true_eq, decide_eq_false_iff_not] at h
    obtain ⟨⟨⟨hname, -⟩, ⟨hlow, hhigh⟩, hnumber⟩, hrest⟩ := h
    obtain ⟨hnames, hnodup, hnumbers, hdistinct⟩ := ih hrest
    refine ⟨?_, ?_, ?_, ?_⟩
    · intro g hg
      rcases List.mem_cons.mp hg with rfl | hg
      · exact hname
      · exact fun hmem => hnames g hg (List.mem_cons_of_mem _ hmem)
    · rw [List.map_cons, List.nodup_cons]
      refine ⟨fun hmem => ?_, hnodup⟩
      obtain ⟨g, hg, heq⟩ := List.mem_map.mp hmem
      exact hnames g hg (by rw [heq]; exact List.mem_cons_self)
    · intro g hg
      rcases List.mem_cons.mp hg with rfl | hg
      · exact ⟨hnumber, hlow, hhigh⟩
      · exact ⟨fun hmem => (hnumbers g hg).1 (List.mem_cons_of_mem _ hmem), (hnumbers g hg).2⟩
    · rw [List.map_cons, List.nodup_cons]
      refine ⟨fun hmem => ?_, hdistinct⟩
      obtain ⟨g, hg, heq⟩ := List.mem_map.mp hmem
      exact (hnumbers g hg).1 (by rw [heq]; exact List.mem_cons_self)

/-- A slot has the name and the number of its field. -/
theorem Pool.of_slot? {s : Symbols} {third inEntry : Bool} {features : Features} {place : String} {f : Field}
    {slot : Slot} (h : slot? s third features inEntry place f = some slot) :
    slot.name = f.name ∧ slot.number = f.number.toNat := by
  unfold slot? at h
  simp only [Option.bind_eq_bind, Option.bind_eq_some_iff] at h
  obtain ⟨⟨type, name, target⟩, -, default, -, hslot⟩ := h
  cases hslot
  exact ⟨rfl, rfl⟩

/-- A message type that keeps the rules is sound when it is linked. -/
theorem Pool.isSound_linked {s : Symbols} {third chosen : Bool} {name : String} {features : Features} {m : Message}
    (hm : m.isSound third chosen features = true) {l : Linked} (h : linked? s third chosen (name, features, m) = some l) :
    l.IsSound := by
  unfold Message.isSound at hm
  simp only [Bool.and_eq_true] at hm
  obtain ⟨⟨⟨⟨⟨⟨-, hclashes⟩, hcontainer⟩, -⟩, -⟩, -⟩, -⟩ := hm
  obtain ⟨-, hnames, hnumbers, hdistinct⟩ := of_noClashes hclashes
  unfold linked? at h
  simp only [Option.bind_eq_bind, Option.bind_eq_some_iff] at h
  obtain ⟨slots, hslots, hl⟩ := h
  cases hl
  -- The slots are made of the fields one by one, so what tells the fields apart tells the slots apart.
  have hfields := forall₂_of_mapM hslots
  have hslotNames : m.fields.map (·.name) = slots.map (·.name) := by
    apply map_eq_of_forall₂ _ hfields
    intro f slot hslot
    exact (of_slot? hslot).1.symm
  have hslotNumbers : (m.fields.map (·.number)).map Int.toNat = slots.map (·.number) := by
    rw [List.map_map]
    apply map_eq_of_forall₂ _ hfields
    intro f slot hslot
    exact (of_slot? hslot).2.symm
  refine ⟨?_, ?_, ?_, ?_⟩
  · rw [← hslotNames]
    exact hnames
  · -- Numbers are positive, so none of them are made equal as naturals.
    rw [← hslotNumbers]
    apply List.Nodup.map_on _ hdistinct
    intro a ha b hb heq
    obtain ⟨f, hf, rfl⟩ := List.mem_map.mp ha
    obtain ⟨g, hg, rfl⟩ := List.mem_map.mp hb
    have := (hnumbers f hf).2.1
    have := (hnumbers g hg).2.1
    omega
  · intro slot hslot
    have hmem : slot.number ∈ (m.fields.map (·.number)).map Int.toNat := by
      rw [hslotNumbers]
      exact List.mem_map_of_mem hslot
    obtain ⟨n, hn, heq⟩ := List.mem_map.mp hmem
    obtain ⟨f, hf, rfl⟩ := List.mem_map.mp hn
    obtain ⟨-, hlow, hhigh⟩ := hnumbers f hf
    unfold maxFieldNumber at hhigh
    constructor <;> omega
  · intro hisContainer
    have hisContainer : m.isContainer = true := hisContainer
    have hempty : m.fields = [] := by
      rw [hisContainer] at hcontainer
      simpa using hcontainer
    rw [hempty] at hfields
    cases hfields
    rfl

/-! ## 2. Pools -/

/-- A file is linked just when its definitions keep their rules, are new, and refer to what is there. -/
theorem Pool.link?_eq_some_iff {p q : Pool} {f : File} :
    p.link? f = some q ↔
      f.isSound = true ∧ p.areNew f.symbols = true ∧ ∃ added extensions,
        f.featuredMessages.mapM (linked? (p.symbols ++ f.symbols) f.isThird f.hasEdition) = some added ∧
        f.allExtensions.mapM (extension? (p.symbols ++ f.symbols) (p.messages ++ added) f.isThird f.hasEdition) =
          some extensions ∧
        arePairsDistinct ((p.extensions ++ extensions).map fun x => (x.1, x.2.number)) = true ∧
        f.services.all (fun s => s.procedures.all (procedureFits (p.symbols ++ f.symbols) (qualify f.package s.name))) =
          true ∧
        q = ⟨p.symbols ++ f.symbols, p.messages ++ added, p.extensions ++ extensions⟩ := by
  unfold link?
  simp only [Option.bind_eq_bind]
  constructor
  · intro h
    split at h
    · rename_i hsound
      obtain ⟨added, hadded, h⟩ := Option.bind_eq_some_iff.mp h
      obtain ⟨extensions, hextensions, h⟩ := Option.bind_eq_some_iff.mp h
      split at h
      · rename_i hfits
        cases h
        rw [Bool.and_eq_true] at hsound hfits
        exact ⟨hsound.1, hsound.2, added, extensions, hadded, hextensions, hfits.1, hfits.2, rfl⟩
      · cases h
    · cases h
  · rintro ⟨hsound, hnew, added, extensions, hadded, hextensions, hdistinct, hservices, rfl⟩
    rw [if_pos (by rw [hsound, hnew]; rfl), hadded, Option.bind_some, hextensions, Option.bind_some,
      if_pos (by rw [hdistinct, hservices]; rfl)]

/-- Linking a file keeps a pool sound. -/
theorem Pool.isSound_link {p q : Pool} {f : File} (hp : p.IsSound) (h : p.link? f = some q) : q.IsSound := by
  obtain ⟨hsound, -, added, extensions, hadded, -, -, -, rfl⟩ := link?_eq_some_iff.mp h
  have hmessages : ∀ m ∈ f.featuredMessages, m.2.2.isSound f.isThird f.hasEdition m.2.1 = true := by
    simp only [File.isSound, Bool.and_eq_true] at hsound
    exact List.all_eq_true.mp hsound.1.1.1.2
  intro l hl
  rcases List.mem_append.mp hl with hl | hl
  · exact hp l hl
  · obtain ⟨⟨name, features, m⟩, hm, hlinked⟩ := forall₂_mem_left (forall₂_of_mapM hadded) hl
    exact isSound_linked (hmessages _ hm) hlinked

theorem Pool.isSound_empty : Pool.empty.IsSound := by
  intro l hl
  cases hl

theorem Standard.isSound_pool : Standard.pool.IsSound := by
  unfold Standard.pool
  cases h : Pool.empty.link? Standard.file with
  | none => exact Pool.isSound_empty
  | some q => exact Pool.isSound_link Pool.isSound_empty h

end Descriptor

/-! ## 3. Libraries -/

theorem Loaded.isSound_link {l l' : Loaded} {f : Descriptor.File} (hl : l.pool.IsSound) (h : l.link f = .ok l') :
    l'.pool.IsSound := Descriptor.Pool.isSound_link hl (mem_names_of_link h).2

theorem Loaded.isSound_start : Loaded.start.pool.IsSound := by
  simp only [Loaded.start]
  exact Descriptor.Standard.isSound_pool

/-- What linking each of some files keeps is kept when they are loaded, in whatever order. -/
theorem loadFiles_keeps {P : Loaded → Prop} {files : List Descriptor.File}
    (hlink : ∀ f l l', fileNamed? files f.name = some f → P l → l.link f = .ok l' → P l')
    {trail names : List String} {l l' : Loaded} (hl : P l) (h : loadFiles files trail l names = .ok l') : P l' := by
  -- The induction is on the files that are not on the trail, as the recursion's own, and then on the names.
  induction hn : unvisited files trail using Nat.strongRecOn generalizing trail names l l' with
  | ind n ih =>
    induction names generalizing l with
    | nil =>
      rw [loadFiles] at h
      cases h
      exact hl
    | cons name names ihNames =>
      rw [loadFiles] at h
      cases hfile : loadFile files trail l name with
      | error fault =>
        rw [hfile] at h
        cases h
      | ok next =>
        rw [hfile] at h
        refine ihNames ?_ h
        rcases of_loadFile_eq_ok hfile with ⟨-, rfl⟩ | ⟨f, between, hwaiting, hf, hdeps, hlinked⟩
        · exact hl
        · have hless : unvisited files (name :: trail) < n := by
            rw [← hn]
            exact unvisited_lt hf (mt List.contains_iff_mem.mp hwaiting)
          have hname : f.name = name := by simpa using List.find?_some hf
          exact hlink f between next (by rw [hname]; exact hf) (ih _ hless hl hdeps rfl) hlinked

/-- Linking files after those that they depend on keeps the pool sound. -/
theorem isSound_loadFiles {files : List Descriptor.File} {trail names : List String} {l l' : Loaded}
    (hl : l.pool.IsSound) (h : loadFiles files trail l names = .ok l') : l'.pool.IsSound := by
  apply @loadFiles_keeps (fun l => l.pool.IsSound) files _ trail names l l' hl h
  intro f l l' _ hl hlink
  exact Loaded.isSound_link hl hlink

/-- A library that was loaded from files; those from bytes and from texts are among them. -/
def Library.IsLoaded (lib : Library) : Prop := ∃ files, Library.ofFiles files = .ok lib

theorem Library.isLoaded_ofBytes {b : Bytes} {lib : Library} (h : Library.ofBytes b = .ok lib) : lib.IsLoaded := by
  unfold Library.ofBytes at h
  split at h
  · cases h
  · exact ⟨_, h⟩

theorem Library.isLoaded_ofText {text : String} {lib : Library} (h : Library.ofText text = .ok lib) : lib.IsLoaded := by
  unfold Library.ofText at h
  split at h
  · exact isLoaded_ofBytes h
  · split at h
    · exact isLoaded_ofBytes h
    · cases h

/-- A loaded library has the message types of its files, and the pool of all files that were loaded for them. -/
theorem Library.ofFiles_eq_ok_iff {files : List Descriptor.File} {lib : Library} :
    Library.ofFiles files = .ok lib ↔
      ∃ l, loadFiles (availableFiles (fileSet files)) [] Loaded.start ((fileSet files).map (·.name)) = .ok l ∧
        lib = ⟨fileSet files, ((fileSet files).flatMap (·.allMessages)).reverse, l.pool⟩ := by
  unfold Library.ofFiles
  simp only
  cases loadFiles (availableFiles (fileSet files)) [] Loaded.start ((fileSet files).map (·.name)) with
  | error fault => simp
  | ok l => simp [eq_comm]

/-- The pool of every library is sound. -/
theorem Library.IsLoaded.isSound {lib : Library} (h : lib.IsLoaded) : lib.pool.IsSound := by
  obtain ⟨files, hfiles⟩ := h
  obtain ⟨l, hload, rfl⟩ := ofFiles_eq_ok_iff.mp hfiles
  exact isSound_loadFiles Loaded.isSound_start hload

theorem Library.isSound_ofText {text : String} {lib : Library} (h : Library.ofText text = .ok lib) :
    lib.pool.IsSound := (isLoaded_ofText h).isSound

end ContractShell
