import ContractShell.Proofs.Library.Plain

/-!
Which message types of a library are linked.

Files are loaded after those that they depend on, and none twice. A file that bears the name of the standard definitions is
passed over, since those are there from the start. The message types of every other file are linked, with a slot for each
field, in the order of the fields.

## Main statements

* `Pool.links_link`: linking a file links its message types and keeps those that are linked.
* `Library.IsLoaded.links`: all files of a library are linked, unless they are passed over.
* `Library.IsLoaded.exists_linked`: a declared message type has a linked one that was made of it.
-/

namespace ContractShell

namespace Descriptor

/-! ## 1. What is made of a declaration -/

/-- A slot was made of a field that stands at a place, in a dialect and with features. -/
def Slot.IsOf (slot : Slot) (third : Bool) (features : Features) (place : String) (f : Field) : Prop :=
  ∃ s inEntry, Pool.slot? s third features inEntry place f = some slot

/-- A linked message type was made of a declared one with its full name and features. -/
structure Linked.IsOf (l : Linked) (third chosen : Bool) (x : String × Features × Message) : Prop where
  name : l.name = x.1
  slots : List.Forall₂ (fun f slot => Slot.IsOf slot third (x.2.2.featuresOf chosen x.2.1 f) x.1 f) x.2.2.fields l.slots

theorem Linked.isOf_of_linked? {s : Symbols} {third chosen : Bool} {x : String × Features × Message} {l : Linked}
    (h : Pool.linked? s third chosen x = some l) : l.IsOf third chosen x := by
  obtain ⟨name, features, m⟩ := x
  unfold Pool.linked? at h
  simp only [Option.bind_eq_bind, Option.bind_eq_some_iff] at h
  obtain ⟨slots, hslots, hl⟩ := h
  cases hl
  refine ⟨rfl, ?_⟩
  show List.Forall₂ _ m.fields slots
  apply (forall₂_of_mapM hslots).imp
  intro f slot hslot
  exact ⟨s, _, hslot⟩

section

variable {slot : Slot} {third : Bool} {features : Features} {place : String} {f : Field}

theorem Slot.IsOf.name (h : slot.IsOf third features place f) : slot.name = f.name := by
  obtain ⟨s, inEntry, h⟩ := h
  exact (Pool.of_slot? h).1

theorem Slot.IsOf.repeated (h : slot.IsOf third features place f) : slot.repeated = (f.effectiveLabel == .repeated) := by
  obtain ⟨s, inEntry, h⟩ := h
  unfold Pool.slot? at h
  simp only [Option.bind_eq_bind, Option.bind_eq_some_iff] at h
  obtain ⟨⟨type, name, target⟩, -, default, -, hslot⟩ := h
  cases hslot
  rfl

/-- A slot has the type of its field, except that a nested message may be written as a group. -/
theorem Slot.IsOf.type {t : FieldType} (h : slot.IsOf third features place f) (ht : f.type = some t) :
    slot.type = t ∨ (t = .message ∧ slot.type = .group) := by
  obtain ⟨s, inEntry, h⟩ := h
  unfold Pool.slot? at h
  simp only [Option.bind_eq_bind, Option.bind_eq_some_iff] at h
  obtain ⟨⟨type, name, target⟩, htarget, default, -, hslot⟩ := h
  have htype : type = t := by
    unfold Pool.target? at htarget
    rw [ht] at htarget
    cases hn : f.typeName with
    | none =>
      simp only [hn] at htarget
      split at htarget
      · cases htarget
      · cases htarget
        rfl
    | some n =>
      simp only [hn] at htarget
      split at htarget
      · obtain ⟨found, -, heq⟩ := Option.map_eq_some_iff.mp htarget
        cases heq
        rfl
      · cases htarget
  cases hslot
  show (if _ then FieldType.group else type) = t ∨ _
  rw [htype]
  split
  · rename_i hgroup
    simp only [Bool.and_eq_true, beq_iff_eq] at hgroup
    exact .inr ⟨hgroup.1.1.1, rfl⟩
  · exact .inl rfl

/-- A slot that refers to a message type was given its name. -/
theorem Slot.IsOf.exists_typeName (h : slot.IsOf third features place f) (ht : f.type = some .message) :
    ∃ name, f.typeName = some name := by
  obtain ⟨s, inEntry, h⟩ := h
  cases hn : f.typeName with
  | some name => exact ⟨name, rfl⟩
  | none =>
    unfold Pool.slot? Pool.target? at h
    rw [ht, hn] at h
    cases h

/-- A name that starts with a point is the full name of what a slot refers to. -/
theorem Slot.IsOf.target {full : List Char} {typeName : String} (h : slot.IsOf third features place f)
    (ht : f.type = some .message) (hname : f.typeName = some typeName) (hfull : typeName.toList = '.' :: full) :
    slot.target = String.ofList full := by
  obtain ⟨s, inEntry, h⟩ := h
  unfold Pool.slot? at h
  simp only [Option.bind_eq_bind, Option.bind_eq_some_iff] at h
  obtain ⟨⟨type, name, target⟩, htarget, default, -, hslot⟩ := h
  cases hslot
  show name = String.ofList full
  unfold Pool.target? Symbols.resolve? at htarget
  simp only [ht, hname, hfull] at htarget
  obtain ⟨found, hfound, heq⟩ := Option.map_eq_some_iff.mp htarget
  obtain ⟨symbol, -, rfl⟩ := Option.map_eq_some_iff.mp hfound
  cases heq
  rfl

end

section

variable {l : Linked} {third chosen : Bool} {x : String × Features × Message}

/-- The slots of a linked message type have the names of the declared fields. -/
theorem Linked.IsOf.names (h : l.IsOf third chosen x) : l.slots.map (·.name) = x.2.2.fields.map (·.name) := by
  symm
  apply map_eq_of_forall₂ _ h.slots
  intro f slot hslot
  exact hslot.name.symm

/-- Each declared field is found as the slot that was made of it. -/
theorem Linked.IsOf.exists_slot (h : l.IsOf third chosen x) (hsound : l.IsSound) {f : Field} (hf : f ∈ x.2.2.fields) :
    ∃ slot, l.slot? f.name = some slot ∧ slot.IsOf third (x.2.2.featuresOf chosen x.2.1 f) x.1 f := by
  obtain ⟨slot, hmem, hslot⟩ := forall₂_mem_right h.slots hf
  refine ⟨slot, ?_, hslot⟩
  have hfind := find?_eq_some_of_nodup hsound.names hmem
  rw [hslot.name] at hfind
  exact hfind

end

/-! ## 2. Pools -/

namespace Pool

/-- The names of linked message types are taken. -/
def KnowsNames (p : Pool) : Prop := ∀ l ∈ p.messages, (p.symbols.find? l.name).isSome = true

/-- The message types that a file declares are linked, and their names are such as a declaration can have. -/
structure Links (p : Pool) (f : File) : Prop where
  sound : f.isSound = true
  messages : ∀ x ∈ f.featuredMessages, ∃ l, p.find? x.1 = some l ∧ l.IsOf f.isThird f.hasEdition x

theorem isSome_symbols_append {s t : Symbols} {name : String} :
    (Symbols.find? (s ++ t) name).isSome = true ↔ (s.find? name).isSome = true ∨ (t.find? name).isSome = true := by
  rw [Symbols.find?_append]
  cases s.find? name with
  | none => simp
  | some x => simp

/-- A file's symbols have the names of its message types. -/
theorem isSome_symbols_of_mem {f : File} {m : String × Features × Message} (hm : m ∈ f.featuredMessages) :
    (f.symbols.find? m.1).isSome = true := by
  unfold Symbols.find?
  rw [Option.isSome_map, List.find?_isSome]
  refine ⟨(m.1, .message m.2.2.isMapEntry), ?_, beq_self_eq_true m.1⟩
  unfold File.symbols File.allMessages
  simp only [List.mem_append, List.mem_map]
  exact .inl (.inl (.inl ⟨(m.1, m.2.2), ⟨m, hm, rfl⟩, rfl⟩))

section

variable {p q : Pool} {f : File}

theorem knowsNames_link (hp : p.KnowsNames) (h : p.link? f = some q) : q.KnowsNames := by
  obtain ⟨-, -, added, extensions, hadded, -, -, -, rfl⟩ := link?_eq_some_iff.mp h
  intro l hl
  apply isSome_symbols_append.mpr
  rcases List.mem_append.mp hl with hl | hl
  · exact .inl (hp l hl)
  · obtain ⟨m, hm, hlinked⟩ := forall₂_mem_left (forall₂_of_mapM hadded) hl
    rw [(Linked.isOf_of_linked? hlinked).name]
    exact .inr (isSome_symbols_of_mem hm)

/-- Linking a file links its message types and keeps those that are linked. -/
theorem links_link (hp : p.KnowsNames) (h : p.link? f = some q) : q.Links f ∧ ∀ g, p.Links g → q.Links g := by
  constructor
  · obtain ⟨hsound, hnew, added, extensions, hadded, -, -, -, rfl⟩ := link?_eq_some_iff.mp h
    have hmade := forall₂_of_mapM hadded
    have hnames : f.featuredMessages.map (·.1) = added.map (·.name) := by
      apply map_eq_of_forall₂ _ hmade
      intro m l hl
      exact (Linked.isOf_of_linked? hl).name.symm
    have hnodup : (added.map (·.name)).Nodup := by
      rw [← hnames]
      exact Library.nodup_names_of_areNew hnew
    refine ⟨hsound, fun m hm => ?_⟩
    obtain ⟨l, hl, hlinked⟩ := forall₂_mem_right hmade hm
    have hof := Linked.isOf_of_linked? hlinked
    refine ⟨l, ?_, hof⟩
    -- The name is new, so no message type that was there before is found under it.
    have hbefore : p.messages.find? (·.name == m.1) = none := by
      apply List.find?_eq_none.mpr
      intro other hother hsame
      have htaken := hp other hother
      rw [beq_iff_eq.mp hsame] at htaken
      unfold areNew at hnew
      rw [Bool.and_eq_true, List.all_eq_true] at hnew
      obtain ⟨d, hd⟩ := Option.isSome_iff_exists.mp (isSome_symbols_of_mem hm)
      obtain ⟨entry, hentry, -⟩ := Option.map_eq_some_iff.mp hd
      have hname : entry.1 = m.1 := by simpa using List.find?_some hentry
      have hfree := hnew.2 entry (List.mem_of_find?_eq_some hentry)
      rw [hname, Option.isNone_iff_eq_none] at hfree
      rw [hfree] at htaken
      cases htaken
    have hfind := find?_eq_some_of_nodup hnodup hl
    rw [hof.name] at hfind
    show (p.messages ++ added).find? (·.name == m.1) = some l
    rw [List.find?_append, hbefore, Option.none_or]
    exact hfind
  · intro g hg
    refine ⟨hg.sound, fun m hm => ?_⟩
    obtain ⟨l, hl, hof⟩ := hg.messages m hm
    exact ⟨l, find?_link h hl, hof⟩

end

end Pool

theorem Standard.knowsNames_pool : Standard.pool.KnowsNames := by
  have hempty : Pool.empty.KnowsNames := by
    intro l hl
    cases hl
  unfold Standard.pool
  cases h : Pool.empty.link? Standard.file with
  | none => exact hempty
  | some q => exact Pool.knowsNames_link hempty h

/-! ## 3. Names of message types -/

mutual

theorem exists_scope_of_withNested (m : Message) (scope : String) (outer : Features) :
    ∀ x ∈ m.withNested scope outer, ∃ scope, x.1 = qualify scope x.2.2.name := by
  obtain ⟨name, fields, extensions, nested, enums, oneofs, extensionRanges, reserved, options⟩ := m
  intro x hx
  rw [Message.withNested] at hx
  rcases List.mem_cons.mp hx with rfl | hx
  · exact ⟨scope, rfl⟩
  · exact exists_scope_of_withNestedOf nested _ _ x hx

theorem exists_scope_of_withNestedOf (ms : List Message) (scope : String) (outer : Features) :
    ∀ x ∈ withNestedOf scope outer ms, ∃ scope, x.1 = qualify scope x.2.2.name := by
  cases ms with
  | nil =>
    intro x hx
    rw [withNestedOf] at hx
    cases hx
  | cons m r =>
    intro x hx
    rw [withNestedOf] at hx
    rcases List.mem_append.mp hx with hx | hx
    · exact exists_scope_of_withNested m scope outer x hx
    · exact exists_scope_of_withNestedOf r scope outer x hx

end

/-- No message type of a file that keeps the rules has the empty name. -/
theorem File.name_ne_empty {f : File} (hsound : f.isSound = true) {m : String × Features × Message}
    (hm : m ∈ f.featuredMessages) : m.1 ≠ "" := by
  obtain ⟨scope, hname⟩ := exists_scope_of_withNestedOf f.messages f.package f.features m hm
  have hmessage : m.2.2.isSound f.isThird f.hasEdition m.2.1 = true := by
    simp only [File.isSound, Bool.and_eq_true] at hsound
    exact List.all_eq_true.mp hsound.1.1.1.2 m hm
  have hidentifier : isIdentifier m.2.2.name = true := by
    unfold Message.isSound at hmessage
    simp only [Bool.and_eq_true] at hmessage
    exact hmessage.1.1.1.1.1.1.1.1.1.1
  rw [hname]
  unfold qualify
  by_cases hscope : scope.isEmpty = true
  · rw [if_pos hscope]
    intro hempty
    apply isIdentifier_ne_empty hidentifier
    rw [hempty]
    rfl
  · rw [if_neg hscope]
    intro hempty
    have hlist := congrArg String.toList hempty
    simp at hlist

end Descriptor

/-! ## 4. Loading -/

open Descriptor (File)

/-- A file that was asked for is among those that were loaded. -/
theorem mem_names_loadFile {files : List File} {trail : List String} {l l' : Loaded} {name : String}
    (h : loadFile files trail l name = .ok l') : name ∈ l'.names := by
  rcases of_loadFile_eq_ok h with ⟨hdone, rfl⟩ | ⟨f, between, -, hf, -, hlink⟩
  · exact hdone
  · have hname : f.name = name := by simpa using List.find?_some hf
    rw [(mem_names_of_link hlink).1, hname]
    exact List.mem_cons_self

theorem mem_names_loadFiles {files : List File} {trail names : List String} {l l' : Loaded}
    (h : loadFiles files trail l names = .ok l') : ∀ name ∈ names, name ∈ l'.names := by
  induction names generalizing l with
  | nil =>
    intro name hname
    cases hname
  | cons first names ih =>
    rw [loadFiles] at h
    cases hfile : loadFile files trail l first with
    | error fault =>
      rw [hfile] at h
      cases h
    | ok between =>
      rw [hfile] at h
      intro name hname
      rcases List.mem_cons.mp hname with rfl | hname
      · -- Files that were loaded stay so.
        apply @loadFiles_keeps (fun l => name ∈ l.names) files _ trail names between l' (mem_names_loadFile hfile) h
        intro f l l' _ hmem hlink
        rw [(mem_names_of_link hlink).1]
        exact List.mem_cons_of_mem _ hmem
      · exact ih h name hname

/-- What was loaded is linked, apart from the standard definitions. -/
structure Loaded.IsLinked (files : List File) (l : Loaded) : Prop where
  known : l.pool.KnowsNames
  links : ∀ f, fileNamed? files f.name = some f → f.name ∈ l.names → f.name ≠ Descriptor.Standard.fileName →
    l.pool.Links f

theorem Loaded.IsLinked.start (files : List File) : Loaded.start.IsLinked files := by
  constructor
  · simp only [Loaded.start]
    exact Descriptor.Standard.knowsNames_pool
  · intro f _ hmem hname
    simp only [Loaded.start] at hmem
    exact absurd (List.mem_singleton.mp hmem) hname

/-- Linking one more file keeps all that were loaded linked. -/
theorem Loaded.IsLinked.link {files : List File} {f : File} {l l' : Loaded} (hl : l.IsLinked files)
    (hf : fileNamed? files f.name = some f) (h : l.link f = .ok l') : l'.IsLinked files := by
  obtain ⟨hnames, hlink⟩ := mem_names_of_link h
  obtain ⟨hnew, hkept⟩ := Descriptor.Pool.links_link hl.known hlink
  constructor
  · exact Descriptor.Pool.knowsNames_link hl.known hlink
  · intro g hg hmem hname
    rw [hnames] at hmem
    by_cases hsame : g.name = f.name
    · rw [hsame, hf] at hg
      cases hg
      exact hnew
    · apply hkept
      exact hl.links g hg ((List.mem_cons.mp hmem).resolve_left hsame) hname

/-! ## 5. Libraries -/

theorem names_setFile (f : File) (files : List File) :
    (setFile f files).map (·.name) =
      if f.name ∈ files.map (·.name) then files.map (·.name) else files.map (·.name) ++ [f.name] := by
  induction files with
  | nil => rfl
  | cons g r ih =>
    rw [setFile]
    by_cases hname : g.name = f.name
    · rw [if_pos hname, List.map_cons, List.map_cons, hname, if_pos List.mem_cons_self]
    · rw [if_neg hname, List.map_cons, List.map_cons, ih]
      by_cases hmem : f.name ∈ r.map (·.name)
      · rw [if_pos hmem, if_pos (List.mem_cons_of_mem _ hmem)]
      · have hnot : ¬ f.name ∈ g.name :: r.map (·.name) := by
          rw [List.mem_cons, not_or]
          exact ⟨fun h => hname h.symm, hmem⟩
        rw [if_neg hmem, if_neg hnot, List.cons_append]

/-- No two files of a set have one name. -/
theorem nodup_names_fileSet (files : List File) : ((fileSet files).map (·.name)).Nodup := by
  have hfrom : ∀ set : List File, (set.map (·.name)).Nodup →
      ((files.foldl (fun set f => setFile f set) set).map (·.name)).Nodup := by
    induction files with
    | nil => exact fun set h => h
    | cons f files ih =>
      intro set hset
      apply ih
      rw [names_setFile]
      by_cases hmem : f.name ∈ set.map (·.name)
      · rw [if_pos hmem]
        exact hset
      · rw [if_neg hmem, List.nodup_append]
        refine ⟨hset, List.nodup_singleton _, ?_⟩
        intro a ha b hb
        rw [List.mem_singleton.mp hb]
        exact fun heq => hmem (heq ▸ ha)
  exact hfrom [] List.nodup_nil

/-- A file of a set is the one that is loaded under its name. -/
theorem fileNamed?_available {set : List File} (hset : (set.map (·.name)).Nodup) {f : File} (hf : f ∈ set) :
    fileNamed? (availableFiles set) f.name = some f := by
  have hfind : set.find? (·.name == f.name) = some f := find?_eq_some_of_nodup hset hf
  unfold fileNamed? availableFiles
  split
  · exact hfind
  · rw [List.find?_append, hfind]
    rfl

namespace Library

variable {lib : Library}

/-- A message type is declared by none of a library's files that is passed over. -/
def IsOwn (lib : Library) (type : String) : Prop :=
  ∀ f ∈ lib.files, type ∈ f.allMessages.map (·.1) → f.name ≠ Descriptor.Standard.fileName

/-- All files of a library are linked, unless they are passed over. -/
theorem IsLoaded.links (h : lib.IsLoaded) {f : File} (hf : f ∈ lib.files)
    (hname : f.name ≠ Descriptor.Standard.fileName) : lib.pool.Links f := by
  obtain ⟨files, hfiles⟩ := h
  obtain ⟨l, hload, rfl⟩ := ofFiles_eq_ok_iff.mp hfiles
  have hset := nodup_names_fileSet files
  have hlinked := @loadFiles_keeps (fun l => l.IsLinked (availableFiles (fileSet files))) _
    (fun f l l' hf hl hlink => hl.link hf hlink) _ _ _ _ (Loaded.IsLinked.start _) hload
  apply hlinked.links f
  · exact fileNamed?_available hset hf
  · exact mem_names_loadFiles hload f.name (List.mem_map_of_mem hf)
  · exact hname

theorem IsLoaded.exists_file (h : lib.IsLoaded) {type : String} {m : Descriptor.Message}
    (hm : lib.declared? type = some m) : ∃ f ∈ lib.files, ∃ features, (type, features, m) ∈ f.featuredMessages := by
  obtain ⟨files, hfiles⟩ := h
  obtain ⟨l, -, rfl⟩ := ofFiles_eq_ok_iff.mp hfiles
  obtain ⟨entry, hentry, rfl⟩ := Option.map_eq_some_iff.mp hm
  have hname : entry.1 = type := by simpa using List.find?_some hentry
  have hmem := List.mem_reverse.mp (List.mem_of_find?_eq_some hentry)
  obtain ⟨f, hf, hdeclared⟩ := List.mem_flatMap.mp hmem
  unfold File.allMessages at hdeclared
  obtain ⟨⟨name, features, m⟩, hmessage, rfl⟩ := List.mem_map.mp hdeclared
  refine ⟨f, hf, features, ?_⟩
  rw [← hname]
  exact hmessage

/-- A declared message type has a linked one that was made of it, as the file has it that declares both. -/
theorem IsLoaded.exists_linked (h : lib.IsLoaded) {type : String} {m : Descriptor.Message} (hown : lib.IsOwn type)
    (hm : lib.declared? type = some m) :
    type ≠ "" ∧ ∃ f ∈ lib.files, f.isSound = true ∧ ∃ features linked, (type, features, m) ∈ f.featuredMessages ∧
      lib.pool.find? type = some linked ∧ linked.IsOf f.isThird f.hasEdition (type, features, m) := by
  obtain ⟨f, hf, features, hmem⟩ := h.exists_file hm
  have hname : f.name ≠ Descriptor.Standard.fileName := by
    apply hown f hf
    unfold File.allMessages
    rw [List.map_map]
    exact List.mem_map_of_mem hmem
  have hlinks := h.links hf hname
  obtain ⟨linked, hfind, hof⟩ := hlinks.messages _ hmem
  exact ⟨File.name_ne_empty hlinks.sound hmem, f, hf, hlinks.sound, features, linked, hmem, hfind, hof⟩

end Library

end ContractShell
