import ContractShell.Bytes.Base64
import ContractShell.Descriptor.Reader
import ContractShell.Library.Hint
import ContractShell.Text.Quoted

/-!
Libraries: the message types that one contract brings along.

A library is loaded from a set of files. Each file is linked after the files that it depends on, which are in the set, or
are one of the two files that every library has: the definitions of definitions, and the option for display hints.

## Main statements

* `unvisited_lt`: following one more dependency leaves fewer files to follow, so loading ends on every set.
-/

namespace ContractShell

open Descriptor (File Pool)

/-! ## 1. Sets of files -/

/-- Puts a file into a set: a file of the same name is replaced in its place. -/
def setFile (f : File) : List File → List File
  | [] => [f]
  | g :: r => if g.name = f.name then f :: r else g :: setFile f r

/-- The set of a list of files. -/
def fileSet (files : List File) : List File := files.foldl (fun set f => setFile f set) []

/-- The files that can be linked: those of a set, and the one for display hints unless the set has its own. -/
def availableFiles (files : List File) : List File :=
  if files.any (·.name == BytesHint.fileName) then files else files ++ [BytesHint.file]

/-- The file of a name. -/
def fileNamed? (files : List File) (name : String) : Option File := files.find? (·.name == name)

/-! ## 2. Linking in order -/

/-- Why definitions cannot be loaded. -/
inductive LoadFault where
  /-- The text is not base64. -/
  | text (fault : Base64.Fault)
  /-- The bytes hold no definitions. -/
  | blob (fault : Descriptor.BlobFault)
  /-- A file depends on itself. -/
  | circular (name : String)
  /-- A file that others depend on is not there. -/
  | missing (name : String)
  /-- A file's definitions do not fit. -/
  | refused (name : String)
  /-- Names of options in a file lack parts. -/
  | incomplete (parts : List String)
  deriving DecidableEq, Repr

/-- What a fault says. -/
def LoadFault.detail : LoadFault → String
  | .text f => "types are not valid base64 (" ++ f.message ++ ")"
  | .blob .malformed => "cannot decode type definitions (...)"
  | .blob .unnamed => "type definitions contain no named file"
  | .circular name => "circular import of " ++ name
  | .missing name => "missing type dependency " ++ name
  | .refused name => "cannot load " ++ name ++ " (...)"
  | .incomplete parts =>
    s!"Message {Descriptor.fileType} is missing required fields: " ++ String.intercalate "," parts

/-- The wording of a fault. -/
def LoadFault.message : LoadFault → String
  | .incomplete parts => (LoadFault.incomplete parts).detail
  | f => Text.withContext "invalid ABI" f.detail

/-- Files that were linked, the latest first, and the pool that holds their definitions. -/
structure Loaded where
  names : List String
  pool : Pool

/-- What every library starts with. -/
def Loaded.start : Loaded := ⟨[Descriptor.Standard.fileName], Descriptor.Standard.pool⟩

/-- Links a file whose dependencies are linked. -/
def Loaded.link (l : Loaded) (f : File) : Except LoadFault Loaded :=
  if !f.lacking.isEmpty then .error (.incomplete f.lacking)
  else
    match l.pool.link? f with
    | none => .error (.refused f.name)
    | some pool => .ok ⟨f.name :: l.names, pool⟩

theorem mem_names_of_link {f : File} {l l' : Loaded} (h : l.link f = .ok l') :
    l'.names = f.name :: l.names ∧ l.pool.link? f = some l'.pool := by
  unfold Loaded.link at h
  split at h
  · cases h
  · split at h
    · cases h
    · rename_i hlink
      cases h
      exact ⟨rfl, hlink⟩

/-- The names of files that are not yet on a trail. -/
def unvisited (files : List File) (trail : List String) : Nat :=
  (files.filter fun f => !trail.contains f.name).length

/-- Following one more dependency leaves fewer files to follow. -/
theorem unvisited_lt {files : List File} {trail : List String} {name : String} {f : File}
    (hf : fileNamed? files name = some f) (ht : ¬ trail.contains name = true) :
    unvisited files (name :: trail) < unvisited files trail := by
  have hm : f ∈ files := List.mem_of_find?_eq_some hf
  have hn : f.name = name := by simpa using List.find?_some hf
  unfold unvisited
  have hsub : (files.filter fun g => !(name :: trail).contains g.name) =
      (files.filter fun g => !trail.contains g.name).filter fun g => g.name != name := by
    rw [List.filter_filter]
    congr 1
    funext g
    simp only [List.contains_cons, Bool.not_or, bne]
  rw [hsub]
  apply List.length_filter_lt_length_iff_exists.mpr
  exact ⟨f, by simp [List.mem_filter, hm, hn]; simpa using ht, by simp [hn]⟩

mutual

/-- Links the file of a name after those that it depends on. The trail holds the files that wait for this one. -/
def loadFile (files : List File) (trail : List String) (l : Loaded) (name : String) : Except LoadFault Loaded :=
  if l.names.contains name then .ok l
  else if ht : trail.contains name = true then .error (.circular name)
  else
    match hf : fileNamed? files name with
    | none => .error (.missing name)
    | some f =>
      have := unvisited_lt hf ht
      match loadFiles files (name :: trail) l f.dependencies with
      | .error fault => .error fault
      | .ok l => l.link f
termination_by (unvisited files trail, 0)

/-- Links the files of several names, one after the other. -/
def loadFiles (files : List File) (trail : List String) (l : Loaded) (names : List String) : Except LoadFault Loaded :=
  match names with
  | [] => .ok l
  | name :: r =>
    match loadFile files trail l name with
    | .error fault => .error fault
    | .ok l => loadFiles files trail l r
termination_by (unvisited files trail, names.length + 1)

end

section

variable {files : List File} {trail : List String} {l : Loaded} {name : String}

theorem loadFile_of_mem (hdone : name ∈ l.names) : loadFile files trail l name = .ok l := by
  rw [loadFile, if_pos (List.contains_iff_mem.mpr hdone)]

theorem loadFile_of_waiting (hdone : name ∉ l.names) (hwaiting : name ∈ trail) :
    loadFile files trail l name = .error (.circular name) := by
  rw [loadFile, if_neg (mt List.contains_iff_mem.mp hdone), dif_pos (List.contains_iff_mem.mpr hwaiting)]

theorem loadFile_of_none (hdone : name ∉ l.names) (hwaiting : name ∉ trail) (hnone : fileNamed? files name = none) :
    loadFile files trail l name = .error (.missing name) := by
  rw [loadFile, if_neg (mt List.contains_iff_mem.mp hdone), dif_neg (mt List.contains_iff_mem.mp hwaiting)]
  split
  · rfl
  · rename_i hsome
    rw [hnone] at hsome
    cases hsome

theorem loadFile_of_some {f : File} (hdone : name ∉ l.names) (hwaiting : name ∉ trail)
    (hf : fileNamed? files name = some f) :
    loadFile files trail l name = (loadFiles files (name :: trail) l f.dependencies).bind fun l => l.link f := by
  rw [loadFile, if_neg (mt List.contains_iff_mem.mp hdone), dif_neg (mt List.contains_iff_mem.mp hwaiting)]
  split
  · rename_i hnone
    rw [hf] at hnone
    cases hnone
  · rename_i g hsome
    rw [hf] at hsome
    cases hsome
    cases loadFiles files (name :: trail) l f.dependencies with
    | error fault => rfl
    | ok l => rfl

/-- A file that is loaded was linked before, or is linked now after those that it depends on. -/
theorem of_loadFile_eq_ok {l' : Loaded} (h : loadFile files trail l name = .ok l') :
    (name ∈ l.names ∧ l' = l) ∨
      ∃ f between, name ∉ trail ∧ fileNamed? files name = some f ∧
        loadFiles files (name :: trail) l f.dependencies = .ok between ∧ between.link f = .ok l' := by
  by_cases hdone : name ∈ l.names
  · rw [loadFile_of_mem hdone] at h
    cases h
    exact .inl ⟨hdone, rfl⟩
  right
  by_cases hwaiting : name ∈ trail
  · rw [loadFile_of_waiting hdone hwaiting] at h
    cases h
  cases hf : fileNamed? files name with
  | none =>
    rw [loadFile_of_none hdone hwaiting hf] at h
    cases h
  | some f =>
    rw [loadFile_of_some hdone hwaiting hf] at h
    cases hdeps : loadFiles files (name :: trail) l f.dependencies with
    | error fault =>
      rw [hdeps] at h
      cases h
    | ok between =>
      rw [hdeps] at h
      exact ⟨f, between, hwaiting, rfl, hdeps, h⟩

end

/-! ## 3. Libraries -/

/-- The message types of a set of files: those that the files declare, with their full names, and the linked ones. -/
structure Library where
  files : List File
  /-- The message types of the files. Of two with one name, the one declared last comes first. -/
  messages : List (String × Descriptor.Message)
  pool : Pool

namespace Library

/-- The library of a list of files; of two files with one name the last counts. -/
def ofFiles (files : List File) : Except LoadFault Library :=
  let set := fileSet files
  match loadFiles (availableFiles set) [] Loaded.start (set.map (·.name)) with
  | .error fault => .error fault
  | .ok l => .ok ⟨set, (set.flatMap (·.allMessages)).reverse, l.pool⟩

/-- The library of a byte string, which is a set of files or a single file. -/
def ofBytes (b : Bytes) : Except LoadFault Library :=
  match Descriptor.filesOf b with
  | .error fault => .error (.blob fault)
  | .ok files => ofFiles files

/-- The library of a base64 text, in the standard alphabet or else in the address-safe one. -/
def ofText (text : String) : Except LoadFault Library :=
  match Base64.decode true text.toList with
  | .ok b => ofBytes b
  | .error _ =>
    match Base64.decodeUrl text.toList with
    | .ok b => ofBytes b
    | .error fault => .error (.text fault)

/-- A full name without the points in front of it. -/
def bareName (name : String) : String := String.ofList (name.toList.dropWhile (· = '.'))

/-- The message type that a file declares under a full name. -/
def declared? (lib : Library) (name : String) : Option Descriptor.Message :=
  (lib.messages.find? (·.1 == name)).map (·.2)

/-- A file declares a message type of a name, which may start with points. -/
def contains (lib : Library) (name : String) : Bool := (lib.declared? (bareName name)).isSome

/-- The linked message type of a name, which may start with points. -/
def linked? (lib : Library) (name : String) : Option Descriptor.Linked := lib.pool.find? (bareName name)

end Library

end ContractShell
