import ContractShell.Bytes.Basic
import ContractShell.Files.Path
import ContractShell.Text.Blank
import ContractShell.Text.Utf8

/-!
The files that the shell can see: a tree of directories, and a working directory in it.

Each entry has a place, the list of names from the root. Operations follow a path name by name, so every name but the last
must be a directory that is there. A file is opened first and written then, and the writing can break off.

## Main statements

* `find?_add_other`: adding an entry changes no other place.
* `written_prefix`: whatever becomes of a writing, a file holds the first bytes of what was to be written.
-/

namespace ContractShell

/-- What stands at a place of the tree. -/
inductive Entry where
  | file (content : Bytes)
  | directory
  deriving DecidableEq, Repr

/-- The place of an entry: the names from the root. -/
abbrev Place := List String

/-- A tree of files, the working directory, and the home directories of the users. -/
structure Disk where
  entries : List (Place × Entry)
  here : Place
  homes : Path.Homes

namespace Disk

/-! ## 1. Faults -/

/-- Why an operation on files fails. -/
inductive Fault where
  | notFound
  | notDirectory
  | isDirectory
  | exists
  | nameTooLong
  /-- The path holds a character that no name can hold. -/
  | impossibleName
  /-- The device that a file is on gives out while it is written. -/
  | device (reason : String)
  deriving DecidableEq, Repr

/-- The wording of a fault. -/
def Fault.message : Fault → String
  | .notFound => "No such file or directory"
  | .notDirectory => "Not a directory"
  | .isDirectory => "Is a directory"
  | .exists => "File exists"
  | .nameTooLong => "File name too long"
  | .impossibleName => "embedded null byte"
  | .device reason => reason

/-! ## 2. Places -/

/-- The entry at a place. The root is a directory. -/
def find? (d : Disk) (place : Place) : Option Entry :=
  if place.isEmpty then some .directory else (d.entries.find? (·.1 == place)).map (·.2)

/-- The most bytes that a name can have. -/
def maxName : Nat := 255

/-- Follows names from a place. Each is looked up in a directory that is there. -/
def follow (d : Disk) : Place → List String → Except Fault Place
  | place, [] => .ok place
  | place, name :: rest =>
    match d.find? place with
    | none => .error .notFound
    | some (.file _) => .error .notDirectory
    | some .directory =>
      if name = ".." then d.follow place.dropLast rest
      else if maxName < (Text.Utf8.ofString name).length then .error .nameTooLong
      else d.follow (place ++ [name]) rest

/-- A name that no file can have. -/
def isImpossible (name : String) : Bool := name.toList.any (·.toNat = 0)

/-- The most bytes that the text of a path can have. -/
def maxPath : Nat := 4095

/-- The place that a path leads to, whether or not there is an entry. -/
def placeOf (d : Disk) (p : Path) : Except Fault Place :=
  if p.names.any isImpossible then .error .impossibleName
  else if maxPath < (Text.Utf8.ofString p.toText).length then .error .nameTooLong
  else d.follow (if p.isAbsolute then [] else d.here) p.names

/-! ## 3. Looking -/

/-- There is an entry at a path. -/
def contains (d : Disk) (p : Path) : Except Fault Bool :=
  match d.placeOf p with
  | .ok place => .ok (d.find? place).isSome
  | .error .nameTooLong => .error .nameTooLong
  | .error _ => .ok false

/-- A path leads to a directory. -/
def isDirectory (d : Disk) (p : Path) : Bool :=
  match d.placeOf p with
  | .ok place => d.find? place == some .directory
  | .error _ => false

/-- The bytes of a file. -/
def read (d : Disk) (p : Path) : Except Fault Bytes :=
  match d.placeOf p with
  | .error f => .error f
  | .ok place =>
    match d.find? place with
    | none => .error .notFound
    | some .directory => .error .isDirectory
    | some (.file b) => .ok b

/-- Why a text file cannot be read. -/
inductive TextFault where
  | file (fault : Fault)
  | encoding (fault : Text.Utf8.Fault)
  deriving DecidableEq, Repr

/-- The text of a file, with every line end as a line feed. -/
def readText (d : Disk) (p : Path) : Except TextFault String :=
  match d.read p with
  | .error f => .error (.file f)
  | .ok b =>
    match Text.Utf8.decode b with
    | .error f => .error (.encoding f)
    | .ok s => .ok (String.ofList (Text.unifyLineEnds s))

/-- The names in a directory, in order. -/
def namesIn (d : Disk) (p : Path) : List String :=
  match d.placeOf p with
  | .error _ => []
  | .ok place =>
    let inside (e : Place × Entry) : Option String :=
      if e.1.dropLast = place then e.1.getLast? else none
    (d.entries.filterMap inside).mergeSort (· ≤ ·)

/-! ## 4. Changing -/

/-- The tree with an entry at a place. -/
def add (d : Disk) (place : Place) (e : Entry) : Disk :=
  { d with entries := (d.entries.filter (·.1 != place)) ++ [(place, e)] }

theorem find?_filter_other (entries : List (Place × Entry)) {place other : Place} (h : other ≠ place) :
    (entries.filter (·.1 != place)).find? (·.1 == other) = entries.find? (·.1 == other) := by
  induction entries with
  | nil => rfl
  | cons x r ih =>
    by_cases hx : x.1 = place
    · simp [hx, ih, Ne.symm h]
    · simp only [List.filter_cons, bne_iff_ne, ne_eq, hx, not_false_eq_true, if_true, List.find?_cons, ih]

/-- Adding an entry changes no other place. -/
theorem find?_add_other (d : Disk) (e : Entry) {place other : Place} (h : other ≠ place) :
    (d.add place e).find? other = d.find? other := by
  have hp : (place == other) = false := by simp [Ne.symm h]
  simp [find?, add, List.find?_append, find?_filter_other _ h, hp]

/-- How the writing of a file goes: all bytes are written, or the device gives out after some of them. -/
inductive Writing where
  | whole
  | broken (kept : Nat) (reason : String)
  deriving DecidableEq, Repr

/-- The bytes that are written. -/
def Writing.written : Writing → Bytes → Bytes
  | .whole, content => content
  | .broken kept _, content => content.take kept

/-- The fault that a writing ends with. -/
def Writing.fault? : Writing → Option Fault
  | .whole => none
  | .broken _ reason => some (.device reason)

/-- A file holds the first bytes of what was to be written. -/
theorem written_prefix (w : Writing) (content : Bytes) : w.written content <+: content := by
  cases w with
  | whole => exact List.prefix_rfl
  | broken kept reason => exact List.take_prefix kept content

/-- Opens a new file where there is no entry: its place, and the tree with the empty file. -/
def openNew (d : Disk) (p : Path) : Except Fault (Place × Disk) :=
  match d.placeOf p with
  | .error f => .error f
  | .ok place => if (d.find? place).isSome then .error .exists else .ok (place, d.add place (.file []))

/-- Opens a file, new or emptied: its place, and the tree with the empty file. -/
def openEmpty (d : Disk) (p : Path) : Except Fault (Place × Disk) :=
  match d.placeOf p with
  | .error f => .error f
  | .ok place => if d.find? place = some .directory then .error .isDirectory else .ok (place, d.add place (.file []))

/-- Writes to the file at a place. -/
def put (d : Disk) (place : Place) (content : Bytes) (w : Writing) : Disk × Option Fault :=
  (d.add place (.file (w.written content)), w.fault?)

/-- Creates a file where there is no entry. When the writing breaks off, the file stays with what was written. -/
def createNew (d : Disk) (p : Path) (content : Bytes) (w : Writing) : Disk × Option Fault :=
  match d.openNew p with
  | .error f => (d, some f)
  | .ok (place, d) => d.put place content w

/-- Makes a directory where there is no entry. -/
def makeDirectory (d : Disk) (p : Path) : Except Fault Disk :=
  match d.placeOf p with
  | .error f => .error f
  | .ok place => if (d.find? place).isSome then .error .exists else .ok (d.add place .directory)

/-- Makes a directory and those above it. Names are given last one first. -/
def makeDirectoriesFrom (root : String) : List String → Disk → Disk × Option Fault
  | [], d => (d, if d.isDirectory ⟨root, []⟩ then none else some .exists)
  | name :: above, d =>
    let p : Path := ⟨root, (name :: above).reverse⟩
    let settle (d' : Disk) (f : Fault) : Disk × Option Fault :=
      (d', if d'.isDirectory p then none else some f)
    match d.makeDirectory p with
    | .ok d' => (d', none)
    | .error .notFound =>
      match makeDirectoriesFrom root above d with
      | (d', some f) => (d', some f)
      | (d', none) =>
        match d'.makeDirectory p with
        | .ok d'' => (d'', none)
        | .error f => settle d' f
    | .error f => settle d f

/-- Makes the directory of a path and those above it, as far as they are missing. -/
def makeDirectories (d : Disk) (p : Path) : Disk × Option Fault := makeDirectoriesFrom p.root p.names.reverse d

/-- The entries that are new, or other than before, in the order in which they came. -/
def changes (before after : Disk) : List (Place × Entry) :=
  after.entries.filter fun e => before.find? e.1 != some e.2

end Disk

end ContractShell
