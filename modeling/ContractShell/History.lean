import ContractShell.Files.Disk
import ContractShell.Text.Typed

/-!
The lines that were typed before, the last of them, in memory and in a file.

A blank line is not kept, nor is one that repeats the line before it. Lines are kept without blanks at their ends. The file
is emptied before the lines are written to it, so it stays empty when there is a line that cannot be written.

## Main statements

* `length_keep_le`: there are never more lines than the limit.
* `limit_pos`: the limit is at least one.
-/

namespace ContractShell

/-- The lines that were typed, oldest first, how many are kept, and the file that they are kept in. -/
structure History where
  path : Option Path
  limit : Nat
  entries : List Typed

namespace History

/-! ## 1. Lines -/

/-- At most `limit` lines, the last ones. -/
def keep (limit : Nat) (lines : List Typed) : List Typed := lines.drop (lines.length - limit)

theorem length_keep_le (limit : Nat) (lines : List Typed) : (keep limit lines).length ≤ limit := by
  simp only [keep, List.length_drop]
  omega

/-- The lines of a text that are not blank, without blanks at their ends. -/
def linesOf (text : String) : List Typed :=
  ((Text.lines text).map fun l => (Typed.ofString l).trim).filter fun l => !l.isEmpty

/-- The text of lines. -/
def textOf (lines : List Typed) : Typed := [Letter.char '\n'].intercalate lines ++ [.char '\n']

/-! ## 2. The file -/

/-- Why a history cannot be read or written. A file that is missing, or that cannot be opened, holds no lines. -/
inductive Fault where
  | home (fault : Path.NoHome)
  | path
  | encoding (fault : Text.Utf8.Fault)
  /-- There is a line that cannot be written. -/
  | letters (fault : Typed.Fault)
  deriving DecidableEq, Repr

/-- The wording of a fault. -/
def Fault.message : Fault → String
  | .home f => f.message
  | .path => Disk.Fault.impossibleName.message
  | .encoding f => f.message
  | .letters f => f.message

/-- A limit as it counts: at least one. -/
def limitOf (n : Int) : Nat := max 1 n.toNat

theorem limit_pos (n : Int) : 0 < limitOf n := by
  simp only [limitOf]
  omega

/-- The lines in a file. -/
def load (d : Disk) (p : Path) : Except Fault (List Typed) :=
  match d.readText p with
  | .ok text => .ok (linesOf text)
  | .error (.encoding f) => .error (.encoding f)
  | .error (.file .impossibleName) => .error .path
  | .error (.file _) => .ok []

/-- The history of a file, or one without a file. -/
def read (d : Disk) (path : Option Path) (limit : Int) : Except Fault History :=
  match path with
  | none => .ok ⟨none, limitOf limit, []⟩
  | some p =>
    match p.expandHome d.homes with
    | .error f => .error (.home f)
    | .ok p => (load d p).map fun lines => ⟨some p, limitOf limit, keep (limitOf limit) lines⟩

/-- Writes the lines to the file, after making its directory. A file that cannot be opened, and a device that gives out, is
left at that; lines that are no text are a fault. -/
def save (h : History) (d : Disk) (w : Disk.Writing) : Disk × Option Typed.Fault :=
  match h.path with
  | none => (d, none)
  | some p =>
    match d.makeDirectories p.parent with
    | (d, some _) => (d, none)
    | (d, none) =>
      match d.openEmpty p with
      | .error _ => (d, none)
      | .ok (place, d) =>
        match (textOf h.entries).encode with
        | .error f => (d, some f)
        | .ok content => ((d.put place content w).1, none)

/-! ## 3. Growing -/

/-- What comes of one more line: the history and the tree of files after it, and the fault if the lines cannot be
written. -/
structure Kept where
  history : History
  disk : Disk
  fault : Option Typed.Fault

/-- A line is kept: it is not empty, and not the one before it again. -/
def isNew (h : History) (line : Typed) : Bool := !line.isEmpty && h.entries.getLast? != some line

/-- Adds a line, and writes the lines if they have changed. -/
def append (h : History) (line : Typed) (d : Disk) (w : Disk.Writing) : Kept :=
  let text := line.trim
  if h.isNew text then
    let h := { h with entries := keep h.limit (h.entries ++ [text]) }
    let (d, fault) := h.save d w
    ⟨h, d, fault⟩
  else ⟨h, d, none⟩

end History

end ContractShell
