import ContractShell.Command.Line
import ContractShell.Session.Basic

/-!
Suggestions for what is being typed: names of commands, or paths of files, as the place of the cursor asks for.

The names are remembered until the table of commands changes.

## Main statements

* `upToDate_refresh`: the names that are remembered after a look at the table are those of the table.
* `suggest_refresh`: what is suggested does not depend on what was remembered before.
-/

namespace ContractShell

open Command (Registry Line)

/-- Something to put in: a text, how many characters before the cursor it replaces, and a description. -/
structure Suggestion where
  text : String
  replaced : Nat
  description : String
  deriving DecidableEq, Repr

/-! ## 1. Names -/

/-- The names of commands that are remembered, and the revision of the table that they are from. -/
structure Completer where
  revision : Option Nat
  names : List String

namespace Completer

/-- Nothing is remembered. -/
def fresh : Completer := ⟨none, []⟩

/-- Looks at the table if it has changed. -/
def refresh (commands : Registry) (c : Completer) : Completer :=
  if c.revision = some commands.revision then c else ⟨some commands.revision, commands.visibleNames⟩

/-- The names are those of the table at the revision that they are from. -/
def upToDate (commands : Registry) (c : Completer) : Prop :=
  c.revision = some commands.revision → c.names = commands.visibleNames

theorem upToDate_refresh {commands : Registry} {c : Completer} (h : c.upToDate commands) :
    (c.refresh commands).names = commands.visibleNames := by
  simp only [refresh]
  split
  · rename_i hr
    exact h hr
  · rfl

/-- The names that start with what was typed. -/
def nameSuggestions (commands : Registry) (typed : String) (names : List String) : List Suggestion :=
  (names.filter fun n => typed.toList.isPrefixOf n.toList).map fun n => ⟨n, typed.length, commands.describe n⟩

/-! ## 2. Paths -/

/-- A text without slashes at its end. -/
def dropSlashes (s : List Char) : List Char := (s.reverse.dropWhile (· = '/')).reverse

/-- A typed path, with `~` or `~user` in front replaced by a home directory that is known. -/
def expandTyped (homes : Path.Homes) (s : List Char) : List Char :=
  match s with
  | '~' :: r =>
    let user := String.ofList (r.takeWhile (· ≠ '/'))
    match homes.find? (·.1 == user) with
    | none => s
    | some (_, home) =>
      let whole := dropSlashes home.toList ++ r.dropWhile (· ≠ '/')
      if whole.isEmpty then ['/'] else whole
  | _ => s

/-- A typed path as the directory that it names and the start of a name in it. -/
def splitTyped (s : List Char) : List Char × List Char :=
  let name := (s.reverse.takeWhile (· ≠ '/')).reverse
  (s.take (s.length - name.length), name)

/-- What can follow a typed path: the rest of each name in its directory that starts as it does. -/
def pathSuggestions (d : Disk) (typed : List Char) : List Suggestion :=
  let (directory, start) := splitTyped (expandTyped d.homes typed)
  let place := Path.ofText (String.ofList directory)
  if d.isDirectory place then
    ((d.namesIn place).filter fun n => start.isPrefixOf n.toList).map fun n =>
      ⟨String.ofList (n.toList.drop start.length), 0, ""⟩
  else []

/-! ## 3. Suggestions -/

/-- A character that a typed token starts after. -/
def breaksToken (c : Char) : Bool := c = ' ' || c = '\t' || c = ';'

/-- The token that a text ends with. -/
def lastToken (s : List Char) : List Char := (s.reverse.takeWhile fun c => !breaksToken c).reverse

/-- A typed path without the quote in front of it. -/
def dropQuote : List Char → List Char
  | '"' :: r => r
  | '\'' :: r => r
  | s => s

/-- What can stand at the end of a text. The text is the part of a line before the cursor. -/
def suggest (s : Session) (text : String) (c : Completer) : List Suggestion × Completer :=
  let typed := lastToken text.toList
  match (Line.ofText s.commands text).cursor.expected with
  | some .commandName =>
    let c := c.refresh s.commands
    (nameSuggestions s.commands (String.ofList typed) c.names, c)
  | some .file => (pathSuggestions s.disk (dropQuote typed), c)
  | _ => ([], c)

/-- What is suggested does not depend on what was remembered before. -/
theorem suggest_refresh {s : Session} {text : String} {c : Completer} (h : c.upToDate s.commands) :
    (suggest s text c).1 = (suggest s text fresh).1 := by
  have hf : fresh.upToDate s.commands := by simp [upToDate, fresh]
  simp only [suggest]
  split
  · simp only [upToDate_refresh h, upToDate_refresh hf]
  · rfl
  · rfl

end Completer

end ContractShell
