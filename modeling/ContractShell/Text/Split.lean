/-!
Text split at a separator. The pieces, empty ones too, make up the text again when they are joined with the separator.
-/

namespace ContractShell.Text

/-- The pieces between separators; a text without a separator is one piece. -/
def split (separator : Char) : List Char → List (List Char)
  | [] => [[]]
  | c :: r =>
    if c = separator then [] :: split separator r
    else
      match split separator r with
      | [] => [[c]]
      | w :: ws => (c :: w) :: ws

theorem split_ne_nil (separator : Char) (s : List Char) : split separator s ≠ [] := by
  cases s with
  | nil => simp [split]
  | cons c r =>
    simp only [split]
    split
    · simp
    · split <;> simp

/-- The pieces of a string. -/
def splitString (separator : Char) (s : String) : List String := (split separator s.toList).map String.ofList

end ContractShell.Text
