import ContractShell.Command.Token

/-!
Tokens read at a position of a text. A position counts characters, and an end is the position after the last character
that was read.

## Main statements

* `positionOf_of_append`: the position behind what stands at a position.
-/

namespace ContractShell.Command

/-- The position of the remaining text `rest` in `text`. -/
def positionOf (text rest : List Char) : Nat := text.length - rest.length

/-- The text behind what stands at a position starts as far on as that takes. -/
theorem positionOf_of_append {text w r : List Char} {position : Nat} (hne : w ≠ []) (h : w ++ r = text.drop position) :
    positionOf text r = position + w.length := by
  have hpos := List.length_pos_iff.mpr hne
  have hlength := congrArg List.length h
  rw [List.length_append, List.length_drop] at hlength
  unfold positionOf
  omega

/-- The position after the blanks at a position. One past the end counts as the end. -/
def skipAt (text : List Char) (position : Nat) : Nat := positionOf text (Text.dropBlank (text.drop position))

/-- What stands at a position, and the position after a separator. -/
def terminatorAt (text : List Char) (position : Nat) : Termination × Nat :=
  match terminator (text.drop position) with
  | (.separator, _) => (.separator, position + 1)
  | (t, _) => (t, position)

/-- The command name at a position, or the empty text. -/
def nameAt (text : List Char) (position : Nat) : List Char := ((name? (text.drop position)).map (·.1)).getD []

/-- Why no quoted string is read at a position. -/
inductive QuotedFault where
  /-- No character stands at the position. -/
  | outsideText
  /-- The string has no closing quote. -/
  | unterminated
  deriving DecidableEq, Repr

/-- The quoted string at a position, and where it ends. The character at the position is its quote. -/
def quotedAt (text : List Char) (position : Nat) : Except QuotedFault (List Char × Nat) :=
  if text.length ≤ position then .error .outsideText
  else
    match Quoted.read? (text.drop position) with
    | some (value, rest) => .ok (value, positionOf text rest)
    | none => .error .unterminated

/-- The argument of a kind at a position, and where it ends. -/
def Kind.readAt (kind : Kind) (text : List Char) (position : Nat) : Except TokenFault (List Char × Nat) :=
  (kind.read (text.drop position)).map fun (value, rest) => (value, positionOf text rest)

end ContractShell.Command
