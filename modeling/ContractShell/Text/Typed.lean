import ContractShell.Text.Blank
import ContractShell.Text.Utf8

/-!
Text as it is typed: characters, and strays.

Bytes that are no text come from a terminal as strays, halves of surrogate pairs that stand alone. A text with a stray can be
held and compared like any other, but it cannot be written as UTF-8.

## Main statements

* `encode_eq_ok_iff`: a typed text can be written when there is no stray in it.
-/

namespace ContractShell

/-- A character, or a stray, by its place among the halves of surrogate pairs. -/
inductive Letter where
  | char (c : Char)
  | stray (half : Fin 0x800)
  deriving DecidableEq, Repr

namespace Letter

/-- The character of a letter that is one. -/
def char? : Letter → Option Char
  | .char c => some c
  | .stray _ => none

/-- A letter of a class of characters. A stray is in no class. -/
def isIn (inClass : Char → Bool) : Letter → Bool
  | .char c => inClass c
  | .stray _ => false

/-- The letter is a character. -/
def isChar (l : Letter) : Bool := l.char?.isSome

/-- How a letter is shown: a stray as the replacement character. -/
def shown : Letter → Char
  | .char c => c
  | .stray _ => '\uFFFD'

end Letter

/-- A text as it is typed. -/
abbrev Typed := List Letter

namespace Typed

/-- A string that is typed. -/
def ofString (s : String) : Typed := s.toList.map .char

/-- The text without blanks at either end. -/
def trim (t : Typed) : Typed := Text.trimBy (·.isIn Text.isBlank) t

/-- The text as it can be shown. -/
def shown (t : Typed) : String := String.ofList (t.map (·.shown))

/-- There is no stray in the text. -/
def isClean (t : Typed) : Bool := t.all (·.isChar)

/-- The characters of the text, without its strays. -/
def chars (t : Typed) : List Char := t.filterMap (·.char?)

/-! ## Writing -/

/-- Why a text cannot be written: it has strays, of which the first is given with its position, and how many follow one
another there. -/
structure Fault where
  first : Fin 0x800
  position : Nat
  count : Nat
  deriving DecidableEq, Repr

/-- The wording of a fault. -/
def Fault.message : Fault → String
  | ⟨half, p, 1⟩ =>
    "'utf-8' codec can't encode character '\\u" ++ String.ofList (Text.hexFixed 4 (0xD800 + half)) ++
      s!"' in position {p}: surrogates not allowed"
  | ⟨_, p, n⟩ => s!"'utf-8' codec can't encode characters in position {p}-{p + n - 1}: surrogates not allowed"

/-- The bytes of a text. -/
def encode (t : Typed) : Except Fault Bytes :=
  match t.dropWhile (·.isChar) with
  | .stray half :: r => .error ⟨half, (t.takeWhile (·.isChar)).length, 1 + (r.takeWhile fun l => !l.isChar).length⟩
  | _ => .ok (Text.Utf8.encode t.chars)

theorem dropWhile_isChar_eq_nil_iff (t : Typed) : t.dropWhile (·.isChar) = [] ↔ t.isClean = true := by
  unfold isClean
  induction t with
  | nil => simp
  | cons l r ih => by_cases h : l.isChar <;> simp [h, ih]

/-- A text can be written when there is no stray in it. -/
theorem encode_eq_ok_iff {t : Typed} {b : Bytes} :
    t.encode = .ok b ↔ t.isClean = true ∧ b = Text.Utf8.encode t.chars := by
  unfold encode
  cases h : t.dropWhile (·.isChar) with
  | nil => simp [(dropWhile_isChar_eq_nil_iff t).mp h, eq_comm]
  | cons l r =>
    have hl := List.head?_dropWhile_not (·.isChar) t
    rw [h] at hl
    have hnot : ¬ t.isClean = true := by
      rw [← dropWhile_isChar_eq_nil_iff, h]
      exact List.cons_ne_nil _ _
    cases l with
    | char c => cases hl
    | stray half => simp [hnot]

theorem shown_ofString (s : String) : (ofString s).shown = s := by
  simp [shown, ofString, Function.comp_def, Letter.shown]

end Typed

end ContractShell
