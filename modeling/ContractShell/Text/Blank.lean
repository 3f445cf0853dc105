/-!
Blank characters, and the two things a reader of text does with them: trimming and splitting into lines.

## Main statements

* `dropBlank_length_le`: dropping blanks never makes a text longer.
-/

namespace ContractShell.Text

/-! ## 1. The class -/

/-- A blank is a Unicode space separator, a line or paragraph separator, or one of the control characters that
separate lines, records and fields. -/
def isBlank (c : Char) : Bool :=
  let n := c.toNat
  (9 ≤ n && n ≤ 13) || (28 ≤ n && n ≤ 32) || n == 0x85 || n == 0xA0 || n == 0x1680 ||
    (0x2000 ≤ n && n ≤ 0x200A) || n == 0x2028 || n == 0x2029 || n == 0x202F || n == 0x205F || n == 0x3000

/-! ## 2. Trimming -/

/-- The text after its leading blanks. -/
def dropBlank (s : List Char) : List Char := s.dropWhile isBlank

theorem dropBlank_length_le (s : List Char) : (dropBlank s).length ≤ s.length :=
  (List.dropWhile_suffix isBlank).length_le

/-- `s` without what is of a class at either end. -/
def trimBy {α : Type} (drop : α → Bool) (s : List α) : List α :=
  ((s.dropWhile drop).reverse.dropWhile drop).reverse

/-- `s` without blanks at either end. -/
def trim (s : List Char) : List Char := trimBy isBlank s

/-- `s` without blanks at either end, on strings. -/
def trimString (s : String) : String := String.ofList (trim s.toList)

/-! ## 3. Lines -/

/-- The characters that end a line. A carriage return and the line feed after it end one line together. -/
def isLineEnd (c : Char) : Bool :=
  let n := c.toNat
  (10 ≤ n && n ≤ 13) || (28 ≤ n && n ≤ 30) || n == 0x85 || n == 0x2028 || n == 0x2029

/-- Splits at line ends. `open?` is the line being read, or `none` right after a line end; the text after the last line
end counts as a line only when it is not empty. -/
def linesFrom : List Char → Option (List Char) → List (List Char)
  | [], none => []
  | [], some l => [l.reverse]
  | '\r' :: '\n' :: r, l => (l.getD []).reverse :: linesFrom r none
  | c :: r, l =>
    if isLineEnd c then (l.getD []).reverse :: linesFrom r none
    else linesFrom r (some (c :: l.getD []))

/-- The lines of a text, without their ends. -/
def lines (s : String) : List String := (linesFrom s.toList none).map String.ofList

/-- Reading a text file turns a carriage return, alone or before a line feed, into a line feed. -/
def unifyLineEnds : List Char → List Char
  | [] => []
  | '\r' :: '\n' :: r => '\n' :: unifyLineEnds r
  | c :: r => (if c = '\r' then '\n' else c) :: unifyLineEnds r

end ContractShell.Text
