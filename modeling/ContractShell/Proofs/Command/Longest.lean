import ContractShell.Command.Position
import ContractShell.Proofs.Value.HexText
import ContractShell.Text.Lower
import Mathlib.Computability.Language

/-!
The patterns of tokens, and readers that take the longest token there is.

A pattern is put together from classes of characters by sums, products and repetition. Several of its texts may stand at
the start of a text: a figure of an amount, an amount without its fraction, the zero of a mark that no digits follow. A
reader never stops before the end of any of them, and what it takes is one of them.

## Main statements

* `Kind.denotes_iff`: the tokens of a kind are the texts of its pattern.
* `Pattern.foldCase_eq_iff`: the characters that are letters of the words for truth values, regardless of case.
* `Kind.read_covers`: a reader gets at least as far as any token that stands there.
* `Kind.isLongest_of_read`: what it takes is the longest one.
* `reads_longest`: arguments and command names at a position.
-/

namespace ContractShell.Command

open scoped Computability

/-! ## 1. Patterns -/

namespace Pattern

/-- One character of a class. -/
def oneOf (p : Char → Bool) : Language Char := {s | ∃ c, p c = true ∧ s = [c]}

/-- A text as it is. -/
def literal (w : List Char) : Language Char := {w}

/-- At least one character, all of a class. -/
def some1 (p : Char → Bool) : Language Char := oneOf p * (oneOf p)∗

/-- What a pattern describes, or nothing. -/
def optional (l : Language Char) : Language Char := 1 + l

/-- A character is a letter in some case: its form in lower case is the letter, or it is the long s and the letter is the
s, whose capital they share. -/
def IsCaseOf (c letter : Char) : Prop := Text.lowerChar c = [letter] ∨ c.toNat = 0x17F ∧ letter = 's'

/-- A word, each letter of it in some case. -/
def anyCase (w : List Char) : Language Char := {s | List.Forall₂ IsCaseOf s w}

/-- `(word\.)?word` -/
def commandName : Language Char := optional (some1 isWordChar * literal ['.']) * some1 isWordChar

/-- Digits of base58. -/
def address : Language Char := some1 Base58.isDigit

/-- `\d+(\.\d*)?` or `\.\d+` -/
def amount : Language Char :=
  some1 Text.isDecimal * optional (literal ['.'] * (oneOf Text.isDecimal)∗) + literal ['.'] * some1 Text.isDecimal

/-- `[+-]?[0-9]+` -/
def int : Language Char := optional (literal ['+'] + literal ['-']) * some1 Text.isDigit

/-- `\+?[0-9]+` -/
def uint : Language Char := optional (literal ['+']) * some1 Text.isDigit

/-- `(0x)?[0-9A-Fa-f]+` -/
def hexBytes : Language Char := optional (literal ['0', 'x']) * some1 Text.isHexDigit

/-- A truth value: its word in any case, or its figure. -/
def truth (b : Bool) : Language Char := anyCase (truthWord b) + literal [if b then '1' else '0']

/-! ## 2. Texts of patterns -/

variable {s : List Char} {p : Char → Bool}

theorem mem_oneOf_kstar_iff : s ∈ (oneOf p)∗ ↔ ∀ c ∈ s, p c = true := by
  rw [Language.mem_kstar]
  constructor
  · rintro ⟨parts, rfl, hparts⟩ c hc
    obtain ⟨part, hpart, hc⟩ := List.mem_flatten.mp hc
    obtain ⟨d, hd, rfl⟩ := hparts part hpart
    rwa [List.mem_singleton.mp hc]
  · intro h
    refine ⟨s.map fun c => [c], ?_, fun part hpart => ?_⟩
    · rw [← List.flatMap_def, List.flatMap_singleton']
    · obtain ⟨c, hc, rfl⟩ := List.mem_map.mp hpart
      exact ⟨c, h c hc, rfl⟩

theorem mem_some1_iff : s ∈ some1 p ↔ IsRun p s := by
  rw [some1, Language.mem_mul]
  constructor
  · rintro ⟨_, ⟨c, hc, rfl⟩, t, ht, rfl⟩
    exact ⟨List.cons_ne_nil c t, List.forall_mem_cons.mpr ⟨hc, mem_oneOf_kstar_iff.mp ht⟩⟩
  · rintro ⟨hne, hall⟩
    cases s with
    | nil => exact absurd rfl hne
    | cons c t =>
      obtain ⟨hc, ht⟩ := List.forall_mem_cons.mp hall
      exact ⟨[c], ⟨c, hc, rfl⟩, t, mem_oneOf_kstar_iff.mpr ht, rfl⟩

theorem mem_literal_mul_iff {w : List Char} {l : Language Char} : s ∈ literal w * l ↔ ∃ t ∈ l, s = w ++ t := by
  rw [Language.mem_mul]
  constructor
  · rintro ⟨_, rfl, t, ht, rfl⟩
    exact ⟨t, ht, rfl⟩
  · rintro ⟨t, ht, rfl⟩
    exact ⟨w, rfl, t, ht, rfl⟩

theorem mem_optional_mul_iff {l m : Language Char} : s ∈ optional l * m ↔ s ∈ m ∨ s ∈ l * m := by
  rw [optional, add_mul, one_mul, Language.mem_add]

theorem mem_mul_optional_iff {l m : Language Char} : s ∈ m * optional l ↔ s ∈ m ∨ s ∈ m * l := by
  rw [optional, mul_add, mul_one, Language.mem_add]

theorem mem_commandName_iff : s ∈ commandName ↔ IsName s := by
  rw [commandName, mem_optional_mul_iff, mem_some1_iff, mul_assoc, Language.mem_mul]
  refine or_congr_right ⟨?_, ?_⟩
  · rintro ⟨w, hw, t, ht, rfl⟩
    obtain ⟨v, hv, rfl⟩ := mem_literal_mul_iff.mp ht
    exact ⟨w, v, mem_some1_iff.mp hw, mem_some1_iff.mp hv, rfl⟩
  · rintro ⟨w, v, hw, hv, rfl⟩
    exact ⟨w, mem_some1_iff.mpr hw, '.' :: v, mem_literal_mul_iff.mpr ⟨v, mem_some1_iff.mpr hv, rfl⟩, rfl⟩

theorem mem_amount_iff : s ∈ amount ↔ IsAmount s := by
  have hfraction : s ∈ literal ['.'] * some1 Text.isDecimal ↔ ∃ v, IsRun Text.isDecimal v ∧ s = '.' :: v := by
    rw [mem_literal_mul_iff]
    exact exists_congr fun v => and_congr_left' mem_some1_iff
  rw [amount, Language.mem_add, hfraction, mem_mul_optional_iff, mem_some1_iff, Language.mem_mul]
  refine or_congr_left ⟨?_, ?_⟩
  · rintro (hs | ⟨w, hw, t, ht, rfl⟩)
    · exact ⟨s, hs, .inl rfl⟩
    · obtain ⟨v, hv, rfl⟩ := mem_literal_mul_iff.mp ht
      exact ⟨w, mem_some1_iff.mp hw, .inr ⟨v, mem_oneOf_kstar_iff.mp hv, rfl⟩⟩
  · rintro ⟨w, hw, rfl | ⟨v, hv, rfl⟩⟩
    · exact .inl hw
    · exact .inr ⟨w, mem_some1_iff.mpr hw, '.' :: v, mem_literal_mul_iff.mpr ⟨v, mem_oneOf_kstar_iff.mpr hv, rfl⟩, rfl⟩

theorem mem_int_iff : s ∈ int ↔ IsInteger true s := by
  rw [int, mem_optional_mul_iff, add_mul, Language.mem_add, mem_literal_mul_iff, mem_literal_mul_iff]
  simp only [mem_some1_iff]
  constructor
  · rintro (hs | ⟨w, hw, rfl⟩ | ⟨w, hw, rfl⟩)
    · exact ⟨s, hs, .inl rfl⟩
    · exact ⟨w, hw, .inr (.inl rfl)⟩
    · exact ⟨w, hw, .inr (.inr ⟨rfl, rfl⟩)⟩
  · rintro ⟨w, hw, rfl | rfl | ⟨-, rfl⟩⟩
    · exact .inl hw
    · exact .inr (.inl ⟨w, hw, rfl⟩)
    · exact .inr (.inr ⟨w, hw, rfl⟩)

theorem mem_uint_iff : s ∈ uint ↔ IsInteger false s := by
  rw [uint, mem_optional_mul_iff, mem_literal_mul_iff]
  simp only [mem_some1_iff]
  constructor
  · rintro (hs | ⟨w, hw, rfl⟩)
    · exact ⟨s, hs, .inl rfl⟩
    · exact ⟨w, hw, .inr (.inl rfl)⟩
  · rintro ⟨w, hw, rfl | rfl | ⟨hsigned, -⟩⟩
    · exact .inl hw
    · exact .inr ⟨w, hw, rfl⟩
    · cases hsigned

theorem mem_hexBytes_iff : s ∈ hexBytes ↔ IsHex s := by
  rw [hexBytes, mem_optional_mul_iff, mem_literal_mul_iff]
  simp only [mem_some1_iff]
  constructor
  · rintro (hs | ⟨w, hw, rfl⟩)
    · exact ⟨s, hs, .inl rfl⟩
    · exact ⟨w, hw, .inr rfl⟩
  · rintro ⟨w, hw, rfl | rfl⟩
    · exact .inl hw
    · exact .inr ⟨w, hw, rfl⟩

/-! ## 3. Words in any case -/

/-- The letters of the words for truth values. -/
def truthLetters : List Char := ['t', 'r', 'u', 'e', 'f', 'a', 'l', 's']

theorem eq_of_toNat_ofNat {n m : Nat} (h : (Char.ofNat n).toNat = m) (hm : m ≠ 0) : n = m := by
  by_cases hvalid : n.isValidChar
  · have hchar : Char.ofNat n = Char.ofNatAux n hvalid := dif_pos hvalid
    rw [hchar] at h
    exact h
  · have hchar : Char.ofNat n = Char.ofNat 0 := dif_neg hvalid
    rw [hchar] at h
    exact absurd h.symm hm

/-- In ASCII the capitals are the only run. -/
theorem lowerChar_of_ascii {c : Char} (hc : c.toNat < 128) : Text.lowerChar c = [c.toLower] := by
  have hruns : ∀ r ∈ Text.lowerRuns.toList, r = (0x41, 0x5A, 1, 32) ∨ 128 ≤ r.1 := by decide +kernel
  have hlower := Hex.toNat_toLower c
  rcases Text.lowerChar_cases (show c.toNat ≠ 0x130 by omega) with ⟨r, hr, hfirst, hlast, hrun⟩ | ⟨hnone, hsame⟩
  · obtain rfl := (hruns r hr.val).resolve_right (by omega)
    rw [if_pos ⟨hfirst, hlast⟩] at hlower
    have hcode : ((c.toNat : Int) + 32).toNat = c.toLower.toNat := by omega
    rw [hrun, hcode, Char.ofNat_toNat]
  · have hcapital : ¬ (65 ≤ c.toNat ∧ c.toNat ≤ 90) := fun h =>
      hnone (0x41, 0x5A, 1, 32) (Array.mem_def.mpr (by decide +kernel)) h.1 h.2 (Nat.mod_one _)
    rw [if_neg hcapital] at hlower
    rw [hsame, Char.toNat_inj.mp hlower]

/-- Of the characters behind ASCII only the Kelvin sign has a letter of ASCII as its lower case, which is the k. -/
theorem lowerChar_of_not_ascii {c letter : Char} (hc : 128 ≤ c.toNat) (hletter : letter ∈ truthLetters) :
    Text.lowerChar c ≠ [letter] := by
  have hruns : ∀ r ∈ Text.lowerRuns.toList,
      r.2.1 < 128 ∨ 128 ≤ (r.1 : Int) + r.2.2.2 ∨ (r.1 = 0x212A ∧ r.2.1 = 0x212A ∧ r.2.2.2 = -8383) := by
    decide +kernel
  have hsmall : ∀ d ∈ truthLetters, 97 ≤ d.toNat ∧ d.toNat < 128 ∧ d.toNat ≠ 107 := by simp [truthLetters]
  obtain ⟨hlow, hhigh, hkelvin⟩ := hsmall letter hletter
  -- A run of ASCII does not hold the character, and of the others only the one with the Kelvin sign leads into ASCII.
  intro hletter
  by_cases hdotted : c.toNat = 0x130
  · rw [Text.lowerChar, if_pos hdotted] at hletter
    cases hletter
  · rcases Text.lowerChar_cases hdotted with ⟨r, hr, hfirst, hlast, hrun⟩ | ⟨-, hsame⟩
    · have hchar := (List.cons.inj (hrun.symm.trans hletter)).1
      have hcode := eq_of_toNat_ofNat (congrArg Char.toNat hchar) (by omega)
      have := hruns r hr.val
      omega
    · rw [(List.cons.inj (hsame.symm.trans hletter)).1] at hc
      omega

/-- The letters of the words for truth values are told regardless of case. -/
theorem foldCase_eq_iff {c letter : Char} (hletter : letter ∈ truthLetters) :
    foldCase c = letter ↔ IsCaseOf c letter := by
  unfold foldCase IsCaseOf
  by_cases hlong : c.toNat = 0x17F
  · rw [if_pos hlong, eq_comm]
    exact ⟨fun h => .inr ⟨hlong, h⟩, fun h => (h.resolve_left (lowerChar_of_not_ascii (by omega) hletter)).2⟩
  · rw [if_neg hlong, or_iff_left fun h => hlong h.1]
    by_cases hascii : c.toNat < 128
    · rw [lowerChar_of_ascii hascii, List.cons.injEq, and_iff_left rfl]
    · have hsmall : ∀ d ∈ truthLetters, d.toNat < 128 := by simp [truthLetters]
      refine iff_of_false ?_ (lowerChar_of_not_ascii (by omega) hletter)
      rintro rfl
      have hcode := Hex.toNat_toLower c
      rw [if_neg (by omega)] at hcode
      exact hascii (hcode ▸ hsmall _ hletter)

theorem mem_anyCase_iff {w : List Char} (hw : ∀ c ∈ w, c ∈ truthLetters) : s ∈ anyCase w ↔ s.map foldCase = w := by
  show List.Forall₂ IsCaseOf s w ↔ _
  induction w generalizing s with
  | nil => rw [List.forall₂_nil_right_iff, List.map_eq_nil_iff]
  | cons c w ih =>
    obtain ⟨hc, hw⟩ := List.forall_mem_cons.mp hw
    cases s with
    | nil => exact iff_of_false (fun h => by cases h) (fun h => by cases h)
    | cons d s => rw [List.forall₂_cons, List.map_cons, List.cons.injEq, foldCase_eq_iff hc, ih hw]

theorem mem_truth_iff {b : Bool} : s ∈ truth b ↔ IsTruth b s := by
  have hw : ∀ c ∈ truthWord b, c ∈ truthLetters := by
    cases b <;> simp [truthWord, truthLetters]
  rw [truth, Language.mem_add, mem_anyCase_iff hw]
  rfl

end Pattern

/-! ## 4. Kinds -/

/-- The tokens of a kind. The kinds that are written as strings have a rule of their own and no pattern. -/
def Kind.tokens : Kind → Language Char
  | .address | .base58Bytes => Pattern.address
  | .amount => Pattern.amount
  | .int => Pattern.int
  | .uint => Pattern.uint
  | .bool => Pattern.truth true + Pattern.truth false
  | .hexBytes => Pattern.hexBytes
  | .string | .commandName | .file => 0

/-- The value of a token: the word for a truth value, and else the token itself. -/
def Kind.Gives (kind : Kind) (token value : List Char) : Prop :=
  match kind with
  | .bool => ∃ b, token ∈ Pattern.truth b ∧ value = truthWord b
  | _ => value = token

/-- The kinds that are written as strings. -/
def Kind.textual : List Kind := [.string, .commandName, .file]

theorem denotes_iff_of_mem_iff {l : Language Char} {P : List Char → Prop} (h : ∀ s, s ∈ l ↔ P s) {token value : List Char} :
    token = value ∧ P value ↔ token ∈ l ∧ value = token := by
  rw [h]
  constructor
  · rintro ⟨rfl, hs⟩
    exact ⟨hs, rfl⟩
  · rintro ⟨hs, rfl⟩
    exact ⟨rfl, hs⟩

/-- Tokens are the texts that values are written as, and give these values. -/
theorem Kind.denotes_iff {kind : Kind} (hkind : kind ∉ Kind.textual) {token value : List Char} :
    kind.Denotes token value ↔ token ∈ kind.tokens ∧ kind.Gives token value := by
  cases kind with
  | string | commandName | file => exact absurd (by simp [Kind.textual]) hkind
  | address | base58Bytes => exact denotes_iff_of_mem_iff fun _ => Pattern.mem_some1_iff
  | amount => exact denotes_iff_of_mem_iff fun _ => Pattern.mem_amount_iff
  | int => exact denotes_iff_of_mem_iff fun _ => Pattern.mem_int_iff
  | uint => exact denotes_iff_of_mem_iff fun _ => Pattern.mem_uint_iff
  | hexBytes => exact denotes_iff_of_mem_iff fun _ => Pattern.mem_hexBytes_iff
  | bool =>
    simp only [Kind.Denotes, Kind.tokens, Kind.Gives, Language.mem_add, Pattern.mem_truth_iff]
    constructor
    · rintro ⟨b, hb, hv⟩
      refine ⟨?_, b, hb, hv⟩
      cases b
      · exact .inr hb
      · exact .inl hb
    · exact fun h => h.2

/-- The longest text of a language that a text starts with. -/
structure IsLongest (l : Language Char) (s w : List Char) : Prop where
  mem : w ∈ l
  isPrefix : w <+: s
  longest : ∀ u ∈ l, u <+: s → u.length ≤ w.length

/-! ## 5. How far readers get -/

/-- A reader gets at least as far as any text of a form that stands at the start. -/
def Covers {α : Type} (read : List Char → Option (α × List Char)) (form : List Char → Prop) : Prop :=
  ∀ u t, form u → ∃ a r, read (u ++ t) = some (a, r) ∧ r.length ≤ t.length

/-- What a reader takes is the longest text of a language if it is one and the reader gets as far as any other. -/
theorem isLongest_of_covers {α : Type} {read : List Char → Option (α × List Char)} {l : Language Char}
    (hcovers : Covers read (· ∈ l)) {a : α} {w r : List Char} (hread : read (w ++ r) = some (a, r)) (hw : w ∈ l) :
    IsLongest l (w ++ r) w := by
  refine ⟨hw, List.prefix_append w r, ?_⟩
  rintro u hu ⟨t, ht⟩
  -- A longer text would leave less behind it than the reader does.
  obtain ⟨a', r', hfar, hle⟩ := hcovers u t hu
  rw [ht, hread] at hfar
  cases hfar
  have hlength := congrArg List.length ht
  rw [List.length_append, List.length_append] at hlength
  omega

section

variable {p : Char → Bool}

theorem run?_append_of_isRun {u : List Char} (hu : IsRun p u) (t : List Char) :
    run? p (u ++ t) = some (u ++ t.takeWhile p, t.dropWhile p) := by
  unfold run? spanOf
  rw [List.takeWhile_append_of_pos hu.2, List.dropWhile_append_of_pos hu.2]
  cases u with
  | nil => exact absurd rfl hu.1
  | cons c r => rfl

theorem run?_covers : Covers (run? p) (IsRun p) := fun _ t hu =>
  ⟨_, _, run?_append_of_isRun hu t, spanOf_length_le p t⟩

end

theorem name?_covers : Covers name? IsName := by
  rintro u t (hu | ⟨w, v, hw, hv, rfl⟩)
  · obtain ⟨w, r, hrun, hle⟩ := run?_covers u t hu
    unfold name?
    rw [hrun]
    split
    · rename_i h
      cases h
    · rename_i h
      cases h
      rw [List.length_cons] at hle
      -- A point and more letters may follow the word, which are then taken too.
      split
      · rename_i hmore
        have hlt := run?_length_lt hmore
        exact ⟨_, _, rfl, by omega⟩
      · exact ⟨_, _, rfl, hle⟩
    · rename_i h
      cases h
      exact ⟨_, _, rfl, hle⟩
  · obtain ⟨v', r, hrun, hle⟩ := run?_covers v t hv
    refine ⟨w ++ '.' :: v', r, ?_, hle⟩
    unfold name?
    rw [List.append_assoc, List.cons_append, run?_append_of_stops hw rfl]
    simp only [hrun]

theorem amount?_covers : Covers amount? IsAmount := by
  have hpoint : ∀ t, stops Text.isDecimal ('.' :: t) = true := fun _ => by
    show (!Text.isDecimal '.') = true
    decide
  rintro u t (⟨w, hw, rfl | ⟨v, hv, rfl⟩⟩ | ⟨v, hv, rfl⟩)
  · obtain ⟨w, r, hrun, hle⟩ := run?_covers u t hw
    unfold amount?
    rw [hrun]
    split
    · rename_i rest h
      cases h
      -- The fraction is taken with the figures.
      have hspan : (rest.dropWhile Text.isDecimal).length ≤ rest.length := spanOf_length_le Text.isDecimal rest
      rw [List.length_cons] at hle
      exact ⟨_, _, rfl, hspan.trans (Nat.le_of_succ_le hle)⟩
    · rename_i h
      cases h
      exact ⟨_, _, rfl, hle⟩
    · rename_i h _
      cases h
    · rename_i h _
      cases h
  · unfold amount?
    rw [List.append_assoc, List.cons_append, run?_append_of_stops hw (hpoint _)]
    refine ⟨_, _, rfl, ?_⟩
    show ((v ++ t).dropWhile Text.isDecimal).length ≤ t.length
    rw [List.dropWhile_append_of_pos hv]
    exact spanOf_length_le Text.isDecimal t
  · obtain ⟨v', r, hrun, hle⟩ := run?_covers v t hv
    refine ⟨'.' :: v', r, ?_, hle⟩
    unfold amount?
    rw [List.cons_append, run?_eq_none_of_stops (hpoint _)]
    simp only [hrun, Option.map_some]

theorem integer?_covers (signed : Bool) : Covers (integer? signed) (IsInteger signed) := by
  rintro u t ⟨w, hw, hu⟩
  obtain ⟨v, r, hrun, hle⟩ := run?_covers w t hw
  rcases hu with rfl | rfl | ⟨hsigned, rfl⟩
  · cases u with
    | nil => exact absurd rfl hw.1
    | cons c u =>
      have hc := sign_of_isDigit (hw.2 c (by simp))
      have hsign : ¬ (c = '+' ∨ (c = '-' ∧ signed = true)) := by
        rintro (h | ⟨h, _⟩)
        · exact hc.1 h
        · exact hc.2 h
      refine ⟨v, r, ?_, hle⟩
      rw [List.cons_append, integer?, if_neg hsign, ← List.cons_append, hrun]
  · refine ⟨'+' :: v, r, ?_, hle⟩
    rw [List.cons_append, integer?, if_pos (.inl rfl), hrun]
    rfl
  · refine ⟨'-' :: v, r, ?_, hle⟩
    rw [List.cons_append, integer?, if_pos (.inr ⟨rfl, hsigned⟩), hrun]
    rfl

/-- Digits that start as a mark does are the zero of the mark. -/
theorem eq_zero_of_append_eq_mark {u t r : List Char} (hu : IsRun Text.isHexDigit u) (h : u ++ t = '0' :: 'x' :: r) :
    u = ['0'] ∧ t = 'x' :: r := by
  match u, hu with
  | [], hu => exact absurd rfl hu.1
  | [c], _ =>
    obtain ⟨rfl, ht⟩ := List.cons.inj h
    exact ⟨rfl, ht⟩
  | c :: d :: u, hu =>
    have hd : d = 'x' := (List.cons.inj (List.cons.inj h).2).1
    have hdigit := hu.2 d (by simp)
    rw [hd] at hdigit
    exact absurd hdigit (by decide)

theorem hex?_covers : Covers hex? IsHex := by
  rintro u t ⟨w, hw, rfl | rfl⟩
  · obtain ⟨v, r, hrun, hle⟩ := run?_covers u t hw
    unfold hex?
    -- Digits that start as a mark does are its zero. More is taken if digits follow the mark, and the zero if not.
    split
    · rename_i rest hmark
      split
      · rename_i hmore
        have hlt := run?_length_lt hmore
        rw [(eq_zero_of_append_eq_mark hw hmark).2, List.length_cons]
        exact ⟨_, _, rfl, by omega⟩
      · exact ⟨v, r, hmark ▸ hrun, hle⟩
    · exact ⟨v, r, hrun, hle⟩
  · obtain ⟨v, r, hrun, hle⟩ := run?_covers w t hw
    refine ⟨'0' :: 'x' :: v, r, ?_, hle⟩
    unfold hex?
    simp only [List.cons_append, hrun]

/-! ## 6. Arguments and names -/

theorem toOption_orInvalid {α : Type} (o : Option α) : (orInvalid o).toOption = o := by
  cases o <;> rfl

/-- A reader gets at least as far as any token that stands at the start. -/
theorem Kind.read_covers (kind : Kind) : Covers (fun s => (kind.read s).toOption) (· ∈ kind.tokens) := by
  have hsome : ∀ {read : List Char → Option (List Char × List Char)} {form : List Char → Prop}, Covers read form →
      (∀ u ∈ kind.tokens, form u) → Covers (fun s => (orInvalid (read s)).toOption) (· ∈ kind.tokens) := by
    intro read form hcovers hform u t hu
    simp only [toOption_orInvalid]
    exact hcovers u t (hform u hu)
  cases kind with
  | address | base58Bytes => exact hsome run?_covers fun _ => Pattern.mem_some1_iff.mp
  | amount => exact hsome amount?_covers fun _ => Pattern.mem_amount_iff.mp
  | int => exact hsome (integer?_covers true) fun _ => Pattern.mem_int_iff.mp
  | uint => exact hsome (integer?_covers false) fun _ => Pattern.mem_uint_iff.mp
  | hexBytes => exact hsome hex?_covers fun _ => Pattern.mem_hexBytes_iff.mp
  | string | commandName | file => exact fun u _ hu => absurd hu (Language.notMem_zero u)
  | bool =>
    intro u t hu
    have htruth : ∃ b, IsTruth b u := by
      rcases (Language.mem_add _ _ _).mp hu with h | h
      · exact ⟨true, Pattern.mem_truth_iff.mp h⟩
      · exact ⟨false, Pattern.mem_truth_iff.mp h⟩
    obtain ⟨b, hb⟩ := htruth
    refine ⟨truthWord b, t, ?_, Nat.le_refl _⟩
    show (orInvalid ((bool? (u ++ t)).map _)).toOption = _
    rw [toOption_orInvalid, bool?_append hb]
    rfl

section

variable {kind : Kind} {s v r : List Char}

/-- What a reader takes is the longest token that stands at the start, and what it gives is the value of that. -/
theorem Kind.isLongest_of_read (hkind : kind ∉ Kind.textual) (h : kind.read s = .ok (v, r)) :
    ∃ w, w ++ r = s ∧ w ≠ [] ∧ IsLongest kind.tokens s w ∧ kind.Gives w v := by
  obtain ⟨w, rfl, hspells⟩ := Kind.exists_spelling h
  have hdenotes : kind.Denotes w v := by
    cases kind
    case string | commandName | file => exact absurd (by simp [Kind.textual]) hkind
    all_goals exact hspells
  have hne : w ≠ [] := by
    obtain ⟨c, u, rfl, -⟩ := hdenotes.starts
    exact List.cons_ne_nil c u
  obtain ⟨hmem, hgives⟩ := (Kind.denotes_iff hkind).mp hdenotes
  exact ⟨w, rfl, hne, isLongest_of_covers kind.read_covers (by rw [h]; rfl) hmem, hgives⟩

theorem Kind.exists_read (h : ∃ u ∈ kind.tokens, u <+: s) : ∃ v r, kind.read s = .ok (v, r) := by
  obtain ⟨u, hu, t, rfl⟩ := h
  obtain ⟨v, r, hread, -⟩ := kind.read_covers u t hu
  have hread : (kind.read (u ++ t)).toOption = some (v, r) := hread
  cases hresult : kind.read (u ++ t) with
  | ok x => exact ⟨x.1, x.2, rfl⟩
  | error f =>
    rw [hresult] at hread
    cases hread

/-- Nothing else is wrong with a text than that no token of the kind stands there. -/
theorem Kind.read_eq_invalid (hkind : kind ∉ Kind.textual) (h : ∀ x, kind.read s ≠ .ok x) :
    kind.read s = .error .invalid := by
  have hnone : ∀ o : Option (List Char × List Char), (∀ x, orInvalid o ≠ .ok x) → orInvalid o = .error .invalid := by
    intro o ho
    cases o with
    | none => rfl
    | some x => exact absurd rfl (ho x)
  cases kind
  case string | commandName | file => exact absurd (by simp [Kind.textual]) hkind
  all_goals exact hnone _ h

theorem isLongest_of_name? (h : name? s = some (v, r)) : IsLongest Pattern.commandName s v := by
  have hcovers : Covers name? (· ∈ Pattern.commandName) := fun u t hu =>
    name?_covers u t (Pattern.mem_commandName_iff.mp hu)
  have hmem : v ∈ Pattern.commandName := Pattern.mem_commandName_iff.mpr (isName_of_name? h)
  have htext := name?_append h
  subst htext
  exact isLongest_of_covers hcovers h hmem

theorem not_prefix_of_name? (h : name? s = none) {u : List Char} (hu : u ∈ Pattern.commandName) : ¬ u <+: s := by
  rintro ⟨t, rfl⟩
  obtain ⟨w, r, hread, -⟩ := name?_covers u t (Pattern.mem_commandName_iff.mp hu)
  rw [h] at hread
  cases hread

end

/-! ## 7. Tokens at a position -/

section

variable {kind : Kind} {text : List Char} {position : Nat}

theorem Kind.readAt_eq_ok_iff {v : List Char} {e : Nat} :
    kind.readAt text position = .ok (v, e) ↔
      ∃ r, kind.read (text.drop position) = .ok (v, r) ∧ e = positionOf text r := by
  unfold Kind.readAt
  cases kind.read (text.drop position) with
  | error f => exact iff_of_false (fun h => by cases h) (fun ⟨_, h, _⟩ => by cases h)
  | ok x =>
    obtain ⟨v', r⟩ := x
    constructor
    · intro h
      cases h
      exact ⟨r, rfl, rfl⟩
    · rintro ⟨r', h, rfl⟩
      cases h
      rfl

end

/-- At every position an argument of a kind that is not written as a string is read just when a token of its pattern stands
there. The longest such token is taken: the argument ends with it and has its value. A command name is the longest one that
stands there, or empty where none does. -/
theorem reads_longest (text : List Char) (position : Nat) :
    (∀ kind ∉ Kind.textual,
      ((∃ v e, kind.readAt text position = .ok (v, e)) ↔ ∃ u ∈ kind.tokens, u ≠ [] ∧ u <+: text.drop position) ∧
        (∀ v e, kind.readAt text position = .ok (v, e) →
          ∃ w, IsLongest kind.tokens (text.drop position) w ∧ kind.Gives w v ∧ e = position + w.length) ∧
        ((∀ x, kind.readAt text position ≠ .ok x) → kind.readAt text position = .error .invalid)) ∧
      (IsLongest Pattern.commandName (text.drop position) (nameAt text position) ∨
        nameAt text position = [] ∧ ∀ u ∈ Pattern.commandName, ¬ u <+: text.drop position) := by
  refine ⟨fun kind hkind => ⟨⟨?_, ?_⟩, ?_, ?_⟩, ?_⟩
  · rintro ⟨v, e, h⟩
    obtain ⟨r, hread, -⟩ := Kind.readAt_eq_ok_iff.mp h
    obtain ⟨w, -, hne, hlongest, -⟩ := Kind.isLongest_of_read hkind hread
    exact ⟨w, hlongest.mem, hne, hlongest.isPrefix⟩
  · rintro ⟨u, hu, -, hstart⟩
    obtain ⟨v, r, hread⟩ := Kind.exists_read ⟨u, hu, hstart⟩
    exact ⟨v, _, Kind.readAt_eq_ok_iff.mpr ⟨r, hread, rfl⟩⟩
  · intro v e h
    obtain ⟨r, hread, rfl⟩ := Kind.readAt_eq_ok_iff.mp h
    obtain ⟨w, htext, hne, hlongest, hgives⟩ := Kind.isLongest_of_read hkind hread
    exact ⟨w, hlongest, hgives, positionOf_of_append hne htext⟩
  · intro h
    have hread : ∀ x, kind.read (text.drop position) ≠ .ok x := fun x hx =>
      h _ (Kind.readAt_eq_ok_iff.mpr ⟨x.2, hx, rfl⟩)
    unfold Kind.readAt
    rw [Kind.read_eq_invalid hkind hread]
    rfl
  · unfold nameAt
    cases hname : name? (text.drop position) with
    | none => exact .inr ⟨rfl, fun u hu => not_prefix_of_name? hname hu⟩
    | some x => exact .inl (isLongest_of_name? hname)

/-- The mark of hexadecimal digits counts for nothing where no digit follows it. -/
theorem reads_longest_bare_mark :
    Kind.hexBytes ∉ Kind.textual ∧ Kind.hexBytes.readAt "m 0xg".toList 2 = .ok ("0".toList, 3) ∧
      IsLongest Kind.hexBytes.tokens "0xg".toList "0".toList := by
  have hkind : Kind.hexBytes ∉ Kind.textual := by decide
  have hread : Kind.hexBytes.readAt "m 0xg".toList 2 = .ok ("0".toList, 3) := rfl
  obtain ⟨w, hlongest, hgives, -⟩ := ((reads_longest "m 0xg".toList 2).1 _ hkind).2.1 _ _ hread
  have htoken : "0".toList = w := hgives
  exact ⟨hkind, hread, htoken ▸ hlongest⟩

/-- The long s counts as an s. -/
example : Kind.bool.readAt "falſe;".toList 0 = .ok ("false".toList, 5) := by decide

end ContractShell.Command
