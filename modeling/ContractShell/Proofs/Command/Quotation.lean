import ContractShell.Command.Position
import ContractShell.Proofs.Command.Spelling

/-!
Strings between quotes, piece by piece.

A piece is a backslash with the character behind it, or a character alone that is neither a backslash nor the quote. What
follows an opening quote is pieces up to the closing one, in one way only, and each piece stands for its part of the
string.

## Main statements

* `Divides.unique`: a text is divided into pieces in one way only.
* `spells_iff`: the spellings of a string are the pieces that stand for it.
* `quotedAt_pieces`: the string at a quote is read off the pieces behind it, if they come to an end.
-/

namespace ContractShell.Command

namespace Quoted

/-! ## 1. Pieces -/

/-- A backslash with any one character, or a single character other than a backslash and the quote. -/
def IsPiece (quote : Char) (piece : List Char) : Prop :=
  (∃ c, piece = ['\\', c]) ∨ ∃ c, c ≠ '\\' ∧ c ≠ quote ∧ piece = [c]

/-- The part of the string that a piece stands for. A backslash is left out before a backslash or a quote mark. -/
def pieceValue : List Char → List Char
  | ['\\', c] => if c = '\\' ∨ c = '"' ∨ c = '\'' then [c] else ['\\', c]
  | piece => piece

/-- A text behind an opening quote starts with pieces and the closing quote. -/
structure Divides (quote : Char) (pieces : List (List Char)) (rest s : List Char) : Prop where
  isPiece : ∀ piece ∈ pieces, IsPiece quote piece
  text : s = pieces.flatten ++ quote :: rest

theorem isEscapable_iff {c : Char} : isEscapable c = true ↔ c = '\\' ∨ c = '"' ∨ c = '\'' := by
  simp [isEscapable, or_assoc]

theorem pieceValue_backslash (c : Char) : pieceValue ['\\', c] = if isEscapable c then [c] else ['\\', c] := by
  simp only [pieceValue, isEscapable_iff]

theorem pieceValue_single (c : Char) : pieceValue [c] = [c] := by
  unfold pieceValue
  split
  · rename_i h
    cases h
  · rfl

section

variable {quote : Char} {pieces : List (List Char)} {piece rest s v : List Char}

theorem Divides.tail (h : Divides quote (piece :: pieces) rest s) :
    Divides quote pieces rest (pieces.flatten ++ quote :: rest) :=
  ⟨fun x hx => h.isPiece x (List.mem_cons_of_mem _ hx), rfl⟩

theorem Divides.cons (hpiece : IsPiece quote piece) (h : Divides quote pieces rest s) :
    Divides quote (piece :: pieces) rest (piece ++ s) :=
  ⟨List.forall_mem_cons.mpr ⟨hpiece, h.isPiece⟩, by rw [h.text, List.flatten_cons, List.append_assoc]⟩

/-- A piece is told from the closing quote and from other pieces by what it starts with. -/
theorem IsPiece.not_append_quote (hquote : quote ≠ '\\') (hpiece : IsPiece quote piece) :
    piece ++ s ≠ quote :: rest := by
  rcases hpiece with ⟨c, rfl⟩ | ⟨c, -, hc, rfl⟩
  · exact fun h => hquote (List.cons.inj h).1.symm
  · exact fun h => hc (List.cons.inj h).1

theorem IsPiece.append_inj {other t : List Char} (hpiece : IsPiece quote piece) (hother : IsPiece quote other)
    (h : piece ++ s = other ++ t) : piece = other ∧ s = t := by
  rcases hpiece with ⟨c, rfl⟩ | ⟨c, hback, -, rfl⟩ <;> rcases hother with ⟨d, rfl⟩ | ⟨d, hback', -, rfl⟩
  · exact List.append_inj h rfl
  · exact absurd (List.cons.inj h).1.symm hback'
  · exact absurd (List.cons.inj h).1 hback
  · exact List.append_inj h rfl

/-- A text is divided into pieces in one way only. -/
theorem Divides.unique {pieces' : List (List Char)} {rest' : List Char} (hquote : quote ≠ '\\')
    (h : Divides quote pieces rest s) (h' : Divides quote pieces' rest' s) : pieces' = pieces ∧ rest' = rest := by
  -- Both divisions go on with a piece or both end, since a closing quote starts no piece. Then the first pieces are one, and
  -- so is what stands behind them.
  induction pieces generalizing s pieces' with
  | nil =>
    cases pieces' with
    | nil =>
      have hsame := h'.text.symm.trans h.text
      exact ⟨rfl, (List.cons.inj hsame).2⟩
    | cons piece' pieces' =>
      have hsame : piece' ++ (pieces'.flatten ++ quote :: rest') = quote :: rest := by
        rw [← List.append_assoc, ← List.flatten_cons, ← h'.text, h.text]
        rfl
      exact absurd hsame ((h'.isPiece piece' (by simp)).not_append_quote hquote)
  | cons piece pieces ih =>
    have htext : piece ++ (pieces.flatten ++ quote :: rest) = s := by
      rw [← List.append_assoc, ← List.flatten_cons, ← h.text]
    have hpiece : IsPiece quote piece := h.isPiece piece (by simp)
    cases pieces' with
    | nil => exact absurd (htext.trans h'.text) (hpiece.not_append_quote hquote)
    | cons piece' pieces' =>
      have hsame : piece ++ (pieces.flatten ++ quote :: rest) = piece' ++ (pieces'.flatten ++ quote :: rest') := by
        rw [htext, h'.text, List.flatten_cons, List.append_assoc]
      obtain ⟨rfl, hrest⟩ := hpiece.append_inj (h'.isPiece piece' (by simp)) hsame
      have htail := h'.tail
      rw [← hrest] at htail
      obtain ⟨rfl, rfl⟩ := ih h.tail htail
      exact ⟨rfl, rfl⟩

/-! ## 2. Spellings -/

theorem Spells.exists_pieces (h : Spells quote s v) :
    ∃ pieces, Divides quote pieces [] s ∧ v = pieces.flatMap pieceValue := by
  induction h with
  | close => exact ⟨[], ⟨by simp, rfl⟩, rfl⟩
  | @plain c s v hback hclose _ ih =>
    obtain ⟨pieces, hdivides, rfl⟩ := ih
    refine ⟨[c] :: pieces, hdivides.cons (.inr ⟨c, hback, hclose, rfl⟩), ?_⟩
    rw [List.flatMap_cons, pieceValue_single, List.singleton_append]
  | @escaped c s v hc _ ih =>
    obtain ⟨pieces, hdivides, rfl⟩ := ih
    refine ⟨['\\', c] :: pieces, hdivides.cons (.inl ⟨c, rfl⟩), ?_⟩
    rw [List.flatMap_cons, pieceValue_backslash, if_pos hc, List.singleton_append]
  | @kept c s v hc _ ih =>
    obtain ⟨pieces, hdivides, rfl⟩ := ih
    refine ⟨['\\', c] :: pieces, hdivides.cons (.inl ⟨c, rfl⟩), ?_⟩
    rw [List.flatMap_cons, pieceValue_backslash, if_neg (by simp [hc])]
    rfl

theorem spells_of_pieces (h : ∀ piece ∈ pieces, IsPiece quote piece) :
    Spells quote (pieces.flatten ++ [quote]) (pieces.flatMap pieceValue) := by
  induction pieces with
  | nil => exact .close
  | cons piece pieces ih =>
    obtain ⟨hpiece, hpieces⟩ := List.forall_mem_cons.mp h
    rw [List.flatten_cons, List.append_assoc, List.flatMap_cons]
    rcases hpiece with ⟨c, rfl⟩ | ⟨c, hback, hclose, rfl⟩
    · rw [pieceValue_backslash]
      cases hc : isEscapable c with
      | true => exact .escaped hc (ih hpieces)
      | false => exact .kept hc (ih hpieces)
    · rw [pieceValue_single]
      exact .plain hback hclose (ih hpieces)

/-- The spellings of a string are the pieces that stand for it. -/
theorem spells_iff :
    Spells quote s v ↔ ∃ pieces, Divides quote pieces [] s ∧ v = pieces.flatMap pieceValue := by
  constructor
  · exact fun h => h.exists_pieces
  · rintro ⟨pieces, hdivides, rfl⟩
    rw [hdivides.text]
    exact spells_of_pieces hdivides.isPiece

/-- What is read behind an opening quote stands for the pieces up to the closing one. -/
theorem readRest?_eq_some_iff (hquote : IsQuote quote) :
    readRest? quote false s = some (v, rest) ↔
      ∃ pieces, Divides quote pieces rest s ∧ v = pieces.flatMap pieceValue := by
  constructor
  · intro h
    obtain ⟨u, htext, hspells⟩ := exists_spelling hquote h
    obtain ⟨pieces, hdivides, hv⟩ := spells_iff.mp hspells
    have htext : s = u ++ rest := by simpa using htext
    refine ⟨pieces, ⟨hdivides.isPiece, ?_⟩, hv⟩
    rw [htext, hdivides.text, List.append_assoc]
    rfl
  · rintro ⟨pieces, hdivides, rfl⟩
    have hspells := spells_of_pieces hdivides.isPiece
    have hread := readRest?_of_spells hquote hspells rest
    rwa [List.append_assoc, List.singleton_append, ← hdivides.text] at hread

end

end Quoted

/-! ## 3. Strings at a position -/

section

variable {text : List Char} {position : Nat} {quote : Char}

theorem quotedAt_of_getElem? (hat : text[position]? = some quote) :
    quotedAt text position =
      match Quoted.readRest? quote false (text.drop (position + 1)) with
      | some (value, rest) => .ok (value, positionOf text rest)
      | none => .error .unterminated := by
  obtain ⟨hlt, hquote⟩ := List.getElem?_eq_some_iff.mp hat
  rw [quotedAt, if_neg (Nat.not_le.mpr hlt), List.drop_eq_getElem_cons hlt, hquote]
  rfl

/-- The text behind the closing quote starts as far on as the pieces and both quotes take. -/
theorem positionOf_of_divides {pieces : List (List Char)} {rest : List Char}
    (h : Quoted.Divides quote pieces rest (text.drop (position + 1))) :
    positionOf text rest = position + 1 + pieces.flatten.length + 1 := by
  have hbody : (pieces.flatten ++ [quote]) ++ rest = text.drop (position + 1) := by
    rw [h.text, List.append_assoc, List.singleton_append]
  rw [positionOf_of_append (by simp) hbody, List.length_append, List.length_singleton, Nat.add_assoc _ _ 1]

open Quoted in
/-- A quote at a position opens a string just when pieces and a closing quote follow it. They do so in one way only; the
string ends behind its closing quote, and its value is what the pieces stand for. Otherwise it has no end. -/
theorem quotedAt_pieces (hquote : IsQuote quote) (hat : text[position]? = some quote) :
    (∀ v e, quotedAt text position = .ok (v, e) ↔
      ∃ pieces rest, Divides quote pieces rest (text.drop (position + 1)) ∧ v = pieces.flatMap pieceValue ∧
        e = position + 1 + pieces.flatten.length + 1) ∧
      (∀ pieces rest pieces' rest', Divides quote pieces rest (text.drop (position + 1)) →
        Divides quote pieces' rest' (text.drop (position + 1)) → pieces' = pieces ∧ rest' = rest) ∧
      ((∀ pieces rest, ¬ Divides quote pieces rest (text.drop (position + 1))) →
        quotedAt text position = .error .unterminated) := by
  have hback : quote ≠ '\\' := by
    rcases hquote with rfl | rfl <;> decide
  have hread := quotedAt_of_getElem? hat
  refine ⟨fun v e => ?_, fun pieces rest pieces' rest' h h' => h.unique hback h', fun hnone => ?_⟩
  · constructor
    · intro h
      rw [hread] at h
      split at h
      · rename_i value rest hsome
        cases h
        obtain ⟨pieces, hdivides, hv⟩ := (readRest?_eq_some_iff hquote).mp hsome
        exact ⟨pieces, rest, hdivides, hv, positionOf_of_divides hdivides⟩
      · cases h
    · rintro ⟨pieces, rest, hdivides, hv, rfl⟩
      rw [hread, (readRest?_eq_some_iff hquote).mpr ⟨pieces, hdivides, hv⟩]
      show Except.ok (v, positionOf text rest) = _
      rw [positionOf_of_divides hdivides]
  · rw [hread]
    cases hrest : readRest? quote false (text.drop (position + 1)) with
    | none => rfl
    | some r =>
      obtain ⟨pieces, hdivides, -⟩ := (readRest?_eq_some_iff hquote).mp hrest
      exact absurd hdivides (hnone pieces r.2)

end

open Quoted in
/-- A string that starts behind the first character, with an escaped quote and a backslash that is kept. -/
theorem quotedAt_pieces_kept :
    IsQuote '\'' ∧ "x'a\\'\\n'y".toList[1]? = some '\'' ∧
      quotedAt "x'a\\'\\n'y".toList 1 = .ok ("a'\\n".toList, 8) := by
  have hquote : IsQuote '\'' := .inr rfl
  have hat : "x'a\\'\\n'y".toList[1]? = some '\'' := by decide
  have hpieces : ∀ piece ∈ [['a'], ['\\', '\''], ['\\', 'n']], IsPiece '\'' piece := by simp [IsPiece]
  exact ⟨hquote, hat, ((quotedAt_pieces hquote hat).1 _ _).mpr ⟨_, ['y'], ⟨hpieces, rfl⟩, rfl, rfl⟩⟩

/-- A backslash at the end stands before nothing. -/
example : quotedAt "'a\\".toList 0 = .error .unterminated := rfl

end ContractShell.Command
