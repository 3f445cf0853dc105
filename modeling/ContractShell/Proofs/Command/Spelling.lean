import ContractShell.Proofs.Command.Lexeme

/-!
How tokens are spelled.

`Kind.Denotes` says how values are written. The readers take more than that: a string may stand without quotes, or hold
escapes that nothing calls for. Here each reader is matched with the spellings that it takes, in both directions.

## Main statements

* `Kind.exists_spelling`: what is read is the value of a token at the start of the text.
* `Kind.read_of_spells`: a delimited token is read as the value that it spells.
-/

namespace ContractShell.Command

/-! ## 1. Strings in quotes -/

namespace Quoted

/-- What stands behind an opening quote, up to the closing one, and the string that it spells. A backslash goes with a
backslash or a quote mark, and is kept in front of anything else. -/
inductive Spells (quote : Char) : List Char → List Char → Prop where
  | close : Spells quote [quote] []
  | plain {c : Char} {s v : List Char} (hback : c ≠ '\\') (hquote : c ≠ quote) (h : Spells quote s v) :
      Spells quote (c :: s) (c :: v)
  | escaped {c : Char} {s v : List Char} (hc : isEscapable c = true) (h : Spells quote s v) :
      Spells quote ('\\' :: c :: s) (c :: v)
  | kept {c : Char} {s v : List Char} (hc : isEscapable c = false) (h : Spells quote s v) :
      Spells quote ('\\' :: c :: s) ('\\' :: c :: v)

theorem exists_spelling {quote : Char} (hq : IsQuote quote) {escaped : Bool} {s v r : List Char}
    (h : readRest? quote escaped s = some (v, r)) :
    ∃ u, (if escaped then '\\' :: s else s) = u ++ r ∧ Spells quote u v := by
  -- After a backslash the spelling that is sought starts one character earlier, with the backslash.
  induction s generalizing escaped v with
  | nil => cases escaped <;> cases h
  | cons c t ih =>
    cases escaped with
    | true =>
      show ∃ u, '\\' :: c :: t = u ++ r ∧ Spells quote u v
      rw [readRest?] at h
      by_cases hc : isEscapable c = true
      · rw [if_pos hc] at h
        obtain ⟨⟨v', w⟩, hread, heq⟩ := Option.map_eq_some_iff.mp h
        cases heq
        obtain ⟨u, hu, hspells⟩ := ih hread
        exact ⟨'\\' :: c :: u, congrArg (fun x => '\\' :: c :: x) hu, .escaped hc hspells⟩
      · have hquote : c ≠ quote := by
          rintro rfl
          exact hc (isEscapable_of_isQuote hq)
        rw [if_neg hc, if_neg hquote] at h
        obtain ⟨⟨v', w⟩, hread, heq⟩ := Option.map_eq_some_iff.mp h
        cases heq
        obtain ⟨u, hu, hspells⟩ := ih hread
        exact ⟨'\\' :: c :: u, congrArg (fun x => '\\' :: c :: x) hu, .kept (Bool.eq_false_iff.mpr hc) hspells⟩
    | false =>
      show ∃ u, c :: t = u ++ r ∧ Spells quote u v
      rw [readRest?] at h
      by_cases hback : c = '\\'
      · rw [if_pos hback] at h
        rw [hback]
        exact ih h
      · rw [if_neg hback] at h
        by_cases hquote : c = quote
        · rw [if_pos hquote] at h
          cases h
          exact ⟨[quote], by rw [hquote]; rfl, .close⟩
        · rw [if_neg hquote] at h
          obtain ⟨⟨v', w⟩, hread, heq⟩ := Option.map_eq_some_iff.mp h
          cases heq
          obtain ⟨u, hu, hspells⟩ := ih hread
          exact ⟨c :: u, congrArg (c :: ·) hu, .plain hback hquote hspells⟩

theorem readRest?_of_spells {quote : Char} (hq : IsQuote quote) {u v : List Char} (h : Spells quote u v)
    (r : List Char) : readRest? quote false (u ++ r) = some (v, r) := by
  have hmark : quote ≠ '\\' := by
    rcases hq with rfl | rfl <;> decide
  induction h with
  | close =>
    show readRest? quote false (quote :: r) = some ([], r)
    rw [readRest?, if_neg hmark, if_pos rfl]
  | @plain c s v hback hquote _ ih =>
    rw [List.cons_append, readRest?, if_neg hback, if_neg hquote, ih]
    rfl
  | @escaped c s v hc _ ih =>
    rw [List.cons_append, List.cons_append, readRest?, if_pos rfl, readRest?, if_pos hc, ih]
    rfl
  | @kept c s v hc _ ih =>
    have hquote : c ≠ quote := by
      rintro rfl
      rw [isEscapable_of_isQuote hq] at hc
      cases hc
    rw [List.cons_append, List.cons_append, readRest?, if_pos rfl, readRest?, if_neg (by simp [hc]), if_neg hquote, ih]
    rfl

end Quoted

/-! ## 2. Tokens of all kinds -/

/-- A token spells a value of a kind. A string stands in quotes, or plain if no character of it needs them; the other kinds
have no spellings but those that are written. -/
def Kind.Spells (kind : Kind) (token value : List Char) : Prop :=
  match kind with
  | .string | .commandName | .file =>
    (token = value ∧ IsRun isPlain value) ∨
      ∃ quote body, Quoted.IsQuote quote ∧ token = quote :: body ∧ Quoted.Spells quote body value
  | kind => kind.Denotes token value

theorem isSolid_isPlain : IsSolid isPlain := by
  intro c hc
  unfold isDelimiter at hc
  rcases Bool.or_eq_true_iff.mp hc with hblank | hsep
  · simp [isPlain, hblank]
  · simp [isPlain, of_decide_eq_true hsep]

theorem eq_append_of_amount? {s w r : List Char} (h : amount? s = some (w, r)) : w ++ r = s := by
  unfold amount? at h
  split at h
  · rename_i u t hrun
    cases h
    rw [← run?_append hrun, List.append_assoc, List.cons_append]
    congr 2
    exact spanOf_append Text.isDecimal t
  · rename_i hrun
    cases h
    exact run?_append hrun
  · obtain ⟨⟨v, t⟩, hrun, heq⟩ := Option.map_eq_some_iff.mp h
    cases heq
    rw [List.cons_append, run?_append hrun]
  · cases h

theorem of_integer? {signed : Bool} {s w r : List Char} (h : integer? signed s = some (w, r)) :
    w ++ r = s ∧ IsInteger signed w := by
  cases s with
  | nil => cases h
  | cons c t =>
    rw [integer?] at h
    by_cases hsign : c = '+' ∨ (c = '-' ∧ signed = true)
    · rw [if_pos hsign] at h
      obtain ⟨⟨v, u⟩, hrun, heq⟩ := Option.map_eq_some_iff.mp h
      cases heq
      refine ⟨by rw [List.cons_append, run?_append hrun], v, isRun_of_run? hrun, .inr ?_⟩
      rcases hsign with rfl | ⟨rfl, hsigned⟩
      · exact .inl rfl
      · exact .inr ⟨hsigned, rfl⟩
    · rw [if_neg hsign] at h
      exact ⟨run?_append h, w, isRun_of_run? h, .inl rfl⟩

theorem of_hex? {s w r : List Char} (h : hex? s = some (w, r)) : w ++ r = s ∧ IsHex w := by
  unfold hex? at h
  split at h
  · split at h
    · rename_i hrun
      cases h
      refine ⟨?_, _, isRun_of_run? hrun, .inr rfl⟩
      rw [List.cons_append, List.cons_append, run?_append hrun]
    · exact ⟨run?_append h, w, isRun_of_run? h, .inl rfl⟩
  · exact ⟨run?_append h, w, isRun_of_run? h, .inl rfl⟩

theorem exists_of_dropWord? {w s r : List Char} (h : dropWord? w s = some r) : ∃ u, s = u ++ r ∧ u.map foldCase = w := by
  induction w generalizing s with
  | nil =>
    cases h
    exact ⟨[], rfl, rfl⟩
  | cons c w ih =>
    cases s with
    | nil => cases h
    | cons d s =>
      rw [dropWord?] at h
      by_cases hd : foldCase d = c
      · rw [if_pos hd] at h
        obtain ⟨u, rfl, hu⟩ := ih h
        exact ⟨d :: u, rfl, by rw [List.map_cons, hd, hu]⟩
      · rw [if_neg hd] at h
        cases h

theorem exists_of_bool? {s r : List Char} {b : Bool} (h : bool? s = some (b, r)) : ∃ u, s = u ++ r ∧ IsTruth b u := by
  unfold bool? at h
  split at h
  · rename_i hword
    cases h
    obtain ⟨u, hu, hfold⟩ := exists_of_dropWord? hword
    exact ⟨u, hu, .inl hfold⟩
  · rename_i hword
    cases h
    obtain ⟨u, hu, hfold⟩ := exists_of_dropWord? hword
    exact ⟨u, hu, .inl hfold⟩
  · cases h
    exact ⟨['0'], rfl, .inr rfl⟩
  · cases h
    exact ⟨['1'], rfl, .inr rfl⟩
  · cases h

theorem exists_of_string? {s v r : List Char} (h : string? s = .ok (v, r)) :
    ∃ u, s = u ++ r ∧ Kind.string.Spells u v := by
  cases s with
  | nil => cases h
  | cons c t =>
    rw [string?] at h
    by_cases hc : c = '"' ∨ c = '\''
    · rw [if_pos hc] at h
      split at h
      · rename_i hread
        cases h
        obtain ⟨u, hu, hspells⟩ := Quoted.exists_spelling hc hread
        simp only [Bool.false_eq_true, if_false] at hu
        exact ⟨c :: u, congrArg (c :: ·) hu, .inr ⟨c, u, hc, rfl, hspells⟩⟩
      · cases h
    · rw [if_neg hc] at h
      split at h
      · rename_i hrun
        cases h
        exact ⟨v, (run?_append hrun).symm, .inl ⟨rfl, isRun_of_run? hrun⟩⟩
      · cases h

/-- What is read is the value of a token at the start of the text. -/
theorem Kind.exists_spelling {kind : Kind} {s v r : List Char} (h : kind.read s = .ok (v, r)) :
    ∃ u, s = u ++ r ∧ kind.Spells u v := by
  cases kind <;> unfold Kind.read at h
  case address | base58Bytes =>
    have hrun := orInvalid_eq_ok h
    exact ⟨v, (run?_append hrun).symm, rfl, isRun_of_run? hrun⟩
  case string | commandName | file => exact exists_of_string? h
  case amount =>
    have hread := orInvalid_eq_ok h
    exact ⟨v, (eq_append_of_amount? hread).symm, rfl, isAmount_of_amount? hread⟩
  case int | uint =>
    obtain ⟨hs, hv⟩ := of_integer? (orInvalid_eq_ok h)
    exact ⟨v, hs.symm, rfl, hv⟩
  case hexBytes =>
    obtain ⟨hs, hv⟩ := of_hex? (orInvalid_eq_ok h)
    exact ⟨v, hs.symm, rfl, hv⟩
  case bool =>
    obtain ⟨⟨b, t⟩, hread, heq⟩ := Option.map_eq_some_iff.mp (orInvalid_eq_ok h)
    cases heq
    obtain ⟨u, hu, htruth⟩ := exists_of_bool? hread
    exact ⟨u, hu, b, htruth, rfl⟩

theorem string?_of_spells {u v r : List Char} (h : Kind.string.Spells u v) (hr : isDelimited r = true) :
    string? (u ++ r) = .ok (v, r) := by
  rcases h with ⟨rfl, hrun⟩ | ⟨quote, body, hq, rfl, hspells⟩
  · cases u with
    | nil => exact absurd rfl hrun.1
    | cons c t =>
      have hplain : isPlain c = true := hrun.2 c (by simp)
      have hc : ¬ (c = '"' ∨ c = '\'') := by
        rintro (rfl | rfl) <;> exact absurd hplain (by decide)
      have hread := run?_append_of_stops hrun (stops_of_isDelimited isSolid_isPlain hr)
      rw [List.cons_append] at hread ⊢
      rw [string?, if_neg hc, hread]
  · have hmark : quote = '"' ∨ quote = '\'' := hq
    have hread : Quoted.read? (quote :: (body ++ r)) = some (v, r) := Quoted.readRest?_of_spells hq hspells r
    rw [List.cons_append, string?, if_pos hmark, hread]

/-- A delimited token is read as the value that it spells. -/
theorem Kind.read_of_spells {kind : Kind} {u v r : List Char} (h : kind.Spells u v) (hr : isDelimited r = true) :
    kind.read (u ++ r) = .ok (v, r) := by
  cases kind
  case string | commandName | file => exact string?_of_spells h hr
  all_goals exact Kind.read_of_denotes h hr

/-! ## 3. Values -/

/-- What a value of a kind looks like. The kinds that are written as strings have any text as a value. -/
def Kind.IsValue (kind : Kind) (v : List Char) : Prop :=
  match kind with
  | .address | .base58Bytes => IsRun Base58.isDigit v
  | .string | .commandName | .file => True
  | .amount => IsAmount v
  | .int => IsInteger true v
  | .uint => IsInteger false v
  | .bool => v = "true".toList ∨ v = "false".toList
  | .hexBytes => IsHex v

theorem Kind.Spells.isValue {kind : Kind} {u v : List Char} (h : kind.Spells u v) : kind.IsValue v := by
  cases kind
  case string | commandName | file => trivial
  case bool =>
    obtain ⟨b, -, rfl⟩ := h
    cases b
    · exact .inr rfl
    · exact .inl rfl
  all_goals exact h.2

end ContractShell.Command
