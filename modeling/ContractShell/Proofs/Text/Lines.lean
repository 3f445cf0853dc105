import ContractShell.Text.Blank
import Mathlib.Data.List.DropRight

/-!
Lines: trimming them, and reading them back from a text in which each is ended by a line feed.

## Main statements

* `trimBy_trimBy`: what was trimmed once is left as it is.
* `trimBy_append`: trimming takes away what stands around a text.
* `linesFrom_flatMap`: lines without line ends of their own are read back from their text.
* `unifyLineEnds_of_forall`: a text without carriage returns is left as it is.
-/

namespace ContractShell.Text

/-! ## 1. Trimming -/

section

variable {α : Type} {drop : α → Bool} {s : List α}

theorem trimBy_eq (drop : α → Bool) (s : List α) : trimBy drop s = (s.dropWhile drop).rdropWhile drop := rfl

theorem mem_of_mem_trimBy {c : α} (h : c ∈ trimBy drop s) : c ∈ s :=
  (List.dropWhile_suffix drop).mem ((List.rdropWhile_prefix drop _).mem h)

/-- Trimming leaves a text as it is that was trimmed before. -/
theorem trimBy_trimBy (drop : α → Bool) (s : List α) : trimBy drop (trimBy drop s) = trimBy drop s := by
  -- What is left starts as the text did after its front was dropped, so nothing more is dropped there.
  have hfront : (trimBy drop s).dropWhile drop = trimBy drop s := by
    rw [List.dropWhile_eq_self_iff]
    intro hne
    have hstart : trimBy drop s <+: s.dropWhile drop := List.rdropWhile_prefix drop _
    have hlength : 0 < (s.dropWhile drop).length := Nat.lt_of_lt_of_le hne hstart.length_le
    rw [hstart.getElem hne]
    exact List.dropWhile_get_zero_not drop s hlength
  rw [trimBy_eq drop (trimBy drop s), hfront, trimBy_eq]
  exact List.rdropWhile_idempotent drop (s.dropWhile drop)

/-- Trimming takes away what stands around a text that has nothing to drop. -/
theorem trimBy_append {before after : List α} (hbefore : ∀ c ∈ before, drop c = true)
    (hafter : ∀ c ∈ after, drop c = true) (hs : ∀ c ∈ s, drop c = false) :
    trimBy drop (before ++ s ++ after) = s := by
  have hfront : (before ++ s ++ after).dropWhile drop = (s ++ after).dropWhile drop := by
    rw [List.append_assoc, List.dropWhile_append_of_pos hbefore]
  cases s with
  | nil =>
    have hnone : after.dropWhile drop = [] := List.dropWhile_eq_nil_iff.mpr hafter
    rw [trimBy, hfront, List.nil_append, hnone]
    rfl
  | cons c r =>
    have hstart : (c :: r ++ after).dropWhile drop = c :: r ++ after := by
      rw [List.cons_append, List.dropWhile_cons_of_neg (by simp [hs c])]
    have hback : (c :: r).reverse.dropWhile drop = (c :: r).reverse := by
      rw [List.dropWhile_eq_self_iff]
      intro hne
      have hlast := hs _ (List.mem_reverse.mp (List.getElem_mem hne))
      rw [hlast]
      decide
    rw [trimBy, hfront, hstart, List.reverse_append,
      List.dropWhile_append_of_pos fun d hd => hafter d (List.mem_reverse.mp hd), hback, List.reverse_reverse]

end

/-! ## 2. Lines -/

theorem linesFrom_append {w : List Char} (hw : ∀ c ∈ w, isLineEnd c = false) (r : List Char)
    (started : Option (List Char)) :
    linesFrom (w ++ '\n' :: r) started = ((started.getD []).reverse ++ w) :: linesFrom r none := by
  induction w generalizing started with
  | nil =>
    rw [List.nil_append, linesFrom, if_pos (by decide), List.append_nil]
    rintro _ ⟨⟩
  | cons c w ih =>
    obtain ⟨hc, hw⟩ := List.forall_mem_cons.mp hw
    rw [List.cons_append, linesFrom, if_neg (by simp [hc]), ih hw]
    · simp
    · rintro _ rfl
      cases hc

/-- Lines without line ends of their own are read back from the text in which each is ended by a line feed. -/
theorem linesFrom_flatMap {ls : List (List Char)} (h : ∀ l ∈ ls, ∀ c ∈ l, isLineEnd c = false) :
    linesFrom (ls.flatMap fun l => l ++ ['\n']) none = ls := by
  induction ls with
  | nil => rfl
  | cons l ls ih =>
    obtain ⟨hl, hls⟩ := List.forall_mem_cons.mp h
    rw [List.flatMap_cons, List.append_assoc, List.singleton_append, linesFrom_append hl, ih hls]
    rfl

/-- A text without carriage returns is left as it is. -/
theorem unifyLineEnds_of_forall {s : List Char} (h : ∀ c ∈ s, c ≠ '\r') : unifyLineEnds s = s := by
  fun_induction unifyLineEnds s with
  | case1 => rfl
  | case2 r ih => exact absurd rfl (h '\r' (by simp))
  | case3 c r _ ih => rw [if_neg (h c (by simp)), ih fun d hd => h d (List.mem_cons_of_mem c hd)]

end ContractShell.Text
