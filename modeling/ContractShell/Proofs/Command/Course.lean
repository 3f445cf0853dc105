import ContractShell.Proofs.Command.Boundary

/-!
The course that the reading of a line takes.

A line is read command by command. The reading goes on behind a separator, and ends with the text, with a command that no
separator follows, at a command that cannot be read, or where a name is missing. `IsRead` has one rule for each, and what
follows about the results of a line is proved along its rules.

## Main statements

* `isRead_iff`: the courses are those that the reader of lines takes.
* `IsRead.separated`: every command but the last one was read in full, up to a separator.
* `IsRead.fault_eq_none_iff`, `fault_eq_emptyName_iff`: when there is no fault, and when a name is missing.
-/

namespace ContractShell.Command

variable {commands : Registry}

/-! ## 1. Courses -/

/-- A text reads as the commands and the fault of a line. -/
inductive IsRead (commands : Registry) : List Char → Line → Prop where
  | done : IsRead commands [] ⟨[], none⟩
  | unnamed {s : List Char} (hs : s ≠ []) (hn : name? s = none) : IsRead commands s ⟨[], some .emptyName⟩
  | broken {s name r : List Char} {i : Invocation} {why : LineFault} (hn : name? s = some (name, r))
      (hc : readCommand commands name r = (i, .error why)) : IsRead commands s ⟨[i], some why⟩
  | last {s name r t : List Char} {i : Invocation} (hn : name? s = some (name, r))
      (hc : readCommand commands name r = (i, .ok t)) (hend : i.termination ≠ .separator) : IsRead commands s ⟨[i], none⟩
  | more {s name r t : List Char} {i : Invocation} {l : Line} (hn : name? s = some (name, r))
      (hc : readCommand commands name r = (i, .ok t)) (hsep : i.termination = .separator) (h : IsRead commands t l) :
      IsRead commands s ⟨i :: l.results, l.fault⟩

-- The reader takes one of these courses on every text.
theorem isRead_readCommands (commands : Registry) (s : List Char) : IsRead commands s (readCommands commands s) := by
  fun_induction readCommands commands s with
  | case1 s hs =>
    rw [List.isEmpty_iff.mp hs]
    exact .done
  | case2 s hs hn => exact .unnamed (fun h => hs (List.isEmpty_iff.mpr h)) hn
  | case3 s hs name r hn i why hc => exact .broken hn hc
  | case4 s hs name r hn i t hc hsep hlt more ih => exact .more hn hc hsep ih
  | case5 s hs name r hn i t hc hsep => exact .last hn hc hsep

/-- The courses are those that the reader takes, so a text has one course only. -/
theorem isRead_iff {s : List Char} {l : Line} : IsRead commands s l ↔ readCommands commands s = l := by
  constructor
  · intro h
    induction h with
    | done => rw [readCommands, if_pos List.isEmpty_nil]
    | @unnamed s hs hn =>
      rw [readCommands, if_neg (by simpa using hs)]
      split
      · rfl
      · rename_i hsome
        rw [hn] at hsome
        cases hsome
    | broken hn hc => exact readCommands_of_error hn hc
    | last hn hc hend => rw [readCommands_of_ok hn hc, if_neg hend]
    | more hn hc hsep _ ih => rw [readCommands_of_ok hn hc, if_pos hsep, ih]
  · rintro rfl
    exact isRead_readCommands commands s

/-! ## 2. What one command leaves -/

theorem readArgs_ne_emptyName (previous : Option String) (args : List Arg) (p : Progress) :
    (readArgs previous args p).2 ≠ .fault .emptyName := by
  induction args generalizing previous p with
  | nil => simp [readArgs]
  | cons a more ih =>
    simp only [readArgs]
    split
    · split <;> simp
    · split
      · simp
      · split
        · simp
        · simp
        · exact ih _ _

/-- A command is read in full just when the reading goes on behind it. -/
theorem readCommand_complete {name s : List Char} {i : Invocation} {result : Except LineFault (List Char)}
    (h : readCommand commands name s = (i, result)) :
    i.complete = result.isOk ∧ result ≠ .error .emptyName := by
  cases readsCommand h with
  | unknown => exact ⟨rfl, by simp⟩
  | @broken d p why hfind hread =>
    have hnamed := readArgs_ne_emptyName none d.args ⟨[], -1, s⟩
    rw [hread] at hnamed
    exact ⟨rfl, fun heq => hnamed (congrArg ArgsEnd.fault (Except.error.inj heq))⟩
  | ended => exact ⟨rfl, by simp⟩
  | full => exact ⟨rfl, by simp⟩

/-! ## 3. What a line leaves -/

namespace IsRead

variable {s : List Char} {l : Line}

/-- Every command but the last one was read in full, up to a separator. -/
theorem separated (h : IsRead commands s l) :
    ∀ i ∈ l.results.dropLast, i.complete = true ∧ i.termination = .separator := by
  induction h with
  | done => simp
  | unnamed => simp
  | broken => simp
  | last => simp
  | @more s name r t i l hn hc hsep h ih =>
    intro j hj
    cases hl : l.results with
    | nil =>
      rw [hl] at hj
      cases hj
    | cons k ks =>
      show j.complete = true ∧ j.termination = .separator
      rw [hl] at hj ih
      rcases List.mem_cons.mp hj with rfl | hj
      · exact ⟨(readCommand_complete hc).1, hsep⟩
      · exact ih j hj

/-- A line has no fault just when all its commands were read in full and no name was missing. -/
theorem fault_eq_none_iff (h : IsRead commands s l) :
    l.fault = none ↔ (∀ i ∈ l.results, i.complete = true) ∧ l.fault ≠ some .emptyName := by
  induction h with
  | done => simp
  | unnamed => simp
  | @broken s name r i why hn hc =>
    have hcomplete : i.complete = false := (readCommand_complete hc).1
    simp [hcomplete]
  | @last s name r t i hn hc hend =>
    have hcomplete : i.complete = true := (readCommand_complete hc).1
    simp [hcomplete]
  | @more s name r t i l hn hc hsep h ih =>
    have hcomplete : i.complete = true := (readCommand_complete hc).1
    simpa [hcomplete] using ih

end IsRead

/-! ## 4. Where a name is missing -/

/-- The reading of a text goes on, behind the separators of some commands, at another text. -/
inductive Reaches (commands : Registry) : List Char → List Char → Prop where
  | here (s : List Char) : Reaches commands s s
  | behind {s name r t u : List Char} {i : Invocation} (hn : name? s = some (name, r))
      (hc : readCommand commands name r = (i, .ok t)) (hsep : i.termination = .separator) (h : Reaches commands t u) :
      Reaches commands s u

/-- The reading of a text comes to a place where a command should start and no name stands. -/
def MissesName (commands : Registry) (s : List Char) : Prop := ∃ u, Reaches commands s u ∧ u ≠ [] ∧ name? u = none

theorem Reaches.fault_eq {s u : List Char} (h : Reaches commands s u) :
    (readCommands commands s).fault = (readCommands commands u).fault := by
  induction h with
  | here => rfl
  | behind hn hc hsep _ ih => rw [readCommands_of_ok hn hc, if_pos hsep, ih]

/-- A name is missing just where the fault says so. -/
theorem fault_eq_emptyName_iff (commands : Registry) (s : List Char) :
    (readCommands commands s).fault = some .emptyName ↔ MissesName commands s := by
  constructor
  · intro hfault
    generalize hl : readCommands commands s = l at hfault
    have hread := isRead_readCommands commands s
    rw [hl] at hread
    clear hl
    induction hread with
    | done => cases hfault
    | unnamed hs hn => exact ⟨_, .here _, hs, hn⟩
    | broken hn hc =>
      injection hfault with hwhy
      rw [hwhy] at hc
      exact absurd rfl (readCommand_complete hc).2
    | last => cases hfault
    | more hn hc hsep _ ih =>
      obtain ⟨u, hreach, hu⟩ := ih hfault
      exact ⟨u, .behind hn hc hsep hreach, hu⟩
  · rintro ⟨u, hreach, hu, hn⟩
    rw [hreach.fault_eq, isRead_iff.mp (.unnamed hu hn)]

end ContractShell.Command
