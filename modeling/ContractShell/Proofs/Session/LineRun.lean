import ContractShell.Proofs.Command.Course
import ContractShell.Proofs.Session.Turn

/-!
What runs from a line.

The commands of a line that were read in full take a turn each, in order. A turn starts in the shell that the one before it
left, whatever came of that one. If the line could not be read to its end, its fault is told after the turns, and then how
to go on.

## Main statements

* `Shell.takes_interpret`: commands that are run one after the other take one turn each.
* `Shell.advises_hint`: which advice follows the fault of a line.
* `Shell.runs_line`: which commands of a line run, where each of them starts, and what is told.
-/

namespace ContractShell

open Command (IsRead Line Registry)

/-- The outcome of a turn. -/
def Turn.outcome (t : Turn) : Outcome := (t.shell.execute t.invocation).1

/-- A line gives an advice to someone whose line has a fault: how the command is used that the reading broke off in, if
that command is known, and to list the commands otherwise. -/
inductive Command.Line.Advises (l : Line) : String → Prop where
  | usage {i : Command.Invocation} {d : Command.Declaration} (hlast : l.results.getLast? = some i)
      (hbroken : i.complete = false) (hknown : i.declaration = some d) : Advises l ("Usage: " ++ d.usage)
  | list (h : ∀ i, l.results.getLast? = some i → i.complete = true ∨ i.declaration = none) :
      Advises l "Type \"list\" for a list of commands."

namespace Shell

/-- Turns that are taken one after the other, each in the shell that the turn before it left. -/
inductive Takes : Shell → List Turn → Shell → Prop where
  | none (sh : Shell) : Takes sh [] sh
  | next {sh last : Shell} {t : Turn} {ts : List Turn} (hstart : t.shell = sh) (h : Takes t.after ts last) :
      Takes sh (t :: ts) last

/-- Commands that are run one after the other take one turn each, and leave the outcomes of their turns. -/
theorem takes_interpret (is : List Command.Invocation) (sh : Shell) :
    Takes sh (turnsOf is sh) (sh.interpret is).2 ∧ (turnsOf is sh).map Turn.invocation = is ∧
      (sh.interpret is).1 = (turnsOf is sh).map Turn.outcome := by
  -- The induction is on the commands; the shell that the first of them leaves is where the rest start.
  induction is generalizing sh with
  | nil => exact ⟨.none sh, rfl, rfl⟩
  | cons i r ih =>
    obtain ⟨htakes, hcommands, houtcomes⟩ := ih (sh.execute i).2
    refine ⟨.next rfl htakes, ?_, ?_⟩
    · show i :: (turnsOf r (sh.execute i).2).map Turn.invocation = i :: r
      rw [hcommands]
    · show (sh.execute i).1 :: ((sh.execute i).2.interpret r).1 = _
      rw [houtcomes]
      rfl

theorem advises_hint (l : Line) : l.Advises (hint l) := by
  unfold hint Line.broken?
  cases hlast : l.results.getLast? with
  | none => exact .list (by simp [hlast])
  | some i =>
    cases hbroken : i.complete with
    | true =>
      simp only [Option.filter_some, hbroken]
      refine .list fun j hj => ?_
      rw [hlast] at hj
      cases hj
      exact .inl hbroken
    | false =>
      simp only [Option.filter_some, hbroken]
      cases hknown : i.declaration with
      | none =>
        simp only [Bool.not_false, if_true, Option.bind_some, hknown]
        refine .list fun j hj => ?_
        rw [hlast] at hj
        cases hj
        exact .inr hknown
      | some d =>
        simp only [Bool.not_false, if_true, Option.bind_some, hknown]
        exact .usage hlast hbroken hknown

/-- What is told of a line after some turns: the outcome of each turn, and, when the line has a fault, the fault and an
advice. -/
inductive Tells (l : Line) (turns : List Turn) : List Outcome → Prop where
  | outcomes (hfault : l.fault = none) : Tells l turns (turns.map Turn.outcome)
  | fault {f : Command.LineFault} {advice : String} (hfault : l.fault = some f) (hadvice : l.Advises advice) :
      Tells l turns (turns.map Turn.outcome ++ [⟨[], some f.message⟩, ⟨[advice], none⟩])

/-- Of a line, all commands but the last were read in full, up to a separator, and there is no fault just when all commands
were read in full and no name was missing. Those that were read in full take one turn each, in order, and nothing else
happens to the shell. What is told are the outcomes of the turns and, after them, the fault of the line. -/
theorem runs_line (commands : Registry) (text : String) (sh : Shell) :
    (∀ i ∈ (Line.ofText commands text).results.dropLast, i.complete = true ∧ i.termination = .separator) ∧
      ((Line.ofText commands text).fault = none ↔
        (∀ i ∈ (Line.ofText commands text).results, i.complete = true) ∧
          ¬ Command.MissesName commands (Command.gap text.toList).rest) ∧
      ∃ turns, Takes sh turns (sh.runAgainst commands text).2 ∧
        turns.map Turn.invocation = (Line.ofText commands text).results.filter (·.complete) ∧
        Tells (Line.ofText commands text) turns (sh.runAgainst commands text).1 := by
  have hread : IsRead commands (Command.gap text.toList).rest (Line.ofText commands text) :=
    Command.isRead_readCommands commands _
  refine ⟨hread.separated, ?_, ?_⟩
  · rw [← Command.fault_eq_emptyName_iff]
    exact hread.fault_eq_none_iff
  · obtain ⟨htakes, hcommands, houtcomes⟩ := takes_interpret (Line.ofText commands text).completed sh
    refine ⟨_, htakes, hcommands, ?_⟩
    have htold : (sh.runAgainst commands text).1 =
        (turnsOf (Line.ofText commands text).completed sh).map Turn.outcome ++ complaints (Line.ofText commands text) := by
      rw [← houtcomes]
      rfl
    rw [htold]
    unfold complaints
    cases hfault : (Line.ofText commands text).fault with
    | none =>
      simp only [List.append_nil]
      exact .outcomes hfault
    | some f => exact .fault hfault (advises_hint _)

end Shell

end ContractShell
