import ContractShell.Program.Run
import ContractShell.Proofs.Session.Connections

/-!
Runs of the program, from the settings to the end of the session.

Between its start and its end the shell of a run only runs commands and has its files changed, so what these keep holds when
the session ends, however the run ends.

## Main statements

* `Program.exists_shell_of_startWith`: what is left of a run is what the end of its session leaves.
* `Program.connections_accounted`: the connections of a run are accounted for at every moment, and all are closed once.
-/

namespace ContractShell

open Relation (ReflTransGen)

/-! ## 1. What a run keeps -/

/-- A property of shells is kept by all that a run does to a shell: commands are run, and files are written. -/
structure Shell.IsKept (P : Shell → Prop) : Prop where
  execute : ∀ i sh, P sh → P (sh.execute i).2
  files : ∀ disk writings sh, P sh → P ⟨{ sh.session with disk }, { sh.world with writings }⟩

namespace Shell.IsKept

variable {P : Shell → Prop} (hP : Shell.IsKept P)

include hP

theorem interpret (is : List Command.Invocation) {sh : Shell} (h : P sh) : P (sh.interpret is).2 := by
  induction is generalizing sh with
  | nil => exact h
  | cons i is ih => exact ih (hP.execute i sh h)

theorem printLine (text : String) {sh : Shell} (h : P sh) : P (sh.printLine text).2 := by
  unfold Shell.printLine
  split
  · exact h
  · exact hP.interpret _ h

theorem printLines (texts : List String) {sh : Shell} (h : P sh) : P (sh.printLines texts).2 := by
  induction texts generalizing sh with
  | nil => exact h
  | cons text texts ih =>
    unfold Shell.printLines
    split
    · exact h
    · have hfirst := hP.printLine text h
      generalize sh.printLine text = first at hfirst ⊢
      exact ih hfirst

/-- The console keeps what lines and the writing of files keep. -/
theorem take {s : Console.State} (h : P s.shell) (line : Typed) : P (s.take line).2.shell := by
  have hremembered : P (s.remember line).shell := by
    unfold Console.State.remember
    split
    · exact h
    · exact hP.files _ _ _ h
  have hprinted := hP.printLine line.shown hremembered
  unfold Console.State.take
  dsimp only
  split
  · exact hremembered
  · generalize (s.remember line).shell.printLine line.shown = printed at hprinted ⊢
    exact hprinted

theorem console (events : List Console.Event) {s : Console.State} (h : P s.shell) : P (Console.run events s).2.shell := by
  induction events generalizing s with
  | nil => exact h
  | cons e events ih =>
    unfold Console.run
    split
    · exact h
    · cases e with
      | endOfInput => exact h
      | interrupt => exact ih h
      | line text =>
        have htaken := hP.take h text
        dsimp only
        generalize s.take text = taken at htaken ⊢
        exact ih htaken

end Shell.IsKept

namespace Program

/-- Steps of a run keep a property of its shell, whether they end the run or not. -/
def Keeps {α : Type} (P : Shell → Prop) (x : Steps α) : Prop := ∀ r, P r.shell → P (x r).2.shell

section

variable {α β : Type} {P : Shell → Prop}

theorem keeps_pure (a : α) : Keeps P (pure a : Steps α) := fun _ h => h

theorem keeps_throw (f : Fault) : Keeps P (throw f : Steps α) := fun _ h => h

theorem keeps_bind {x : Steps α} {f : α → Steps β} (hx : Keeps P x) (hf : ∀ a, Keeps P (f a)) : Keeps P (x >>= f) := by
  intro r h
  have hstep := hx r h
  rw [steps_bind_apply]
  cases hrun : x r with
  | mk result r' =>
    rw [hrun] at hstep
    cases result with
    | error f => exact hstep
    | ok a => exact hf a r' hstep

/-- Steps may depend on the running shell. -/
theorem keeps_get {f : Running → Steps β} (hf : ∀ r, Keeps P (f r)) : Keeps P (get >>= f) :=
  keeps_bind (fun _ h => h) hf

theorem keeps_forM {f : α → Steps Unit} (hf : ∀ a, Keeps P (f a)) (as : List α) : Keeps P (as.forM f) := by
  induction as with
  | nil => exact keeps_pure ()
  | cons a as ih => exact keeps_bind (hf a) fun _ => ih

end

section

variable {P : Shell → Prop} (hP : Shell.IsKept P)

include hP

theorem keeps_runLines (lines : List String) : Keeps P (runLines lines) := fun _ h => hP.printLines lines h

theorem keeps_runFile (isRequired : Bool) (p : Path) : Keeps P (runFile isRequired p) := by
  refine keeps_get fun r => ?_
  split
  · exact keeps_runLines hP _
  · exact keeps_throw _
  · split
    · exact keeps_throw _
    · exact keeps_pure ()
  · exact keeps_throw _

theorem keeps_runNamed (name : String) : Keeps P (runNamed name) := by
  refine keeps_get fun r => ?_
  split
  · exact keeps_runFile hP true _
  · exact keeps_throw _

theorem keeps_runAll (o : Options) (c : Settings) : Keeps P (runAll o c) := by
  refine keeps_bind (keeps_forM (keeps_runFile hP false) c.rcFiles) fun _ => ?_
  refine keeps_bind (keeps_runLines hP o.lines) fun _ => ?_
  refine keeps_bind (keeps_forM (keeps_runNamed hP) o.files) fun _ => keeps_get fun r => ?_
  dsimp only
  split
  · split
    · exact keeps_pure _
    · exact keeps_throw _
  · exact keeps_pure _

/-- What is left of a run whose session has started is what the end of the session leaves. -/
theorem exists_shell_of_startWith (o : Options) (c : Settings) {s : Setup} (hstart : P (shellOf c s))
    (events : List Console.Event) :
    ∃ sh, P sh ∧ ((startWith o c s).run events).world = sh.finish.2.world := by
  have hall := keeps_runAll hP o c ⟨shellOf c s, []⟩ hstart
  unfold startWith
  cases hrun : runAll o c ⟨shellOf c s, []⟩ with
  | mk result r =>
    rw [hrun] at hall
    cases result with
    | error f => exact ⟨r.shell, hall, rfl⟩
    | ok wanted =>
      cases wanted with
      | none => exact ⟨r.shell, hall, rfl⟩
      | some h => exact ⟨_, hP.console events (s := ⟨r.shell, some h, none⟩) hall, rfl⟩

end

/-- A run ends before its session starts and leaves the world as it was, or its session starts with some settings. -/
theorem start_cases (args : List String) (s : Setup) :
    (∃ r, start args s = .ended r ∧ r.world = s.world) ∨ ∃ o c, start args s = startWith o c s := by
  unfold start
  split
  · exact .inl ⟨_, rfl, rfl⟩
  · exact .inl ⟨_, rfl, rfl⟩
  · unfold startOptions
    split
    · exact .inl ⟨_, rfl, rfl⟩
    · split
      · exact .inl ⟨_, rfl, rfl⟩
      · split
        · exact .inl ⟨_, rfl, rfl⟩
        · exact .inr ⟨_, _, rfl⟩

/-! ## 2. Connections -/

theorem isKept_moves (start : Shell) : Shell.IsKept (ReflTransGen Shell.Moves start) where
  execute i sh h := h.tail (Shell.moves_execute i sh)
  files _ _ _ h := h.tail (.elsewhere rfl rfl rfl)

/-- The connections are accounted for in the shell that a run starts with, whether the settings name an endpoint or not. -/
theorem isAccounted_shellOf (c : Settings) {s : Setup} {outcomes : List Node.Outcome}
    (h : s.world.network = .fresh outcomes) : (shellOf c s).IsAccounted := by
  have hoffline (terms : Terms) :
      Shell.IsAccounted ⟨Session.start Command.Registry.standard s.disk s.environment terms, s.world⟩ := by
    refine ⟨?_, ?_, ?_, rfl⟩
    · rw [h]
      rfl
    · rw [h]
      rfl
    · exact fun c hc => nomatch hc
  unfold shellOf
  cases c.url with
  | none => exact hoffline _
  | some url => exact (hoffline _).connected url

/-- The connections of a run. Its shell starts online or offline; whatever lines are typed then, and whatever else happens
to it, as many connections are open as it is online with, and it has a URL just when it is connected. Whatever callbacks are
there when it is cleaned up, and whatever they do and whichever of them fail, afterwards each connection that was ever
opened has been closed once, and cleaning up again does nothing. The end of a session cleans up and notes which callbacks
failed, and with it ends every run of the program. -/
theorem connections_accounted (disk : Disk) (environment : List (String × String)) (outcomes : List Node.Outcome)
    (bytes : Supply UInt8) (keys : Supply Key) (writings : Supply Disk.Writing) :
    let setup : Setup := ⟨disk, environment, ⟨.fresh outcomes, bytes, keys, writings⟩⟩
    (∀ (c : Settings) (texts : List String),
      ReflTransGen Shell.Moves (shellOf c setup) ((shellOf c setup).after (texts.map .line)) ∧
      ∀ t ∈ (shellOf c setup).turns (texts.map .line),
        ReflTransGen Shell.Moves (shellOf c setup) t.shell ∧ ReflTransGen Shell.Moves (shellOf c setup) t.after) ∧
    (∀ (c : Settings) (sh : Shell), ReflTransGen Shell.Moves (shellOf c setup) sh →
      sh.IsAccounted ∧ sh.CleansUp sh.finish.1.called sh.finish.2 ∧
      sh.finish.1.failed = (sh.session.callbacks.reverse.filter (·.fails)).map (·.name) ∧
      ∀ called last, sh.CleansUp called last →
        last.session.connection = none ∧ last.session.url = none ∧
        last.world.network.closed = List.range last.world.network.opened ∧
        ∀ called' last', last.CleansUp called' last' ↔ called' = [] ∧ last' = last) ∧
    ∀ (args : List String) (events : List Console.Event),
      (run args setup events).world.network.closed = List.range (run args setup events).world.network.opened := by
  intro setup
  have hmoment (c : Settings) {sh : Shell} (h : ReflTransGen Shell.Moves (shellOf c setup) sh) : sh.IsAccounted :=
    (isAccounted_shellOf c (s := setup) rfl).of_reflTransGen h
  refine ⟨fun c texts => Shell.moves_of_takes (Shell.takes_lines texts _), ?_, ?_⟩
  · intro c sh h
    refine ⟨hmoment c h, sh.cleansUp_finish, Session.failed_callAll _, fun called last hlast => ?_⟩
    have hoffline := hlast.offline.1
    refine ⟨hoffline, ?_, hlast.closed (hmoment c h), fun called' last' => hlast.again⟩
    rw [Session.url, hoffline]
    rfl
  · intro args events
    -- A run that is refused at its start has opened nothing; any other ends with the end of its session.
    unfold run
    rcases start_cases args setup with ⟨r, hr, hworld⟩ | ⟨o, c, hstart⟩
    · rw [hr]
      show r.world.network.closed = List.range r.world.network.opened
      rw [hworld]
      rfl
    · obtain ⟨sh, hsh, hworld⟩ := exists_shell_of_startWith (isKept_moves (shellOf c setup)) o c .refl events
      rw [hstart, hworld]
      exact sh.cleansUp_finish.closed (hmoment c hsh)

end Program

end ContractShell
