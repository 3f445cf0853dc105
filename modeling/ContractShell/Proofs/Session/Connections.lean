import ContractShell.Proofs.Session.Effect
import Mathlib.Data.List.Induction
import Mathlib.Logic.Relation

/-!
Connections are neither leaked nor closed twice.

Connections are numbered in the order in which they are opened. At most one is open, and it is the last one: all before it
were closed, each once and in order. Nothing that happens to a shell opens or closes a connection but connecting and
disconnecting, and the end of a session comes down to disconnecting, whatever its callbacks do.

## Main statements

* `Shell.moves_execute`: to the connection, a command does nothing but connect or disconnect.
* `Shell.IsAccounted.of_moves`: the account of the connections is kept.
* `Shell.CleansUp.closed`: after the end of a session every connection has been closed once.
* `Shell.cleansUp_finish`: the end of a session is one of the ways to clean up.
-/

namespace ContractShell

open Relation (ReflTransGen)

namespace Shell

/-! ## 1. Connecting and disconnecting -/

/-- The shell that is connected to a URL. -/
def connected (url : String) (sh : Shell) : Shell :=
  ⟨(sh.session.connect url sh.world).1, (sh.session.connect url sh.world).2⟩

/-- The shell whose connection is closed. -/
def disconnected (sh : Shell) : Shell := ⟨(sh.session.disconnect sh.world).1, (sh.session.disconnect sh.world).2⟩

/-- What can happen to a shell: it connects, it disconnects, or something happens that has nothing to do with its
connection. -/
inductive Moves : Shell → Shell → Prop where
  | connect (sh : Shell) (url : String) : Moves sh (sh.connected url)
  | disconnect (sh : Shell) : Moves sh sh.disconnected
  | elsewhere {sh sh' : Shell} (hconnection : sh'.session.connection = sh.session.connection)
      (hopened : sh'.world.network.opened = sh.world.network.opened)
      (hclosed : sh'.world.network.closed = sh.world.network.closed) : Moves sh sh'

theorem disconnected_of_offline {sh : Shell} (h : sh.session.connection = none) : sh.disconnected = sh := by
  unfold disconnected
  rw [Session.disconnect_of_offline h]

theorem session_disconnected (sh : Shell) :
    sh.disconnected.session = { sh.session with connection := none } := Session.disconnect_fst sh.session sh.world

theorem network_disconnected {sh : Shell} {c : Connection} (h : sh.session.connection = some c) :
    sh.disconnected.world.network = sh.world.network.closeConnection c.number := by
  simp only [disconnected, Session.disconnect, h]
  rfl

theorem network_connected (sh : Shell) (url : String) :
    (sh.connected url).world.network = sh.disconnected.world.network.openConnection.2 := rfl

theorem connection_connected (sh : Shell) (url : String) : (sh.connected url).session.connection =
    some ⟨sh.disconnected.world.network.opened,
      ⟨url, sh.session.terms.timeout, sh.session.terms.rcLimit, sh.session.terms.reader⟩⟩ := by
  show (sh.session.connect url sh.world).1.connection = _
  rw [Session.connect_fst]
  rfl

/-- To the connection, a command does nothing but connect or disconnect. -/
theorem moves_execute (i : Command.Invocation) (sh : Shell) : Moves sh (sh.execute i).2 := by
  have hasked {s' : Session} {w' : World} (hconnection : s'.connection = sh.session.connection)
      (hnetwork : ∃ rs, w'.network = sh.world.network.asked rs) : Moves sh ⟨s', w'⟩ := by
    obtain ⟨rs, hrs⟩ := hnetwork
    exact .elsewhere hconnection (by rw [hrs]; rfl) (by rw [hrs]; rfl)
  cases (⟨sh, i⟩ : Turn).ends with
  | failed _ _ hsession hnetwork => exact hasked (congrArg Session.connection hsession) hnetwork
  | abandoned _ _ _ _ h hnetwork => exact hasked (by rw [show (sh.execute i).2.session = _ from h.after]) hnetwork
  | done _ _ hdoes =>
    show Moves sh ⟨(sh.execute i).2.session, (sh.execute i).2.world⟩
    change Session.Does i sh.session sh.world (sh.execute i).2.session (sh.execute i).2.world at hdoes
    generalize (sh.execute i).2.session = s' at hdoes
    generalize (sh.execute i).2.world = w' at hdoes
    cases hdoes with
    | report _ hnetwork | leave _ hnetwork | lock _ hnetwork | unlock _ _ _ hnetwork => exact hasked rfl hnetwork
    | register _ name address d hnetwork =>
      refine hasked ?_ hnetwork
      unfold Session.enroll
      split <;> rfl
    | store _ _ hstores hnetwork =>
      refine hasked ?_ hnetwork
      rw [hstores.after]
      rfl
    | connect _ url => exact .connect sh url
    | disconnect => exact .disconnect sh

/-- What happens in turns that are taken one after the other is what can happen to a shell. -/
theorem moves_of_takes {sh last : Shell} {ts : List Turn} (h : Takes sh ts last) :
    ReflTransGen Moves sh last ∧ ∀ t ∈ ts, ReflTransGen Moves sh t.shell ∧ ReflTransGen Moves sh t.after := by
  induction h with
  | none sh => exact ⟨.refl, by simp⟩
  | @next sh last t ts hstart _ ih =>
    subst hstart
    have hturn : ReflTransGen Moves t.shell t.after := .single (moves_execute t.invocation t.shell)
    refine ⟨hturn.trans ih.1, fun u hu => ?_⟩
    rcases List.mem_cons.mp hu with rfl | hu
    · exact ⟨.refl, hturn⟩
    · exact ⟨hturn.trans (ih.2 u hu).1, hturn.trans (ih.2 u hu).2⟩

/-! ## 2. The account -/

/-- The connections are accounted for: those that were closed are all but the open one, each once and in order, and the open
one is the last that was opened. -/
structure IsAccounted (sh : Shell) : Prop where
  closed : sh.world.network.closed = List.range sh.world.network.closed.length
  opened : sh.world.network.opened =
    sh.world.network.closed.length + if sh.session.connection.isSome then 1 else 0
  current : ∀ c ∈ sh.session.connection, c.number = sh.world.network.closed.length
  url : sh.session.url.isSome = sh.session.connection.isSome

theorem isSome_url (s : Session) : s.url.isSome = s.connection.isSome := by
  rw [Session.url, Option.isSome_map]

namespace IsAccounted

variable {sh sh' : Shell}

/-- Without a connection, every connection that was opened has been closed once. -/
theorem closed_of_offline (h : sh.IsAccounted) (hoffline : sh.session.connection = none) :
    sh.world.network.closed = List.range sh.world.network.opened := by
  have hopened := h.opened
  rw [hoffline] at hopened
  rw [hopened]
  exact h.closed

theorem disconnected (h : sh.IsAccounted) : sh.disconnected.IsAccounted := by
  cases hconnection : sh.session.connection with
  | none =>
    rw [disconnected_of_offline hconnection]
    exact h
  | some c =>
    have hnone : sh.disconnected.session.connection = none := by
      rw [session_disconnected]
    -- The open connection is the last one, so closing it keeps the closed ones in order.
    have hclosed : sh.disconnected.world.network.closed = sh.world.network.closed ++ [c.number] := by
      rw [network_disconnected hconnection]
      rfl
    have hlength : sh.disconnected.world.network.closed.length = sh.world.network.closed.length + 1 := by
      rw [hclosed, List.length_append]
      rfl
    refine ⟨?_, ?_, ?_, isSome_url _⟩
    · rw [hlength, hclosed, h.current c hconnection, List.range_succ, ← h.closed]
    · have hopened := h.opened
      rw [hconnection] at hopened
      rw [hlength, hnone, network_disconnected hconnection]
      exact hopened
    · rw [hnone]
      exact fun c hc => nomatch hc

theorem connected (h : sh.IsAccounted) (url : String) : (sh.connected url).IsAccounted := by
  have hoffline : sh.disconnected.session.connection = none := by
    rw [session_disconnected]
  have hclosed := h.disconnected.closed
  have hopened := h.disconnected.opened
  rw [hoffline] at hopened
  refine ⟨?_, ?_, ?_, isSome_url _⟩
  · rw [network_connected]
    exact hclosed
  · rw [network_connected, connection_connected]
    exact congrArg (· + 1) hopened
  · rw [network_connected, connection_connected]
    rintro c hc
    cases hc
    exact hopened

/-- The account of the connections is kept. -/
theorem of_moves (h : sh.IsAccounted) (hmoves : Moves sh sh') : sh'.IsAccounted := by
  cases hmoves with
  | connect url => exact h.connected url
  | disconnect => exact h.disconnected
  | elsewhere hconnection hopened hclosed =>
    refine ⟨?_, ?_, ?_, isSome_url _⟩
    · rw [hclosed]
      exact h.closed
    · rw [hopened, hclosed, hconnection]
      exact h.opened
    · rw [hclosed, hconnection]
      exact h.current

theorem of_reflTransGen (h : sh.IsAccounted) (hmoves : ReflTransGen Moves sh sh') : sh'.IsAccounted := by
  induction hmoves with
  | refl => exact h
  | tail _ hmove ih => exact ih.of_moves hmove

end IsAccounted

/-! ## 3. The end of a session -/

/-- A session is cleaned up: as long as there are callbacks, the last one is taken off and called. It may do whatever can
happen to a shell, and add callbacks, and it may fail; the next one is called all the same. When none is left the connection
is closed. The names are those of the callbacks that were called. -/
inductive CleansUp : Shell → List String → Shell → Prop where
  | done {sh : Shell} (h : sh.session.callbacks = []) : CleansUp sh [] sh.disconnected
  | call {sh mid last : Shell} {before : List Callback} {c : Callback} {called : List String}
      (h : sh.session.callbacks = before ++ [c])
      (hacts : ReflTransGen Moves { sh with session := { sh.session with callbacks := before } } mid)
      (hrest : CleansUp mid called last) : CleansUp sh (c.name :: called) last

namespace CleansUp

variable {sh last : Shell} {called : List String}

theorem offline (h : CleansUp sh called last) :
    last.session.connection = none ∧ last.session.callbacks = [] := by
  induction h with
  | done h =>
    rw [session_disconnected]
    exact ⟨rfl, h⟩
  | call _ _ _ ih => exact ih

/-- Cleaning up keeps the account of the connections. -/
theorem isAccounted (h : CleansUp sh called last) (hsh : sh.IsAccounted) : last.IsAccounted := by
  induction h with
  | done => exact hsh.disconnected
  | @call sh mid last before c called _ hacts _ ih =>
    have hbefore : IsAccounted { sh with session := { sh.session with callbacks := before } } :=
      hsh.of_moves (.elsewhere rfl rfl rfl)
    exact ih (hbefore.of_reflTransGen hacts)

/-- After the end of a session every connection has been closed once. -/
theorem closed (h : CleansUp sh called last) (hsh : sh.IsAccounted) :
    last.world.network.closed = List.range last.world.network.opened :=
  (h.isAccounted hsh).closed_of_offline h.offline.1

/-- Cleaning up again calls nothing and closes nothing. -/
theorem again (h : CleansUp sh called last) {called' : List String} {last' : Shell} :
    CleansUp last called' last' ↔ called' = [] ∧ last' = last := by
  obtain ⟨hoffline, hcallbacks⟩ := h.offline
  constructor
  · intro h'
    cases h' with
    | done => exact ⟨rfl, disconnected_of_offline hoffline⟩
    | call hsome =>
      rw [hcallbacks] at hsome
      exact absurd hsome (by simp)
  · rintro ⟨rfl, rfl⟩
    have hdone := CleansUp.done hcallbacks
    rw [disconnected_of_offline hoffline] at hdone
    exact hdone

end CleansUp

theorem finish_eq (sh : Shell) : sh.finish = (Session.callAll sh.session.callbacks.reverse,
    disconnected { sh with session := { sh.session with callbacks := [] } }) := rfl

/-- The end of a session is one of the ways to clean up. -/
theorem cleansUp_finish (sh : Shell) : CleansUp sh sh.finish.1.called sh.finish.2 := by
  obtain ⟨callbacks, hcallbacks⟩ : ∃ callbacks, sh.session.callbacks = callbacks := ⟨_, rfl⟩
  -- The last callback is the first to be called, so the induction goes from the end of the list.
  induction callbacks using List.reverseRecOn generalizing sh with
  | nil =>
    have hsame : { sh with session := { sh.session with callbacks := [] } } = sh := by
      rw [← hcallbacks]
    rw [finish_eq, hcallbacks, hsame]
    exact .done hcallbacks
  | append_singleton before c ih =>
    have hrest := ih { sh with session := { sh.session with callbacks := before } } rfl
    rw [finish_eq, Session.called_callAll] at hrest ⊢
    rw [hcallbacks, List.reverse_append, List.map_append]
    exact .call hcallbacks .refl hrest

end Shell

end ContractShell
