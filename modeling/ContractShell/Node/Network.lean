import ContractShell.Transaction

/-!
The network as the shell sees it: the requests that were made, what will come of the next ones, and which connections were
opened and closed.
-/

namespace ContractShell.Node

/-- What comes of a request. -/
inductive Outcome where
  /-- No answer arrives. -/
  | unreachable
  | response (status : Nat) (body : Bytes)
  deriving DecidableEq, Repr

/-- A request to a node. -/
structure Request where
  url : String
  method : String
  params : Json
  /-- How many seconds to wait for the answer. -/
  timeout : Json
  /-- The transaction in the parameters, if they hold one. -/
  transaction : Option Transaction

/-- The outcomes of the requests to come, in order, the requests made so far, how many connections were opened, and which
were closed. Connections are numbered from zero in the order in which they are opened. -/
structure Network where
  outcomes : List Outcome
  requests : List Request
  opened : Nat
  closed : List Nat

namespace Network

/-- The network before the first request. -/
def fresh (outcomes : List Outcome) : Network := ⟨outcomes, [], 0, []⟩

/-- Makes a request. When no outcome is left, no answer arrives. -/
def post (r : Request) (n : Network) : Outcome × Network :=
  match n.outcomes with
  | [] => (.unreachable, { n with requests := n.requests ++ [r] })
  | o :: rest => (o, { n with outcomes := rest, requests := n.requests ++ [r] })

/-- Opens a connection; its number is the count of those before it. -/
def openConnection (n : Network) : Nat × Network := (n.opened, { n with opened := n.opened + 1 })

/-- Closes the connection of a number. -/
def closeConnection (number : Nat) (n : Network) : Network := { n with closed := n.closed ++ [number] }

end Network

end ContractShell.Node
