import ContractShell.Node.Client
import ContractShell.Proofs.Steps

/-!
What a client asks a node, and what it makes of the answers.

A dialogue uses up the outcomes that lie ahead in the order in which it makes its requests, so what decides each of its
steps is known from the network before it begins. Submitting an operation makes at most three requests. The transaction is
the last of them, and it is made up of the answers to the two before it.

## Main statements

* `Client.readContract_apply`: a contract is read with one request, which holds no transaction.
* `Client.exchanges_submitOperation`: which requests the submission of an operation makes.
-/

namespace ContractShell.Node

/-! ## 1. Networks -/

namespace Network

/-- The network after some requests: they were made, and an outcome was used up for each, as long as there were any. -/
def asked (rs : List Request) (n : Network) : Network :=
  { n with outcomes := n.outcomes.drop rs.length, requests := n.requests ++ rs }

/-- What will come of the request that is made after a number of others. -/
def answer (n : Network) (before : Nat) : Outcome := n.outcomes[before]?.getD .unreachable

theorem asked_nil (n : Network) : n.asked [] = n := by
  simp [asked]

theorem asked_asked (rs more : List Request) (n : Network) : (n.asked rs).asked more = n.asked (rs ++ more) := by
  simp [asked]

theorem answer_asked (rs : List Request) (n : Network) (before : Nat) :
    (n.asked rs).answer before = n.answer (rs.length + before) := by
  simp [answer, asked]

theorem post_apply (r : Request) (n : Network) : n.post r = (n.answer 0, n.asked [r]) := by
  obtain ⟨outcomes, requests, opened, closed⟩ := n
  cases outcomes <;> rfl

end Network

/-! ## 2. Calls -/

section

variable (c : Client)

theorem Client.callWith_apply (method : String) (params : Json) (transaction : Option Transaction) (n : Network) :
    c.callWith method params transaction n =
      (c.resultIn (n.answer 0), n.asked [c.request method params transaction]) := by
  unfold Client.callWith
  rw [Network.post_apply]

theorem expect_apply {α : Type} (r : Except Misfit α) (n : Network) : expect r n = (r.mapError .misfit, n) := by
  cases r <;> rfl

theorem expect_ok_bind {α β : Type} {r : Except Misfit α} {a : α} (h : r = .ok a) (f : α → Dialogue β) (n : Network) :
    (expect r >>= f) n = f a n := by
  rw [steps_bind_apply, expect_apply, h]
  rfl

theorem expect_error_bind {α β : Type} {r : Except Misfit α} {m : Misfit} (h : r = .error m) (f : α → Dialogue β)
    (n : Network) : (expect r >>= f) n = (.error (.misfit m), n) := by
  rw [steps_bind_apply, expect_apply, h]
  rfl

/-- The request for the bytes that a contract answers with. -/
def Client.readRequest (args contractId : Bytes) (entryPoint : Nat) : Request :=
  c.request "chain.read_contract" (.obj [
    ("contract_id", .str (Base58.toString contractId)),
    ("entry_point", .int entryPoint),
    ("args", .str (Base64.encodeUrl args))]) none

/-- A contract is read with one request, which holds no transaction. -/
theorem Client.readContract_apply (args contractId : Bytes) (entryPoint : Nat) (n : Network) :
    (c.readContract args contractId entryPoint n).2 = n.asked [c.readRequest args contractId entryPoint] := by
  unfold Client.readContract Client.call
  rw [steps_bind_apply, Client.callWith_apply]
  cases c.resultIn (n.answer 0) with
  | error f => rfl
  | ok result =>
    cases result with
    | obj m =>
      simp only
      rw [expect_apply]
      rfl
    | _ => rfl

/-! ## 3. The two questions before a transaction -/

/-- The request for the name of the chain. -/
def Client.chainIdRequest : Request := c.request "chain.get_chain_id" (.obj []) none

/-- The name of the chain that an outcome tells. -/
def Client.chainIdIn (o : Outcome) : Except Fault Bytes := do
  let result ← c.resultIn o
  let text ← (memberIn "chain_id" result).mapError .misfit
  (bytesIn text).mapError .misfit

theorem Client.chainId_apply (n : Network) : c.chainId n = (c.chainIdIn (n.answer 0), n.asked [c.chainIdRequest]) := by
  unfold Client.chainId Client.chainIdIn Client.call
  rw [steps_bind_apply, Client.callWith_apply]
  cases c.resultIn (n.answer 0) with
  | error f => rfl
  | ok result =>
    simp only
    cases hmember : memberIn "chain_id" result with
    | error m =>
      rw [expect_error_bind rfl]
      simp only [bind, Except.bind, hmember]
      rfl
    | ok text =>
      rw [expect_ok_bind rfl, expect_apply]
      simp only [bind, Except.bind, hmember]
      rfl

/-- The request for the nonce of an account. -/
def Client.nonceRequest (address : Bytes) : Request :=
  c.request "chain.get_account_nonce" (.obj [("account", .str (Base58.toString address))]) none

/-- The nonce that an outcome tells. -/
def Client.nonceIn (o : Outcome) : Except Fault Int := do
  match ← c.resultIn o with
  | .obj m => (integerIn ((Json.find? "nonce" m).getD .null)).mapError .misfit
  | v => .error (.misfit (.notAnObject v.kindName))

theorem Client.accountNonce_apply (address : Bytes) (n : Network) :
    c.accountNonce address n = (c.nonceIn (n.answer 0), n.asked [c.nonceRequest address]) := by
  unfold Client.accountNonce Client.nonceIn Client.call
  rw [steps_bind_apply, Client.callWith_apply]
  cases c.resultIn (n.answer 0) with
  | error f => rfl
  | ok result =>
    cases result with
    | obj m =>
      simp only [bind, Except.bind]
      rw [expect_apply]
      rfl
    | _ => rfl

/-! ## 4. Transactions -/

/-- The request that submits a transaction. -/
def Client.submitRequest (t : Transaction) : Request :=
  c.request submitMethod (.obj [("transaction", t.toJson), ("broadcast", .bool true)]) (some t)

theorem Client.submit_apply (t : Transaction) (n : Network) : (c.submit t n).2 = n.asked [c.submitRequest t] := by
  unfold Client.submit
  rw [steps_bind_apply, Client.callWith_apply]
  cases c.resultIn (n.answer 0) <;> rfl

/-- The requests that the submission of an operation makes in a network. It breaks off at the first question without a
proper answer, and before the transaction if a number is too long to be written into it. -/
inductive Client.Submits (operation : Json) (k : Key) (n : Network) : List Request → Prop where
  | unnamed {f : Fault} (hchain : c.chainIdIn (n.answer 0) = .error f) : Submits operation k n [c.chainIdRequest]
  | uncounted {chainId : Bytes} {f : Fault} (hchain : c.chainIdIn (n.answer 0) = .ok chainId)
      (hnonce : c.nonceIn (n.answer 1) = .error f) :
      Submits operation k n [c.chainIdRequest, c.nonceRequest k.addressBytes]
  | unwritable {chainId : Bytes} {nonce : Int} (hchain : c.chainIdIn (n.answer 0) = .ok chainId)
      (hnonce : c.nonceIn (n.answer 1) = .ok nonce)
      (hlong : Transaction.isWritable [operation] (nonce + 1) c.rcLimit = false) :
      Submits operation k n [c.chainIdRequest, c.nonceRequest k.addressBytes]
  | submitted {chainId : Bytes} {nonce : Int} (hchain : c.chainIdIn (n.answer 0) = .ok chainId)
      (hnonce : c.nonceIn (n.answer 1) = .ok nonce)
      (hwritable : Transaction.isWritable [operation] (nonce + 1) c.rcLimit = true) :
      Submits operation k n [c.chainIdRequest, c.nonceRequest k.addressBytes,
        c.submitRequest ((Transaction.build [operation] chainId (nonce + 1) c.rcLimit k.addressBytes).sign k)]

/-- Which requests the submission of an operation makes. -/
theorem Client.exchanges_submitOperation (operation : Json) (k : Key) (n : Network) :
    ∃ rs, c.Submits operation k n rs ∧ (c.submitOperation operation k n).2 = n.asked rs := by
  unfold Client.submitOperation
  rw [steps_bind_apply, Client.chainId_apply]
  cases hchain : c.chainIdIn (n.answer 0) with
  | error f => exact ⟨_, .unnamed hchain, rfl⟩
  | ok chainId =>
    simp only
    rw [steps_bind_apply, Client.accountNonce_apply, Network.asked_asked, Network.answer_asked]
    cases hnonce : c.nonceIn (n.answer 1) with
    | error f => exact ⟨_, .uncounted hchain hnonce, rfl⟩
    | ok nonce =>
      simp only
      -- The numbers are written into the transaction after both answers are there.
      cases hwritable : Transaction.isWritable [operation] (nonce + 1) c.rcLimit with
      | true =>
        refine ⟨_, .submitted hchain hnonce hwritable, ?_⟩
        rw [if_pos rfl, Client.submit_apply, Network.asked_asked]
        rfl
      | false => exact ⟨_, .unwritable hchain hnonce hwritable, rfl⟩

end

end ContractShell.Node
