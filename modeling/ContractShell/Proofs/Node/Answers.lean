import ContractShell.Json.Encoding
import ContractShell.Proofs.Node.Dialogue

/-!
Which answers of a node are told as failures of calls.

Callers look for two kinds of failure: the node refuses a call, or gives no proper answer. An answer that is proper as such
may still not have the form that the call needs, and then the call breaks off with a misfit, which nobody looks for. Here it
is said of each call which answers fit it.

## Main statements

* `Client.isReported_bind_iff`: what is made of an answer is told properly just when the answer fits.
* `Client.isReported_iff`: for each call, which answers make it end with a value or with a failure that callers look for.
-/

namespace ContractShell.Node

/-- A call ends as its callers expect: with a value that has a property, or with a failure that they look for. -/
def IsReported {α : Type} (P : α → Prop) : Except Fault α → Prop
  | .ok a => P a
  | .error f => f.isExpected = true

instance {α : Type} {P : α → Prop} [DecidablePred P] (x : Except Fault α) : Decidable (IsReported P x) :=
  match x with
  | .ok a => inferInstanceAs (Decidable (P a))
  | .error f => inferInstanceAs (Decidable (f.isExpected = true))

/-! ## 1. Errors -/

/-- A log can be told item by item. -/
def hasItems : Json → Bool
  | .arr _ | .str _ | .obj _ => true
  | v => v.isVacant

/-- An error can be told of: it is an object, and the log in its data, if there is one, has items. -/
def isReport : Json → Bool
  | .obj m => hasItems (((Json.find? "data" m).bind (Json.member? "logs")).getD .null)
  | _ => false

theorem isOk_logItems (v : Json) : (logItems v).isOk = hasItems v := by
  unfold logItems
  by_cases hvacant : v.isVacant = true
  · rw [if_pos hvacant]
    cases v with
    | arr _ | str _ | obj _ => rfl
    | null | bool _ | int _ | float _ => exact hvacant.symm
  · rw [if_neg hvacant]
    cases v with
    | arr _ | str _ | obj _ => rfl
    | null | bool _ | int _ | float _ => exact (Bool.eq_false_iff.mpr hvacant).symm

theorem isExpected_faultOf (e : Json) : (faultOf e).isExpected = isReport e := by
  cases e with
  | obj m =>
    show (faultOf (.obj m)).isExpected = hasItems (((Json.find? "data" m).bind (Json.member? "logs")).getD .null)
    rw [← isOk_logItems]
    unfold faultOf
    simp only
    cases logItems (((Json.find? "data" m).bind (Json.member? "logs")).getD .null) <;> rfl
  | null | bool _ | int _ | float _ | str _ | arr _ => rfl

/-! ## 2. Answers -/

namespace Client

section

variable (c : Client)

/-- An answer, read as the client reads it, holds an error. -/
inductive Complains : Outcome → Json → Prop where
  | intro {status : Nat} {body : Bytes} {v e : Json} (hbody : c.reader body = some v)
      (herror : errorIn? v = some e) : Complains (.response status body) e

/-- An answer brings a result: its status stands for no failure, and it is an object that holds no error. -/
inductive Brings : Outcome → Json → Prop where
  | intro {status : Nat} {body : Bytes} {m : List (String × Json)} (hstatus : isFailure status = false)
      (hbody : c.reader body = some (.obj m)) (herror : errorIn? (.obj m) = none) :
      Brings (.response status body) ((Json.find? "result" m).getD .null)

/-- An answer fits a call: the error that it holds can be told of, and the result that it brings is of the form that the
call needs. -/
structure Fits (form : Json → Bool) (o : Outcome) : Prop where
  error : ∀ e, c.Complains o e → isReport e = true
  result : ∀ r, c.Brings o r → form r = true

/-- What can be made of an outcome: the result that it brings, the error that it holds, or a failure to answer properly. -/
inductive Means (o : Outcome) : Except Fault Json → Prop where
  | result {r : Json} (h : c.Brings o r) : Means o (.ok r)
  | error {e : Json} (h : c.Complains o e) : Means o (.error (faultOf e))
  | improper {f : Fault} (hf : f.isExpected = true) (hresult : ∀ r, ¬ c.Brings o r) (herror : ∀ e, ¬ c.Complains o e) :
      Means o (.error f)

end

variable {c : Client}

theorem means_resultOf {status : Nat} {body : Bytes} {v : Json} (hbody : c.reader body = some v)
    (hstatus : isFailure status = false ∨ (errorIn? v).isSome = true) :
    c.Means (.response status body) (resultOf v) := by
  cases v with
  | obj m =>
    unfold resultOf
    cases herror : errorIn? (.obj m) with
    | some e => exact .error (.intro hbody herror)
    | none =>
      refine .result (.intro ?_ hbody herror)
      rw [herror] at hstatus
      exact hstatus.resolve_right (by simp)
  | null | bool _ | int _ | float _ | str _ | arr _ =>
    -- only an object brings a result or holds an error
    refine .improper rfl ?_ ?_
    · rintro r ⟨_, hobject, _⟩
      rw [hbody] at hobject
      cases hobject
    · rintro e ⟨hvalue, herror⟩
      rw [hbody] at hvalue
      cases hvalue
      cases herror

theorem means_resultIn (c : Client) (o : Outcome) : c.Means o (c.resultIn o) := by
  cases o with
  | unreachable => exact .improper rfl (by rintro r ⟨⟩) (by rintro e ⟨⟩)
  | response status body =>
    unfold resultIn
    simp only
    cases hbody : c.reader body with
    | none =>
      refine .improper ?_ ?_ ?_
      · cases isFailure status <;> rfl
      · rintro r ⟨_, hobject, _⟩
        rw [hbody] at hobject
        cases hobject
      · rintro e ⟨hvalue, _⟩
        rw [hbody] at hvalue
        cases hvalue
    | some v =>
      -- The status counts only where the body holds no error of its own.
      by_cases hfails : (isFailure status && (errorIn? v).isNone) = true
      · obtain ⟨hstatus, hnone⟩ := Bool.and_eq_true_iff.mp hfails
        simp only
        rw [if_pos hfails]
        refine .improper rfl ?_ ?_
        · rintro r ⟨hproper, _, _⟩
          rw [hstatus] at hproper
          cases hproper
        · rintro e ⟨hvalue, herror⟩
          rw [hbody] at hvalue
          cases hvalue
          rw [herror] at hnone
          cases hnone
      · simp only
        rw [if_neg hfails]
        refine means_resultOf hbody ?_
        cases hstatus : isFailure status with
        | false => exact .inl rfl
        | true =>
          rw [hstatus, Bool.true_and, Option.isNone_iff_eq_none] at hfails
          exact .inr (Option.isSome_iff_ne_none.mpr hfails)

theorem Brings.unique {o : Outcome} {r r' : Json} (h : c.Brings o r) (h' : c.Brings o r') : r = r' := by
  cases h with
  | intro _ hbody _ =>
    cases h' with
    | intro _ hbody' _ =>
      rw [hbody] at hbody'
      cases hbody'
      rfl

-- An answer that holds an error brings no result.
theorem Brings.not_complains {o : Outcome} {r e : Json} (h : c.Brings o r) (h' : c.Complains o e) : False := by
  cases h with
  | intro _ hbody herror =>
    cases h' with
    | intro hbody' herror' =>
      rw [hbody] at hbody'
      cases hbody'
      rw [herror] at herror'
      cases herror'

theorem Complains.unique {o : Outcome} {e e' : Json} (h : c.Complains o e) (h' : c.Complains o e') : e = e' := by
  cases h with
  | intro hbody herror =>
    cases h' with
    | intro hbody' herror' =>
      rw [hbody] at hbody'
      cases hbody'
      rw [herror] at herror'
      cases herror'
      rfl

/-- What is made of an answer is told as its callers expect just when the answer fits. -/
theorem isReported_bind_iff {α : Type} {P : α → Prop} {form : Json → Bool} {f : Json → Except Fault α} (o : Outcome)
    (hform : ∀ r, IsReported P (f r) ↔ form r = true) : IsReported P (c.resultIn o >>= f) ↔ c.Fits form o := by
  have hmeans := means_resultIn c o
  cases hresult : c.resultIn o with
  | ok r =>
    rw [hresult] at hmeans
    cases hmeans with
    | result h =>
      show IsReported P (f r) ↔ _
      rw [hform]
      constructor
      · intro hr
        exact ⟨fun e he => (h.not_complains he).elim, fun r' hr' => by rw [← h.unique hr']; exact hr⟩
      · intro hfits
        exact hfits.result r h
  | error why =>
    rw [hresult] at hmeans
    show why.isExpected = true ↔ _
    cases hmeans with
    | @error e h =>
      rw [isExpected_faultOf]
      constructor
      · intro he
        exact ⟨fun e' he' => by rw [← h.unique he']; exact he, fun r hr => (hr.not_complains h).elim⟩
      · intro hfits
        exact hfits.error e h
    | improper hf hnone herror => exact ⟨fun _ => ⟨fun e he => (herror e he).elim, fun r hr => (hnone r hr).elim⟩, fun _ => hf⟩

end Client

/-! ## 3. Forms -/

/-- A text from which bytes can be read. -/
def holdsBytes : Json → Bool
  | .str s => (Base64.decodeUnpadded s).isOk
  | _ => false

/-- The answer to a read: bytes, which may be left out. One that is no object is told as such. -/
def isReading : Json → Bool
  | .obj m => holdsBytes ((Json.find? "result" m).getD (.str ""))
  | _ => true

/-- The answer that names a chain: an object with the bytes of the name. -/
def namesChain : Json → Bool
  | .obj m => holdsBytes ((Json.find? "chain_id" m).getD .null)
  | _ => false

/-- A value that counts as a number: a vacant one, a number that is neither infinite nor undefined, true, or a decimal
numeral in text. -/
def countsAsNumber (v : Json) : Bool :=
  v.isVacant || match v with
    | .int _ | .bool _ => true
    | .str s => (Integer.read 10 s).isOk
    | .float x => x.truncate?.isSome
    | _ => false

/-- The answer that tells a nonce: an object, in which the number may be left out. -/
def tellsNonce : Json → Bool
  | .obj m => countsAsNumber ((Json.find? "nonce" m).getD .null)
  | _ => false

/-- The answer to a transaction: if it holds a receipt that is not vacant, this is an object. -/
def isReceipt (r : Json) : Bool :=
  ((r.member? "receipt").getD .null).isVacant || ((r.member? "receipt").getD .null).members?.isSome

theorem isOk_bytesIn (v : Json) : (bytesIn v).isOk = holdsBytes v := by
  cases v with
  | str s =>
    show ((Base64.decodeUnpadded s).mapError Misfit.base64).isOk = (Base64.decodeUnpadded s).isOk
    cases Base64.decodeUnpadded s <;> rfl
  | null | bool _ | int _ | float _ | arr _ | obj _ => rfl

theorem isOk_integerIn (v : Json) : (integerIn v).isOk = countsAsNumber v := by
  unfold integerIn countsAsNumber
  cases v.isVacant with
  | true => rfl
  | false =>
    simp only [Bool.false_or, Bool.false_eq_true, if_false]
    cases v with
    | str s =>
      show ((Integer.read 10 s).mapError Misfit.numeral).isOk = (Integer.read 10 s).isOk
      cases Integer.read 10 s <;> rfl
    | float x =>
      simp only
      cases x.truncate? <;> rfl
    | null | bool _ | int _ | arr _ | obj _ => rfl

theorem not_isReported_misfit {α : Type} {P : α → Prop} (m : Misfit) : ¬ IsReported P (.error (.misfit m)) :=
  Bool.false_ne_true

theorem isReported_mapError_iff {α : Type} (x : Except Misfit α) :
    IsReported (fun _ => True) (x.mapError .misfit) ↔ x.isOk = true := by
  cases x with
  | ok a => exact ⟨fun _ => rfl, fun _ => trivial⟩
  | error m => exact iff_of_false (not_isReported_misfit m) Bool.false_ne_true

/-! ## 4. Calls -/

-- Of two steps, the second has to end well only where the first gives it something to go on with.
theorem isReported_bind {α β : Type} {P : β → Prop} {x : Except Fault α} {f : α → Except Fault β} :
    IsReported P (x >>= f) ↔ IsReported (fun _ => True) x ∧ ∀ a, x = .ok a → IsReported P (f a) := by
  cases x with
  | error why =>
    show why.isExpected = true ↔ why.isExpected = true ∧ _
    simp
  | ok a =>
    show IsReported P (f a) ↔ True ∧ _
    simp

section

variable (c : Client)

theorem Client.isReported_readContract_iff (args contractId : Bytes) (entryPoint : Nat) (n : Network) :
    IsReported (fun _ => True) (c.readContract args contractId entryPoint n).1 ↔ c.Fits isReading (n.answer 0) := by
  have hread : (c.readContract args contractId entryPoint n).1 = c.resultIn (n.answer 0) >>= fun r =>
      match r with
      | .obj m => (bytesIn ((Json.find? "result" m).getD (.str ""))).mapError .misfit
      | _ => .error .noResult := by
    unfold Client.readContract Client.call
    rw [steps_bind_apply, Client.callWith_apply]
    cases c.resultIn (n.answer 0) with
    | error f => rfl
    | ok r =>
      cases r with
      | obj m =>
        simp only
        rw [expect_apply]
        rfl
      | null | bool _ | int _ | float _ | str _ | arr _ => rfl
  rw [hread]
  refine Client.isReported_bind_iff _ fun r => ?_
  cases r with
  | obj m =>
    simp only
    rw [isReported_mapError_iff, isOk_bytesIn]
    rfl
  | null | bool _ | int _ | float _ | str _ | arr _ => exact ⟨fun _ => rfl, fun _ => rfl⟩

theorem Client.isReported_chainIdIn_iff (o : Outcome) :
    IsReported (fun _ => True) (c.chainIdIn o) ↔ c.Fits namesChain o := by
  unfold Client.chainIdIn
  refine Client.isReported_bind_iff o fun r => ?_
  cases r with
  | obj m =>
    simp only [memberIn, namesChain]
    cases Json.find? "chain_id" m with
    | none => exact iff_of_false (not_isReported_misfit _) Bool.false_ne_true
    | some text =>
      show IsReported (fun _ => True) ((bytesIn text).mapError .misfit) ↔ holdsBytes text = true
      rw [isReported_mapError_iff, isOk_bytesIn]
  | null | bool _ | int _ | float _ | str _ | arr _ => exact iff_of_false (not_isReported_misfit _) Bool.false_ne_true

theorem Client.isReported_nonceIn_iff (o : Outcome) :
    IsReported (fun _ => True) (c.nonceIn o) ↔ c.Fits tellsNonce o := by
  unfold Client.nonceIn
  refine Client.isReported_bind_iff o fun r => ?_
  cases r with
  | obj m =>
    simp only
    rw [isReported_mapError_iff, isOk_integerIn]
    rfl
  | null | bool _ | int _ | float _ | str _ | arr _ => exact iff_of_false (not_isReported_misfit _) Bool.false_ne_true

/-- What the node says to a submitted transaction: its receipt, or else the transaction's name. -/
def Client.receiptIn (t : Transaction) (o : Outcome) : Except Fault Json := do
  let result ← c.resultIn o
  let receipt := (result.member? "receipt").getD .null
  return if receipt.isVacant then .obj [("id", .str t.id)] else receipt

/-- A document is an object. -/
def IsObject (v : Json) : Prop := ∃ m, v = .obj m

theorem Client.isReported_receiptIn_iff (t : Transaction) (o : Outcome) :
    IsReported IsObject (c.receiptIn t o) ↔ c.Fits isReceipt o := by
  unfold Client.receiptIn
  refine Client.isReported_bind_iff o fun r => ?_
  show IsObject (if ((r.member? "receipt").getD .null).isVacant then .obj [("id", .str t.id)]
    else (r.member? "receipt").getD .null) ↔ _
  unfold isReceipt
  by_cases hvacant : ((r.member? "receipt").getD .null).isVacant = true
  · rw [if_pos hvacant, hvacant]
    exact ⟨fun _ => rfl, fun _ => ⟨_, rfl⟩⟩
  · rw [if_neg hvacant, Bool.eq_false_iff.mpr hvacant, Bool.false_or]
    cases (r.member? "receipt").getD .null with
    | obj m => exact ⟨fun _ => rfl, fun _ => ⟨m, rfl⟩⟩
    | null | bool _ | int _ | float _ | str _ | arr _ => exact iff_of_false (by rintro ⟨m, ⟨⟩⟩) Bool.false_ne_true

theorem Client.submit_result (t : Transaction) (n : Network) : (c.submit t n).1 = c.receiptIn t (n.answer 0) := by
  unfold Client.submit Client.receiptIn
  rw [steps_bind_apply, Client.callWith_apply]
  cases c.resultIn (n.answer 0) <;> rfl

/-- The three answers that lie ahead of the submission of an operation fit it, as far as it comes to them: the first names
the chain, the second tells a nonce, and the third is a receipt. The numbers of the transaction must not be too long to be
written. -/
structure Client.FitsSubmission (operation : Json) (n : Network) : Prop where
  chain : c.Fits namesChain (n.answer 0)
  nonce : ∀ chainId, c.chainIdIn (n.answer 0) = .ok chainId → c.Fits tellsNonce (n.answer 1)
  numbers : ∀ chainId i, c.chainIdIn (n.answer 0) = .ok chainId → c.nonceIn (n.answer 1) = .ok i →
    Transaction.isWritable [operation] (i + 1) c.rcLimit = true
  receipt : ∀ chainId i, c.chainIdIn (n.answer 0) = .ok chainId → c.nonceIn (n.answer 1) = .ok i →
    c.Fits isReceipt (n.answer 2)

theorem Client.submitOperation_result (operation : Json) (k : Key) (n : Network) :
    (c.submitOperation operation k n).1 = c.chainIdIn (n.answer 0) >>= fun chainId =>
      c.nonceIn (n.answer 1) >>= fun nonce =>
        if Transaction.isWritable [operation] (nonce + 1) c.rcLimit then
          c.receiptIn ((Transaction.build [operation] chainId (nonce + 1) c.rcLimit k.addressBytes).sign k) (n.answer 2)
        else .error (.misfit .tooLong) := by
  unfold Client.submitOperation
  rw [steps_bind_fst (c.chainId_apply n)]
  refine bind_congr fun chainId => ?_
  rw [steps_bind_fst (c.accountNonce_apply _ _), Network.asked_asked, Network.answer_asked]
  refine bind_congr fun nonce => ?_
  -- between the nonce and the transaction no request is made
  cases Transaction.isWritable [operation] (nonce + 1) c.rcLimit with
  | true => exact (c.submit_result _ _).trans (by rw [Network.answer_asked]; rfl)
  | false => rfl

theorem isReported_if_iff {α : Type} {P : α → Prop} {b : Bool} {x : Except Fault α} {m : Misfit} :
    IsReported P (if b then x else .error (.misfit m)) ↔ b = true ∧ IsReported P x := by
  cases b with
  | true => exact (and_iff_right rfl).symm
  | false => exact iff_of_false (not_isReported_misfit m) fun h => Bool.false_ne_true h.1

theorem Client.isReported_submitOperation_iff (operation : Json) (k : Key) (n : Network) :
    IsReported IsObject (c.submitOperation operation k n).1 ↔ c.FitsSubmission operation n := by
  simp only [Client.submitOperation_result, isReported_bind, Client.isReported_chainIdIn_iff,
    Client.isReported_nonceIn_iff, isReported_if_iff, Client.isReported_receiptIn_iff]
  constructor
  · rintro ⟨hchain, hafter⟩
    refine ⟨hchain, fun chainId hchainId => (hafter chainId hchainId).1, ?_, ?_⟩
    · exact fun chainId i hchainId hnonce => ((hafter chainId hchainId).2 i hnonce).1
    · exact fun chainId i hchainId hnonce => ((hafter chainId hchainId).2 i hnonce).2
  · intro h
    refine ⟨h.chain, fun chainId hchainId => ⟨h.nonce chainId hchainId, fun i hnonce => ?_⟩⟩
    exact ⟨h.numbers chainId i hchainId hnonce, h.receipt chainId i hchainId hnonce⟩

end

/-- For each call, which answers make it end with a value of its type or with a failure that callers look for. A read, the
name of the chain and a nonce take one answer; a submission takes up to three. -/
theorem Client.isReported_iff (c : Client) (n : Network) :
    (∀ args contractId entryPoint, IsReported (fun _ => True) (c.readContract args contractId entryPoint n).1 ↔
        c.Fits isReading (n.answer 0)) ∧
      (IsReported (fun _ => True) (c.chainId n).1 ↔ c.Fits namesChain (n.answer 0)) ∧
      (∀ address, IsReported (fun _ => True) (c.accountNonce address n).1 ↔ c.Fits tellsNonce (n.answer 0)) ∧
      (∀ args contractId entryPoint k, IsReported IsObject (c.writeContract args contractId entryPoint k n).1 ↔
        c.FitsSubmission (Operation.call contractId entryPoint args) n) ∧
      ∀ bytecode k document overrides, IsReported IsObject (c.uploadContract bytecode k document overrides n).1 ↔
        c.FitsSubmission (Operation.upload k.address bytecode document overrides) n := by
  refine ⟨fun args contractId entryPoint => c.isReported_readContract_iff args contractId entryPoint n, ?_, ?_, ?_, ?_⟩
  · rw [Client.chainId_apply]
    exact c.isReported_chainIdIn_iff (n.answer 0)
  · intro address
    rw [Client.accountNonce_apply]
    exact c.isReported_nonceIn_iff (n.answer 0)
  · intro args contractId entryPoint k
    exact c.isReported_submitOperation_iff _ k n
  · intro bytecode k document overrides
    exact c.isReported_submitOperation_iff _ k n

/-- A proper answer whose result is an object without members. -/
def Outcome.hollow : Outcome :=
  .response 200 (Text.Utf8.encode "\x7b\"jsonrpc\": \"2.0\", \"result\": \x7b\x7d\x7d".toList)

-- Such an answer names no chain, and the call for the name breaks off.
theorem Client.not_isReported_hollow :
    ¬ IsReported (fun _ => True)
        ((⟨"http://node.test", .int 30, 10, Json.readBytes?⟩ : Client).chainId (Network.fresh [.hollow])).1 := by
  decide +kernel

end ContractShell.Node
