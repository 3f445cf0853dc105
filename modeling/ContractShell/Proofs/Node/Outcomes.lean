import ContractShell.Proofs.Json.Reading
import ContractShell.Proofs.Node.Answers
import ContractShell.Proofs.Text.Utf8

/-!
What a call comes to: the result that the answer brings, the refusal of the node, or a failure on the way.

The body of an answer is read once to let a refusal past a status that stands for a failure, and once for the answer itself.
Which of the three a call comes to is said here of the answer alone, and it is just one of them.

## Main statements

* `faultOf_of_isUsual`: an error of the usual form is told with its code, its message and its log.
* `Client.of_resultIn_eq_error`: an answer that brings no result and holds no error is told as a failure on the way.
* `Client.resultIn_eq_ok_iff`, `Client.IsUsual.resultIn_eq_refused_iff`, `Client.exists_transport`: when each of them is told.
* `Client.call_eq_iff`: the three ways in which a call ends.
-/

namespace ContractShell.Node

/-! ## 1. Failures on the way -/

/-- There was no proper answer. -/
def Fault.isTransport : Fault → Bool
  | .refused .. | .misfit _ => false
  | _ => true

/-- The status that a failure carries. -/
def Fault.status? : Fault → Option Nat
  | .httpStatus status => some status
  | _ => none

/-- The status of an answer, if it stands for a failure. -/
def Outcome.failure? : Outcome → Option Nat
  | .unreachable => none
  | .response status _ => if isFailure status then some status else none

/-! ## 2. Errors of the usual form -/

/-- The log in the data of an error; one that is left out is null. -/
def logIn (m : List (String × Json)) : Json := ((Json.find? "data" m).bind (Json.member? "logs")).getD .null

/-- An error has the usual form: it is an object, and its log is a list, null, or left out. -/
def isUsual : Json → Bool
  | .obj m =>
    match logIn m with
    | .null | .arr _ => true
    | _ => false
  | _ => false

/-- The items of a log that is a list; other logs have none. -/
def listed : Json → List Json
  | .arr items => items
  | _ => []

/-- What an object says as an error: its code, its message and its log. Code and message may be left out. -/
def refusalOf (m : List (String × Json)) : Fault :=
  .refused ((Json.find? "code" m).getD (.int (-1))) ((Json.find? "message" m).getD (.str "unknown")) (listed (logIn m))

/-- An error of the usual form is told with its code, its message and its log. -/
theorem faultOf_of_isUsual {e : Json} (h : isUsual e = true) : ∃ m, e = .obj m ∧ faultOf e = refusalOf m := by
  cases e with
  | obj m =>
    have hitems : logItems (((Json.find? "data" m).bind (Json.member? "logs")).getD .null) = .ok (listed (logIn m)) := by
      show logItems (logIn m) = _
      unfold isUsual at h
      unfold logItems
      cases hlog : logIn m with
      | null => rfl
      | arr items => cases items <;> rfl
      | bool _ | int _ | float _ | str _ | obj _ =>
        simp only [hlog] at h
        cases h
    refine ⟨m, rfl, ?_⟩
    unfold faultOf
    simp only [hitems]
    rfl
  | null | bool _ | int _ | float _ | str _ | arr _ => cases h

/-! ## 3. Answers without a result or an error -/

namespace Client

variable {c : Client}

/-- A document without an error that is no object brings nothing. -/
theorem resultOf_eq_error {v : Json} {f : Fault} (h : resultOf v = .error f) (herror : errorIn? v = none) :
    f = .notObject := by
  cases v with
  | obj m =>
    unfold resultOf at h
    rw [herror] at h
    cases h
  | null | bool _ | int _ | float _ | str _ | arr _ =>
    cases h
    rfl

/-- An answer that holds no error and is not told as a result is told as a failure on the way, with its status if that
stands for a failure. -/
theorem of_resultIn_eq_error {o : Outcome} {f : Fault} (h : c.resultIn o = .error f)
    (hnone : ∀ e, ¬ c.Complains o e) : f.isTransport = true ∧ f.status? = o.failure? := by
  cases o with
  | unreachable =>
    cases h
    exact ⟨rfl, rfl⟩
  | response status body =>
    show f.isTransport = true ∧ f.status? = if isFailure status = true then some status else none
    unfold resultIn at h
    simp only at h
    cases hbody : c.reader body with
    | none =>
      simp only [hbody] at h
      cases h
      cases isFailure status <;> exact ⟨rfl, rfl⟩
    | some v =>
      have herror : errorIn? v = none := by
        apply Option.eq_none_iff_forall_ne_some.mpr
        intro e he
        exact hnone e (.intro hbody he)
      simp only [hbody, herror, Option.isNone_none, Bool.and_true] at h
      cases hstatus : isFailure status with
      | true =>
        rw [hstatus, if_pos rfl] at h
        cases h
        exact ⟨rfl, rfl⟩
      | false =>
        rw [hstatus, if_neg Bool.false_ne_true] at h
        rw [resultOf_eq_error h herror]
        exact ⟨rfl, rfl⟩

/-! ## 4. The three ways -/

section

variable {o : Outcome} {v e : Json}

theorem Brings.result (h : c.Brings o v) : c.resultIn o = .ok v := by
  have hmeans := means_resultIn c o
  generalize c.resultIn o = result at hmeans ⊢
  cases hmeans with
  | result h' => rw [h.unique h']
  | error h' => exact (h.not_complains h').elim
  | improper _ hnothing _ => exact absurd h (hnothing v)

theorem Complains.result (h : c.Complains o e) : c.resultIn o = .error (faultOf e) := by
  have hmeans := means_resultIn c o
  generalize c.resultIn o = result at hmeans ⊢
  cases hmeans with
  | result h' => exact (h'.not_complains h).elim
  | error h' => rw [h.unique h']
  | improper _ _ hnone => exact absurd h (hnone e)

theorem resultIn_eq_ok_iff : c.resultIn o = .ok v ↔ c.Brings o v := by
  constructor
  · intro h
    have hmeans := means_resultIn c o
    rw [h] at hmeans
    cases hmeans with
    | result h' => exact h'
  · exact fun h => h.result

/-- An answer that brings no result and holds no error is told as a failure on the way. -/
theorem exists_transport (hnothing : ∀ v, ¬ c.Brings o v) (hnone : ∀ e, ¬ c.Complains o e) :
    ∃ f, c.resultIn o = .error f ∧ f.isTransport = true := by
  cases h : c.resultIn o with
  | ok v => exact absurd (resultIn_eq_ok_iff.mp h) (hnothing v)
  | error f => exact ⟨f, rfl, (of_resultIn_eq_error h hnone).1⟩

/-- The errors that an outcome may hold have the usual form. -/
def IsUsual (c : Client) (o : Outcome) : Prop := ∀ e, c.Complains o e → isUsual e = true

theorem IsUsual.result (h : c.IsUsual o) (he : c.Complains o e) :
    ∃ m, e = .obj m ∧ c.resultIn o = .error (refusalOf m) := by
  obtain ⟨m, rfl, hfault⟩ := faultOf_of_isUsual (h e he)
  refine ⟨m, rfl, ?_⟩
  rw [he.result, hfault]

/-- A failure on the way is told of no answer that holds an error. -/
theorem IsUsual.not_complains (h : c.IsUsual o) {f : Fault} (hresult : c.resultIn o = .error f)
    (htransport : f.isTransport = true) : ¬ c.Complains o e := by
  intro he
  obtain ⟨m, -, hrefused⟩ := h.result he
  rw [hresult] at hrefused
  cases hrefused
  cases htransport

theorem IsUsual.resultIn_eq_refused_iff (h : c.IsUsual o) {code message : Json} {logs : List Json} :
    c.resultIn o = .error (.refused code message logs) ↔
      ∃ m, c.Complains o (.obj m) ∧ .refused code message logs = refusalOf m := by
  constructor
  · intro hresult
    have hmeans := means_resultIn c o
    generalize hfault : c.resultIn o = result at hmeans
    cases hmeans with
    | result h' =>
      rw [hresult] at hfault
      cases hfault
    | error he =>
      obtain ⟨m, rfl, hrefused⟩ := h.result he
      exact ⟨m, he, Except.error.inj (hresult.symm.trans hrefused)⟩
    | improper _ _ hnone =>
      have htransport := (of_resultIn_eq_error hresult hnone).1
      cases htransport
  · rintro ⟨m, he, hfault⟩
    obtain ⟨m', heq, hrefused⟩ := h.result he
    cases heq
    rw [hrefused, hfault]

end

end Client

/-! ## 5. Calls -/

/-- A call ends with the result that the answer brings, just when it brings one; with the refusal that the answer holds, just
when it holds one, whatever its status; and otherwise with a failure on the way, which carries the status of the answer just
when that stands for a failure. -/
theorem Client.call_eq_iff (c : Client) (method : String) (params : Json) (n : Network) (husual : c.IsUsual (n.answer 0)) :
    (∀ v, (c.call method params n).1 = .ok v ↔ c.Brings (n.answer 0) v) ∧
      (∀ code message logs, (c.call method params n).1 = .error (.refused code message logs) ↔
        ∃ m, c.Complains (n.answer 0) (.obj m) ∧ .refused code message logs = refusalOf m) ∧
      ((∃ f, (c.call method params n).1 = .error f ∧ f.isTransport = true) ↔
        (∀ v, ¬ c.Brings (n.answer 0) v) ∧ ∀ e, ¬ c.Complains (n.answer 0) e) ∧
      ∀ f, (c.call method params n).1 = .error f → f.isTransport = true → f.status? = (n.answer 0).failure? := by
  have hcall : (c.call method params n).1 = c.resultIn (n.answer 0) := by
    unfold Client.call
    rw [Client.callWith_apply]
  rw [hcall]
  refine ⟨fun v => Client.resultIn_eq_ok_iff, fun code message logs => husual.resultIn_eq_refused_iff, ⟨?_, ?_⟩, ?_⟩
  · rintro ⟨f, hresult, htransport⟩
    refine ⟨fun v hv => ?_, fun e => husual.not_complains hresult htransport⟩
    rw [hv.result] at hresult
    cases hresult
  · rintro ⟨hnothing, hnone⟩
    exact Client.exists_transport hnothing hnone
  · intro f hresult htransport
    exact (Client.of_resultIn_eq_error hresult fun e => husual.not_complains hresult htransport).2

/-- A document with an error that leaves out its code. -/
def busyText : List Char :=
  ['\x7b', '"', 'e', 'r', 'r', 'o', 'r', '"', ':', '\x7b', '"', 'm', 'e', 's', 's', 'a', 'g', 'e', '"', ':', '"', 'b',
    'u', 's', 'y', '"', ',', '"', 'd', 'a', 't', 'a', '"', ':', '\x7b', '"', 'l', 'o', 'g', 's', '"', ':', '[', '"',
    'x', '"', ']', '\x7d', '\x7d', '\x7d']

/-- The error of this document. -/
def busyError : List (String × Json) := [("message", .str "busy"), ("data", .obj [("logs", .arr [.str "x"])])]

theorem readBytes?_busyText :
    Json.readBytes? (Text.Utf8.encode busyText) = some (.obj [("error", .obj busyError)]) := by
  have hencoding : Json.Encoding.ofBytes (Text.Utf8.encode busyText) = .utf8 := by decide +kernel
  have htext : Json.Encoding.utf8.text? (Text.Utf8.encode busyText) = some busyText := by
    unfold Json.Encoding.text?
    rw [Text.Utf8.decode_encode]
    rfl
  have hread : Json.read? (String.ofList busyText) = some (.obj [("error", .obj busyError)]) := by
    apply Json.read?_ofList
    rfl
  unfold Json.readBytes?
  rw [hencoding, htext, Option.bind_some, hread]

/-- An answer with this document, whose status stands for a failure. -/
def Outcome.busy : Outcome := .response 502 (Text.Utf8.encode busyText)

/-- A client that reads answers as JSON. -/
def Client.atTest : Client := ⟨"http://node.test", .int 30, 10, Json.readBytes?⟩

theorem Client.complains_busy : atTest.Complains .busy (.obj busyError) := by
  refine .intro (v := .obj [("error", .obj busyError)]) ?_ rfl
  rw [show atTest.reader = Json.readBytes? from rfl, readBytes?_busyText]

-- The refusal comes through in spite of the status.
theorem Client.call_busy :
    atTest.IsUsual (Network.answer (Network.fresh [.busy]) 0) ∧
      (atTest.call "m" .null (Network.fresh [.busy])).1 = .error (.refused (.int (-1)) (.str "busy") [.str "x"]) := by
  have husual : atTest.IsUsual (Network.answer (Network.fresh [.busy]) 0) := by
    intro e he
    rw [he.unique complains_busy]
    rfl
  refine ⟨husual, ?_⟩
  apply ((Client.call_eq_iff atTest "m" .null _ husual).2.1 _ _ _).mpr
  exact ⟨busyError, complains_busy, rfl⟩

end ContractShell.Node
