import ContractShell.Proofs.Library.Number
import ContractShell.Proofs.Session.Reachable

/-!
The commands of contract methods, from the line that is typed to the call that is made.

A method's command is typed with one token for each plain field of its argument, in order. The values that are read are
bound to the fields, the message is written as bytes, and the contract is called once with them.

## Main statements

* `Shell.runLine_method`: what the line of a method's command does, whether its argument can be written or not.
* `Shell.transmits_iff`: the contract gets a call whose arguments are read as the value that was typed just when its
  library carries the value.
-/

namespace ContractShell

open Command (Declaration Registry Values)

/-! ## 1. Lines -/

/-- The line of a command whose arguments stand for texts, each behind one blank. -/
def Command.callLine (name : String) (quote : Char) (args : List Command.Arg) (texts : Values) : String :=
  String.ofList (name.toList ++ (args.zip texts).flatMap fun p => ' ' :: p.1.kind.token quote p.2.2)

namespace Command

/-- The arguments of a command, as they are written for texts. -/
def writtenArgs (quote : Char) (args : List Arg) (texts : Values) : List WrittenArg :=
  (args.zip texts).map fun p => ⟨[' '], p.1.kind.token quote p.2.2, p.2.2.toList⟩

section

variable {quote : Char} {args : List Arg} {texts : Values}

theorem fit_writtenArgs (h : List.Forall₂ Arg.Writes args texts) (hquote : Quoted.IsQuote quote) :
    Fit args (writtenArgs quote args texts) := by
  induction h with
  | nil => exact .omitted (by simp)
  | cons hwrites _ ih =>
    have hblank : AllBlank [' '] := by
      intro c hc
      rw [List.mem_singleton.mp hc]
      decide
    exact .given (List.cons_ne_nil _ _) hblank (hwrites.2.2 quote hquote) ih

theorem valuesOf_writtenArgs (h : List.Forall₂ Arg.Writes args texts) :
    valuesOf args (argsValues (writtenArgs quote args texts)) = texts := by
  induction h with
  | nil => rfl
  | @cons a p args texts hwrites _ ih =>
    have hrest : valuesOf (a :: args) (argsValues (writtenArgs quote (a :: args) (p :: texts))) =
        (a.name, String.ofList p.2.toList) :: valuesOf args (argsValues (writtenArgs quote args texts)) := rfl
    rw [hrest, ih, hwrites.1, String.ofList_toList]

theorem text_writtenArgs (name : String) :
    String.ofList (name.toList ++ argsText (writtenArgs quote args texts)) = callLine name quote args texts := by
  unfold argsText writtenArgs callLine
  rw [List.flatMap_map]
  rfl

end

end Command

/-- A line of one command runs that command. -/
theorem Shell.runLine_written {sh : Shell} {w : Command.Written} (hw : w.Fits sh.session.commands) :
    ∃ i, i.saying = w.saying .endOfInput ∧
      sh.runLine (String.ofList w.text) = ([(sh.execute i).1], (sh.execute i).2) := by
  have hfits : ∀ x ∈ [] ++ [w], x.Fits sh.session.commands := by
    intro x hx
    rw [List.mem_singleton.mp hx]
    exact hw
  have htext : Command.lineText [] w = w.text := rfl
  have hline := Command.ofText_lineText hfits
  obtain ⟨hfault, hsayings⟩ := @Command.readCommands_written sh.session.commands [] w (by simp) hw
  rw [← hline, htext] at hfault hsayings
  obtain ⟨i, hresults, hsaying⟩ := List.map_eq_singleton_iff.mp hsayings
  have hcomplete : i.complete = true := congrArg Command.Saying.complete hsaying
  refine ⟨i, hsaying, ?_⟩
  unfold Shell.runLine Shell.runAgainst Command.Line.completed
  simp only [hresults, List.filter_cons, hcomplete, List.filter_nil, Shell.interpret, Shell.complaints, hfault,
    List.append_nil, if_true]

/-! ## 2. Calls -/

namespace Session

theorem settle_ok_bind {α β : Type} {r : Except Fault α} {a : α} (h : r = .ok a) (f : α → Attempt β) (w : World) :
    (settle r >>= f) w = f a w := by
  rw [steps_bind_apply, h]
  rfl

theorem settle_error_bind {α β : Type} {r : Except Fault α} {fault : Fault} (h : r = .error fault) (f : α → Attempt β)
    (w : World) : (settle r >>= f) w = (.error fault, w) := by
  rw [steps_bind_apply, h]
  rfl

theorem ask_apply {α : Type} (d : Node.Dialogue α) (w : World) :
    ask d w = ((d w.network).1.mapError .node, { w with network := (d w.network).2 }) := by
  have htalk : (doing (talk d)) w = (.ok (d w.network).1, { w with network := (d w.network).2 }) := rfl
  unfold ask
  rw [steps_bind_apply, htalk]
  cases (d w.network).1 <;> rfl

theorem submit_apply (announcement purpose : String) (d : Node.Dialogue Json) (w : World) :
    ∃ r, submit announcement purpose d w = (r, { w with network := (d w.network).2 }) := by
  have htalk : (doing (talk d)) w = (.ok (d w.network).1, { w with network := (d w.network).2 }) := rfl
  unfold submit
  rw [steps_bind_apply, htalk]
  cases (d w.network).1 with
  | error f => exact ⟨_, rfl⟩
  | ok receipt =>
    simp only
    cases hline : receiptLine receipt with
    | error f => exact ⟨_, settle_error_bind rfl _ _⟩
    | ok line => exact ⟨_, settle_ok_bind rfl _ _⟩

section

variable {s : Session} {c : Contract} {m : Method} {args : Values} {connection : Connection} {v : Value} {b : Bytes}

theorem client_of_connection (h : s.connection = some connection) (action : String) :
    s.client action = .ok connection.client := by
  unfold client
  rw [h]

theorem contractNamed_of_find? {name : String} (h : s.contracts.find? name = some c) :
    s.contractNamed name = .ok c := by
  unfold contractNamed Contracts.get
  rw [h]
  rfl

/-- Asking a method does nothing but make the call. -/
theorem readMethod_apply (hconnection : s.connection = some connection) (hcontract : s.contracts.find? c.name = some c)
    (hmessage : messageFor c m args = .ok (v, b)) (w : World) :
    ∃ r, readMethod c.name m args s w =
        (r, { w with network := (connection.client.readContract b c.address m.entryPoint w.network).2 }) ∧
      ∀ step, r = .ok step → step.session = s := by
  unfold readMethod
  rw [settle_ok_bind (client_of_connection hconnection _), settle_ok_bind (contractNamed_of_find? hcontract),
    settle_ok_bind hmessage]
  simp only
  rw [steps_bind_apply, ask_apply]
  cases (connection.client.readContract b c.address m.entryPoint w.network).1 with
  | error f => exact ⟨_, rfl, fun step h => by cases h⟩
  | ok data =>
    simp only [Except.mapError]
    cases hlines : answerLines c m data with
    | error f => exact ⟨_, settle_error_bind rfl _ _, fun step h => by cases h⟩
    | ok lines =>
      refine ⟨_, settle_ok_bind rfl _ _, fun step h => ?_⟩
      cases h
      rfl

/-- Calling a method in a transaction does nothing but make the call. -/
theorem writeMethod_apply {wallet : OpenWallet} (hwallet : s.wallet = some wallet)
    (hconnection : s.connection = some connection) (hcontract : s.contracts.find? c.name = some c)
    (hmessage : messageFor c m args = .ok (v, b)) {command announcement : String}
    (hannouncement : callAnnouncement command m v = .ok announcement) (w : World) :
    ∃ r, writeMethod command c.name m args s w =
        (r, { w with network := (connection.client.writeContract b c.address m.entryPoint wallet.key w.network).2 }) ∧
      ∀ step, r = .ok step → step.session = s := by
  have hkey : s.key "cannot execute method" = .ok wallet.key := by
    unfold key
    rw [hwallet]
  obtain ⟨r, hr⟩ := submit_apply announcement "cannot make call"
    (connection.client.writeContract b c.address m.entryPoint wallet.key) w
  unfold writeMethod
  rw [settle_ok_bind hkey, settle_ok_bind (client_of_connection hconnection _),
    settle_ok_bind (contractNamed_of_find? hcontract), settle_ok_bind hmessage]
  simp only
  rw [settle_ok_bind hannouncement, steps_bind_apply, hr]
  cases r with
  | error f => exact ⟨_, rfl, fun step h => by cases h⟩
  | ok lines =>
    refine ⟨_, rfl, fun step h => ?_⟩
    cases h
    rfl

/-- A method is not called when its argument cannot be written. -/
theorem callMethod_of_error {f : Fault} (hwallet : m.readOnly = true ∨ s.wallet.isSome = true)
    (hconnection : s.connection = some connection) (hcontract : s.contracts.find? c.name = some c)
    (hmessage : messageFor c m args = .error f) (command : String) (w : World) :
    callMethod command c.name m args s w = (.error f, w) := by
  unfold callMethod
  by_cases hreads : m.readOnly = true
  · rw [if_pos hreads]
    unfold readMethod
    rw [settle_ok_bind (client_of_connection hconnection _), settle_ok_bind (contractNamed_of_find? hcontract),
      settle_error_bind hmessage]
  · obtain ⟨wallet, hwallet⟩ := Option.isSome_iff_exists.mp (hwallet.resolve_left hreads)
    have hkey : s.key "cannot execute method" = .ok wallet.key := by
      unfold key
      rw [hwallet]
    rw [if_neg hreads]
    unfold writeMethod
    rw [settle_ok_bind hkey, settle_ok_bind (client_of_connection hconnection _),
      settle_ok_bind (contractNamed_of_find? hcontract), settle_error_bind hmessage]

end

end Session

/-! ## 3. From the line to the call -/

/-- A line makes one call of a contract's method, with given bytes as its arguments, and does nothing else: the session
stays as it is, and the world around it changes by the call alone. A method that only reads is asked, and any other one is
called in a transaction of the open wallet. -/
inductive Shell.Calls (sh : Shell) (text : String) (c : Contract) (m : Method) (b : Bytes) : Prop where
  | read {connection : Connection} {outcome : Outcome} (hreads : m.readOnly = true)
      (hconnection : sh.session.connection = some connection)
      (hrun : sh.runLine text = ([outcome], { sh with world := { sh.world with
        network := (connection.client.readContract b c.address m.entryPoint sh.world.network).2 } })) :
      Calls sh text c m b
  | write {connection : Connection} {wallet : OpenWallet} {outcome : Outcome} (hwrites : m.readOnly = false)
      (hconnection : sh.session.connection = some connection) (hwallet : sh.session.wallet = some wallet)
      (hrun : sh.runLine text = ([outcome], { sh with world := { sh.world with
        network := (connection.client.writeContract b c.address m.entryPoint wallet.key sh.world.network).2 } })) :
      Calls sh text c m b

/-- A line fails before it says anything to the node, and nothing has changed. -/
def Shell.StaysSilent (sh : Shell) (text : String) : Prop :=
  ∃ outcome, outcome.isOk = false ∧ sh.runLine text = ([outcome], sh)

section

variable {sh : Shell} {c : Contract} {m : Method} {args : List Command.Arg} {v : Value} {quote : Char}

/-- The command of a method runs the method with the texts that were typed. -/
theorem Shell.runLine_callLine (hconsistent : sh.session.IsConsistent) (hc : c ∈ sh.session.contracts.all)
    (hm : m ∈ c.methods) (hname : Command.IsName (Contract.commandName c.name m.name).toList)
    (hargs : m.arguments.args = .ok args) (hnodup : (args.map (·.name)).Nodup) (hquote : Command.Quoted.IsQuote quote)
    {texts : Values} (hwrites : List.Forall₂ Command.Arg.Writes args texts) :
    ∃ i : Command.Invocation, i.name = Contract.commandName c.name m.name ∧
      (∀ s, i.run s = Session.callMethod i.name c.name m texts s) ∧
      sh.runLine (Command.callLine (Contract.commandName c.name m.name) quote args texts) =
        ([(sh.execute i).1], (sh.execute i).2) := by
  obtain ⟨d, hfind, hdname, hdargs, -, -, haction⟩ := hconsistent.commands c hc m hm
  rw [hargs, Except.ok.injEq] at hdargs
  -- The line is one written command, whose tokens stand for the texts.
  have hwritten : Command.Written.Fits sh.session.commands ⟨d, [], Command.writtenArgs quote args texts, []⟩ :=
    { found := by rw [hdname]; exact hfind
      isName := by rw [Command.Written.name, hdname]; exact hname
      distinct := by rw [← hdargs]; exact hnodup
      before := by simp [Command.AllBlank]
      fit := by rw [← hdargs]; exact Command.fit_writtenArgs hwrites hquote
      after := by simp [Command.AllBlank] }
  obtain ⟨i, hsaying, hrun⟩ := Shell.runLine_written hwritten
  have hiname : i.name = d.name := congrArg Command.Saying.name hsaying
  have hideclaration : i.declaration = some d := congrArg Command.Saying.declaration hsaying
  have hiargs : i.args = texts := by
    have hvalues : i.args = Command.valuesOf d.args (Command.argsValues (Command.writtenArgs quote args texts)) :=
      congrArg Command.Saying.args hsaying
    rw [hvalues, ← hdargs, Command.valuesOf_writtenArgs hwrites]
  have htext : String.ofList (Command.Written.text ⟨d, [], Command.writtenArgs quote args texts, []⟩) =
      Command.callLine (Contract.commandName c.name m.name) quote args texts := by
    rw [← Command.text_writtenArgs, ← hdname]
    simp [Command.Written.text, Command.Written.textThen, Command.Written.name]
  rw [htext] at hrun
  refine ⟨i, by rw [hiname, hdname], fun s => ?_, hrun⟩
  unfold Command.Invocation.run
  rw [hideclaration]
  simp only [haction, hiargs]

/-- A message for a method is written as its schema says. -/
theorem Session.messageFor_of_bind {texts : Values} (hbind : m.arguments.bind texts = .ok v) :
    (∀ b, c.library.encode m.arguments v = .ok b → Session.messageFor c m texts = .ok (v, b)) ∧
      ∀ f, c.library.encode m.arguments v = .error f → Session.messageFor c m texts = .error (.encode f) := by
  unfold Session.messageFor
  rw [hbind]
  constructor
  · intro b hb
    show (Except.mapError Session.Fault.encode (c.library.encode m.arguments v) >>= fun b => pure (v, b)) = _
    rw [hb]
    rfl
  · intro f hf
    show (Except.mapError Session.Fault.encode (c.library.encode m.arguments v) >>= fun b => pure (v, b)) = _
    rw [hf]
    rfl

/-- A command that keeps the session changes nothing but the world. -/
theorem Shell.execute_of_run {i : Command.Invocation} {r : Except Session.Fault Session.Step} {w : World}
    (hrun : i.run sh.session sh.world = (r, w)) (hstep : ∀ step, r = .ok step → step.session = sh.session) :
    (sh.execute i).2 = { sh with world := w } := by
  unfold Shell.execute
  rw [hrun]
  cases r with
  | error f => rfl
  | ok step =>
    rw [← hstep step rfl]

section

variable {text : String} {i : Command.Invocation} {texts : Values} {connection : Connection}
  (hopen : m.readOnly = true ∨ sh.session.wallet.isSome = true) (hconnection : sh.session.connection = some connection)
  (hcontract : sh.session.contracts.find? c.name = some c)
  (hrun : ∀ s, i.run s = Session.callMethod i.name c.name m texts s)
  (hline : sh.runLine text = ([(sh.execute i).1], (sh.execute i).2))

include hopen hconnection hcontract hrun hline

/-- With the bytes of a message at hand the command of a method makes the call. -/
theorem Shell.calls_of_message {b : Bytes} {announcement : String} (hmessage : Session.messageFor c m texts = .ok (v, b))
    (hannouncement : Session.callAnnouncement i.name m v = .ok announcement) : sh.Calls text c m b := by
  by_cases hreads : m.readOnly = true
  · obtain ⟨r, hr, hstep⟩ := Session.readMethod_apply hconnection hcontract hmessage sh.world
    have hdone : i.run sh.session sh.world = (r, { sh.world with
        network := (connection.client.readContract b c.address m.entryPoint sh.world.network).2 }) := by
      rw [hrun, Session.callMethod, if_pos hreads, hr]
    rw [Shell.execute_of_run hdone hstep] at hline
    exact .read hreads hconnection hline
  · obtain ⟨wallet, hwallet⟩ := Option.isSome_iff_exists.mp (hopen.resolve_left hreads)
    obtain ⟨r, hr, hstep⟩ :=
      Session.writeMethod_apply hwallet hconnection hcontract hmessage hannouncement sh.world
    have hdone : i.run sh.session sh.world = (r, { sh.world with
        network := (connection.client.writeContract b c.address m.entryPoint wallet.key sh.world.network).2 }) := by
      rw [hrun, Session.callMethod, if_neg hreads, hr]
    rw [Shell.execute_of_run hdone hstep] at hline
    exact .write (Bool.eq_false_iff.mpr hreads) hconnection hwallet hline

/-- Without them it ends before the node is asked. -/
theorem Shell.staysSilent_of_message {f : Session.Fault} (hfault : Session.messageFor c m texts = .error f) :
    sh.StaysSilent text := by
  have hdone : i.run sh.session sh.world = (.error f, sh.world) := by
    rw [hrun]
    exact Session.callMethod_of_error hopen hconnection hcontract hfault i.name sh.world
  refine ⟨(sh.execute i).1, ?_, ?_⟩
  · unfold Shell.execute
    rw [hdone]
    rfl
  · rw [hline]
    unfold Shell.execute
    rw [hdone]

end

/-- What the line of a method's command does: it calls the method with the bytes of the message that the texts stand for,
or stays silent when there are none. -/
theorem Shell.runLine_method (hconsistent : sh.session.IsConsistent) (honline : sh.session.connection.isSome = true)
    (hc : c ∈ sh.session.contracts.all) (hm : m ∈ c.methods)
    (hopen : m.readOnly = true ∨ sh.session.wallet.isSome = true)
    (hname : Command.IsName (Contract.commandName c.name m.name).toList) (hdistinct : m.arguments.HasDistinctNames)
    (hargs : m.arguments.args = .ok args) (hnodup : (args.map (·.name)).Nodup) (hv : m.arguments.Holds v)
    (hquote : Command.Quoted.IsQuote quote) :
    ∃ texts, m.arguments.unbind v = .ok texts ∧ texts.map (·.1) = args.map (·.name) ∧
      (∀ b, c.library.encode m.arguments v = .ok b →
        sh.Calls (Command.callLine (Contract.commandName c.name m.name) quote args texts) c m b) ∧
      ∀ f, c.library.encode m.arguments v = .error f →
        sh.StaysSilent (Command.callLine (Contract.commandName c.name m.name) quote args texts) := by
  obtain ⟨texts, hunbind, hwrites, hbind⟩ := hv.exists_texts hdistinct hargs hnodup
  obtain ⟨connection, hconnection⟩ := Option.isSome_iff_exists.mp honline
  have hcontract := hconsistent.find?_contracts hc
  obtain ⟨i, hiname, hirun, hline⟩ := Shell.runLine_callLine hconsistent hc hm hname hargs hnodup hquote hwrites
  obtain ⟨hmessage, hfault⟩ := @Session.messageFor_of_bind c m v texts hbind
  have hnames := (map_eq_of_forall₂ (fun a p (hwrite : Command.Arg.Writes a p) => hwrite.1) hwrites).symm
  obtain ⟨lines, hlines⟩ := hv.exists_display hdistinct ""
  have hannouncement : Session.callAnnouncement i.name m v =
      .ok ("Calling " ++ i.name ++ " with arguments '" ++ String.intercalate ", " lines ++ "'") := by
    unfold Session.callAnnouncement
    rw [hlines]
    rfl
  refine ⟨texts, hunbind, hnames, ?_, ?_⟩
  · intro b hb
    exact Shell.calls_of_message hopen hconnection hcontract hirun hline (hmessage b hb) hannouncement
  · intro f hf
    exact Shell.staysSilent_of_message hopen hconnection hcontract hirun hline (hfault f hf)

end

/-! ## 4. A contract with one method -/

/-- A method that only reads and takes one number. -/
def Method.ofNumber (type field : String) : Method where
  name := "m"
  arguments := numberSchema type field
  result := .empty
  entryPoint := 1
  readOnly := true
  description := ""

/-- A contract with this method alone. -/
def Contract.ofNumber (type field : String) (b : Bytes) : Contract where
  name := "c"
  address := [0, 9]
  methods := [.ofNumber type field]
  library := .ofPlain (Descriptor.File.ofBytes b)

/-- The document of the contract. -/
def Interface.Document.ofNumber (type types : String) : Interface.Document where
  methods := [⟨"m", type, "", 1, "", true⟩]
  types := types

/-- A session that has registered the contract. -/
def Session.ofNumber (type types : String) : Session :=
  ((Session.start .empty ⟨[], [], []⟩ [] ⟨.null, 0, fun _ => none⟩).enroll "c" "1A" (.ofNumber type types)).2

/-- A world in which nothing answers, and all that is taken from a supply is the same. -/
def World.silent : World where
  network := .fresh []
  bytes := .always 0
  keys := .always ⟨1, by decide, by decide⟩
  writings := .always .whole

/-- A shell that has registered the contract and is online. -/
def Shell.ofNumber (type types : String) : Shell where
  session := ((Session.ofNumber type types).connect "http://node.test" World.silent).1
  world := ((Session.ofNumber type types).connect "http://node.test" World.silent).2

section

variable {type field types : String} {b : Bytes}

theorem Shell.reachable_ofNumber (type types : String) : (Shell.ofNumber type types).Reachable := by
  have hnames : ((Interface.Document.ofNumber type types).methods.map (·.name)).Nodup := List.nodup_singleton "m"
  have hstart := Shell.Reachable.start .empty ⟨[], [], []⟩ [] ⟨.null, 0, fun _ => none⟩ World.silent
  exact .connect (.enroll hstart "c" "1A" hnames) "http://node.test"

theorem Shell.online_ofNumber (type types : String) : (Shell.ofNumber type types).session.connection.isSome = true := by
  have honline : ∀ (s : Session) (url : String) (w : World), (s.connect url w).1.connection.isSome = true :=
    fun _ _ _ => rfl
  exact honline (Session.ofNumber type types) "http://node.test" World.silent

/-- The contract is there when its types can be loaded. -/
theorem Contract.mem_ofNumber (htypes : Base64.decode true types.toList = .ok b)
    (hfile : isNumberFile type field b = true) :
    Contract.ofNumber type field b ∈ (Shell.ofNumber type types).session.contracts.all := by
  obtain ⟨hbytes, hschema, -⟩ := Library.of_isNumberFile hfile
  have hargs := Library.args_number type field
  have haddress : Base58.decode "1A".toList = .ok [0, 9] := by decide +kernel
  have hlibrary : Library.ofText types = .ok (Contract.ofNumber type field b).library := by
    unfold Library.ofText
    rw [htypes]
    exact hbytes
  have hresult : (Library.ofPlain (Descriptor.File.ofBytes b)).schema "" = .ok .empty := by
    rw [Library.schema_eq_ok_iff]
    rfl
  have hmethod : Registration.IsMethod (Contract.ofNumber type field b).library ⟨"m", type, "", 1, "", true⟩
      (.ofNumber type field) := ⟨rfl, hschema, hresult, rfl, rfl, rfl⟩
  have hcommand : Registration.IsCommandOf "c" (.ofNumber type field)
      ⟨"c.m", "", [⟨field, .uint, false⟩], false, .method "c" (.ofNumber type field),
        Command.optionalLast_of_required (required_of_args hargs)⟩ := ⟨rfl, hargs, rfl, rfl, rfl⟩
  -- Nothing is registered yet, so neither the contract's name nor the command's is taken.
  obtain ⟨ds, hprepare⟩ : ∃ ds, Registration.prepare Contracts.empty .empty "c" "1A" (.ofNumber type types) =
      .ok (Contract.ofNumber type field b, ds) := by
    refine ⟨_, Registration.prepare_eq_ok_iff.mpr
      ⟨by decide, rfl, rfl, haddress, hlibrary, ?_, fun _ _ => rfl, .cons hcommand .nil⟩⟩
    rw [Interface.Document.ofNumber, List.mergeSort_singleton]
    exact .cons hmethod .nil
  have henroll := @enroll_of_prepare (Session.start .empty ⟨[], [], []⟩ [] ⟨.null, 0, fun _ => none⟩) "c" "1A" _ _ _ hprepare
  have hkept := (Session.keeps_connect (Session.ofNumber type types) "http://node.test" World.silent).1
  rw [Shell.ofNumber, hkept, Session.ofNumber, henroll]
  exact List.mem_singleton_self _

end

/-! ## 5. The message that arrives -/

/-- A line sends a value to a method: the contract gets one call, with the bytes that the value is written as, and the
types of the contract read these bytes as the value. -/
def Shell.Transmits (sh : Shell) (text : String) (c : Contract) (m : Method) (v : Value) : Prop :=
  ∃ b, c.library.encode m.arguments v = .ok b ∧ sh.Calls text c m b ∧ c.library.decode m.arguments b = .ok v

section

variable {sh : Shell} {c : Contract} {m : Method} {args : List Command.Arg} {v : Value} {quote : Char}

/-- In every shell that can be reached, the line of a method with the texts of a value sends the value just when the types
of the contract carry it. A value that cannot be written is not sent at all, not even in part. -/
theorem Shell.transmits_iff (hreach : sh.Reachable) (honline : sh.session.connection.isSome = true)
    (hc : c ∈ sh.session.contracts.all) (hm : m ∈ c.methods)
    (hopen : m.readOnly = true ∨ sh.session.wallet.isSome = true)
    (hname : Command.name? (Contract.commandName c.name m.name).toList =
      some ((Contract.commandName c.name m.name).toList, []))
    (hdistinct : m.arguments.HasDistinctNames) (hrivals : c.library.HasNoRivals m.arguments)
    (hdepth : m.arguments.depth < Wire.maxDepth) (hargs : m.arguments.args = .ok args)
    (hnodup : (args.map (·.name)).Nodup) (hv : m.arguments.Holds v) (hquote : Command.Quoted.IsQuote quote) :
    ∃ texts, m.arguments.unbind v = .ok texts ∧ texts.map (·.1) = args.map (·.name) ∧
      (sh.Transmits (Command.callLine (Contract.commandName c.name m.name) quote args texts) c m v ↔
        c.library.Carries m.arguments v) ∧
      ((∀ b, c.library.encode m.arguments v ≠ .ok b) →
        sh.StaysSilent (Command.callLine (Contract.commandName c.name m.name) quote args texts)) := by
  have hconsistent := hreach.isConsistent
  obtain ⟨texts, hunbind, hnames, hcalls, hsilent⟩ := Shell.runLine_method hconsistent honline hc hm hopen
    (Command.isName_of_name? hname) hdistinct hargs hnodup hv hquote
  have hcarries := Library.decode_encode_iff (hconsistent.libraries c hc) hv hdistinct hrivals hdepth
  refine ⟨texts, hunbind, hnames, ?_, ?_⟩
  · rw [← hcarries]
    constructor
    · rintro ⟨b, hb, -, hread⟩
      exact ⟨b, hb, hread⟩
    · rintro ⟨b, hb, hread⟩
      exact ⟨b, hb, hcalls b hb, hread⟩
  · intro hnone
    cases hencode : c.library.encode m.arguments v with
    | ok b => exact absurd hencode (hnone b)
    | error f => exact hsilent f hencode

end

/-- The types of a contract: `plainFile` as text. -/
def plainTypes : String := "CgF0Ig4KAUESCQoBeBgBIAEoBGIGcHJvdG8z"

/-- A number is sent that was typed. -/
theorem Shell.transmits_five :
    (Shell.ofNumber "A" plainTypes).Transmits "c.m 5" (.ofNumber "A" "x" plainFile) (.ofNumber "A" "x")
      (.message [("x", .int 5)]) := by
  have hfile : isNumberFile "A" "x" plainFile = true := isNumberFile_files.1
  have htypes : Base64.decode true plainTypes.toList = .ok plainFile := by decide +kernel
  have hlow : (0 : Int) ≤ 5 := by decide
  have hhigh : (5 : Int) < 0x10000000000000000 := by decide
  have hdepth : (numberSchema "A" "x").depth < Wire.maxDepth := by decide
  have hquote : Command.Quoted.IsQuote '"' := .inl rfl
  have hname : Command.name? (Contract.commandName "c" "m").toList = some ((Contract.commandName "c" "m").toList, []) := by
    decide
  obtain ⟨texts, hunbind, -, hiff, -⟩ := Shell.transmits_iff (Shell.reachable_ofNumber "A" plainTypes)
    (Shell.online_ofNumber "A" plainTypes) (Contract.mem_ofNumber htypes hfile) (List.mem_singleton_self _) (.inl rfl) hname
    (Library.hasDistinctNames_number "A" "x") (Library.hasNoRivals_number hfile) hdepth (Library.args_number "A" "x")
    (List.nodup_singleton "x") (Library.holds_number "A" "x" hlow hhigh) hquote
  have htexts : texts = [("x", "5")] := by
    rw [Method.ofNumber, Library.unbind_number "A" "x" hlow hhigh, Except.ok.injEq] at hunbind
    exact hunbind.symm
  rw [htexts] at hiff
  exact hiff.mpr ((Library.carries_number_iff hfile hlow hhigh).mpr ⟨by decide, by decide⟩)

/-- The types of a contract: `hidingFile` as text. -/
def hidingTypes : String := "CgF0Ih4KAUESGQoRU2VyaWFsaXplVG9TdHJpbmcYASABKARiBnByb3RvMw=="

/-- A number whose field hides the operation that writes is not sent, though it is of its schema, the shell is online, and
the method is one of a contract that was registered. -/
theorem Shell.silent_of_hidden_operation :
    (Shell.ofNumber "A" hidingTypes).Reachable ∧
      (Shell.ofNumber "A" hidingTypes).session.connection.isSome = true ∧
      Contract.ofNumber "A" writingOperation hidingFile ∈ (Shell.ofNumber "A" hidingTypes).session.contracts.all ∧
      (Contract.ofNumber "A" writingOperation hidingFile).methods = [.ofNumber "A" writingOperation] ∧
      (Method.ofNumber "A" writingOperation).readOnly = true ∧
      Command.name? "c.m".toList = some ("c.m".toList, []) ∧
      (numberSchema "A" writingOperation).HasDistinctNames ∧
      (Contract.ofNumber "A" writingOperation hidingFile).library.HasNoRivals (numberSchema "A" writingOperation) ∧
      (numberSchema "A" writingOperation).depth < Wire.maxDepth ∧
      (numberSchema "A" writingOperation).args = .ok [⟨writingOperation, .uint, false⟩] ∧
      (numberSchema "A" writingOperation).Holds (.message [(writingOperation, .int 5)]) ∧
      (Shell.ofNumber "A" hidingTypes).StaysSilent "c.m 5" ∧
      ¬ (Shell.ofNumber "A" hidingTypes).Transmits "c.m 5" (.ofNumber "A" writingOperation hidingFile)
        (.ofNumber "A" writingOperation) (.message [(writingOperation, .int 5)]) := by
  have hfile : isNumberFile "A" writingOperation hidingFile = true := isNumberFile_files.2
  have htypes : Base64.decode true hidingTypes.toList = .ok hidingFile := by decide +kernel
  have hlow : (0 : Int) ≤ 5 := by decide
  have hhigh : (5 : Int) < 0x10000000000000000 := by decide
  have hdepth : (numberSchema "A" writingOperation).depth < Wire.maxDepth := by decide
  have hname : Command.name? "c.m".toList = some ("c.m".toList, []) := by decide
  have hquote : Command.Quoted.IsQuote '"' := .inl rfl
  have hc := Contract.mem_ofNumber htypes hfile
  have hdistinct := Library.hasDistinctNames_number "A" writingOperation
  have hrivals := Library.hasNoRivals_number hfile
  have hholds := Library.holds_number "A" writingOperation hlow hhigh
  -- No bytes are written, since the field is in the place of the operation.
  have hnone : ∀ b, (Contract.ofNumber "A" writingOperation hidingFile).library.encode (numberSchema "A" writingOperation)
      (.message [(writingOperation, .int 5)]) ≠ .ok b := by
    intro b hb
    obtain ⟨-, -, linked, hlinked, hslots⟩ := Library.of_isNumberFile hfile
    obtain ⟨other, parts, hfind, -, hwriting, -⟩ := (Library.encode_eq_ok_iff rfl).mp hb
    have hsame := hlinked.symm.trans hfind
    rw [Option.some.injEq] at hsame
    rw [← hsame, Library.slot?_number hslots, if_pos rfl] at hwriting
    cases hwriting
  obtain ⟨texts, hunbind, -, -, hsilent⟩ := Shell.runLine_method (Shell.reachable_ofNumber "A" hidingTypes).isConsistent
    (Shell.online_ofNumber "A" hidingTypes) hc (List.mem_singleton_self _) (.inl rfl) (Command.isName_of_name? hname) hdistinct
    (Library.args_number "A" writingOperation) (List.nodup_singleton _) hholds hquote
  have htexts : texts = [(writingOperation, "5")] := by
    rw [Method.ofNumber, Library.unbind_number "A" writingOperation hlow hhigh, Except.ok.injEq] at hunbind
    exact hunbind.symm
  rw [htexts] at hsilent
  refine ⟨Shell.reachable_ofNumber "A" hidingTypes, Shell.online_ofNumber "A" hidingTypes, hc, rfl, rfl, hname, hdistinct, hrivals, hdepth,
    Library.args_number "A" writingOperation, hholds, ?_, ?_⟩
  · cases hencode : (Contract.ofNumber "A" writingOperation hidingFile).library.encode
        (numberSchema "A" writingOperation) (.message [(writingOperation, .int 5)]) with
    | ok b => exact absurd hencode (hnone b)
    | error f => exact hsilent f hencode
  · rintro ⟨b, hb, -⟩
    exact hnone b hb

end ContractShell
