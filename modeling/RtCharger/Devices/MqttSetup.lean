import RtCharger.Net.At
import RtCharger.Devices.Mqtt

namespace RtCharger.Devices

open Effect OneHot RtCharger.Kernel RtCharger.Net RtCharger.Os RtCharger.Utilities

/-!
# Connecting to a broker

`MqttFactory::createAli`: a flow is made and stored, a client is made for it, and the client is
set up with four commands and a wait for the `+ECMTCONN` line that its last command brings.  When
the set-up throws, the client is destroyed, which issues one more command.

* `ConnLine` — the notification, and `run_handle_conn` — what its handler does;
* `createAli` — the functions of the source, from `createAli` down to the commands;
* `triple_aliSetup` — which set-ups return;
* `createAli_clean_iff` — the set-up fails cleanly if and only if the result of a notification is
  zero, no event is left over, and disconnecting succeeds where it is needed.
-/

namespace MqttFactory

variable {Tid : Type} {s : Fin kSlots}

/-! ### The notification -/

/-- A line `+ECMTCONN:s,result,retCode`, with what the variables of `parse<int>` hold while it is
    handled. -/
structure ConnLine (s : Fin kSlots) where
  result : Int
  retCode : Int
  slotText : Text
  resultText : Text
  retCodeText : Text
  uninitialised : Nat → Int
  slot_num : IsNumeral slotText s.val
  result_num : IsNumeral resultText result
  result_min : intMin ≤ result
  result_max : result ≤ intMax
  retCode_num : IsNumeral retCodeText retCode

namespace ConnLine

/-- What stands between the prefix and the suffix. -/
def body (l : ConnLine s) : Text := l.slotText ++ ',' :: (l.resultText ++ ',' :: l.retCodeText)

/-- The line. -/
def text (l : ConnLine s) : Text := "+ECMTCONN:".toList ++ l.body ++ "\r\n".toList

/-- Cut at its two commas. -/
theorem split_body (l : ConnLine s) : split ',' ((3 : Nat) - 1 : Int) l.body
    = [l.slotText, l.resultText, l.retCodeText] := by
  have hcomma : ∀ {t : Text} {n : Int}, IsNumeral t n → ',' ∉ t :=
    fun h => h.not_mem (by decide) (by decide)
  rw [split, body, splitFrom_field (hcomma l.slot_num) (by decide),
    splitFrom_field (hcomma l.result_num) (by decide), splitFrom_last (hcomma l.retCode_num)]
  rfl

/-- The arguments of the callback. -/
def args (l : ConnLine s) : List (Arg (Fin kSlots)) :=
  [.slot s, .int l.result, .int (parseInt l.retCodeText (l.uninitialised 2))]

/-- The fields are dealt to the parameters. -/
theorem run_args (l : ConnLine s) {factory : MqttFactory Tid} {flow : Flow}
    (hlive : factory.slots s = some flow) :
    (ArgProvider.all ((connProbe Tid).slots.map fun slots => slots factory) kDefaultOpt
        l.uninitialised (connProbe Tid).params).run
        ⟨[l.slotText, l.resultText, l.retCodeText], 0, none⟩
      = (.returned l.args, ⟨[l.slotText, l.resultText, l.retCodeText], 3, some s.val⟩) := by
  have hresult : parseInt l.resultText (l.uninitialised 1) = l.result :=
    parseInt_of_isNumeral l.result_num l.result_min l.result_max _
  refine run_all_cons (run_next_live hlive (by decide) rfl l.slot_num) ?_
  refine run_all_cons (run_next_int rfl (preprocessArg_of_isNumeral l.result_num _) hresult) ?_
  exact run_all_cons (run_next_int rfl (preprocessArg_of_isNumeral l.retCode_num _) rfl) run_all_nil

end ConnLine

/-- The bit of the event set that stands for the connection in a slot. -/
def connectedBit (s : Fin kSlots) : Fin 32 :=
  ⟨s.val, Nat.lt_of_lt_of_le s.isLt (by decide)⟩

/-- The component after the result of a flow was stored and its event was set. -/
def notify (factory : MqttFactory Tid) (s : Fin kSlots) (result : Int) : MqttFactory Tid :=
  { factory with
    slots := Function.update factory.slots s
      ((factory.slots s).map fun f => { f with connResult := result })
    event := factory.event.set (oneHot (connectedBit s)) }

/-- **What the handler does with a notification.** -/
theorem run_handle_conn (l : ConnLine s) {factory : MqttFactory Tid} {flow : Flow}
    (hlive : factory.slots s = some flow) :
    ((connProbe Tid).handle l.uninitialised l.text).run factory
      = (.returned (), factory.notify s l.result) := by
  have hcall : (onConnected l.args).run factory = (.returned Emitted.none, { factory with
      slots := Function.update factory.slots s
        ((factory.slots s).map fun f => { f with connResult := l.result }) }) := by
    show (onConnected l.args) factory = _
    simp [onConnected, ConnLine.args, bind, Comp.bind, pure, modifyState]
  have hsplit : split ',' (((connProbe Tid).params.length : Int) - 1) l.body
      = [l.slotText, l.resultText, l.retCodeText] := l.split_body
  have hargs := l.run_args hlive
  rw [← hsplit] at hargs
  refine run_handle hargs hcall ?_
  have hone : Emitted.none.result ++ (connProbe Tid).offset.toList ++ Emitted.none.events
      = [connected] := rfl
  have hbit : connected + (some (s.val : Int)).getD 0 = (connectedBit s).val := Int.zero_add _
  exact run_thenSet_one rfl hone hbit _

/-! ### `MqttFactory::createAli` -/

/-- The commands of a connection. -/
inductive AtCommand where
  | ecmtCfgCloud (slot : Fin kSlots) (cloud dataType : Int)
  | ecmtCfgAliauth (slot : Fin kSlots) (productKey deviceName deviceSecret : Text)
  | ecmtOpen (slot : Fin kSlots) (host : Text) (port : Nat)
  | ecmtConn (slot : Fin kSlots) (clientId : Text)
  | ecmtDisc (slot : Fin kSlots)
deriving DecidableEq, Repr

/-- What the modem makes of a set-up: the result of each command, the notification that is
    handled before the wait for it ends, and what `connResult` holds before it is written. -/
structure Modem where
  exec : AtCommand → RtErr
  notify : (s : Fin kSlots) → Option (ConnLine s)
  uninitialised : Int

/-- The component, and the commands issued. -/
structure Session (Tid : Type) where
  factory : MqttFactory Tid
  issued : List AtCommand

/-- A command is issued. -/
def issue (cmd : AtCommand) (st : Session Tid) : Session Tid :=
  { st with issued := st.issued ++ [cmd] }

/-- A computation on the component. -/
def onFactory {α : Type} (c : Comp Exn (MqttFactory Tid) α) : Comp Exn (Session Tid) α :=
  fun st =>
    let r := c.run st.factory
    (r.1, { st with factory := r.2 })

/-- The slot holds the flow, or is expired. -/
def setSlot (s : Fin kSlots) (flow : Option Flow) (factory : MqttFactory Tid) :
    MqttFactory Tid :=
  { factory with slots := Function.update factory.slots s flow }

section CreateAli

variable (modem : Modem) (t : Tid)

/-- `Flow::config<Config::Cloud>`, with `Cloud::Ali` and `DataType::Ali::Json`. -/
def configCloud (s : Fin kSlots) : Comp Exn (Session Tid) Unit :=
  execWith modem.exec issue (.ecmtCfgCloud s 2 1)

/-- `Flow::config<Config::AliAuth>`. -/
def configAliAuth (s : Fin kSlots) (productKey deviceName deviceSecret : Text) :
    Comp Exn (Session Tid) Unit :=
  execWith modem.exec issue (.ecmtCfgAliauth s productKey deviceName deviceSecret)

/-- `Flow::open`. -/
def openHost (s : Fin kSlots) (host : Text) (port : Nat) : Comp Exn (Session Tid) Unit :=
  execWith modem.exec issue (.ecmtOpen s host port)

/-- The parser handles the notification, if there is one. -/
def notified (s : Fin kSlots) : Comp Exn (Session Tid) Unit :=
  match modem.notify s with
  | some l => onFactory ((connProbe Tid).handle l.uninitialised l.text)
  | none   => pure ()

/-- `outer->event.waitAll(1 << (Events::Connected + slot), 20s)`, by the thread `t`. -/
def waitConnected (s : Fin kSlots) : Comp Exn (Session Tid) Unit := do
  let st ← getState
  let e := (shiftOne (connected + s.val)).getD 0#32
  let recv := st.factory.event.waitAll t e 20000
  match recv.1 with
  | .received _   =>
    modifyState fun st => { st with factory := { st.factory with event := recv.2 } }
  | .failed err   => raise (rtError err)
  -- no notification is left to resume the thread, and the time-out takes it off the list again
  | .suspended    => raise (rtError .timeout)
  | .assertFailed => undefinedBehaviour

/-- `Flow::connect`. -/
def connect (s : Fin kSlots) (clientId : Text) : Comp Exn (Session Tid) Int := do
  execWith modem.exec issue (.ecmtConn s clientId)
  notified modem s
  waitConnected t s
  let st ← getState
  let flow ← ofOption (st.factory.slots s)
  pure flow.connResult

/-- The host of a product. -/
def aliHost (productKey : Text) : Text :=
  productKey ++ ".iot-as-mqtt.cn-shanghai.aliyuncs.com".toList

/-- `Client::aliSetup`; the result of `connect` is only printed. -/
def aliSetup (s : Fin kSlots) (productKey deviceName deviceSecret : Text) :
    Comp Exn (Session Tid) Unit := do
  configCloud modem s
  configAliAuth modem s productKey deviceName deviceSecret
  openHost modem s (aliHost productKey) 1883
  let _ ← connect modem t s deviceName
  pure ()

/-- `Flow::dispose`. -/
def dispose (s : Fin kSlots) : Comp Exn (Session Tid) Unit :=
  execWith modem.exec issue (.ecmtDisc s)

/-- `~Client`, after which nothing refers to the flow any more. -/
def dropClient (s : Fin kSlots) : Comp Exn (Session Tid) Unit := do
  dispose modem s
  onFactory (modifyState (setSlot s none))

/-- `MqttFactory::createAli`; the client is named by the slot of its flow. -/
def createAli (productKey deviceName deviceSecret : Text) :
    Comp Exn (Session Tid) (Fin kSlots) := do
  let st ← getState
  let s ← ofOutcome st.factory.slots.getNext
  onFactory (modifyState (setSlot s (some ⟨s, modem.uninitialised, false⟩)))
  -- the constructor of `Client` gives the flow its callback
  onFactory (modifyState (setSlot s (some ⟨s, modem.uninitialised, true⟩)))
  onUnwind (dropClient modem s) do
    aliSetup modem t s productKey deviceName deviceSecret
    pure s

end CreateAli

/-! ### Which set-ups return -/

variable {modem : Modem} {t : Tid} {productKey deviceName deviceSecret : Text}

/-- The commands that set a client up, in this order. -/
def setUpCommands (s : Fin kSlots) (productKey deviceName deviceSecret : Text) :
    List AtCommand :=
  [.ecmtCfgCloud s 2 1, .ecmtCfgAliauth s productKey deviceName deviceSecret,
    .ecmtOpen s (aliHost productKey) 1883,
    .ecmtConn s deviceName]

/-- All of them succeed. -/
def Succeeds (modem : Modem) (s : Fin kSlots) (productKey deviceName deviceSecret : Text) : Prop :=
  ∀ cmd ∈ setUpCommands s productKey deviceName deviceSecret, modem.exec cmd = .ok

/-- The wait for the notification does not run out of time. -/
def Connects (modem : Modem) (s : Fin kSlots) (before : MqttFactory Tid) : Prop :=
  modem.notify s ≠ none ∨ before.event.isSet (connectedBit s) = true

/-- The flow is in its slot, and the other slots are as before. -/
structure Held (before : MqttFactory Tid) (s : Fin kSlots) (st : Session Tid) : Prop where
  live : ∃ flow, st.factory.slots s = some flow
  others : ∀ s', s' ≠ s → st.factory.slots s' = before.slots s'

/-- The same, and the event set is as before. -/
structure Untouched (before : MqttFactory Tid) (s : Fin kSlots) (st : Session Tid) : Prop
    extends Held before s st where
  event : st.factory.event = before.event

/-- A command of the set-up. -/
theorem triple_command {before : MqttFactory Tid} {cmd : AtCommand} {fails : Prop}
    (hfails : modem.exec cmd ≠ .ok → fails) :
    Triple (Untouched before s) (execWith modem.exec issue cmd)
      (fun _ st => modem.exec cmd = .ok ∧ Untouched before s st)
      (fun _ st => fails ∧ Held before s st) := by
  apply triple_execWith
  · intro hok st h
    exact ⟨hok, ⟨h.live, h.others⟩, h.event⟩
  · intro hfailed st h
    exact ⟨hfails hfailed, h.live, h.others⟩

/-- The mask that `connect` waits for is the bit of the slot. -/
theorem shiftOne_connected (s : Fin kSlots) :
    shiftOne (connected + s.val) = some (oneHot (connectedBit s)) := by
  have hlt := (connectedBit s).isLt
  have hsum : connected + (s.val : Int) = (connectedBit s).val := Int.zero_add _
  rw [hsum, shiftOne, dif_pos (by omega)]
  congr

/-- After the notification, if there is one, the bit says whether the wait will return. -/
theorem triple_notified {before : MqttFactory Tid} {E : Exn → Session Tid → Prop}
    (hquiet : before.event.object.suspendThread = []) :
    Triple (Untouched before s) (notified modem s)
      (fun _ st => Held before s st ∧
        (st.factory.event.isSet (connectedBit s) = true ↔ Connects modem s before)) E := by
  intro st h
  cases hline : modem.notify s with
  | none =>
    refine Or.inl ⟨(), st, ?_, h.toHeld, ?_⟩
    · rw [notified, hline, run_pure]
    · rw [h.event, Connects, hline]
      simp
  | some l =>
    obtain ⟨flow, hlive⟩ := h.live
    refine Or.inl ⟨(), { st with factory := st.factory.notify s l.result }, ?_, ⟨?_, ?_⟩, ?_⟩
    · have hhandle := run_handle_conn l hlive
      show notified modem s st = _
      simp only [notified, hline, onFactory, hhandle]
    · exact ⟨{ flow with connResult := l.result }, by simp [notify, hlive]⟩
    · intro s' hne
      have hother : (st.factory.notify s l.result).slots s' = st.factory.slots s' :=
        Function.update_of_ne hne ..
      exact hother.trans (h.others s' hne)
    · have hset : (st.factory.event.set (oneHot (connectedBit s))).isSet (connectedBit s) = true :=
        (EventSet.set_unsuspended (by rw [h.event]; exact hquiet) _).2
      have hconnects : Connects modem s before := Or.inl (by rw [hline]; exact Option.some_ne_none l)
      exact ⟨fun _ => hconnects, fun _ => hset⟩

/-- The wait returns if the bit is set, and runs out of time otherwise. -/
theorem triple_waitConnected {before : MqttFactory Tid} {p fails : Prop} (hfails : ¬p → fails) :
    Triple (fun st => Held before s st ∧
        (st.factory.event.isSet (connectedBit s) = true ↔ p))
      (waitConnected t s) (fun _ st => p ∧ Held before s st)
      (fun _ st => fails ∧ Held before s st) := by
  rintro st ⟨h, hp⟩
  have hpos : (0 : Int) < 20000 := by decide
  have hwait := EventSet.waitAll_eq st.factory.event t (connectedBit s) hpos
  by_cases hbit : st.factory.event.isSet (connectedBit s) = true
  · rw [if_pos hbit] at hwait
    refine Or.inl ⟨(), { st with factory := { st.factory with
      event := st.factory.event.take (connectedBit s) } }, ?_, hp.mp hbit, h.live, h.others⟩
    show waitConnected t s st = _
    simp only [waitConnected, bind, Comp.bind, getState, shiftOne_connected, Option.getD_some,
      hwait, modifyState]
  · rw [if_neg hbit] at hwait
    refine Or.inr ⟨rtError .timeout, st, ?_, hfails fun hpos => hbit (hp.mpr hpos), h⟩
    show waitConnected t s st = _
    simp only [waitConnected, bind, Comp.bind, getState, shiftOne_connected, Option.getD_some,
      hwait, raise]

/-- `connect` returns if its command succeeds and the wait does. -/
theorem triple_connect {before : MqttFactory Tid} {clientId : Text} {fails : Prop}
    (hquiet : before.event.object.suspendThread = [])
    (hexec : modem.exec (.ecmtConn s clientId) ≠ .ok → fails)
    (hwait : ¬Connects modem s before → fails) :
    Triple (Untouched before s) (connect modem t s clientId)
      (fun _ st => (modem.exec (.ecmtConn s clientId) = .ok ∧ Connects modem s before) ∧
        Held before s st)
      (fun _ st => fails ∧ Held before s st) := by
  unfold connect
  refine (triple_command hexec).bind fun _ => ?_
  refine triple_and fun hok => ?_
  refine (triple_notified hquiet).bind fun _ => ?_
  refine (triple_waitConnected hwait).bind fun _ => ?_
  refine triple_and fun hconnects => ?_
  have hread : Triple (Held before s) getState (fun st' st => st' = st ∧ Held before s st)
      (fun (_ : Exn) st => fails ∧ Held before s st) :=
    triple_getState fun st h => ⟨rfl, h⟩
  refine hread.bind fun st' => ?_
  rintro st ⟨rfl, h⟩
  obtain ⟨flow, hlive⟩ := h.live
  rw [hlive, run_bind_returned (run_ofOption_some flow st'), run_pure]
  exact Or.inl ⟨_, _, rfl, ⟨hok, hconnects⟩, h⟩

/-- **Which set-ups return**: those whose commands all succeed and whose wait does. -/
theorem triple_aliSetup {before : MqttFactory Tid}
    (hquiet : before.event.object.suspendThread = []) :
    Triple (Untouched before s) (aliSetup modem t s productKey deviceName deviceSecret)
      (fun _ st => (Succeeds modem s productKey deviceName deviceSecret ∧
        Connects modem s before) ∧ Held before s st)
      (fun _ st => ¬(Succeeds modem s productKey deviceName deviceSecret ∧
        Connects modem s before) ∧ Held before s st) := by
  have hfails : ∀ cmd ∈ setUpCommands s productKey deviceName deviceSecret,
      modem.exec cmd ≠ .ok → ¬(Succeeds modem s productKey deviceName deviceSecret ∧
        Connects modem s before) :=
    fun cmd hmem hfailed hall => hfailed (hall.1 cmd hmem)
  unfold aliSetup
  refine (triple_command (hfails _ (by simp [setUpCommands]))).bind fun _ => ?_
  refine triple_and fun hcloud => ?_
  refine (triple_command (hfails _ (by simp [setUpCommands]))).bind fun _ => ?_
  refine triple_and fun hauth => ?_
  refine (triple_command (hfails _ (by simp [setUpCommands]))).bind fun _ => ?_
  refine triple_and fun hopen => ?_
  refine (triple_connect hquiet (hfails _ (by simp [setUpCommands])) fun hwait hall =>
    hwait hall.2).bind fun _ => ?_
  refine triple_pure fun st h => ⟨⟨?_, h.1.2⟩, h.2⟩
  simp [Succeeds, setUpCommands, hcloud, hauth, hopen, h.1.1]

/-! ### Failing cleanly -/

/-- Dropping the client, when disconnecting succeeds. -/
theorem neverThrows_dropClient {before : MqttFactory Tid} {p : Prop}
    (h : modem.exec (.ecmtDisc s) = .ok) :
    NeverThrows (fun st : Session Tid => p ∧ Held before s st) (dropClient modem s)
      (fun st => p ∧ st.factory.slots s = none ∧
        ∀ s', s' ≠ s → st.factory.slots s' = before.slots s') := by
  rintro st ⟨hp, hheld⟩
  refine ⟨{ issue (.ecmtDisc s) st with factory := setSlot s none st.factory }, ?_, hp,
    Function.update_self .., ?_⟩
  · rw [dropClient, dispose, run_bind_returned (run_execWith_ok h st)]
    rfl
  · intro s' hne
    have hother : (setSlot s none st.factory).slots s' = st.factory.slots s' :=
      Function.update_of_ne hne ..
    exact hother.trans (hheld.others s' hne)

/-- Dropping the client, when it fails. -/
theorem run_dropClient_failed (h : modem.exec (.ecmtDisc s) ≠ .ok) (st : Session Tid) :
    ∃ e st', (dropClient modem s).run st = (.threw e, st') := by
  refine ⟨atExecError (modem.exec (.ecmtDisc s)), issue (.ecmtDisc s) st, ?_⟩
  rw [dropClient, dispose]
  exact run_bind_threw (run_execWith_failed h st) _

/-- The component before a set-up: nobody waits for one of its events. -/
structure Quiet (Tid : Type) where
  factory : MqttFactory Tid
  unsuspended : factory.event.object.suspendThread = []

variable (modem t productKey deviceName deviceSecret) in
/-- A call of `createAli`: how it ends, and what it leaves. -/
def result (before : Quiet Tid) : Outcome Exn (Fin kSlots) × Session Tid :=
  (createAli modem t productKey deviceName deviceSecret).run ⟨before.factory, []⟩

variable (modem t productKey deviceName deviceSecret) in
/-- The set-up fails cleanly: a client is returned only if all commands of its set-up succeeded
    and the notified result was zero, and in every other case `createAli` throws, and a slot that
    was free is free again. -/
structure SetsUpCleanly (before : Quiet Tid) : Prop where
  returned : ∀ s, (result modem t productKey deviceName deviceSecret before).1 = .returned s →
    Succeeds modem s productKey deviceName deviceSecret ∧
      ∃ l, modem.notify s = some l ∧ l.result = 0
  throws : (∀ s, (result modem t productKey deviceName deviceSecret before).1 ≠ .returned s) →
    ∃ e, (result modem t productKey deviceName deviceSecret before).1 = .threw e
  free : (∀ s, (result modem t productKey deviceName deviceSecret before).1 ≠ .returned s) →
    ∀ s, before.factory.slots s = none →
      (result modem t productKey deviceName deviceSecret before).2.factory.slots s = none

variable (modem) in
/-- The component when the set-up begins. -/
def atSetUp (before : MqttFactory Tid) (s : Fin kSlots) : Session Tid :=
  ⟨setSlot s (some ⟨s, modem.uninitialised, true⟩)
    (setSlot s (some ⟨s, modem.uninitialised, false⟩) before), []⟩

variable (modem) in
/-- Only the slot of the client has been written. -/
theorem untouched_atSetUp (before : MqttFactory Tid) (s : Fin kSlots) :
    Untouched before s (atSetUp modem before s) := by
  let flow : Flow := ⟨s, modem.uninitialised, true⟩
  refine ⟨⟨⟨flow, Function.update_self ..⟩, ?_⟩, rfl⟩
  intro s' hne
  have hstored : (setSlot s (some { flow with cb := false }) before).slots s' = before.slots s' :=
    Function.update_of_ne hne ..
  exact (Function.update_of_ne hne ..).trans hstored

/-- With a free slot, everything happens in the scope of the client. -/
theorem run_createAli {before : MqttFactory Tid} (hnext : before.slots.getNext = .returned s) :
    (createAli modem t productKey deviceName deviceSecret).run ⟨before, []⟩
      = (onUnwind (dropClient modem s) do
          aliSetup modem t s productKey deviceName deviceSecret
          pure s).run (atSetUp modem before s) := by
  rw [createAli, run_bind_returned (run_getState _)]
  show (ofOutcome before.slots.getNext >>= _).run _ = _
  rw [hnext, run_bind_returned (run_ofOutcome _ _)]
  rfl

variable (modem t productKey deviceName deviceSecret) in
/-- The body of `createAli`, with the slot of the client. -/
theorem triple_setUp (before : Quiet Tid) (s : Fin kSlots) :
    Triple (Untouched before.factory s)
      (aliSetup modem t s productKey deviceName deviceSecret >>= fun _ => pure s)
      (fun s' _ => s' = s ∧ Succeeds modem s productKey deviceName deviceSecret ∧
        Connects modem s before.factory)
      (fun _ st => ¬(Succeeds modem s productKey deviceName deviceSecret ∧
        Connects modem s before.factory) ∧ Held before.factory s st) :=
  (triple_aliSetup before.unsuspended).bind fun _ => triple_pure fun _ h => ⟨rfl, h.1⟩

section Outcomes

variable {before : Quiet Tid} (hnext : before.factory.slots.getNext = .returned s)
include hnext

/-- A set-up whose commands succeed and whose wait returns gives a client. -/
theorem result_returned (hall : Succeeds modem s productKey deviceName deviceSecret ∧
      Connects modem s before.factory) :
    (result modem t productKey deviceName deviceSecret before).1 = .returned s := by
  have hst := untouched_atSetUp modem before.factory s
  have hnever : ∀ e : Exn, NeverThrows (fun st => ¬(Succeeds modem s productKey deviceName
        deviceSecret ∧ Connects modem s before.factory) ∧ Held before.factory s st)
      (dropClient modem s) (fun _ => False) := fun _ _ h => absurd hall h.1
  have hscope := (triple_setUp modem t productKey deviceName deviceSecret before s).onUnwind hnever
  rw [result, run_createAli hnext]
  rcases hscope _ hst with ⟨s', st', hscoped, rfl, _⟩ | ⟨_, _, _, hfalse⟩
  · rw [hscoped]
  · exact hfalse.elim

/-- Any other set-up throws, and frees the slot, if disconnecting succeeds. -/
theorem result_threw (hnot : ¬(Succeeds modem s productKey deviceName deviceSecret ∧
      Connects modem s before.factory)) (hdisc : modem.exec (.ecmtDisc s) = .ok) :
    (∃ e, (result modem t productKey deviceName deviceSecret before).1 = .threw e) ∧
      ∀ s', before.factory.slots s' = none →
        (result modem t productKey deviceName deviceSecret before).2.factory.slots s' = none := by
  have hst := untouched_atSetUp modem before.factory s
  have hscope := (triple_setUp modem t productKey deviceName deviceSecret before s).onUnwind
    fun _ => neverThrows_dropClient hdisc
  rw [result, run_createAli hnext]
  rcases hscope _ hst with ⟨_, _, _, _, hall⟩ | ⟨e, st', hscoped, _, hfree, hothers⟩
  · exact absurd hall hnot
  · rw [hscoped]
    refine ⟨⟨e, rfl⟩, fun s' hs' => ?_⟩
    by_cases hs : s' = s
    · rw [hs]
      exact hfree
    · exact (hothers s' hs).trans hs'

/-- If it does not, the program ends. -/
theorem result_terminated (hnot : ¬(Succeeds modem s productKey deviceName deviceSecret ∧
      Connects modem s before.factory)) (hdisc : modem.exec (.ecmtDisc s) ≠ .ok) :
    (result modem t productKey deviceName deviceSecret before).1 = .terminated := by
  have hst := untouched_atSetUp modem before.factory s
  rw [result, run_createAli hnext]
  have hbody := (triple_setUp modem t productKey deviceName deviceSecret before s).post
    (fun _ _ h => hnot h.2) fun _ _ h => h
  exact hbody.onUnwind_terminated (run_dropClient_failed hdisc) hst

/-- A set-up that fails cleanly: what its commands and its notification are like. -/
theorem SetsUpCleanly.condition
    (hclean : SetsUpCleanly modem t productKey deviceName deviceSecret before) :
    (¬Succeeds modem s productKey deviceName deviceSecret → modem.exec (.ecmtDisc s) = .ok) ∧
      (Succeeds modem s productKey deviceName deviceSecret →
        (∀ l, modem.notify s = some l → l.result = 0) ∧
        (modem.notify s = none → before.factory.event.isSet (connectedBit s) = false ∧
          modem.exec (.ecmtDisc s) = .ok)) := by
  have hdisc : ¬(Succeeds modem s productKey deviceName deviceSecret ∧
      Connects modem s before.factory) → modem.exec (.ecmtDisc s) = .ok := by
    intro hnot
    by_contra hfailed
    have hterminated := result_terminated (t := t) hnext hnot hfailed
    obtain ⟨e, hthrew⟩ := hclean.throws fun s' h => by rw [hterminated] at h; cases h
    rw [hterminated] at hthrew
    cases hthrew
  refine ⟨fun hnot => hdisc fun hall => hnot hall.1, fun hsucceeds => ⟨?_, ?_⟩⟩
  · intro l hl
    have hconnects : Connects modem s before.factory :=
      Or.inl (by rw [hl]; exact Option.some_ne_none l)
    obtain ⟨_, l', hl', hzero⟩ := hclean.returned s (result_returned hnext ⟨hsucceeds, hconnects⟩)
    rw [hl, Option.some.injEq] at hl'
    rw [hl']
    exact hzero
  · intro hnone
    -- a client would be returned without any notification if the event were set
    have hbit : before.factory.event.isSet (connectedBit s) = false := by
      by_contra hset
      have hconnects : Connects modem s before.factory := Or.inr (Bool.not_eq_false _ ▸ hset)
      obtain ⟨_, l', hl', _⟩ :=
        hclean.returned s (result_returned hnext ⟨hsucceeds, hconnects⟩)
      rw [hnone] at hl'
      cases hl'
    refine ⟨hbit, hdisc ?_⟩
    rintro ⟨_, hsome | hset⟩
    · exact hsome hnone
    · rw [hbit] at hset
      cases hset

/-- What its commands and its notification have to be like for a set-up to fail cleanly. -/
theorem setsUpCleanly_of_condition
    (hfails : ¬Succeeds modem s productKey deviceName deviceSecret →
      modem.exec (.ecmtDisc s) = .ok)
    (hsucceeds : Succeeds modem s productKey deviceName deviceSecret →
      (∀ l, modem.notify s = some l → l.result = 0) ∧
      (modem.notify s = none → before.factory.event.isSet (connectedBit s) = false ∧
        modem.exec (.ecmtDisc s) = .ok)) :
    SetsUpCleanly modem t productKey deviceName deviceSecret before := by
  by_cases hall : Succeeds modem s productKey deviceName deviceSecret ∧
      Connects modem s before.factory
  · have hreturned := result_returned (t := t) hnext hall
    refine ⟨?_, fun hnever => absurd hreturned (hnever s),
      fun hnever => absurd hreturned (hnever s)⟩
    intro s' hs'
    rw [hreturned, Outcome.returned.injEq] at hs'
    subst hs'
    refine ⟨hall.1, ?_⟩
    obtain ⟨hzero, hnone⟩ := hsucceeds hall.1
    cases hline : modem.notify s with
    | some l => exact ⟨l, rfl, hzero l hline⟩
    | none   =>
      rcases hall.2 with hsome | hset
      · exact absurd hline hsome
      · rw [(hnone hline).1] at hset
        cases hset
  · have hdisc : modem.exec (.ecmtDisc s) = .ok := by
      by_cases hcommands : Succeeds modem s productKey deviceName deviceSecret
      · have hwait : ¬Connects modem s before.factory := fun h => hall ⟨hcommands, h⟩
        have hnone : modem.notify s = none := by
          by_contra hsome
          exact hwait (Or.inl hsome)
        exact ((hsucceeds hcommands).2 hnone).2
      · exact hfails hcommands
    obtain ⟨⟨e, hthrew⟩, hfree⟩ := result_threw (t := t) hnext hall hdisc
    refine ⟨?_, fun _ => ⟨e, hthrew⟩, fun _ => hfree⟩
    intro s' hs'
    rw [hthrew] at hs'
    cases hs'

end Outcomes

/-- Without a free slot nothing is set up. -/
theorem setsUpCleanly_of_exhausted {before : Quiet Tid} {e : Exn}
    (hnext : before.factory.slots.getNext = .threw e) :
    SetsUpCleanly modem t productKey deviceName deviceSecret before := by
  have hrun : result modem t productKey deviceName deviceSecret before
      = (.threw e, ⟨before.factory, []⟩) := by
    rw [result, createAli, run_bind_returned (run_getState _)]
    show (ofOutcome before.factory.slots.getNext >>= _).run _ = _
    rw [hnext]
    exact run_bind_threw (run_ofOutcome _ _) _
  refine ⟨?_, fun _ => ⟨e, by rw [hrun]⟩, fun _ s hs => by rw [hrun]; exact hs⟩
  intro s hs
  rw [hrun] at hs
  cases hs

/-- **When the set-up fails cleanly.**  Whenever a slot is free: if a command of the set-up
    fails, or the wait for the notification runs out of time, then disconnecting has to succeed;
    and if no command fails, a notification has to have the result zero, and without one the
    event of the slot has to be clear. -/
theorem createAli_clean_iff (modem : Modem) (t : Tid)
    (productKey deviceName deviceSecret : Text) (before : Quiet Tid) :
    SetsUpCleanly modem t productKey deviceName deviceSecret before ↔
      ∀ s, before.factory.slots.getNext = .returned s →
        (¬Succeeds modem s productKey deviceName deviceSecret →
          modem.exec (.ecmtDisc s) = .ok) ∧
        (Succeeds modem s productKey deviceName deviceSecret →
          (∀ l, modem.notify s = some l → l.result = 0) ∧
          (modem.notify s = none → before.factory.event.isSet (connectedBit s) = false ∧
            modem.exec (.ecmtDisc s) = .ok)) := by
  constructor
  · intro hclean s hnext
    exact hclean.condition hnext
  · intro hcond
    rcases before.factory.slots.getNext_cases with ⟨s, hnext⟩ | ⟨e, hnext⟩
    · exact setsUpCleanly_of_condition hnext (hcond s hnext).1 (hcond s hnext).2
    · exact setsUpCleanly_of_exhausted hnext

/-- The line `+ECMTCONN:0,1,5` for a slot: the broker refuses the client. -/
def refusal (s : Fin kSlots) : ConnLine s where
  result := 1
  retCode := 5
  slotText := ['0']
  resultText := ['1']
  retCodeText := ['5']
  uninitialised := fun _ => 0
  slot_num := by
    have hlt : s.val < 1 := s.isLt
    have hzero : s.val = 0 := by omega
    rw [hzero]
    exact isNumeral_of_isDigits (by decide) (by decide)
  result_num := isNumeral_of_isDigits (by decide) (by decide)
  result_min := by decide
  result_max := by decide
  retCode_num := isNumeral_of_isDigits (by decide) (by decide)

/-- A modem whose commands succeed, and which brings a refusal. -/
def refusedModem : Modem := ⟨fun _ => .ok, fun s => some (refusal s), 0⟩

/-- A new component. -/
def Quiet.new (Tid : Type) : Quiet Tid := ⟨⟨fun _ => none, EventSet.new Tid, []⟩, rfl⟩

/-- A refused client is returned all the same. -/
theorem refused_client_returned : ¬SetsUpCleanly refusedModem () [] [] [] (Quiet.new Unit) := by
  intro hclean
  have hnext : (Quiet.new Unit).factory.slots.getNext = .returned slot0 := rfl
  have hsucceeds : Succeeds refusedModem slot0 [] [] [] := fun _ _ => rfl
  have hconnects : Connects refusedModem slot0 (Quiet.new Unit).factory :=
    Or.inl (Option.some_ne_none _)
  obtain ⟨_, l, hl, hzero⟩ :=
    hclean.returned slot0 (result_returned hnext ⟨hsucceeds, hconnects⟩)
  have hl' : refusal slot0 = l := Option.some.inj hl
  rw [← hl'] at hzero
  revert hzero
  decide

end MqttFactory

end RtCharger.Devices
