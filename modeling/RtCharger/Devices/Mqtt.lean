import RtCharger.Net.AtUrcBuilder
import RtCharger.Utilities.LimitedSlots
import RtCharger.Os.EventSet

namespace RtCharger.Devices

open Effect RtCharger.Net RtCharger.Os RtCharger.Utilities

/-!
# The MQTT component: messages and notifications

`MqttFactory` of the Air302 modem, as its two URC handlers see it: the live flow of each slot,
the event set, and the messages its clients emitted.

* `recvProbe`, `connProbe` — the probes of `onUrcBuild`;
* `emitMessage` — a message reaches the client that the flow is connected to.
-/

namespace MqttFactory

/-- `kSlots`. -/
def kSlots : Nat := 1

/-- The first slot. -/
def slot0 : Fin kSlots := ⟨0, by decide⟩

/-- `Events::Connected`. -/
def connected : Int := (kSlots : Int) * 0

/-- `MqttFactory::Flow`: its slot, `connResult`, and whether the constructor of its `Client` gave
    it a callback. -/
structure Flow where
  slot : Fin kSlots
  connResult : Int
  cb : Bool
deriving DecidableEq, Repr

end MqttFactory

/-- `MqttFactory`, and the messages that clients emitted: their topics and payloads. -/
structure MqttFactory (Tid : Type) where
  slots : LimitedSlots MqttFactory.Flow MqttFactory.kSlots
  event : EventSet Tid
  messages : List (Text × Text)

namespace MqttFactory

variable {Tid : Type}

/-- `Flow::emitMessage` of the flow in a slot; the callback that the `Client` sets emits its
    `onMessage`. -/
def emitMessage (s : Fin kSlots) (topic data : Text) : Comp Exn (MqttFactory Tid) Unit :=
  modifyState fun factory =>
    match factory.slots s with
    | some flow =>
      if flow.cb then { factory with messages := factory.messages ++ [(topic, data)] }
      else factory
    | none => factory

/-- The callback of `+ECMTRECV:`; other argument lists do not have its types. -/
def onReceived : List (Arg (Fin kSlots)) → Comp Exn (MqttFactory Tid) Emitted
  | [.slot flow, .int _, .view topic, .view payload] => do
    emitMessage flow topic payload
    pure Emitted.none
  | _ => undefinedBehaviour

/-- The callback of `+ECMTCONN:`. -/
def onConnected : List (Arg (Fin kSlots)) → Comp Exn (MqttFactory Tid) Emitted
  | [.slot flow, .int result, .int _] => do
    modifyState fun factory => { factory with
      slots := Function.update factory.slots flow
        ((factory.slots flow).map fun f => { f with connResult := result }) }
    pure Emitted.none
  | _ => undefinedBehaviour

/-- What `set(slots, event)` gave to a probe of `onUrcBuild`. -/
def probeOf (urcPrefix : Text) (params : List Param)
    (callback : List (Arg (Fin kSlots)) → Comp Exn (MqttFactory Tid) Emitted)
    (offset : Option Int) : Probe (MqttFactory Tid) (Fin kSlots) where
  urcPrefix := urcPrefix
  urcSuffix := "\r\n".toList
  params := params
  callback := callback
  slots := some fun factory slotId => factory.slots.acuqire (toSlotType slotId)
  event := some fun e => modifyState fun factory => { factory with event := factory.event.set e }
  offset := offset
  opt := kDefaultOpt

/-- The probe of `+ECMTRECV:`. -/
def recvProbe (Tid : Type) : Probe (MqttFactory Tid) (Fin kSlots) :=
  probeOf "+ECMTRECV:".toList [.slot, .int, .view, .view] onReceived none

/-- The probe of `+ECMTCONN:`. -/
def connProbe (Tid : Type) : Probe (MqttFactory Tid) (Fin kSlots) :=
  probeOf "+ECMTCONN:".toList [.slot, .int, .int] onConnected (some connected)

end MqttFactory

end RtCharger.Devices
