import RtCharger.Devices.Mqtt

namespace RtCharger.Devices

open Effect RtCharger.Net RtCharger.Os RtCharger.Utilities

/-!
# Delivering a message

A `+ECMTRECV` line names a slot, a message number, a topic in quotes and the payload, which may
have commas of its own: the callback has four parameters, so that the line is cut three times.
The options of `probe` are those of every field, also of the payload.

* `MessageLine` — a line with these fields;
* `message_delivered` — the topic arrives as it is, the payload without its leading spaces and
  without quotes around it;
* `delivered_verbatim_iff` — which payloads arrive as they are.
-/

namespace MqttFactory

variable {Tid : Type} {s : Fin kSlots}

/-- A line `+ECMTRECV:s,msgId,"topic",payload`, with what the variables of `parse<int>` hold while
    it is handled. -/
structure MessageLine (s : Fin kSlots) where
  msgId : Int
  topic : Text
  payload : Text
  slotText : Text
  msgIdText : Text
  uninitialised : Nat → Int
  slot_num : IsNumeral slotText s.val
  msgId_num : IsNumeral msgIdText msgId
  topic_comma : ',' ∉ topic

namespace MessageLine

/-- What stands between the prefix and the suffix. -/
def body (l : MessageLine s) : Text :=
  l.slotText ++ ',' :: (l.msgIdText ++ ',' :: (('"' :: (l.topic ++ ['"'])) ++ ',' :: l.payload))

/-- The line. -/
def text (l : MessageLine s) : Text := "+ECMTRECV:".toList ++ l.body ++ "\r\n".toList

/-- Cut at the first three commas: the payload keeps its own. -/
theorem split_body (l : MessageLine s) :
    split ',' ((4 : Nat) - 1 : Int) l.body
      = [l.slotText, l.msgIdText, '"' :: (l.topic ++ ['"']), l.payload] := by
  have hcomma : ∀ {t : Text} {n : Int}, IsNumeral t n → ',' ∉ t :=
    fun h => h.not_mem (by decide) (by decide)
  have htopic : ',' ∉ '"' :: (l.topic ++ ['"']) := by
    simp [l.topic_comma]
  have hrest : splitFrom ',' ((4 : Nat) - 1 : Int) l.payload [] (0 + 1 + 1 + 1) = [l.payload] :=
    (splitFrom_rest l.payload []).resolve_right (by decide)
  rw [split, body, splitFrom_field (hcomma l.slot_num) (by decide),
    splitFrom_field (hcomma l.msgId_num) (by decide), splitFrom_field htopic (by decide), hrest]
  rfl

/-- The arguments of the callback. -/
def args (l : MessageLine s) : List (Arg (Fin kSlots)) :=
  [.slot s, .int (parseInt l.msgIdText (l.uninitialised 1)), .view l.topic,
    .view (unquoted (unpadded l.payload))]

/-- The fields are dealt to the parameters. -/
theorem run_args (l : MessageLine s) (hne : unpadded l.payload ≠ []) {factory : MqttFactory Tid}
    {flow : Flow} (hlive : factory.slots s = some flow) :
    (ArgProvider.all ((recvProbe Tid).slots.map fun slots => slots factory) kDefaultOpt
        l.uninitialised (recvProbe Tid).params).run
        ⟨[l.slotText, l.msgIdText, '"' :: (l.topic ++ ['"']), l.payload], 0, none⟩
      = (.returned l.args,
          ⟨[l.slotText, l.msgIdText, '"' :: (l.topic ++ ['"']), l.payload], 4, some s.val⟩) := by
  refine run_all_cons (run_next_live hlive (by decide) rfl l.slot_num) ?_
  refine run_all_cons (run_next_int rfl (preprocessArg_of_isNumeral l.msgId_num _) rfl) ?_
  refine run_all_cons (run_next_view rfl (preprocessArg_quoted l.topic)) ?_
  exact run_all_cons (run_next_view rfl (preprocessArg_default hne)) run_all_nil

end MessageLine

/-- Text without its quotes is shorter, if it had them. -/
theorem length_unquoted (t : Text) : (unquoted t).length =
    if t.head? = some '"' ∧ t.getLast? = some '"' then t.length - 2 else t.length := by
  unfold unquoted
  split
  · simp only [List.length_dropLast, List.length_tail]
    omega
  · rfl

/-- **Which payloads arrive as they are**: those that neither start with a space nor start and
    end with a quote. -/
theorem delivered_verbatim_iff (payload : Text) :
    unquoted (unpadded payload) = payload ↔ payload.head? ≠ some ' ' ∧
      ¬(payload.head? = some '"' ∧ payload.getLast? = some '"') := by
  by_cases hpad : payload.head? = some ' '
  · obtain ⟨cs, rfl⟩ : ∃ cs, payload = ' ' :: cs := by
      cases payload with
      | nil => cases hpad
      | cons c cs => exact ⟨cs, by rw [List.head?_cons, Option.some.injEq] at hpad; rw [hpad]⟩
    have hskip : unpadded (' ' :: cs) = unpadded cs := rfl
    have hle : (unpadded cs).length ≤ cs.length := (List.dropWhile_sublist _).length_le
    constructor
    · intro heq
      have hlen := congrArg List.length heq
      rw [hskip, length_unquoted, List.length_cons] at hlen
      split at hlen <;> omega
    · rintro ⟨hne, -⟩
      exact absurd hpad hne
  · have hsame : unpadded payload = payload := by
      cases payload with
      | nil => rfl
      | cons c cs =>
        have hc : c ≠ ' ' := fun h => hpad (by rw [h]; rfl)
        simp [unpadded, hc]
    rw [hsame]
    by_cases hquoted : payload.head? = some '"' ∧ payload.getLast? = some '"'
    · have hpos : payload ≠ [] := by
        rintro rfl
        cases hquoted.1
      constructor
      · intro heq
        have hlen := congrArg List.length heq
        have hlt := List.length_pos_of_ne_nil hpos
        rw [length_unquoted, if_pos hquoted] at hlen
        omega
      · rintro ⟨-, hnot⟩
        exact absurd hquoted hnot
    · exact ⟨fun _ => ⟨hpad, hquoted⟩, fun _ => if_neg hquoted⟩

/-- **A message is delivered** to the client of the flow, once: with its topic character for
    character, and with its payload without leading spaces and then without its first and last
    character, if both are quotes; so the payload arrives as it is exactly if it neither starts with
    a space nor starts and ends with a quote. -/
theorem message_delivered (factory : MqttFactory Tid) (s : Fin kSlots) (flow : Flow)
    (hlive : factory.slots s = some flow) (hclient : flow.cb = true) (l : MessageLine s)
    (hne : unpadded l.payload ≠ []) :
    ((recvProbe Tid).handle l.uninitialised l.text).run factory
      = (.returned (), { factory with
          messages := factory.messages ++ [(l.topic, unquoted (unpadded l.payload))] }) ∧
    (unquoted (unpadded l.payload) = l.payload ↔ l.payload.head? ≠ some ' ' ∧
      ¬(l.payload.head? = some '"' ∧ l.payload.getLast? = some '"')) := by
  refine ⟨?_, delivered_verbatim_iff l.payload⟩
  have hargs := l.run_args hne hlive
  have hsplit : split ',' (((recvProbe Tid).params.length : Int) - 1) l.body
      = [l.slotText, l.msgIdText, '"' :: (l.topic ++ ['"']), l.payload] := l.split_body
  rw [← hsplit] at hargs
  have hcall : (onReceived l.args).run factory = (.returned Emitted.none, { factory with
      messages := factory.messages ++ [(l.topic, unquoted (unpadded l.payload))] }) := by
    show (onReceived l.args) factory = _
    simp [onReceived, MessageLine.args, emitMessage, bind, Comp.bind, pure, modifyState, hlive,
      hclient]
  exact run_handle hargs hcall (run_thenSet_none rfl _ _)

/-- The line `+ECMTRECV:0,7,"t",` with the payload `payload`. -/
def sampleLine (payload : Text) : MessageLine slot0 where
  msgId := 7
  topic := ['t']
  payload := payload
  slotText := ['0']
  msgIdText := ['7']
  uninitialised := fun _ => 0
  slot_num := isNumeral_of_isDigits (by decide) (by decide)
  msgId_num := isNumeral_of_isDigits (by decide) (by decide)
  topic_comma := by decide

/-- A component with a flow and its client. -/
def sampleFactory : MqttFactory Unit :=
  ⟨fun _ => some ⟨slot0, 0, true⟩, EventSet.new Unit, []⟩

/-- A payload with a comma, a space and a quote in it is delivered as it is. -/
theorem message_delivered_comma :
    ((recvProbe Unit).handle (sampleLine "a, \"b".toList).uninitialised
        (sampleLine "a, \"b".toList).text).run sampleFactory
      = (.returned (), { sampleFactory with messages := [(['t'], "a, \"b".toList)] }) :=
  (message_delivered sampleFactory slot0 ⟨slot0, 0, true⟩ rfl rfl (sampleLine "a, \"b".toList)
    (by decide)).1

/-- A payload in quotes is delivered without them. -/
theorem quoted_payload_not_verbatim :
    ¬∀ l : MessageLine slot0, l.payload ≠ [] →
      (((recvProbe Unit).handle l.uninitialised l.text).run sampleFactory).2.messages
        = [(l.topic, l.payload)] := by
  intro hall
  have hverbatim := hall (sampleLine "\"hi\"".toList) (by decide)
  revert hverbatim
  decide

end MqttFactory

end RtCharger.Devices
