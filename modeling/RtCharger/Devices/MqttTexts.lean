import RtCharger.Net.AtText
import RtCharger.Devices.MqttSetup

namespace RtCharger.Devices

open Effect RtCharger.Kernel RtCharger.Net RtCharger.Os RtCharger.Utilities

/-!
# The texts of the set-up commands

`createAli` gets its keys as views, and hands them on by `data()`: to a `%s`, and to the addition
of a `const char*` and a string.  Both read on until a NUL, which a view need not end with, so
that what stands behind the view in its buffer goes to the modem as well, and from there to the
broker.

* `StringView`, `createAliViews` — the views, and the call;
* `attempts_aliSetup` — which commands a set-up issues, however it ends;
* `exact_iff` — when the modem gets exactly the characters of the views.
-/

/-! ### Views -/

/-- A view without NUL characters, inside a buffer; the NUL that ends the buffer is left out. -/
structure StringView where
  buffer : Text
  pos : Nat
  size : Nat
  inside : pos + size ≤ buffer.length
  noNul : nul ∉ (buffer.drop pos).take size

namespace StringView

/-- The characters of the view. -/
def chars (v : StringView) : Text := (v.buffer.drop v.pos).take v.size

/-- What stands behind it in the buffer. -/
def behind (v : StringView) : Text := v.buffer.drop (v.pos + v.size)

/-- The C string at `data()`. -/
def cStr (v : StringView) : Text := cString (v.buffer.drop v.pos)

/-- The view ends with its buffer, or a NUL stands behind it. -/
def Terminated (v : StringView) : Prop := v.behind.head? = none ∨ v.behind.head? = some nul

instance (v : StringView) : Decidable v.Terminated := inferInstanceAs (Decidable (_ ∨ _))

/-- The C string goes on behind the view. -/
theorem cStr_eq (v : StringView) : v.cStr = v.chars ++ cString v.behind := by
  have hsplit : v.buffer.drop v.pos = v.chars ++ v.behind := by
    rw [chars, behind, ← List.drop_drop, List.take_append_drop]
  rw [cStr, hsplit]
  exact cString_append v.noNul v.behind

/-- Nothing more is read of a terminated view. -/
theorem terminated_iff (v : StringView) : v.Terminated ↔ cString v.behind = [] := by
  unfold Terminated cString
  cases v.behind with
  | nil => simp
  | cons c cs =>
    by_cases hc : c = nul
    · simp [hc]
    · simp [hc]

theorem cStr_of_terminated {v : StringView} (h : v.Terminated) : v.cStr = v.chars := by
  rw [cStr_eq, v.terminated_iff.mp h, List.append_nil]

/-- A view that is not terminated makes the text longer. -/
theorem terminated_of_length {v : StringView} (h : v.cStr.length = v.chars.length) :
    v.Terminated := by
  rw [cStr_eq, List.length_append] at h
  exact v.terminated_iff.mpr (List.eq_nil_of_length_eq_zero (by omega))

theorem length_chars_le (v : StringView) : v.chars.length ≤ v.cStr.length := by
  rw [cStr_eq, List.length_append]
  omega

/-- A view of the whole of a text. -/
def whole (t : Text) (h : nul ∉ t) : StringView :=
  ⟨t, 0, t.length, by omega, by rw [List.drop_zero, List.take_length]; exact h⟩

theorem nul_not_mem_cStr (v : StringView) : nul ∉ v.cStr := nul_not_mem_cString _

end StringView

namespace MqttFactory

variable {Tid : Type} {s : Fin kSlots}

/-- The arguments of `createAli`. -/
structure AliKeys where
  productKey : StringView
  deviceName : StringView
  deviceSecret : StringView

/-- Both calls get the same characters. -/
def AliKeys.SameChars (k k' : AliKeys) : Prop :=
  k.productKey.chars = k'.productKey.chars ∧ k.deviceName.chars = k'.deviceName.chars ∧
    k.deviceSecret.chars = k'.deviceSecret.chars

/-- All of the views are terminated. -/
def AliKeys.Terminated (k : AliKeys) : Prop :=
  k.productKey.Terminated ∧ k.deviceName.Terminated ∧ k.deviceSecret.Terminated

instance (k : AliKeys) : Decidable k.Terminated := inferInstanceAs (Decidable (_ ∧ _ ∧ _))

/-- `createAli` of views: `config`, `open` and `connect` use nothing of them but `data()`. -/
def createAliViews (modem : Modem) (t : Tid) (k : AliKeys) :
    Comp Exn (Session Tid) (Fin kSlots) :=
  createAli modem t k.productKey.cStr k.deviceName.cStr k.deviceSecret.cStr

/-- The commands that a call issues. -/
def commands (modem : Modem) (t : Tid) (before : MqttFactory Tid) (k : AliKeys) : List AtCommand :=
  ((createAliViews modem t k).run ⟨before, []⟩).2.issued

/-- The format of a command with its arguments filled in, a text as `str` prints it. -/
def AtCommand.format (str : Text → Text) : AtCommand → Text
  | .ecmtCfgCloud slot cloud dataType =>
    "AT+ECMTCFG=\"cloud\",".toList ++ formatD slot.val ++ ",".toList ++ formatD cloud
      ++ ",".toList ++ formatD dataType
  | .ecmtCfgAliauth slot productKey deviceName deviceSecret =>
    "AT+ECMTCFG=\"aliauth\",".toList ++ formatD slot.val ++ ",\"".toList ++ str productKey
      ++ "\",\"".toList ++ str deviceName ++ "\",\"".toList ++ str deviceSecret ++ "\"".toList
  | .ecmtOpen slot host port =>
    "AT+ECMTOPEN=".toList ++ formatD slot.val ++ ",\"".toList ++ str host ++ "\",".toList
      ++ formatD port
  | .ecmtConn slot clientId =>
    "AT+ECMTCONN=".toList ++ formatD slot.val ++ ",\"".toList ++ str clientId ++ "\"".toList
  | .ecmtDisc slot => "AT+ECMTDISC=".toList ++ formatD slot.val

/-- The text of a command, as the modem gets it, without the line end. -/
def AtCommand.wire (beyond : Nat → Char) (cmd : AtCommand) : Text :=
  atVprintf beyond (cmd.format cString)

/-- The command with the characters of the views in the places of the keys. -/
def AliKeys.filled (k : AliKeys) : AtCommand → AtCommand
  | .ecmtCfgAliauth slot _ _ _ =>
    .ecmtCfgAliauth slot k.productKey.chars k.deviceName.chars k.deviceSecret.chars
  | .ecmtOpen slot _ port => .ecmtOpen slot (aliHost k.productKey.chars) port
  | .ecmtConn slot _ => .ecmtConn slot k.deviceName.chars
  | cmd => cmd

/-- Every command issued is its format, filled with exactly the characters of the views. -/
def Exact (beyond : Nat → Char) (modem : Modem) (t : Tid) (before : MqttFactory Tid) (k : AliKeys) :
    Prop :=
  ∀ cmd ∈ commands modem t before k, cmd.wire beyond = (k.filled cmd).format id

/-- The set-up commands with the characters of the views. -/
def AliKeys.setUp (k : AliKeys) (s : Fin kSlots) : List AtCommand :=
  setUpCommands s k.productKey.chars k.deviceName.chars k.deviceSecret.chars

/-- If there is a slot and the modem takes the first command, which has no key in it, then the
    views are terminated, and the commands up to the first that the modem refuses fit into the
    send buffer. -/
def Contained (modem : Modem) (before : MqttFactory Tid) (k : AliKeys) : Prop :=
  ∀ s, before.slots.getNext = .returned s → modem.exec (.ecmtCfgCloud s 2 1) = .ok →
    k.Terminated ∧
      ∀ cmd ∈ attempted modem.exec (k.setUp s), (cmd.format id).length < atCmdMaxLen

/-! ### The commands of a set-up -/

section Attempts

variable {modem : Modem} {t : Tid} {productKey deviceName deviceSecret : Text}

theorem issued_issue (cmd : AtCommand) (st : Session Tid) :
    (issue cmd st).issued = st.issued ++ [cmd] := rfl

/-- What is done to the component gives no command. -/
theorem issued_onFactory (c : Comp Exn (MqttFactory Tid) Unit) (st : Session Tid) :
    ((onFactory c).run st).2.issued = st.issued := rfl

/-- The handler of a notification gives none. -/
theorem attempts_notified :
    Attempts modem.exec Session.issued (notified modem s : Comp Exn (Session Tid) Unit) [] := by
  apply attempts_nil
  intro st
  unfold notified
  cases modem.notify s with
  | none => rfl
  | some l => exact issued_onFactory _ st

/-- Nor does the wait. -/
theorem attempts_waitConnected :
    Attempts modem.exec Session.issued (waitConnected t s) [] := by
  apply attempts_nil
  intro st
  show (waitConnected t s st).2.issued = _
  simp only [waitConnected, bind, Comp.bind, getState]
  cases (st.factory.event.waitAll t ((shiftOne (connected + s.val)).getD 0#32) 20000).1 <;> rfl

theorem attempts_connect (clientId : Text) :
    Attempts modem.exec Session.issued (connect modem t s clientId) [.ecmtConn s clientId] := by
  refine Attempts.execWith_bind issued_issue ?_
  refine attempts_notified.bind_nil fun _ => ?_
  refine attempts_waitConnected.bind_nil fun _ => ?_
  apply attempts_nil
  intro st
  show ((ofOption (st.factory.slots s) >>= fun flow => pure flow.connResult :
    Comp Exn (Session Tid) Int).run st).2.issued = _
  cases st.factory.slots s <;> rfl

/-- **The commands of a set-up** are issued up to the first that fails, however the rest of it
    ends. -/
theorem attempts_aliSetup :
    Attempts modem.exec Session.issued (aliSetup modem t s productKey deviceName deviceSecret)
      (setUpCommands s productKey deviceName deviceSecret) := by
  refine Attempts.execWith_bind issued_issue ?_
  refine Attempts.execWith_bind issued_issue ?_
  refine Attempts.execWith_bind issued_issue ?_
  refine (attempts_connect deviceName).bind_nil fun _ => ?_
  exact attempts_nil fun _ => rfl

/-- Dropping the client gives one command. -/
theorem attempts_dropClient :
    Attempts modem.exec Session.issued (dropClient modem s : Comp Exn (Session Tid) Unit)
      [.ecmtDisc s] := by
  refine Attempts.execWith_bind issued_issue ?_
  exact attempts_nil fun _ => rfl

end Attempts

variable {modem : Modem} {t : Tid} {before : MqttFactory Tid} {k k' : AliKeys}

/-- Without one, nothing is issued. -/
theorem commands_exhausted {e : Exn} (hnext : before.slots.getNext = .threw e)
    (k : AliKeys) : commands modem t before k = [] := by
  rw [commands, createAliViews, createAli, run_bind_returned (run_getState _)]
  have hthrew : ∀ f : Fin kSlots → Comp Exn (Session Tid) (Fin kSlots),
      ((ofOutcome before.slots.getNext >>= f).run ⟨before, []⟩).2.issued = [] := by
    intro f
    rw [hnext, run_bind_threw (run_ofOutcome _ _)]
  exact hthrew _

variable (modem t) in
/-- **The commands of a call**: those of the set-up, and the one that drops the client if it
    fails. -/
theorem commands_eq (hnext : before.slots.getNext = .returned s) (k : AliKeys) :
    ∃ tail, (tail = [] ∨ tail = [AtCommand.ecmtDisc s]) ∧
      commands modem t before k
        = attempted modem.exec (setUpCommands s k.productKey.cStr k.deviceName.cStr
            k.deviceSecret.cStr) ++ tail := by
  have hbody : Attempts modem.exec Session.issued
      (aliSetup modem t s k.productKey.cStr k.deviceName.cStr k.deviceSecret.cStr >>= fun _ =>
        (pure s : Comp Exn (Session Tid) (Fin kSlots)))
      (setUpCommands s k.productKey.cStr k.deviceName.cStr k.deviceSecret.cStr) :=
    attempts_aliSetup.bind_nil fun _ => attempts_nil fun _ => rfl
  have hdrop : Attempts modem.exec Session.issued
      (dropClient modem s : Comp Exn (Session Tid) Unit) [.ecmtDisc s] := attempts_dropClient
  have hissued := hbody.onUnwind hdrop (atSetUp modem before s)
  have hstart : (atSetUp modem before s).issued = [] := rfl
  rw [hstart, List.nil_append] at hissued
  rw [commands, createAliViews, run_createAli hnext]
  rcases hissued with h | h
  · exact ⟨[], .inl rfl, by rw [List.append_nil]; exact h⟩
  · exact ⟨_, .inr rfl, h⟩

/-- If the modem refuses the first command, the keys are not used at all. -/
theorem commands_congr_of_refused (hnext : before.slots.getNext = .returned s)
    (hcloud : modem.exec (.ecmtCfgCloud s 2 1) ≠ .ok) :
    commands modem t before k = commands modem t before k' := by
  have hrefused : ∀ productKey deviceName deviceSecret : Text,
      (aliSetup modem t s productKey deviceName deviceSecret).run (atSetUp modem before s)
        = (.threw (atExecError (modem.exec (.ecmtCfgCloud s 2 1))),
            issue (.ecmtCfgCloud s 2 1) (atSetUp modem before s)) :=
    fun _ _ _ => run_bind_threw (run_execWith_failed hcloud _) _
  rw [commands, commands, createAliViews, createAliViews, run_createAli hnext, run_createAli hnext,
    run_onUnwind, run_onUnwind, run_bind_threw (hrefused ..), run_bind_threw (hrefused ..)]

/-! ### Their texts -/

/-- The texts of a command have no NUL in them. -/
def AtCommand.NoNul : AtCommand → Prop
  | .ecmtCfgAliauth _ productKey deviceName deviceSecret =>
    nul ∉ productKey ∧ nul ∉ deviceName ∧ nul ∉ deviceSecret
  | .ecmtOpen _ host _ => nul ∉ host
  | .ecmtConn _ clientId => nul ∉ clientId
  | .ecmtCfgCloud _ cloud dataType => 0 ≤ cloud ∧ 0 ≤ dataType
  | .ecmtDisc _ => True

/-- They are printed as they are. -/
theorem format_cString {cmd : AtCommand} (h : cmd.NoNul) : cmd.format cString = cmd.format id := by
  cases cmd with
  | ecmtCfgAliauth slot productKey deviceName deviceSecret =>
    obtain ⟨hproduct, hdevice, hsecret⟩ := h
    unfold AtCommand.format
    simp only [cString_of_not_mem hproduct, cString_of_not_mem hdevice,
      cString_of_not_mem hsecret, id]
  | ecmtOpen slot host port =>
    have hhost : nul ∉ host := h
    unfold AtCommand.format
    simp only [cString_of_not_mem hhost, id]
  | ecmtConn slot clientId =>
    have hid : nul ∉ clientId := h
    unfold AtCommand.format
    simp only [cString_of_not_mem hid, id]
  | ecmtCfgCloud slot cloud dataType => rfl
  | ecmtDisc slot => rfl

/-- There is no NUL in the filled format either. -/
theorem nul_not_mem_format {cmd : AtCommand} (h : cmd.NoNul) : nul ∉ cmd.format id := by
  have hslot : ∀ slot : Fin kSlots, nul ∉ formatD slot.val := fun slot => nul_not_mem_formatD _
  unfold AtCommand.format
  cases cmd with
  | ecmtCfgAliauth slot productKey deviceName deviceSecret =>
    obtain ⟨hproduct, hdevice, hsecret⟩ := h
    simp only [List.mem_append, id, hslot, hproduct, hdevice, hsecret, or_false]
    simp [nul]
  | ecmtOpen slot host port =>
    have hhost : nul ∉ host := h
    simp only [List.mem_append, id, hslot, hhost, nul_not_mem_formatD, or_false]
    simp [nul]
  | ecmtConn slot clientId =>
    have hid : nul ∉ clientId := h
    simp only [List.mem_append, id, hslot, hid, or_false]
    simp [nul]
  | ecmtCfgCloud slot cloud dataType =>
    obtain ⟨hcloud, htype⟩ := h
    obtain ⟨cloud, rfl⟩ := Int.eq_ofNat_of_zero_le hcloud
    obtain ⟨dataType, rfl⟩ := Int.eq_ofNat_of_zero_le htype
    simp only [List.mem_append, hslot, nul_not_mem_formatD, or_false]
    simp [nul]
  | ecmtDisc slot =>
    simp only [List.mem_append, hslot, or_false]
    simp [nul]

/-- **Such a command arrives** exactly when it fits into the send buffer. -/
theorem wire_eq_iff (beyond : Nat → Char) {cmd : AtCommand} (h : cmd.NoNul) :
    cmd.wire beyond = cmd.format id ↔ (cmd.format id).length < atCmdMaxLen := by
  rw [AtCommand.wire, format_cString h]
  exact atVprintf_eq_self_iff beyond (nul_not_mem_format h)

/-- The host of a product has no more NULs than its key. -/
theorem nul_not_mem_aliHost {productKey : Text} (h : nul ∉ productKey) :
    nul ∉ aliHost productKey := by
  rw [aliHost, List.mem_append, not_or]
  exact ⟨h, by decide⟩

/-- The set-up commands of keys without NULs. -/
theorem noNul_of_mem_setUp {productKey deviceName deviceSecret : Text} (hproduct : nul ∉ productKey)
    (hdevice : nul ∉ deviceName) (hsecret : nul ∉ deviceSecret) {cmd : AtCommand}
    (h : cmd ∈ setUpCommands s productKey deviceName deviceSecret) : cmd.NoNul := by
  simp only [setUpCommands, List.mem_cons, List.not_mem_nil, or_false] at h
  rcases h with rfl | rfl | rfl | rfl
  · exact ⟨by decide, by decide⟩
  · exact ⟨hproduct, hdevice, hsecret⟩
  · exact nul_not_mem_aliHost hproduct
  · exact hdevice

/-- The commands without keys fit. -/
theorem wire_of_noKeys (beyond : Nat → Char) {cmd : AtCommand}
    (h : cmd = .ecmtCfgCloud s 2 1 ∨ cmd = .ecmtDisc s) (k : AliKeys) :
    cmd.wire beyond = (k.filled cmd).format id := by
  have hlt := s.isLt
  have hslot : s = slot0 := Fin.ext (by unfold kSlots at hlt; show s.val = 0; omega)
  subst hslot
  rcases h with rfl | rfl
  · have hno : (AtCommand.ecmtCfgCloud slot0 2 1).NoNul := ⟨by decide, by decide⟩
    exact (wire_eq_iff beyond hno).mpr (by decide)
  · have hno : (AtCommand.ecmtDisc slot0).NoNul := trivial
    exact (wire_eq_iff beyond hno).mpr (by decide)

/-- Filling in the keys changes nothing of the commands that were made with them. -/
theorem filled_of_mem_setUp {cmd : AtCommand} (h : cmd ∈ k.setUp s) : k.filled cmd = cmd := by
  simp only [AliKeys.setUp, setUpCommands, List.mem_cons, List.not_mem_nil, or_false] at h
  rcases h with rfl | rfl | rfl | rfl <;> rfl

/-- The set-up commands of terminated views. -/
theorem setUpCommands_of_terminated (h : k.Terminated) (s : Fin kSlots) :
    setUpCommands s k.productKey.cStr k.deviceName.cStr k.deviceSecret.cStr = k.setUp s := by
  rw [StringView.cStr_of_terminated h.1, StringView.cStr_of_terminated h.2.1,
    StringView.cStr_of_terminated h.2.2]
  rfl

/-- A command of terminated views arrives as it should exactly when it fits. -/
theorem wire_setUp_iff (beyond : Nat → Char) {cmd : AtCommand} (h : cmd ∈ k.setUp s) :
    cmd.wire beyond = (k.filled cmd).format id ↔ (cmd.format id).length < atCmdMaxLen := by
  rw [filled_of_mem_setUp h]
  exact wire_eq_iff beyond
    (noNul_of_mem_setUp k.productKey.noNul k.deviceName.noNul k.deviceSecret.noNul h)

/-- The length of the `aliauth` command tells whether more than the views was read. -/
theorem terminated_of_wire (beyond : Nat → Char)
    (h : (AtCommand.ecmtCfgAliauth s k.productKey.cStr k.deviceName.cStr
        k.deviceSecret.cStr).wire beyond
      = (AtCommand.ecmtCfgAliauth s k.productKey.chars k.deviceName.chars
        k.deviceSecret.chars).format id) : k.Terminated := by
  -- as many characters are written as the format has, whether or not they fit
  have hlength := congrArg List.length h
  rw [AtCommand.wire, length_atVprintf] at hlength
  unfold AtCommand.format at hlength
  simp only [cString_of_not_mem (StringView.nul_not_mem_cStr _), id, List.length_append] at hlength
  have hproduct := k.productKey.length_chars_le
  have hdevice := k.deviceName.length_chars_le
  have hsecret := k.deviceSecret.length_chars_le
  exact ⟨StringView.terminated_of_length (by omega), StringView.terminated_of_length (by omega),
    StringView.terminated_of_length (by omega)⟩

/-! ### When they are exact -/

/-- If the commands are exact, the views are contained. -/
theorem contained_of_exact {beyond : Nat → Char} (h : Exact beyond modem t before k) :
    Contained modem before k := by
  intro s hnext hcloud
  obtain ⟨tail, -, hcommands⟩ := commands_eq modem t hnext k
  have hall : ∀ cmd ∈ attempted modem.exec (setUpCommands s k.productKey.cStr k.deviceName.cStr
      k.deviceSecret.cStr), cmd.wire beyond = (k.filled cmd).format id := by
    intro cmd hcmd
    apply h
    rw [hcommands]
    exact List.mem_append_left _ hcmd
  -- the modem gets at least the `aliauth` command
  have hterminated : k.Terminated := by
    apply terminated_of_wire beyond
    apply hall
    rw [setUpCommands, attempted, if_pos hcloud, attempted]
    exact List.mem_cons_of_mem _ List.mem_cons_self
  refine ⟨hterminated, fun cmd hcmd => ?_⟩
  -- now that the views are terminated, a command that is exact is one that fits
  rw [setUpCommands_of_terminated hterminated] at hall
  exact (wire_setUp_iff beyond (mem_of_mem_attempted hcmd)).mp (hall cmd hcmd)

/-- If the views are contained, the commands are exact. -/
theorem exact_of_contained {beyond : Nat → Char} (h : Contained modem before k) :
    Exact beyond modem t before k := by
  intro cmd hcmd
  rcases before.slots.getNext_cases with ⟨s, hnext⟩ | ⟨e, hnext⟩
  · obtain ⟨tail, htail, hcommands⟩ := commands_eq modem t hnext k
    rw [hcommands, List.mem_append] at hcmd
    rcases hcmd with hcmd | hcmd
    · by_cases hcloud : modem.exec (.ecmtCfgCloud s 2 1) = .ok
      · obtain ⟨hterminated, hfits⟩ := h s hnext hcloud
        rw [setUpCommands_of_terminated hterminated] at hcmd
        exact (wire_setUp_iff beyond (mem_of_mem_attempted hcmd)).mpr (hfits cmd hcmd)
      · rw [setUpCommands, attempted, if_neg hcloud, List.mem_singleton] at hcmd
        exact wire_of_noKeys beyond (.inl hcmd) k
    · rcases htail with rfl | rfl
      · cases hcmd
      · exact wire_of_noKeys beyond (.inr (List.mem_singleton.mp hcmd)) k
  · rw [commands_exhausted hnext] at hcmd
    cases hcmd

/-- Calls with the same characters issue the same commands, if the views of both are
    contained. -/
theorem commands_congr (hsame : k.SameChars k') (h : Contained modem before k)
    (h' : Contained modem before k') : commands modem t before k = commands modem t before k' := by
  rcases before.slots.getNext_cases with ⟨s, hnext⟩ | ⟨e, hnext⟩
  · by_cases hcloud : modem.exec (.ecmtCfgCloud s 2 1) = .ok
    · obtain ⟨hproduct, hdevice, hsecret⟩ := (h s hnext hcloud).1
      obtain ⟨hproduct', hdevice', hsecret'⟩ := (h' s hnext hcloud).1
      obtain ⟨hpk, hdn, hds⟩ := hsame
      have hviews : createAliViews modem t k = createAliViews modem t k' := by
        rw [createAliViews, createAliViews, StringView.cStr_of_terminated hproduct,
          StringView.cStr_of_terminated hdevice, StringView.cStr_of_terminated hsecret,
          StringView.cStr_of_terminated hproduct', StringView.cStr_of_terminated hdevice',
          StringView.cStr_of_terminated hsecret', hpk, hdn, hds]
      rw [commands, commands, hviews]
    · exact commands_congr_of_refused hnext hcloud
  · rw [commands_exhausted hnext, commands_exhausted hnext]

/-- **When the commands depend on the given texts only.**  The commands of two calls with the same
    characters are exact and identical if and only if the views of both calls are terminated and
    their commands fit into the send buffer, as far as the modem lets the calls come; and a single
    call is the case of two equal ones. -/
theorem exact_iff (beyond : Nat → Char) (modem : Modem) (t : Tid) (before : MqttFactory Tid)
    (k k' : AliKeys) (hsame : k.SameChars k') :
    (Exact beyond modem t before k ∧ Exact beyond modem t before k' ∧
        (commands modem t before k).map (AtCommand.wire beyond)
          = (commands modem t before k').map (AtCommand.wire beyond)) ↔
      Contained modem before k ∧ Contained modem before k' := by
  constructor
  · rintro ⟨h, h', -⟩
    exact ⟨contained_of_exact h, contained_of_exact h'⟩
  · rintro ⟨h, h'⟩
    refine ⟨exact_of_contained h, exact_of_contained h', ?_⟩
    rw [commands_congr hsame h h']

/-- A modem that takes every command. -/
def takingModem : Modem := ⟨fun _ => .ok, fun _ => none, 0⟩

/-- Keys of one text each. -/
def wholeKeys : AliKeys :=
  ⟨.whole "pk".toList (by decide), .whole "dn".toList (by decide), .whole "ds".toList (by decide)⟩

/-- The same, but the first is followed by more characters of its buffer. -/
def leakingKeys : AliKeys :=
  { wholeKeys with productKey := ⟨"pk123".toList, 0, 2, by decide, by decide⟩ }

/-- Keys that are whole texts. -/
theorem exact_iff_whole :
    (Exact (fun _ => nul) takingModem () (Quiet.new Unit).factory wholeKeys ∧
        Exact (fun _ => nul) takingModem () (Quiet.new Unit).factory wholeKeys ∧
        (commands takingModem () (Quiet.new Unit).factory wholeKeys).map
            (AtCommand.wire fun _ => nul)
          = (commands takingModem () (Quiet.new Unit).factory wholeKeys).map
            (AtCommand.wire fun _ => nul)) ↔
      Contained takingModem (Quiet.new Unit).factory wholeKeys ∧
        Contained takingModem (Quiet.new Unit).factory wholeKeys :=
  exact_iff (fun _ => nul) takingModem () (Quiet.new Unit).factory wholeKeys wholeKeys
    ⟨rfl, rfl, rfl⟩

/-- What stands behind a view goes to the modem. -/
theorem leaking_commands :
    leakingKeys.SameChars wholeKeys ∧
      ¬ Exact (fun _ => nul) takingModem () (Quiet.new Unit).factory leakingKeys ∧
      (commands takingModem () (Quiet.new Unit).factory leakingKeys).map
          (AtCommand.wire fun _ => nul)
        ≠ (commands takingModem () (Quiet.new Unit).factory wholeKeys).map
          (AtCommand.wire fun _ => nul) := by
  refine ⟨⟨by decide, rfl, rfl⟩, ?_, by decide +kernel⟩
  intro h
  have hterminated := (contained_of_exact h slot0 rfl rfl).1.1
  revert hterminated
  decide

end MqttFactory

end RtCharger.Devices
