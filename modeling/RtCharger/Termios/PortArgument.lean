import RtCharger.Hal.Port
import RtCharger.Termios.Cmd

namespace RtCharger.Termios

open Effect RtCharger.Hal RtCharger.Utilities

/-!
# Port arguments

`Cmd::get<Port>` reads an argument with `atoi` and makes an `AbsPort` of it, of which it checks
that it is valid.  The number is narrowed to 8 bits before the check.

* `IsInt` — a text writes an `int` in decimal, with or without a sign;
* `run_getPort` — what is returned for the text of an `int`, and when it is an error;
* `onlyRealPorts_iff` — which integers are taken for what they are;
* `run_relay` — the command that switches a relay.
-/

/-! ### `atoi` -/

/-- `atoi`: spaces, an optional sign and as many digits as there are; of a text whose number is an
    `int`. -/
def atoi (s : Text) : Int :=
  let signed := signOf16 (s.dropWhile isSpace)
  let n := decimal (signed.2.takeWhile Char.isDigit)
  if signed.1 then -(n : Int) else n

/-- The text writes the `int` in decimal, perhaps with a plus sign. -/
def IsInt (t : Text) (n : Int) : Prop :=
  (intMin ≤ n ∧ n ≤ intMax) ∧ ∃ ds, IsDigits ds ∧
    (((t = ds ∨ t = '+' :: ds) ∧ n = decimal ds) ∨ (t = '-' :: ds ∧ n = -(decimal ds : Int)))

/-- A text that begins with a digit has no sign. -/
theorem signOf16_of_isDigits {ds : Text} (h : IsDigits ds) : signOf16 ds = (false, ds) := by
  obtain ⟨hne, hall⟩ := h
  obtain ⟨c, cs, rfl⟩ := List.exists_cons_of_ne_nil hne
  have hc := hall c List.mem_cons_self
  unfold signOf16
  split
  · rename_i heq
    obtain ⟨rfl, -⟩ := List.cons.inj heq
    cases hc
  · rename_i heq
    obtain ⟨rfl, -⟩ := List.cons.inj heq
    cases hc
  · rfl

/-- A digit is no space. -/
theorem isSpace_of_isDigit {c : Char} (h : c.isDigit = true) : isSpace c = false := by
  have hrange : 48 ≤ c.toNat := by
    simp only [Char.isDigit, Bool.and_eq_true, decide_eq_true_eq] at h
    exact h.1
  have hne : c ≠ ' ' := by
    rintro rfl
    cases h
  simp [isSpace, hne]
  omega

theorem dropWhile_isSpace_of_isDigits {ds : Text} (h : IsDigits ds) :
    ds.dropWhile isSpace = ds := by
  obtain ⟨c, cs, rfl⟩ := List.exists_cons_of_ne_nil h.1
  have hspace := isSpace_of_isDigit (h.2 c List.mem_cons_self)
  simp [hspace]

/-- **`atoi`** reads the text of an `int`. -/
theorem atoi_of_isInt {t : Text} {n : Int} (h : IsInt t n) : atoi t = n := by
  obtain ⟨-, ds, hds, ⟨rfl | rfl, rfl⟩ | ⟨rfl, rfl⟩⟩ := h
  · simp [atoi, dropWhile_isSpace_of_isDigits hds, signOf16_of_isDigits hds,
      takeWhile_of_isDigits hds]
  · have hdrop : ('+' :: ds).dropWhile isSpace = '+' :: ds := rfl
    have hsign : signOf16 ('+' :: ds) = (false, ds) := rfl
    simp [atoi, hdrop, hsign, takeWhile_of_isDigits hds]
  · have hdrop : ('-' :: ds).dropWhile isSpace = '-' :: ds := rfl
    have hsign : signOf16 ('-' :: ds) = (true, ds) := rfl
    simp [atoi, hdrop, hsign, takeWhile_of_isDigits hds]

/-! ### `Cmd::get<Port>` -/

/-- `Cmd::get<Port>`. -/
def getPort (kPortNum : Nat) (name : Option Text) : Comp Exn Cmd AbsPort := do
  let arg ← Cmd.getFrom name
  let result := AbsPort.ofInt (atoi arg)
  if result.validate kPortNum then pure result else raise (.std "port out of range")

/-- The argument is taken from the command line before the check, and it is the remainder that is
    checked. -/
theorem run_getPort {kPortNum : Nat} {name : Option Text} {cmd cmd' : Cmd} {t : Text} {n : Int}
    (hfrom : (Cmd.getFrom name).run cmd = (.returned t, cmd')) (ht : IsInt t n) :
    (getPort kPortNum name).run cmd
      = if (AbsPort.ofInt n).validate kPortNum then (.returned (AbsPort.ofInt n), cmd')
        else (.threw (.std "port out of range"), cmd') := by
  rw [getPort, run_bind_returned hfrom, atoi_of_isInt ht]
  show (if _ then pure _ else raise _ : Comp Exn Cmd AbsPort).run cmd' = _
  split_ifs
  · rfl
  · rfl

/-- **Only real ports are accepted**: a port from 1 to `kPortNum` is returned, and its instance is
    the one that `Port::to` finds; any other number is an error. -/
structure OnlyRealPorts (kPortNum : Nat) (name : Option Text) (cmd cmd' : Cmd) (n : Int) :
    Prop where
  real : 1 ≤ n → n ≤ kPortNum → ∃ p, (getPort kPortNum name).run cmd = (.returned p, cmd') ∧
    (p.value.toNat : Int) = n ∧ Port.to kPortNum id p.toRaw = some p
  other : ¬(1 ≤ n ∧ n ≤ kPortNum) →
    (getPort kPortNum name).run cmd = (.threw (.std "port out of range"), cmd')

section OnlyReal

variable {kPortNum : Nat} {name : Option Text} {cmd cmd' : Cmd} {t : Text} {n : Int}

/-- What the check makes of the remainder is right about a port. -/
theorem getPort_real (hnum : kPortNum ≤ 255)
    (hfrom : (Cmd.getFrom name).run cmd = (.returned t, cmd')) (ht : IsInt t n) (hlo : 1 ≤ n)
    (hhi : n ≤ kPortNum) :
    ∃ p, (getPort kPortNum name).run cmd = (.returned p, cmd') ∧ (p.value.toNat : Int) = n ∧
      Port.to kPortNum id p.toRaw = some p := by
  have hmod := AbsPort.toNat_ofInt n
  have hvalid : (AbsPort.ofInt n).validate kPortNum = true := by
    rw [AbsPort.validate_ofInt_iff hnum]
    omega
  refine ⟨AbsPort.ofInt n, ?_, by omega, Port.to_of_validate id hvalid⟩
  rw [run_getPort hfrom ht, if_pos hvalid]

/-- It is an error exactly when the remainder is no port. -/
theorem getPort_threw_iff (hnum : kPortNum ≤ 255)
    (hfrom : (Cmd.getFrom name).run cmd = (.returned t, cmd')) (ht : IsInt t n) :
    (getPort kPortNum name).run cmd = (.threw (.std "port out of range"), cmd') ↔
      ¬(1 ≤ n % 256 ∧ n % 256 ≤ kPortNum) := by
  rw [run_getPort hfrom ht, ← AbsPort.validate_ofInt_iff hnum]
  by_cases hvalid : (AbsPort.ofInt n).validate kPortNum = true
  · simp [hvalid]
  · simp [hvalid]

/-- **A number is taken for what it is** exactly if it has 8 bits, or if what is left of it in 8
    bits is no port either. -/
theorem onlyRealPorts_iff (hnum : 1 ≤ kPortNum ∧ kPortNum ≤ 255)
    (hfrom : (Cmd.getFrom name).run cmd = (.returned t, cmd')) (ht : IsInt t n) :
    OnlyRealPorts kPortNum name cmd cmd' n ↔
      (0 ≤ n ∧ n ≤ 255) ∨ n % 256 = 0 ∨ (kPortNum : Int) < n % 256 := by
  have hthrew := getPort_threw_iff hnum.2 hfrom ht
  constructor
  · intro hreal
    by_cases hin : 1 ≤ n ∧ n ≤ kPortNum
    · omega
    · have hnot := hthrew.mp (hreal.other hin)
      omega
  · intro hcond
    refine ⟨fun hlo hhi => getPort_real hnum.2 hfrom ht hlo hhi, fun hout => ?_⟩
    rw [hthrew]
    omega

end OnlyReal

/-- `relay 2 on` on a board with two relays. -/
theorem onlyRealPorts_iff_two :
    OnlyRealPorts 2 none (Cmd.new [[], ['2'], ['o', 'n']]) (Cmd.new [[], ['o', 'n']]) 2 ↔
      ((0 : Int) ≤ 2 ∧ (2 : Int) ≤ 255) ∨ (2 : Int) % 256 = 0 ∨ ((2 : Nat) : Int) < 2 % 256 :=
  onlyRealPorts_iff (t := ['2']) (by decide) rfl
    ⟨by decide, ['2'], by decide, Or.inl ⟨Or.inl rfl, rfl⟩⟩

/-- `257` is taken for the port 1. -/
theorem accepts_257 :
    ¬ OnlyRealPorts 2 none (Cmd.new [[], ['2', '5', '7'], ['o', 'n']]) (Cmd.new [[], ['o', 'n']])
      257 := by
  intro h
  have hthrew := h.other (by decide)
  cases hthrew

/-! ### The command `relay` -/

/-- `Relay::Value`. -/
inductive RelayValue where
  | on
  | off
deriving DecidableEq, Repr

/-- The relays of the ports, and what was printed. -/
structure Board where
  relays : AbsPort → Option RelayValue
  printed : List String

/-- `rt_kprintf`. -/
def rtKprintf (line : String) : Comp Exn Board Unit :=
  modifyState fun b => { b with printed := b.printed ++ [line] }

/-- `relay->value = v`. -/
def setRelay (relay : Option AbsPort) (v : RelayValue) : Comp Exn Board Unit := do
  let port ← ofOption relay
  modifyState fun b => { b with relays := Function.update b.relays port (some v) }

/-- `Cmd::operator()`. -/
def Cmd.call (cb : Comp Exn Board Unit) : Comp Exn Board Unit :=
  tryCatch (fun _ => true) cb fun e => match e with
    | .std what => rtKprintf ("cmd err: " ++ what ++ "\n")
    | .other    => rtKprintf "unknown err occured\n"

/-- What `relay` selects from. -/
def relayValues (relay : Option AbsPort) : List (Text × Comp Exn Board Unit) :=
  [(['o', 'n'], setRelay relay .on), (['o', 'f', 'f'], setRelay relay .off)]

/-- The command `relay`. -/
def relay (kPortNum : Nat) (argv : List Text) : Comp Exn Board Unit :=
  Cmd.call do
    let (port, cmd) ← withLocal (Cmd.new argv) (getPort kPortNum none)
    let relay := Port.to kPortNum id port.toRaw
    let (selected, _) ← withLocal cmd (Cmd.select none (relayValues relay))
    selected

/-- The words of a value. -/
def RelayValue.text : RelayValue → Text
  | .on  => ['o', 'n']
  | .off => ['o', 'f', 'f']

/-- An integer is a positional argument. -/
theorem isName_of_isInt {t : Text} {n : Int} (h : IsInt t n) : isName t = false := by
  obtain ⟨-, ds, hds, ⟨rfl | rfl, -⟩ | ⟨rfl, -⟩⟩ := h
  · obtain ⟨c, cs, rfl⟩ := List.exists_cons_of_ne_nil hds.1
    have hc := hds.2 c List.mem_cons_self
    have hne : '-' ≠ c := by
      rintro rfl
      cases hc
    simp [isName, List.isPrefixOf, hne]
  · simp [isName, List.isPrefixOf]
  · obtain ⟨c, cs, rfl⟩ := List.exists_cons_of_ne_nil hds.1
    have hc := hds.2 c List.mem_cons_self
    have hne : '-' ≠ c := by
      rintro rfl
      cases hc
    simp [isName, List.isPrefixOf, hne]

theorem isName_text (v : RelayValue) : isName v.text = false := by cases v <;> decide

/-- **The command** sets the relay of the port that the number becomes in 8 bits, if that is one,
    and otherwise prints an error; no other relay is touched. -/
theorem run_relay {kPortNum : Nat} {t : Text} {n : Int} (ht : IsInt t n) (prog : Text)
    (v : RelayValue) (b : Board) :
    (relay kPortNum [prog, t, v.text]).run b
      = if (AbsPort.ofInt n).validate kPortNum then
          (.returned (),
            { b with relays := Function.update b.relays (AbsPort.ofInt n) (some v) })
        else (.returned (), { b with printed := b.printed ++ ["cmd err: port out of range\n"] }) := by
  have hcmd : Cmd.new [prog, t, v.text] = ⟨[t, v.text], fun _ => none⟩ := by
    show Cmd.scan (t :: [v.text]) _ = _
    rw [Cmd.scan_positional (isName_of_isInt ht), Cmd.scan_positional (isName_text v)]
    rfl
  have hfrom : (Cmd.getFrom none).run ⟨[t, v.text], fun _ => none⟩
      = (.returned t, ⟨[v.text], fun _ => none⟩) := Cmd.run_getFrom_cons _ _ _
  have hport : (getPort kPortNum none).run ⟨[t, v.text], fun _ => none⟩ = _ := run_getPort hfrom ht
  split_ifs at hport ⊢ with hvalid
  · have hselect : (Cmd.select none (relayValues (some (AbsPort.ofInt n)))).run
          ⟨[v.text], fun _ => none⟩
        = (.returned (setRelay (some (AbsPort.ofInt n)) v), ⟨[], fun _ => none⟩) := by
      apply Cmd.run_select_returned (Cmd.run_getFrom_cons v.text [] _)
      cases v <;> rfl
    rw [relay, Cmd.call, hcmd]
    apply run_tryCatch_returned
    rw [run_bind_returned (run_withLocal_returned hport b)]
    simp only [Port.to_of_validate id hvalid, id_eq]
    rw [run_bind_returned (run_withLocal_returned hselect b)]
    rfl
  · have hthrew : (withLocal ⟨[t, v.text], fun _ => none⟩ (getPort kPortNum none)).run b
        = (.threw (.std "port out of range"), b) := run_withLocal_threw hport b
    rw [relay, Cmd.call, hcmd, run_tryCatch_threw (run_bind_threw hthrew _) rfl]
    rfl

end RtCharger.Termios
