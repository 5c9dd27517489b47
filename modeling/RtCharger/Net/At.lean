import RtCharger.Lib.Triple
import RtCharger.Kernel.Event

namespace RtCharger.Net

open Effect RtCharger.Kernel

/-!
# Running AT commands

`At::execWith` of `at.hxx`: a command is given to the modem, and anything but its success is
thrown.  The modem is a table of the results of `at_obj_exec_cmd`, and the caller's state keeps
the commands that were issued.

* `run_execWith_ok`, `run_execWith_failed` — the two ways a command ends;
* `triple_execWith` — the rule for a command.
-/

/-- What a kernel call returns for a status. -/
def statusCode : RtErr → Int
  | .ok      => 0
  | .error   => -1
  | .timeout => -2
  | .full    => -3
  | .inval   => -10

/-- `AtExecError`. -/
def atExecError (ret : RtErr) : Exn := .std ("at error: " ++ toString (statusCode ret))

/-- `AtCompError`. -/
def atCompError (what : String) : Exn := .std what

/-- `RtError`, which has the same text. -/
def rtError (result : RtErr) : Exn := .std ("at error: " ++ toString (statusCode result))

variable {σ Cmd : Type}

/-- `at_obj_exec_cmd`. -/
def atObjExecCmd (modem : Cmd → RtErr) (issue : Cmd → σ → σ) (cmd : Cmd) : Comp Exn σ RtErr := do
  modifyState (issue cmd)
  pure (modem cmd)

/-- `At::execWith`. -/
def execWith (modem : Cmd → RtErr) (issue : Cmd → σ → σ) (cmd : Cmd) : Comp Exn σ Unit := do
  let ret ← atObjExecCmd modem issue cmd
  if ret ≠ .ok then raise (atExecError ret)
  pure ()

variable {modem : Cmd → RtErr} {issue : Cmd → σ → σ} {cmd : Cmd}

/-- A command that succeeds. -/
theorem run_execWith_ok (h : modem cmd = .ok) (s : σ) :
    (execWith modem issue cmd).run s = (.returned (), issue cmd s) := by
  show execWith modem issue cmd s = _
  simp [execWith, atObjExecCmd, bind, Comp.bind, pure, modifyState, h]

/-- A command that fails. -/
theorem run_execWith_failed (h : modem cmd ≠ .ok) (s : σ) :
    (execWith modem issue cmd).run s = (.threw (atExecError (modem cmd)), issue cmd s) := by
  show execWith modem issue cmd s = _
  simp [execWith, atObjExecCmd, bind, Comp.bind, pure, modifyState, raise, h]

/-- **The rule for a command.**  It is issued, and the caller goes on only if it succeeded. -/
theorem triple_execWith {P : σ → Prop} {Q : Unit → σ → Prop} {E : Exn → σ → Prop}
    (hok : modem cmd = .ok → ∀ s, P s → Q () (issue cmd s))
    (hfailed : modem cmd ≠ .ok → ∀ s, P s → E (atExecError (modem cmd)) (issue cmd s)) :
    Triple P (execWith modem issue cmd) Q E := by
  intro s hs
  by_cases h : modem cmd = .ok
  · exact Or.inl ⟨(), issue cmd s, run_execWith_ok h s, hok h s hs⟩
  · exact Or.inr ⟨_, issue cmd s, run_execWith_failed h s, hfailed h s hs⟩

/-! ### Commands in sequence -/

section Sequence

variable {α β : Type}

/-- Of commands that are given one after the other, those up to the first that fails. -/
def attempted (modem : Cmd → RtErr) : List Cmd → List Cmd
  | []          => []
  | cmd :: cmds => cmd :: if modem cmd = .ok then attempted modem cmds else []

/-- However the computation ends, the commands that it adds to those issued are the ones of `cmds`
    up to the first that fails. -/
def Attempts (modem : Cmd → RtErr) (issued : σ → List Cmd) (c : Comp Exn σ α)
    (cmds : List Cmd) : Prop :=
  ∀ s, issued (c.run s).2 = issued s ++ attempted modem cmds

theorem mem_of_mem_attempted {cmds : List Cmd} (h : cmd ∈ attempted modem cmds) : cmd ∈ cmds := by
  induction cmds with
  | nil => cases h
  | cons c cmds ih =>
    rw [attempted, List.mem_cons] at h
    rcases h with rfl | h
    · exact List.mem_cons_self
    · split_ifs at h
      · exact List.mem_cons_of_mem _ (ih h)
      · cases h

variable {issued : σ → List Cmd}

/-- A computation that issues nothing. -/
theorem attempts_nil {c : Comp Exn σ α} (h : ∀ s, issued (c.run s).2 = issued s) :
    Attempts modem issued c [] := by
  intro s
  rw [h s, attempted, List.append_nil]

/-- **First a command**, and then the others if it succeeded. -/
theorem Attempts.execWith_bind (hissue : ∀ cmd s, issued (issue cmd s) = issued s ++ [cmd])
    {f : Unit → Comp Exn σ α} {cmds : List Cmd} (h : Attempts modem issued (f ()) cmds) :
    Attempts modem issued (execWith modem issue cmd >>= f) (cmd :: cmds) := by
  intro s
  rw [attempted]
  by_cases hok : modem cmd = .ok
  · rw [run_bind_returned (run_execWith_ok hok s), h, hissue, if_pos hok, List.append_assoc,
      List.singleton_append]
  · rw [run_bind_threw (run_execWith_failed hok s), hissue, if_neg hok]

/-- First some commands, and then nothing more. -/
theorem Attempts.bind_nil {c : Comp Exn σ α} {f : α → Comp Exn σ β} {cmds : List Cmd}
    (h : Attempts modem issued c cmds) (hf : ∀ a, Attempts modem issued (f a) []) :
    Attempts modem issued (c >>= f) cmds := by
  intro s
  have hc := h s
  rcases hrun : c.run s with ⟨o, s'⟩
  rw [hrun] at hc
  rw [run_bind, hrun]
  cases o with
  | returned a =>
    rw [← hc]
    show issued ((f a).run s').2 = _
    rw [hf a s', attempted, List.append_nil]
  | threw e => exact hc
  | terminated => exact hc
  | undefined => exact hc

/-- A body and what is done while its exception unwinds. -/
theorem Attempts.onUnwind {dtor : Comp Exn σ Unit} {c : Comp Exn σ α} {cmds : List Cmd}
    (h : Attempts modem issued c cmds) (hdtor : Attempts modem issued dtor [cmd]) (s : σ) :
    issued ((Effect.onUnwind dtor c).run s).2 = issued s ++ attempted modem cmds ∨
      issued ((Effect.onUnwind dtor c).run s).2 = issued s ++ attempted modem cmds ++ [cmd] := by
  have hc := h s
  rcases hrun : c.run s with ⟨o, s'⟩
  rw [hrun] at hc
  have hd := hdtor s'
  have hone : attempted modem [cmd] = [cmd] := by
    rw [attempted]
    split_ifs <;> rfl
  rw [hone, hc] at hd
  rw [run_onUnwind, hrun]
  cases o with
  | threw e =>
    right
    rw [← hd]
    dsimp only
    rcases dtor.run s' with ⟨o', s''⟩
    cases o' <;> rfl
  | returned a => exact .inl hc
  | terminated => exact .inl hc
  | undefined => exact .inl hc

end Sequence

end RtCharger.Net
