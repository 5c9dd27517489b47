import RtCharger.Lib.LineBuffer
import RtCharger.Lib.StepSystem
import RtCharger.Termios.MshLines

namespace RtCharger.Termios.Shell

open LineBuffer RtCharger.Utilities RtCharger.Termios.Msh
open RtCharger.Net (nul cString)

/-!
# The line editor of the console

`finsh_thread_entry` takes one character after another from the console: it edits a line in a
buffer, with a cursor, a history and the completion of names, echoes what it does, and has the
line run when it ends.

* `receive` — one pass of the loop of `finsh_thread_entry`; `none` is an access outside of a
  buffer;
* `pushHistory`, `fromHistory`, `mshAutoComplete` — what it calls;
* `Console`, `Console.step` — the shell with everything that it has printed and called.
-/

/-- `FINSH_CMD_SIZE`. -/
def finshCmdSize : Nat := 80

/-- `FINSH_HISTORY_LINES`. -/
def finshHistoryLines : Nat := 5

/-- `enum input_stat`. -/
inductive InputStat where
  | waitNormal
  | waitSpecKey
  | waitFuncKey
deriving DecidableEq, Repr

/-- `struct finsh_shell`. -/
structure FinshShell where
  stat : InputStat
  echoMode : Bool
  currentHistory : Nat
  historyCount : Nat
  cmdHistory : List Text
  line : Text
  linePosition : Nat
  lineCurpos : Nat
deriving DecidableEq, Repr

/-- The shell as `finsh_system_init` allocates it, when its thread starts. -/
def FinshShell.init : FinshShell where
  stat := .waitNormal
  echoMode := true
  currentHistory := 0
  historyCount := 0
  cmdHistory := List.replicate finshHistoryLines (List.replicate finshCmdSize nul)
  line := List.replicate (finshCmdSize + 1) nul
  linePosition := 0
  lineCurpos := 0

/-- The string at the beginning of a buffer; without a NUL the buffer is left. -/
def str (buf : Text) : Option Text := if nul ∈ buf then some (cString buf) else none

/-! ### The history -/

/-- What `shell_push_history` writes into a line of the history. -/
def entry (s : FinshShell) : Option Text :=
  overwrite (List.replicate finshCmdSize nul) (s.line.take s.linePosition)

/-- The line is the last one of the history. -/
def sameAsLast (s : FinshShell) : Option Bool :=
  if s.historyCount = 0 then some false
  else (s.cmdHistory[s.historyCount - 1]?).map fun last => last == s.line.take finshCmdSize

/-- `shell_push_history`. -/
def pushHistory (s : FinshShell) : Option FinshShell := do
  if s.linePosition = 0 then return { s with currentHistory := s.historyCount }
  else if finshHistoryLines ≤ s.historyCount then
    let last ← s.cmdHistory[finshHistoryLines - 1]?
    if last = s.line.take finshCmdSize then
      return { s with currentHistory := s.historyCount }
    else
      let entry ← entry s
      return { s with
        cmdHistory := s.cmdHistory.tail ++ [entry]
        historyCount := finshHistoryLines
        currentHistory := finshHistoryLines }
  else
    let same ← sameAsLast s
    if same = true then return { s with currentHistory := s.historyCount }
    else
      let entry ← entry s
      return { s with
        cmdHistory := s.cmdHistory.set s.historyCount entry
        historyCount := s.historyCount + 1
        currentHistory := s.historyCount + 1 }

section Keys

variable (table : List Syscall) (prompt : Text)

/-- A line of the history is copied into the line, and `shell_handle_history` prints it. -/
def fromHistory (s : FinshShell) : Option (FinshShell × List Out) := do
  let cmd ← s.cmdHistory[s.currentHistory]?
  let line ← overwrite s.line cmd
  let text ← str line
  return ({ s with line := line, linePosition := text.length, lineCurpos := text.length },
    [.clearRow, .text (prompt ++ text)])

def upKey (s : FinshShell) : Option (FinshShell × List Out) :=
  if 0 < s.currentHistory then fromHistory prompt { s with currentHistory := s.currentHistory - 1 }
  else some (s, [])

def downKey (s : FinshShell) : Option (FinshShell × List Out) :=
  if s.currentHistory + 1 < s.historyCount then
    fromHistory prompt { s with currentHistory := s.currentHistory + 1 }
  else if s.historyCount ≠ 0 then
    fromHistory prompt { s with currentHistory := s.historyCount - 1 }
  else some (s, [])

def leftKey (s : FinshShell) : Option (FinshShell × List Out) :=
  if s.lineCurpos ≠ 0 then
    some ({ s with lineCurpos := s.lineCurpos - 1 }, [.text ['\x08']])
  else some (s, [])

def rightKey (s : FinshShell) : Option (FinshShell × List Out) :=
  if s.lineCurpos < s.linePosition then
    (s.line[s.lineCurpos]?).map fun c =>
      ({ s with lineCurpos := s.lineCurpos + 1 }, [.text [c]])
  else some (s, [])

/-! ### The completion of names -/

/-- `str_common`. -/
def strCommon : Text → Text → Nat
  | a :: str1, b :: str2 => if a = b then strCommon str1 str2 + 1 else 0
  | _, _                 => 0

/-- `rt_strncpy`. -/
def rtStrncpy (dst src : Text) (n : Nat) : Option Text :=
  overwrite dst ((src ++ List.replicate n nul).take n)

/-- What `msh_help` prints. -/
def mshHelp : Text :=
  "RT-Thread shell commands:\n".toList ++
    ((table.filter fun call => cmdPrefix.isPrefixOf call.name).flatMap fun call =>
      call.cmdName ++ List.replicate (16 - call.cmdName.length) ' ' ++ " - ".toList ++
        call.desc ++ ['\n']) ++ ['\n']

/-- Where the loop of `msh_auto_complete` is: `name_ptr`, `min_length` and what was printed. -/
structure Completion where
  namePtr : Option Text
  minLength : Nat
  printed : Text
deriving DecidableEq, Repr

/-- One pass of the loop over the table. -/
def Completion.pass (word : Text) (s : Completion) (call : Syscall) : Completion :=
  if cmdPrefix.isPrefixOf call.name && word.isPrefixOf call.cmdName then
    let (namePtr, minLength) :=
      if s.minLength = 0 then (some call.cmdName, call.cmdName.length)
      else (s.namePtr, s.minLength)
    let length := strCommon (namePtr.getD []) call.cmdName
    { namePtr := namePtr
      minLength := if length < minLength then length else minLength
      printed := s.printed ++ call.cmdName ++ ['\n'] }
  else s

/-- `msh_auto_complete`: the buffer with the completed name, and what is printed. -/
def mshAutoComplete (line : Text) : Option (Text × Text) := do
  let word ← str line
  if word = [] then return (line, mshHelp table)
  else
    let s := table.foldl (Completion.pass word) ⟨none, 0, []⟩
    match s.namePtr with
    | some name => return (← rtStrncpy line name s.minLength, s.printed)
    | none      => return (line, s.printed)

/-- The tab key, with `shell_auto_complete`. -/
def tabKey (s : FinshShell) : Option (FinshShell × List Out) := do
  let (line, printed) ← mshAutoComplete table s.line
  let text ← str line
  return ({ s with line := line, linePosition := text.length, lineCurpos := text.length },
    [.text (List.replicate s.lineCurpos '\x08' ++ ['\n'] ++ printed ++ prompt ++ text)])

/-! ### Editing the line -/

/-- The backspace key. -/
def backspaceKey (s : FinshShell) : Option (FinshShell × List Out) := do
  if s.lineCurpos = 0 then return (s, [])
  else
    let position := s.linePosition - 1
    let curpos := s.lineCurpos - 1
    if curpos < position then
      let line ← move s.line curpos (curpos + 1) (position - curpos)
      let line ← poke line position nul
      let rest ← str (line.drop curpos)
      return ({ s with line := line, linePosition := position, lineCurpos := curpos },
        [.text ('\x08' :: rest ++ [' ', ' ', '\x08'] ++
          List.replicate (position - curpos + 1) '\x08')])
    else
      let line ← poke s.line position nul
      return ({ s with line := line, linePosition := position, lineCurpos := curpos },
        [.text ['\x08', ' ', '\x08']])

/-- The end of the line: it is run, and a new one begins. -/
def enterKey (s : FinshShell) : Option (FinshShell × List Out) := do
  let s ← pushHistory s
  let (out, _) ← mshExec table s.line s.linePosition
  return ({ s with
      line := List.replicate (finshCmdSize + 1) nul
      linePosition := 0
      lineCurpos := 0 },
    .text (if s.echoMode then ['\n'] else []) :: out ++ [.text prompt])

/-- A normal character. -/
def insertKey (s : FinshShell) (ch : Char) : Option (FinshShell × List Out) := do
  -- it's a large line, discard it
  let s := if finshCmdSize ≤ s.linePosition then { s with linePosition := 0 } else s
  let (line, printed) ←
    if s.lineCurpos < s.linePosition then do
      let line ← move s.line (s.lineCurpos + 1) s.lineCurpos (s.linePosition - s.lineCurpos)
      let line ← poke line s.lineCurpos ch
      let rest ← str (line.drop s.lineCurpos)
      some (line, (if s.echoMode then rest else []) ++
        List.replicate (s.linePosition - s.lineCurpos) '\x08')
    else do
      let line ← poke s.line s.linePosition ch
      some (line, if s.echoMode then [ch] else [])
  let s := { s with
    line := line, linePosition := s.linePosition + 1, lineCurpos := s.lineCurpos + 1 }
  return (if finshCmdSize ≤ s.linePosition then { s with linePosition := 0, lineCurpos := 0 }
    else s, [.text printed])

/-- What a character does that does not belong to the code of a key. -/
def normalKey (s : FinshShell) (ch : Char) : Option (FinshShell × List Out) :=
  if ch = nul ∨ ch = '\xff' then some (s, [])
  else if ch = '\t' then tabKey table prompt s
  else if ch = '\x7f' ∨ ch = '\x08' then backspaceKey s
  else if ch = '\r' ∨ ch = '\n' then enterKey table prompt s
  else insertKey s ch

/-- One pass of the loop of `finsh_thread_entry`. -/
def receive (s : FinshShell) (ch : Char) : Option (FinshShell × List Out) :=
  if ch = '\x1b' then some ({ s with stat := .waitSpecKey }, [])
  else match s.stat with
    | .waitSpecKey =>
      if ch = '[' then some ({ s with stat := .waitFuncKey }, [])
      else normalKey table prompt { s with stat := .waitNormal } ch
    | .waitFuncKey =>
      let s := { s with stat := .waitNormal }
      if ch = 'A' then upKey prompt s
      else if ch = 'B' then downKey prompt s
      else if ch = 'D' then leftKey s
      else if ch = 'C' then rightKey s
      else normalKey table prompt s ch
    | .waitNormal => normalKey table prompt s ch

end Keys

/-- The shell, and what it has printed and called. -/
structure Console where
  shell : FinshShell
  out : List Out
deriving DecidableEq, Repr

/-- The thread begins with its prompt. -/
def Console.init (prompt : Text) : Console := ⟨.init, [.text prompt]⟩

/-- A character arrives. -/
def Console.step (table : List Syscall) (prompt : Text) (s : Console) (ch : Char) :
    Option Console :=
  (receive table prompt s.shell ch).map fun r => ⟨r.1, s.out ++ r.2⟩

end RtCharger.Termios.Shell
