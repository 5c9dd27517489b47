import Mathlib.Data.List.Basic
import RtCharger.Termios.Shell

namespace RtCharger.Termios.Shell

open StepSystem LineBuffer RtCharger.Utilities RtCharger.Termios.Msh
open RtCharger.Net (nul cString)

/-!
# What the line editor is for

Seen from the keyboard there is a line with a cursor, a history of lines, and the names of the
commands.  As long as the line stays shorter than its buffer the shell does with its buffers what
one does with these.

* `Session`, `Session.next` — the line, the history, and what a character makes of them;
* `complete`, `prefix_complete` — a name is completed by what all names have in common that begin
  with it;
* `Holds` — the buffers of the shell hold a session;
* `Holds.receive`, `run_follows`, `line_edited` — one character, and all that is typed;
* `tab_completes` — what the tab key writes and prints.
-/

/-! ### The session -/

/-- The names that begin with a text. -/
def names (table : List Syscall) (text : Text) : List Text :=
  (table.filter fun call =>
    cmdPrefix.isPrefixOf call.name && text.isPrefixOf call.cmdName).map Syscall.cmdName

/-- The text with what follows it in all names that begin with it. -/
def complete (table : List Syscall) (text : Text) : Text :=
  match names table text with
  | []            => text
  | name :: names => if text = [] then [] else names.foldl commonPrefix name

/-- The history with one line more.  An empty line is not remembered, and a line that is typed
    once more is not either. -/
def remember (history : List Text) (text : Text) : List Text :=
  if text = [] ∨ history.getLast? = some text then history
  else if finshHistoryLines ≤ history.length then history.tail ++ [text]
  else history ++ [text]

/-- What one sees: the line with its cursor, the history and the place in it, what was printed
    and called, and how much of the code of a key there is. -/
structure Session where
  stat : InputStat
  edit : Zipper Char
  history : List Text
  place : Nat
  out : List Out
deriving DecidableEq, Repr

namespace Session

/-- The shell when it has printed its prompt. -/
def init (prompt : Text) : Session := ⟨.waitNormal, .atEnd [], [], 0, [.text prompt]⟩

def print (s : Session) (out : List Out) : Session := { s with out := s.out ++ out }

section Keys

variable (table : List Syscall) (prompt : Text)

/-- A line of the history takes the place of the line. -/
def goTo (s : Session) (place : Nat) : Session :=
  { s with
    edit := .atEnd (s.history.getD place [])
    place := place
    out := s.out ++ [.clearRow, .text (prompt ++ s.history.getD place [])] }

def up (s : Session) : Session := if 0 < s.place then s.goTo prompt (s.place - 1) else s

def down (s : Session) : Session :=
  if s.history = [] then s
  else s.goTo prompt (if s.place + 1 < s.history.length then s.place + 1 else s.history.length - 1)

def left (s : Session) : Session :=
  { s with
    edit := s.edit.left
    out := s.out ++ if s.edit.before = [] then [] else [.text ['\x08']] }

def right (s : Session) : Session :=
  { s with
    edit := s.edit.right
    out := s.out ++ if s.edit.after = [] then [] else [.text s.edit.after.head?.toList] }

def tab (s : Session) : Session :=
  { s with
    edit := .atEnd (complete table s.edit.text)
    out := s.out ++ [.text (List.replicate s.edit.before.length '\x08' ++ ['\n'] ++
      (if s.edit.text = [] then mshHelp table
        else (names table s.edit.text).flatMap fun name => name ++ ['\n']) ++
      prompt ++ complete table s.edit.text)] }

def backspace (s : Session) : Session :=
  { s with
    edit := s.edit.erase
    out := s.out ++
      if s.edit.before = [] then []
      else if s.edit.after = [] then [.text ['\x08', ' ', '\x08']]
      else [.text ('\x08' :: s.edit.after ++ [' ', ' ', '\x08'] ++
        List.replicate (s.edit.after.length + 1) '\x08')] }

def enter (s : Session) : Session :=
  { s with
    edit := .atEnd []
    history := remember s.history s.edit.text
    place := (remember s.history s.edit.text).length
    out := s.out ++ (.text ['\n'] :: (answer table s.edit.text).1 ++ [.text prompt]) }

def insert (s : Session) (ch : Char) : Session :=
  { s with
    edit := s.edit.insert ch
    out := s.out ++ [.text (ch :: s.edit.after ++ List.replicate s.edit.after.length '\x08')] }

def normal (s : Session) (ch : Char) : Session :=
  if ch = nul ∨ ch = '\xff' then s
  else if ch = '\t' then s.tab table prompt
  else if ch = '\x7f' ∨ ch = '\x08' then s.backspace
  else if ch = '\r' ∨ ch = '\n' then s.enter table prompt
  else s.insert ch

/-- What a character does. -/
def next (s : Session) (ch : Char) : Session :=
  if ch = '\x1b' then { s with stat := .waitSpecKey }
  else match s.stat with
    | .waitSpecKey =>
      if ch = '[' then { s with stat := .waitFuncKey }
      else normal table prompt { s with stat := .waitNormal } ch
    | .waitFuncKey =>
      let s := { s with stat := .waitNormal }
      if ch = 'A' then s.up prompt
      else if ch = 'B' then s.down prompt
      else if ch = 'D' then s.left
      else if ch = 'C' then s.right
      else normal table prompt s ch
    | .waitNormal => normal table prompt s ch

/-- The step of a session: there is one for every character. -/
def step (s : Session) (ch : Char) : Option Session := some (s.next table prompt ch)

/-- The line stays shorter than its buffer. -/
def Fits (s : Session) (ch : Char) : Prop :=
  (s.next table prompt ch).edit.text.length < finshCmdSize

instance (s : Session) (ch : Char) : Decidable (s.Fits table prompt ch) :=
  inferInstanceAs (Decidable (_ < _))

end Keys

end Session

/-! ### Completion -/

/-- **A name is completed as far as it is certain**: what the completed text begins with is what
    all names begin with that begin with the text. -/
theorem prefix_complete {table : List Syscall} {text : Text} (htext : text ≠ [])
    (hnames : names table text ≠ []) (p : Text) :
    p <+: complete table text ↔ ∀ name ∈ names table text, p <+: name := by
  obtain ⟨name, rest, hlist⟩ := List.exists_cons_of_ne_nil hnames
  rw [complete, hlist]
  dsimp only
  rw [if_neg htext, prefix_foldl_commonPrefix, List.forall_mem_cons]

theorem strCommon_eq : ∀ s t : Text, strCommon s t = (commonPrefix s t).length
  | a :: s, b :: t => by
    rw [strCommon, commonPrefix]
    split_ifs
    · rw [strCommon_eq s t, List.length_cons]
    · rfl
  | [], _          => by simp [strCommon, commonPrefix]
  | _ :: _, []     => by simp [strCommon, commonPrefix]

section Complete

variable {table : List Syscall} {text : Text}

theorem names_cons (call : Syscall) (table : List Syscall) (text : Text) :
    names (call :: table) text
      = if (cmdPrefix.isPrefixOf call.name && text.isPrefixOf call.cmdName) = true then
          call.cmdName :: names table text
        else names table text := by
  rw [names, List.filter_cons]
  split_ifs <;> rfl

theorem prefix_of_mem_names {name : Text} (h : name ∈ names table text) : text <+: name := by
  obtain ⟨call, hcall, rfl⟩ := List.mem_map.mp h
  have := (List.mem_filter.mp hcall).2
  rw [Bool.and_eq_true] at this
  exact List.isPrefixOf_iff_prefix.mp this.2

/-- Nothing that is typed gets lost. -/
theorem prefix_complete_self : text <+: complete table text := by
  by_cases htext : text = []
  · exact htext ▸ List.nil_prefix
  · by_cases hnames : names table text = []
    · have hsame : complete table text = text := by rw [complete, hnames]
      exact ⟨[], by rw [List.append_nil, hsame]⟩
    · exact (prefix_complete htext hnames text).mpr fun _ => prefix_of_mem_names

/-- The loop once a name was found: `common` is what the names have in common so far. -/
theorem foldl_pass_some (htext : text ≠ []) {first : Text} (table : List Syscall) {common : Text}
    (hcommon : text <+: common) (hfirst : common <+: first) (printed : Text) :
    table.foldl (Completion.pass text) ⟨some first, common.length, printed⟩
      = ⟨some first, ((names table text).foldl commonPrefix common).length,
          printed ++ (names table text).flatMap fun name => name ++ ['\n']⟩ := by
  induction table generalizing common printed with
  | nil => simp [names]
  | cons call table ih =>
    rw [List.foldl_cons, Completion.pass]
    cases hcall : cmdPrefix.isPrefixOf call.name && text.isPrefixOf call.cmdName with
    | false => rw [if_neg (by simp), ih hcommon hfirst, names_cons, hcall, if_neg (by simp)]
    | true =>
      have hlist : names (call :: table) text = call.cmdName :: names table text := by
        rw [names_cons, hcall, if_pos rfl]
      have hmem : text <+: call.cmdName :=
        prefix_of_mem_names (hlist ▸ List.mem_cons_self)
      -- `min_length` is zero only before the first name, so this one does not take its place
      have hpos : common.length ≠ 0 := by
        have := hcommon.length_le
        have := List.length_pos_iff.mpr htext
        omega
      -- the code compares with the first name; the text in common so far begins it
      have hlen : (if strCommon first call.cmdName < common.length
            then strCommon first call.cmdName else common.length)
          = (commonPrefix common call.cmdName).length := by
        rw [length_commonPrefix_of_isPrefix hfirst, strCommon_eq]
        split_ifs <;> omega
      rw [if_pos rfl, if_neg hpos]
      dsimp only
      rw [Option.getD_some, hlen, ih (prefix_commonPrefix.mpr ⟨hcommon, hmem⟩)
        ((commonPrefix_isPrefix _ _).trans hfirst), hlist, List.foldl_cons, List.flatMap_cons]
      simp

/-- **The loop of `msh_auto_complete`** finds what all names have in common. -/
theorem foldl_pass (htext : text ≠ []) (table : List Syscall) :
    table.foldl (Completion.pass text) ⟨none, 0, []⟩
      = ⟨(names table text).head?,
          if names table text = [] then 0 else (complete table text).length,
          (names table text).flatMap fun name => name ++ ['\n']⟩ := by
  induction table with
  | nil => rfl
  | cons call table ih =>
    rw [List.foldl_cons, Completion.pass, complete, names_cons]
    cases hcall : cmdPrefix.isPrefixOf call.name && text.isPrefixOf call.cmdName with
    | false =>
      simp only [Bool.false_eq_true, if_false]
      exact ih
    | true =>
      rw [Bool.and_eq_true] at hcall
      have hmem : text <+: call.cmdName := List.isPrefixOf_iff_prefix.mp hcall.2
      have hsame : strCommon call.cmdName call.cmdName = call.cmdName.length := by
        have hlong := (prefix_commonPrefix (p := call.cmdName)).mpr
          ⟨List.prefix_rfl, List.prefix_rfl⟩
        rw [strCommon_eq]
        exact le_antisymm (commonPrefix_isPrefix _ _).length_le hlong.length_le
      simp only [if_true, Option.getD_some, hsame, lt_self_iff_false, if_false, if_neg htext]
      rw [foldl_pass_some htext table hmem List.prefix_rfl]
      rfl

end Complete

/-! ### Texts in buffers -/

/-- A text in a buffer of NULs. -/
def fill (n : Nat) (text : Text) : Text := text ++ List.replicate (n - text.length) nul

section Fill

variable {n : Nat} {text : Text}

@[simp]
theorem fill_nil (n : Nat) : fill n [] = List.replicate n nul := rfl

theorem length_fill (h : text.length ≤ n) : (fill n text).length = n := by
  rw [fill, List.length_append, List.length_replicate]
  omega

/-- Behind a text that is shorter than the buffer there is a NUL. -/
theorem fill_of_lt (h : text.length < n) :
    fill n text = text ++ nul :: List.replicate (n - text.length - 1) nul := by
  obtain ⟨k, hk⟩ : ∃ k, n - text.length = k + 1 := ⟨n - text.length - 1, by omega⟩
  rw [fill, hk, List.replicate_succ]
  rfl

/-- **What is in a buffer is read.** -/
theorem str_fill (htext : nul ∉ text) (h : text.length < n) : str (fill n text) = some text := by
  rw [fill_of_lt h, str, if_pos (by simp), cString_of_head htext rfl]

theorem str_drop_fill {before after : Text} (hafter : nul ∉ after)
    (h : (before ++ after).length < n) :
    str ((fill n (before ++ after)).drop before.length) = some after := by
  rw [fill_of_lt h, List.append_assoc, List.drop_left, str, if_pos (by simp),
    cString_of_head hafter rfl]

/-- Buffers are the same if the texts in them are. -/
theorem fill_inj {text' : Text} (htext : nul ∉ text) (htext' : nul ∉ text') (h : text.length < n)
    (h' : text'.length < n) : fill n text = fill n text' ↔ text = text' := by
  refine ⟨fun heq => ?_, fun heq => heq ▸ rfl⟩
  have hstr := str_fill htext h
  rw [heq, str_fill htext' h'] at hstr
  exact (Option.some.inj hstr).symm

/-- A longer text takes the place of one. -/
theorem overwrite_fill {text' : Text} (h : text.length ≤ text'.length) (h' : text'.length ≤ n) :
    overwrite (fill n text) text' = some (fill n text') := by
  rw [overwrite, if_pos (by rw [length_fill (by omega)]; exact h'), fill, List.drop_append,
    List.drop_eq_nil_of_le h, List.drop_replicate, fill, List.nil_append]
  congr 3
  omega

/-- The line without its last NUL. -/
theorem take_fill_succ (h : text.length ≤ n) : (fill (n + 1) text).take n = fill n text := by
  rw [fill, List.take_append, List.take_of_length_le h, List.take_replicate, fill]
  congr 2
  omega

theorem overwrite_fill_succ {text' : Text} (h : text.length ≤ n) (h' : text'.length ≤ n) :
    overwrite (fill (n + 1) text) (fill n text') = some (fill (n + 1) text') := by
  have hlast : (fill (n + 1) text).drop n = [nul] := by
    rw [fill, List.drop_append, List.drop_eq_nil_of_le h, List.drop_replicate, List.nil_append]
    have hone : n + 1 - text.length - (n - text.length) = 1 := by omega
    rw [hone]
    rfl
  have hroom : n + 1 - text'.length = n - text'.length + 1 := by omega
  rw [overwrite, if_pos (by rw [length_fill h', length_fill (by omega)]; omega), length_fill h',
    hlast, fill, fill, hroom, List.replicate_succ', List.append_assoc]

end Fill

/-! ### The buffers of the shell -/

/-- The line buffer holds a line with its cursor. -/
structure HoldsLine (line : Text) (position curpos : Nat) (z : Zipper Char) : Prop where
  line_eq : line = fill (finshCmdSize + 1) z.text
  position_eq : position = z.text.length
  curpos_eq : curpos = z.before.length
  text_lt : z.text.length < finshCmdSize
  nul_not_mem : nul ∉ z.text

/-- The lines of `cmd_history` hold the history, and there are as many as fit. -/
structure HoldsHistory (cmdHistory : List Text) (count current : Nat) (history : List Text)
    (place : Nat) : Prop where
  cmdHistory_eq : cmdHistory = history.map (fill finshCmdSize) ++
    List.replicate (finshHistoryLines - history.length) (fill finshCmdSize [])
  count_eq : count = history.length
  length_le : history.length ≤ finshHistoryLines
  current_eq : current = place
  place_le : place ≤ history.length
  text_lt : ∀ text ∈ history, text.length < finshCmdSize
  nul_not_mem : ∀ text ∈ history, nul ∉ text

/-- The shell holds a session. -/
structure Holds (s : FinshShell) (a : Session) : Prop where
  stat : s.stat = a.stat
  echoMode : s.echoMode = true
  line : HoldsLine s.line s.linePosition s.lineCurpos a.edit
  history : HoldsHistory s.cmdHistory s.historyCount s.currentHistory a.history a.place

/-- What the shell does is what the session does. -/
def Follows (r : Option (FinshShell × List Out)) (a a' : Session) : Prop :=
  ∃ s out, r = some (s, out) ∧ Holds s a' ∧ a'.out = a.out ++ out

/-- The cursor moves. -/
theorem HoldsLine.cursor {line : Text} {position curpos : Nat} {z z' : Zipper Char}
    (h : HoldsLine line position curpos z) (htext : z'.text = z.text) :
    HoldsLine line position z'.before.length z' where
  line_eq := htext ▸ h.line_eq
  position_eq := htext ▸ h.position_eq
  curpos_eq := rfl
  text_lt := htext ▸ h.text_lt
  nul_not_mem := htext ▸ h.nul_not_mem

/-- A line with the cursor at its end. -/
theorem HoldsLine.atEnd {text : Text} (hlt : text.length < finshCmdSize) (hnul : nul ∉ text) :
    HoldsLine (fill (finshCmdSize + 1) text) text.length text.length (.atEnd text) where
  line_eq := by rw [Zipper.text_atEnd]
  position_eq := by rw [Zipper.text_atEnd]
  curpos_eq := rfl
  text_lt := by rwa [Zipper.text_atEnd]
  nul_not_mem := by rwa [Zipper.text_atEnd]

section Keys

variable {table : List Syscall} {prompt : Text} {s : FinshShell} {a : Session}

theorem Holds.left (h : Holds s a) : Follows (leftKey s) a a.left := by
  have hline : HoldsLine s.line s.linePosition a.edit.left.before.length a.edit.left :=
    h.line.cursor (Zipper.text_left a.edit)
  by_cases hb : a.edit.before = []
  · have hcur : ¬ s.lineCurpos ≠ 0 := by simp [h.line.curpos_eq, hb]
    have hbefore : a.edit.left.before.length = s.lineCurpos := by
      simp [Zipper.left, h.line.curpos_eq, hb]
    rw [leftKey, if_neg hcur]
    exact ⟨s, [], rfl, ⟨h.stat, h.echoMode, hbefore ▸ hline, h.history⟩, by simp [Session.left, hb]⟩
  · have hcur : s.lineCurpos ≠ 0 := by simp [h.line.curpos_eq, hb]
    have hbefore : a.edit.left.before.length = s.lineCurpos - 1 := by
      simp [Zipper.left, h.line.curpos_eq]
    rw [leftKey, if_pos hcur]
    exact ⟨_, _, rfl, ⟨h.stat, h.echoMode, hbefore ▸ hline, h.history⟩, by simp [Session.left, hb]⟩

theorem Holds.right (h : Holds s a) : Follows (rightKey s) a a.right := by
  have hline : HoldsLine s.line s.linePosition a.edit.right.before.length a.edit.right :=
    h.line.cursor (Zipper.text_right a.edit)
  cases ha : a.edit.after with
  | nil =>
    have hcur : ¬ s.lineCurpos < s.linePosition := by
      simp [h.line.curpos_eq, h.line.position_eq, Zipper.text, ha]
    have hbefore : a.edit.right.before.length = s.lineCurpos := by
      simp [Zipper.right, h.line.curpos_eq, ha]
    rw [rightKey, if_neg hcur]
    exact ⟨s, [], rfl, ⟨h.stat, h.echoMode, hbefore ▸ hline, h.history⟩,
      by simp [Session.right, ha]⟩
  | cons c after =>
    have hcur : s.lineCurpos < s.linePosition := by
      simp [h.line.curpos_eq, h.line.position_eq, Zipper.text, ha]
    have hbefore : a.edit.right.before.length = s.lineCurpos + 1 := by
      simp [Zipper.right, h.line.curpos_eq, ha]
    have hchar : s.line[s.lineCurpos]? = some c := by
      rw [h.line.line_eq, h.line.curpos_eq, fill, Zipper.text, ha, List.append_assoc,
        List.getElem?_append_right (Nat.le_refl _), Nat.sub_self]
      rfl
    rw [rightKey, if_pos hcur, hchar]
    exact ⟨_, _, rfl, ⟨h.stat, h.echoMode, hbefore ▸ hline, h.history⟩, by simp [Session.right, ha]⟩

/-- The text loses one character, and the buffer gets one NUL more. -/
theorem fill_erase {n : Nat} {before after : Text} {c : Char}
    (h : (before ++ c :: after).length ≤ n) :
    before ++ after ++ nul :: List.replicate (n - (before ++ c :: after).length) nul
      = fill n (before ++ after) := by
  rw [fill, ← List.replicate_succ]
  congr 2
  rw [List.length_append, List.length_cons] at h ⊢
  rw [List.length_append]
  omega

theorem Holds.backspace (h : Holds s a) : Follows (backspaceKey s) a a.backspace := by
  obtain ⟨stat, ⟨before, after⟩, history, place, out⟩ := a
  obtain ⟨hline, hpos, hcur, hlt, hnul⟩ := h.line
  rw [Zipper.text_mk] at hline hpos hlt hnul
  rcases List.eq_nil_or_concat before with rfl | ⟨before, c, rfl⟩
  · -- there is nothing before the cursor
    have hzero : s.lineCurpos = 0 := hcur
    rw [backspaceKey, if_pos hzero]
    exact ⟨s, [], rfl, ⟨h.stat, h.echoMode, h.line, h.history⟩, rfl⟩
  · rw [List.concat_eq_append] at *
    rw [List.append_assoc, List.singleton_append] at hline hpos hlt hnul
    have hcur' : s.lineCurpos - 1 = before.length := by simp [hcur]
    have hpos' : s.linePosition - 1 = before.length + after.length := by simp [hpos]
    have hne : s.lineCurpos ≠ 0 := by simp [hcur]
    have hlen : (before ++ after).length < finshCmdSize := by
      rw [List.length_append, List.length_cons] at hlt
      rw [List.length_append]
      omega
    have hnul' : nul ∉ before ++ after := by
      rw [List.mem_append, List.mem_cons, not_or, not_or] at hnul
      rw [List.mem_append, not_or]
      exact ⟨hnul.1, hnul.2.2⟩
    have hholds : HoldsLine (fill (finshCmdSize + 1) (before ++ after))
        (before.length + after.length) before.length (Zipper.mk (before ++ [c]) after).erase := by
      rw [Zipper.erase, List.dropLast_concat]
      exact ⟨rfl, List.length_append.symm, rfl, hlen, hnul'⟩
    have hfill := fill_erase (Nat.le_succ_of_le hlt.le)
    rw [backspaceKey, if_neg hne]
    dsimp only
    rw [hcur', hpos', hline]
    cases after with
    | nil =>
      -- at the end of the line a NUL takes the place of the character
      have hpoke : poke (fill (finshCmdSize + 1) (before ++ [c])) (before.length + 0) nul
          = some (fill (finshCmdSize + 1) (before ++ [])) := by
        rw [← hfill, fill, List.append_assoc, List.append_nil]
        exact poke_append before c _
      rw [if_neg (by simp), List.length_nil, hpoke]
      exact ⟨_, _, rfl, ⟨h.stat, h.echoMode, hholds, h.history⟩, by simp [Session.backspace]⟩
    | cons d after =>
      -- elsewhere what is behind the cursor is moved, and printed once more
      have hgap := close_gap before (d :: after) c (List.replicate
        (finshCmdSize + 1 - (before ++ c :: d :: after).length) nul) (c := nul)
      obtain ⟨moved, hmove, hpoke⟩ := Option.bind_eq_some_iff.mp hgap
      have hsub : before.length + (d :: after).length - before.length = (d :: after).length := by
        omega
      have hrest : str ((fill (finshCmdSize + 1) (before ++ d :: after)).drop before.length)
          = some (d :: after) :=
        str_drop_fill (fun hmem => hnul' (List.mem_append_right before hmem))
          (Nat.lt_succ_of_lt hlen)
      rw [hfill] at hpoke
      rw [if_pos (by simp), hsub, fill, hmove]
      simp only [Option.bind_eq_bind, Option.bind_some]
      rw [hpoke, Option.bind_some, hrest]
      exact ⟨_, _, rfl, ⟨h.stat, h.echoMode, hholds, h.history⟩, by simp [Session.backspace]⟩

/-- The text gets one character more, and the buffer loses a NUL. -/
theorem fill_insert {n : Nat} {before after : Text} {c : Char}
    (h : (before ++ c :: after).length ≤ n) :
    before ++ c :: after ++ List.replicate (n - (before ++ after).length - 1) nul
      = fill n (before ++ c :: after) := by
  have hroom : n - (before ++ after).length - 1 = n - (before ++ c :: after).length := by
    rw [List.length_append, List.length_cons] at h
    rw [List.length_append, List.length_append, List.length_cons]
    omega
  rw [fill, hroom]

theorem Holds.insert (h : Holds s a) {ch : Char} (hch : ch ≠ nul)
    (hfits : (a.insert ch).edit.text.length < finshCmdSize) :
    Follows (insertKey s ch) a (a.insert ch) := by
  obtain ⟨stat, ⟨before, after⟩, history, place, out⟩ := a
  obtain ⟨hline, hpos, hcur, hlt, hnul⟩ := h.line
  rw [Zipper.text_mk] at hline hpos hlt hnul
  have htext : ((Zipper.mk before after).insert ch).text = before ++ ch :: after := by
    rw [Zipper.insert, Zipper.text_mk, List.append_assoc, List.singleton_append]
  replace hfits : (before ++ ch :: after).length < finshCmdSize := htext ▸ hfits
  have hnul' : nul ∉ before ++ ch :: after := by
    rw [List.mem_append, not_or] at hnul
    rw [List.mem_append, List.mem_cons, not_or, not_or]
    exact ⟨hnul.1, Ne.symm hch, hnul.2⟩
  have hholds : HoldsLine (fill (finshCmdSize + 1) (before ++ ch :: after))
      ((before ++ after).length + 1) (before.length + 1) ((Zipper.mk before after).insert ch) := by
    refine ⟨htext ▸ rfl, ?_, ?_, htext ▸ hfits, htext ▸ hnul'⟩
    · rw [htext, List.length_append, List.length_append]
      rfl
    · show before.length + 1 = (before ++ [ch]).length
      rw [List.length_append]
      rfl
  -- the line is not given up, neither before the character nor after it
  have hroom : ¬ finshCmdSize ≤ (before ++ after).length := by omega
  have hroom' : ¬ finshCmdSize ≤ (before ++ after).length + 1 := by
    rw [List.length_append, List.length_cons] at hfits
    rw [List.length_append]
    omega
  have hfill := fill_insert (Nat.le_succ_of_le hfits.le)
  rw [insertKey]
  simp only [hpos, hroom, if_false, hcur, h.echoMode, if_true]
  cases after with
  | nil =>
    -- at the end of the line the character takes the place of a NUL
    have hpoke : poke s.line (before ++ []).length ch
        = some (fill (finshCmdSize + 1) (before ++ [ch])) := by
      rw [hline, fill_of_lt (Nat.lt_succ_of_lt hlt), ← hfill, List.append_nil, List.append_assoc]
      exact poke_append before nul _
    rw [if_neg (by simp), hpoke]
    simp only [Option.bind_eq_bind, Option.bind_some, hroom', if_false]
    exact ⟨_, _, rfl, ⟨h.stat, rfl, hholds, h.history⟩, by simp [Session.insert]⟩
  | cons d after =>
    -- elsewhere `memmove` makes room, and overwrites the first NUL
    have hgap := open_gap before (d :: after) nul (List.replicate
      (finshCmdSize + 1 - (before ++ d :: after).length - 1) nul) (c := ch)
    obtain ⟨moved, hmove, hpoke⟩ := Option.bind_eq_some_iff.mp hgap
    have hsub : (before ++ d :: after).length - before.length = (d :: after).length := by
      rw [List.length_append]
      omega
    have hrest : str ((fill (finshCmdSize + 1) (before ++ ch :: d :: after)).drop before.length)
        = some (ch :: d :: after) :=
      str_drop_fill (fun hmem => hnul' (List.mem_append_right before hmem))
        (Nat.lt_succ_of_lt hfits)
    rw [hfill] at hpoke
    rw [if_pos (by simp), hsub, hline, fill_of_lt (Nat.lt_succ_of_lt hlt), hmove]
    simp only [Option.bind_eq_bind, Option.bind_some, hpoke, hrest, hroom', if_false]
    exact ⟨_, _, rfl, ⟨h.stat, rfl, hholds, h.history⟩, by simp [Session.insert]⟩

@[simp]
theorem complete_nil (table : List Syscall) : complete table [] = [] := by
  rw [complete]
  split <;> rfl

/-- What is completed begins a name, or stays as it is. -/
theorem complete_cases (table : List Syscall) (text : Text) :
    complete table text = text ∨ ∃ name ∈ names table text, complete table text <+: name := by
  by_cases htext : text = []
  · exact .inl (htext ▸ complete_nil table)
  · by_cases hnames : names table text = []
    · rw [complete, hnames]
      exact .inl rfl
    · obtain ⟨name, rest, hlist⟩ := List.exists_cons_of_ne_nil hnames
      have hmem : name ∈ names table text := hlist ▸ List.mem_cons_self
      exact .inr ⟨name, hmem, (prefix_complete htext hnames _).mp List.prefix_rfl name hmem⟩

theorem mem_name_of_mem_names {text name : Text} (h : name ∈ names table text) {c : Char}
    (hc : c ∈ name) : ∃ call ∈ table, c ∈ call.name := by
  obtain ⟨call, hcall, rfl⟩ := List.mem_map.mp h
  exact ⟨call, (List.mem_filter.mp hcall).1, List.mem_of_mem_drop hc⟩

/-- The characters of what is completed are typed, or those of a name. -/
theorem mem_complete {text : Text} {c : Char} (h : c ∈ complete table text) :
    c ∈ text ∨ ∃ call ∈ table, c ∈ call.name := by
  rcases complete_cases table text with heq | ⟨name, hname, hbegin⟩
  · exact .inl (heq ▸ h)
  · exact .inr (mem_name_of_mem_names hname (hbegin.subset h))

/-- **`msh_auto_complete`** writes the completed text over the text. -/
theorem mshAutoComplete_fill {text : Text} (hnul : nul ∉ text)
    (hlt : (complete table text).length < finshCmdSize) :
    mshAutoComplete table (fill (finshCmdSize + 1) text)
      = some (fill (finshCmdSize + 1) (complete table text),
          if text = [] then mshHelp table
          else (names table text).flatMap fun name => name ++ ['\n']) := by
  have hlong : text.length ≤ (complete table text).length := prefix_complete_self.length_le
  rw [mshAutoComplete, str_fill hnul (by omega)]
  simp only [Option.bind_eq_bind, Option.bind_some]
  by_cases htext : text = []
  · subst htext
    rw [if_pos rfl, if_pos rfl, complete_nil]
    rfl
  · rw [if_neg htext, if_neg htext, foldl_pass htext]
    cases hlist : names table text with
    | nil =>
      have hsame : complete table text = text := by rw [complete, hlist]
      rw [hsame]
      rfl
    | cons name rest =>
      have hbegin : complete table text <+: name :=
        (prefix_complete htext (hlist ▸ List.cons_ne_nil name rest) _).mp List.prefix_rfl name
          (hlist ▸ List.mem_cons_self)
      have htake : (name ++ List.replicate (complete table text).length nul).take
          (complete table text).length = complete table text := by
        rw [List.take_append_of_le_length hbegin.length_le]
        exact (List.prefix_iff_eq_take.mp hbegin).symm
      rw [if_neg (List.cons_ne_nil name rest)]
      -- so many characters of the first name as all of them have in common
      dsimp only [List.head?_cons]
      rw [rtStrncpy, htake, overwrite_fill hlong (by omega)]
      rfl

theorem Holds.tab (h : Holds s a) (hnames : ∀ call ∈ table, nul ∉ call.name)
    (hfits : (a.tab table prompt).edit.text.length < finshCmdSize) :
    Follows (tabKey table prompt s) a (a.tab table prompt) := by
  have hlt : (complete table a.edit.text).length < finshCmdSize := by
    rwa [Session.tab, Zipper.text_atEnd] at hfits
  have hnul : nul ∉ complete table a.edit.text := by
    intro hmem
    rcases mem_complete hmem with htyped | ⟨call, hcall, hname⟩
    · exact h.line.nul_not_mem htyped
    · exact hnames call hcall hname
  rw [tabKey, h.line.line_eq, mshAutoComplete_fill h.line.nul_not_mem hlt, h.line.curpos_eq]
  simp only [Option.bind_eq_bind, Option.bind_some]
  rw [str_fill hnul (Nat.lt_succ_of_lt hlt), Option.bind_some]
  exact ⟨_, _, rfl, ⟨h.stat, h.echoMode, HoldsLine.atEnd hlt hnul, h.history⟩, rfl⟩

/-- A line of the history is in its place. -/
theorem HoldsHistory.getElem? {cmdHistory history : List Text} {count current place : Nat}
    (h : HoldsHistory cmdHistory count current history place) {i : Nat} (hi : i < history.length) :
    cmdHistory[i]? = some (fill finshCmdSize history[i]) := by
  rw [h.cmdHistory_eq, List.getElem?_append_left (by rwa [List.length_map]), List.getElem?_map,
    List.getElem?_eq_getElem hi]
  rfl

theorem Holds.fromHistory (h : Holds s a) {i : Nat} (hi : i < a.history.length) :
    Follows (fromHistory prompt { s with currentHistory := i }) a (a.goTo prompt i) := by
  have hmem : a.history[i] ∈ a.history := List.getElem_mem hi
  have hlt := h.history.text_lt _ hmem
  have hnul := h.history.nul_not_mem _ hmem
  have hget : a.history.getD i [] = a.history[i] := by
    rw [List.getD_eq_getElem?_getD, List.getElem?_eq_getElem hi, Option.getD_some]
  -- a line of the history is one character shorter than the line buffer, which keeps its last NUL
  have hover : overwrite s.line (fill finshCmdSize a.history[i])
      = some (fill (finshCmdSize + 1) a.history[i]) := by
    rw [h.line.line_eq]
    exact overwrite_fill_succ h.line.text_lt.le hlt.le
  rw [Shell.fromHistory]
  simp only [Option.bind_eq_bind, h.history.getElem? hi, Option.bind_some, hover]
  rw [str_fill hnul (Nat.lt_succ_of_lt hlt), Option.bind_some, Session.goTo, hget]
  have hhistory : HoldsHistory s.cmdHistory s.historyCount i a.history i :=
    ⟨h.history.cmdHistory_eq, h.history.count_eq, h.history.length_le, rfl, hi.le,
      h.history.text_lt, h.history.nul_not_mem⟩
  exact ⟨_, _, rfl, ⟨h.stat, h.echoMode, HoldsLine.atEnd hlt hnul, hhistory⟩, rfl⟩

theorem Holds.up (h : Holds s a) : Follows (upKey prompt s) a (a.up prompt) := by
  have hplace := h.history.place_le
  rw [upKey, h.history.current_eq, Session.up]
  split_ifs with hpos
  · exact h.fromHistory (by omega)
  · exact ⟨s, [], rfl, h, (List.append_nil _).symm⟩

theorem Holds.down (h : Holds s a) : Follows (downKey prompt s) a (a.down prompt) := by
  have hcount := h.history.count_eq
  rw [downKey, Session.down, h.history.current_eq]
  by_cases hempty : a.history = []
  · rw [hempty, List.length_nil] at hcount
    rw [if_neg (by omega), if_neg (by omega), if_pos hempty]
    exact ⟨s, [], rfl, h, (List.append_nil _).symm⟩
  · -- below the last line of the history the key stays at it
    have hpos : 0 < a.history.length := List.length_pos_iff.mpr hempty
    have hlast : s.historyCount - 1 = a.history.length - 1 := by rw [hcount]
    rw [if_neg hempty]
    by_cases hnext : a.place + 1 < a.history.length
    · rw [if_pos (by omega), if_pos hnext]
      exact h.fromHistory hnext
    · rw [if_neg (by omega), if_pos (by omega), if_neg hnext, hlast]
      exact h.fromHistory (by omega)

/-- The history is full, and its first line makes room for one more. -/
theorem HoldsHistory.shift {cmdHistory history : List Text} {count current place : Nat}
    (h : HoldsHistory cmdHistory count current history place)
    (hfull : history.length = finshHistoryLines) {text : Text}
    (htext : text.length < finshCmdSize) (hnul : nul ∉ text) :
    HoldsHistory (cmdHistory.tail ++ [fill finshCmdSize text]) finshHistoryLines finshHistoryLines
      (history.tail ++ [text]) (history.tail ++ [text]).length := by
  have hlen : (history.tail ++ [text]).length = finshHistoryLines := by
    rw [List.length_append, List.length_tail, hfull]
    rfl
  refine ⟨?_, hlen.symm, hlen.le, hlen.symm, le_rfl, ?_, ?_⟩
  · rw [h.cmdHistory_eq, hfull, hlen, Nat.sub_self, List.replicate_zero, List.append_nil,
      List.append_nil, List.map_append, List.map_tail]
    rfl
  · exact List.forall_mem_append.mpr ⟨fun t ht => h.text_lt t (List.mem_of_mem_tail ht),
      List.forall_mem_singleton.mpr htext⟩
  · exact List.forall_mem_append.mpr ⟨fun t ht => h.nul_not_mem t (List.mem_of_mem_tail ht),
      List.forall_mem_singleton.mpr hnul⟩

/-- There is room for one line more in the history. -/
theorem HoldsHistory.push {cmdHistory history : List Text} {count current place : Nat}
    (h : HoldsHistory cmdHistory count current history place)
    (hroom : history.length < finshHistoryLines) {text : Text}
    (htext : text.length < finshCmdSize) (hnul : nul ∉ text) :
    HoldsHistory (cmdHistory.set count (fill finshCmdSize text)) (count + 1) (count + 1)
      (history ++ [text]) (history ++ [text]).length := by
  have hlen : (history ++ [text]).length = count + 1 := by
    rw [List.length_append, h.count_eq]
    rfl
  refine ⟨?_, hlen.symm, ?_, hlen.symm, le_rfl, ?_, ?_⟩
  · obtain ⟨k, hk⟩ : ∃ k, finshHistoryLines - history.length = k + 1 :=
      ⟨finshHistoryLines - history.length - 1, by omega⟩
    have hk' : finshHistoryLines - (history ++ [text]).length = k := by
      rw [hlen, h.count_eq]
      omega
    have hmap : (history.map (fill finshCmdSize)).length = history.length := List.length_map _
    rw [h.cmdHistory_eq, hk, hk', h.count_eq, List.replicate_succ,
      List.set_append_right _ _ hmap.le, hmap, Nat.sub_self, List.set_cons_zero, List.map_append,
      List.append_assoc]
    rfl
  · rw [hlen, h.count_eq]
    omega
  · exact List.forall_mem_append.mpr ⟨h.text_lt, List.forall_mem_singleton.mpr htext⟩
  · exact List.forall_mem_append.mpr ⟨h.nul_not_mem, List.forall_mem_singleton.mpr hnul⟩

/-- **`shell_push_history`** remembers the line. -/
theorem Holds.pushHistory (h : Holds s a) :
    ∃ cmdHistory count,
      Shell.pushHistory s = some { s with
        cmdHistory := cmdHistory, historyCount := count, currentHistory := count } ∧
      HoldsHistory cmdHistory count count (remember a.history a.edit.text)
        (remember a.history a.edit.text).length := by
  have htext := h.line.text_lt
  have hnul := h.line.nul_not_mem
  have hcount := h.history.count_eq
  have hle := h.history.length_le
  have hentry : entry s = some (fill finshCmdSize a.edit.text) := by
    rw [entry, h.line.line_eq, h.line.position_eq, fill, List.take_left, ← fill_nil]
    exact overwrite_fill (Nat.zero_le _) htext.le
  have hline : s.line.take finshCmdSize = fill finshCmdSize a.edit.text := by
    rw [h.line.line_eq]
    exact take_fill_succ htext.le
  have hunchanged : HoldsHistory s.cmdHistory s.historyCount s.historyCount a.history
      a.history.length :=
    ⟨h.history.cmdHistory_eq, hcount, hle, hcount, le_rfl, h.history.text_lt,
      h.history.nul_not_mem⟩
  -- the last line of the history is compared with the line
  have hlast : ∀ i, i + 1 = a.history.length → ∃ last, s.cmdHistory[i]? = some last ∧
      (last = fill finshCmdSize a.edit.text ↔ a.history.getLast? = some a.edit.text) := by
    intro i hi
    refine ⟨_, h.history.getElem? (by omega), ?_⟩
    have hmem : a.history[i] ∈ a.history := List.getElem_mem _
    rw [fill_inj (h.history.nul_not_mem _ hmem) hnul (h.history.text_lt _ hmem) htext,
      List.getLast?_eq_getElem?, List.getElem?_eq_getElem (by omega), Option.some.injEq]
    have hidx : a.history.length - 1 = i := by omega
    simp only [hidx]
  rw [Shell.pushHistory, h.line.position_eq, remember]
  by_cases hempty : a.edit.text = []
  · rw [if_pos (by rw [hempty]; rfl), if_pos (.inl hempty)]
    exact ⟨_, _, rfl, hunchanged⟩
  rw [if_neg (fun h0 => hempty (List.length_eq_zero_iff.mp h0))]
  by_cases hfull : finshHistoryLines ≤ s.historyCount
  · -- the full history compares with its last line itself
    have hlen : a.history.length = finshHistoryLines := by omega
    obtain ⟨last, hget, hsame⟩ := hlast (finshHistoryLines - 1) (by rw [hlen]; rfl)
    rw [if_pos hfull, hget, hline]
    simp only [Option.bind_eq_bind, Option.bind_some]
    by_cases hrepeat : a.history.getLast? = some a.edit.text
    · rw [if_pos (hsame.mpr hrepeat), if_pos (.inr hrepeat)]
      exact ⟨_, _, rfl, hunchanged⟩
    · rw [if_neg (fun heq => hrepeat (hsame.mp heq)), if_neg (by tauto), if_pos hlen.ge, hentry]
      exact ⟨_, _, rfl, h.history.shift hlen htext hnul⟩
  · -- otherwise there may be no last line yet
    have hsame : sameAsLast s = some (decide (a.history.getLast? = some a.edit.text)) := by
      rw [sameAsLast]
      by_cases hzero : s.historyCount = 0
      · have hnone : a.history = [] := List.length_eq_zero_iff.mp (by omega)
        rw [if_pos hzero, hnone]
        rfl
      · obtain ⟨last, hget, hsame⟩ := hlast (s.historyCount - 1) (by omega)
        rw [if_neg hzero, hget, hline, Option.map_some, Option.some.injEq, Bool.eq_iff_iff,
          beq_iff_eq, decide_eq_true_iff]
        exact hsame
    rw [if_neg hfull, hsame]
    simp only [Option.bind_eq_bind, Option.bind_some, decide_eq_true_eq]
    by_cases hrepeat : a.history.getLast? = some a.edit.text
    · rw [if_pos hrepeat, if_pos (.inr hrepeat)]
      exact ⟨_, _, rfl, hunchanged⟩
    · rw [if_neg hrepeat, if_neg (by tauto), if_neg (by omega), hentry]
      exact ⟨_, _, rfl, h.history.push (by omega) htext hnul⟩

theorem Holds.enter (h : Holds s a) :
    Follows (enterKey table prompt s) a (a.enter table prompt) := by
  obtain ⟨cmdHistory, count, hpush, hhistory⟩ := h.pushHistory
  have hexec : mshExec table s.line s.linePosition = some (answer table a.edit.text) := by
    rw [h.line.line_eq, h.line.position_eq, fill_of_lt (Nat.lt_succ_of_lt h.line.text_lt)]
    exact mshExec_answer h.line.nul_not_mem (h.line.text_lt.trans (by decide)) _
  rw [enterKey, hpush]
  simp only [Option.bind_eq_bind, Option.bind_some, hexec, h.echoMode, if_true]
  refine ⟨_, _, rfl, ⟨h.stat, rfl, ?_, hhistory⟩, rfl⟩
  exact HoldsLine.atEnd (by decide) (List.not_mem_nil)

/-! ### One character -/

/-- What the line editor does with a character that belongs to no key. -/
theorem Holds.normal (h : Holds s a) (hnames : ∀ call ∈ table, nul ∉ call.name) {ch : Char}
    (hfits : (a.normal table prompt ch).edit.text.length < finshCmdSize) :
    Follows (normalKey table prompt s ch) a (a.normal table prompt ch) := by
  unfold normalKey Session.normal
  unfold Session.normal at hfits
  -- the tests in the order in which the loop makes them
  by_cases hignored : ch = nul ∨ ch = '\xff'
  · rw [if_pos hignored, if_pos hignored]
    exact ⟨s, [], rfl, h, (List.append_nil _).symm⟩
  rw [if_neg hignored, if_neg hignored]
  rw [if_neg hignored] at hfits
  by_cases htab : ch = '\t'
  · rw [if_pos htab] at hfits
    rw [if_pos htab, if_pos htab]
    exact h.tab hnames hfits
  rw [if_neg htab, if_neg htab]
  rw [if_neg htab] at hfits
  by_cases hback : ch = '\x7f' ∨ ch = '\x08'
  · rw [if_pos hback, if_pos hback]
    exact h.backspace
  rw [if_neg hback, if_neg hback]
  rw [if_neg hback] at hfits
  by_cases henter : ch = '\r' ∨ ch = '\n'
  · rw [if_pos henter, if_pos henter]
    exact h.enter
  rw [if_neg henter, if_neg henter]
  rw [if_neg henter] at hfits
  exact h.insert (fun heq => hignored (.inl heq)) hfits

/-- **One pass of the loop** does what the character does in the session, if the line stays
    shorter than the buffer. -/
theorem Holds.receive (h : Holds s a) (hnames : ∀ call ∈ table, nul ∉ call.name) {ch : Char}
    (hfits : a.Fits table prompt ch) :
    Follows (receive table prompt s ch) a (a.next table prompt ch) := by
  have hstat : ∀ stat, Holds { s with stat := stat } { a with stat := stat } := fun stat =>
    ⟨rfl, h.echoMode, h.line, h.history⟩
  unfold Session.Fits at hfits
  unfold Shell.receive Session.next
  unfold Session.next at hfits
  -- an escape character begins a new code, also within one
  by_cases hesc : ch = '\x1b'
  · rw [if_pos hesc, if_pos hesc]
    exact ⟨_, [], rfl, hstat .waitSpecKey, (List.append_nil _).symm⟩
  rw [if_neg hesc, if_neg hesc, h.stat]
  rw [if_neg hesc] at hfits
  cases hwait : a.stat with
  | waitNormal =>
    rw [hwait] at hfits
    exact h.normal hnames hfits
  | waitSpecKey =>
    rw [hwait] at hfits
    by_cases hbracket : ch = '['
    · simp only [hbracket, if_true]
      exact ⟨_, [], rfl, hstat .waitFuncKey, (List.append_nil _).symm⟩
    · -- a broken code is given up, and this character is taken as any other
      simp only [hbracket, if_false] at hfits ⊢
      exact (hstat .waitNormal).normal hnames hfits
  | waitFuncKey =>
    rw [hwait] at hfits
    dsimp only at hfits ⊢
    by_cases hup : ch = 'A'
    · rw [if_pos hup, if_pos hup]
      exact (hstat .waitNormal).up
    rw [if_neg hup, if_neg hup]
    rw [if_neg hup] at hfits
    by_cases hdown : ch = 'B'
    · rw [if_pos hdown, if_pos hdown]
      exact (hstat .waitNormal).down
    rw [if_neg hdown, if_neg hdown]
    rw [if_neg hdown] at hfits
    by_cases hleft : ch = 'D'
    · rw [if_pos hleft, if_pos hleft]
      exact (hstat .waitNormal).left
    rw [if_neg hleft, if_neg hleft]
    rw [if_neg hleft] at hfits
    by_cases hright : ch = 'C'
    · rw [if_pos hright, if_pos hright]
      exact (hstat .waitNormal).right
    rw [if_neg hright, if_neg hright]
    rw [if_neg hright] at hfits
    exact (hstat .waitNormal).normal hnames hfits

/-- The shell begins with an empty line and no history. -/
theorem holds_init (prompt : Text) : Holds .init (.init prompt) where
  stat := rfl
  echoMode := rfl
  line := HoldsLine.atEnd (by decide) List.not_mem_nil
  history := ⟨rfl, rfl, Nat.zero_le _, rfl, le_rfl, by simp [Session.init], by simp [Session.init]⟩

/-- **The shell follows the session** as long as the line stays shorter than its buffer. -/
theorem run_follows (hnames : ∀ call ∈ table, nul ∉ call.name) {chars : Text} {a : Session}
    (h : Runs (Session.step table prompt) (Session.Fits table prompt) (.init prompt) chars a) :
    ∃ c, run (Console.step table prompt) (.init prompt) chars = some c ∧ c.out = a.out ∧
      Holds c.shell a := by
  induction h with
  | nil => exact ⟨.init prompt, rfl, rfl, holds_init prompt⟩
  | snoc _ hfits hstep ih =>
    obtain ⟨c, hrun, hout, hholds⟩ := ih
    cases hstep
    obtain ⟨s', out, hreceive, hholds', hout'⟩ := hholds.receive hnames hfits
    refine ⟨⟨s', c.out ++ out⟩, ?_, ?_, hholds'⟩
    · rw [run_snoc hrun, Console.step, hreceive]
      rfl
    · rw [hout', hout]

/-- **What is typed is edited.**  Whatever characters arrive, keys and broken codes of keys among
    them: as long as the line stays shorter than its buffer no access goes outside of a buffer,
    the shell prints and calls what the session does, its line buffer holds the line and NULs
    behind it, and `cmd_history` the lines that are remembered. -/
theorem line_edited (hnames : ∀ call ∈ table, nul ∉ call.name) {chars : Text} {a : Session}
    (h : Runs (Session.step table prompt) (Session.Fits table prompt) (.init prompt) chars a) :
    ∃ c, run (Console.step table prompt) (.init prompt) chars = some c ∧ c.out = a.out ∧
      c.shell.line = fill (finshCmdSize + 1) (a.edit.before ++ a.edit.after) ∧
      c.shell.lineCurpos = a.edit.before.length ∧
      c.shell.linePosition = (a.edit.before ++ a.edit.after).length ∧
      c.shell.historyCount = a.history.length ∧ a.history.length ≤ finshHistoryLines ∧
      c.shell.cmdHistory.take c.shell.historyCount = a.history.map (fill finshCmdSize) := by
  obtain ⟨c, hrun, hout, hholds⟩ := run_follows hnames h
  have hhistory := hholds.history
  refine ⟨c, hrun, hout, hholds.line.line_eq, hholds.line.curpos_eq, hholds.line.position_eq,
    hhistory.count_eq, hhistory.length_le, ?_⟩
  rw [hhistory.cmdHistory_eq, hhistory.count_eq]
  exact List.take_left' (List.length_map _)

/-- `ab`, a key to the left, backspace, `c`, the end of the line, and the line once more. -/
theorem line_edited_example :
    ∃ (a : Session) (c : Console), run (Console.step [] ['>']) (.init ['>'])
        ['a', 'b', '\x1b', '[', 'D', '\x08', 'c', '\r', '\x1b', '[', 'A'] = some c ∧
      c.out = a.out ∧
      c.shell.line = fill (finshCmdSize + 1) (a.edit.before ++ a.edit.after) ∧
      c.shell.lineCurpos = a.edit.before.length ∧
      c.shell.linePosition = (a.edit.before ++ a.edit.after).length ∧
      c.shell.historyCount = a.history.length ∧ a.history.length ≤ finshHistoryLines ∧
      c.shell.cmdHistory.take c.shell.historyCount = a.history.map (fill finshCmdSize) :=
  ⟨_, line_edited (by simp) (runs_checked_get (by decide +kernel))⟩

/-- **The tab key** writes over the line what all names have in common that begin with it, and
    prints these names. -/
theorem tab_completes {text : Text} (htext : text ≠ []) (hnul : nul ∉ text)
    (hsome : ∃ name ∈ names table text, name.length < finshCmdSize) :
    ∃ completed, mshAutoComplete table (fill (finshCmdSize + 1) text)
        = some (fill (finshCmdSize + 1) completed,
            (names table text).flatMap fun name => name ++ ['\n']) ∧
      text <+: completed ∧
      ∀ p, p <+: completed ↔ ∀ name ∈ names table text, p <+: name := by
  obtain ⟨name, hname, hlt⟩ := hsome
  have hspec := prefix_complete htext (List.ne_nil_of_mem hname)
  have hbegin : complete table text <+: name := (hspec _).mp List.prefix_rfl name hname
  refine ⟨complete table text, ?_, prefix_complete_self, hspec⟩
  rw [mshAutoComplete_fill hnul (hbegin.length_le.trans_lt hlt), if_neg htext]

/-- `l` with the commands `led` and `leg`. -/
theorem tab_completes_example :
    ∃ completed, mshAutoComplete
        [⟨"__cmd_led".toList, [], fun _ => ([], 0)⟩, ⟨"__cmd_leg".toList, [], fun _ => ([], 0)⟩]
        (fill (finshCmdSize + 1) ['l'])
        = some (fill (finshCmdSize + 1) completed,
            (names [⟨"__cmd_led".toList, [], fun _ => ([], 0)⟩,
              ⟨"__cmd_leg".toList, [], fun _ => ([], 0)⟩] ['l']).flatMap
                fun name => name ++ ['\n']) ∧
      ['l'] <+: completed ∧
      ∀ p, p <+: completed ↔ ∀ name ∈ names [⟨"__cmd_led".toList, [], fun _ => ([], 0)⟩,
        ⟨"__cmd_leg".toList, [], fun _ => ([], 0)⟩] ['l'], p <+: name :=
  tab_completes (by decide) (by decide) ⟨['l', 'e', 'd'], by decide, by decide⟩

end Keys

end RtCharger.Termios.Shell
