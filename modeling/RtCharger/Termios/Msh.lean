import RtCharger.Net.AtText
import RtCharger.Termios.Cmd

namespace RtCharger.Termios.Msh

open RtCharger.Utilities
open RtCharger.Net (nul cString)

/-!
# Running a command line

`msh_split` cuts a command line into words in place: it writes a NUL over what ends a word and
notes where the word begins.  `msh_exec` looks for the command that the first word names and calls
it with the words.

* `mshSplit`, `mshExec` — the functions of the source; `none` is an access outside of the buffer;
* `words` — what the words of a line are;
* `strip_append`, `skipWord_append`, `skipString_append` — where the inner loops stop;
* `Splits`, `Finds`, `finds` — what a pass of the outer loop does, and the whole loop;
* `mshSplit_words` — `msh_split` finds the first ten words, whatever the line is.
-/

/-! ### The functions of the source -/

/-- `FINSH_ARG_MAX`. -/
def finshArgMax : Nat := 10

def isBlank (c : Char) : Bool := c == ' ' || c == '\t'

/-- Where `msh_split` is: what is before `ptr` as it is now, what is from there to the end of the
    buffer, and where the arguments begin.  `position` is the length of the first part. -/
structure Scan where
  done : Text
  rest : Text
  argv : List Nat
deriving DecidableEq, Repr

section Split

variable (length : Nat)

/-- The loop that strips the blanks. -/
def strip : Text → Text → Option (Text × Text)
  | _, []           => none
  | done, c :: rest =>
    if isBlank c = true ∧ done.length < length then strip (done ++ [nul]) rest
    else some (done, c :: rest)

/-- The loop over a word in quotes. -/
def skipString : Text → Text → Option (Text × Text)
  | _, []                => none
  | done, [c]            => if c ≠ '"' ∧ done.length < length then none else some (done, [c])
  | done, c :: d :: rest =>
    if c ≠ '"' ∧ done.length < length then
      -- an escaped quote is skipped with its backslash
      if c = '\\' ∧ d = '"' then skipString (done ++ [c, d]) rest
      else skipString (done ++ [c]) (d :: rest)
    else some (done, c :: d :: rest)

/-- The loop over a word without quotes. -/
def skipWord : Text → Text → Option (Text × Text)
  | _, []           => none
  | done, c :: rest =>
    if isBlank c = false ∧ done.length < length then skipWord (done ++ [c]) rest
    else some (done, c :: rest)

/-- The outer loop of `msh_split`, and whether it ends with the message that there are too many
    arguments. -/
def splitLoop : Nat → Scan → Option (Scan × Bool)
  | 0, _        => none
  | fuel + 1, s =>
    if s.done.length < length then do
      let (done, rest) ← strip length s.done s.rest
      if finshArgMax ≤ s.argv.length then
        return (⟨done, rest, s.argv⟩, true)
      else if length ≤ done.length then
        return (⟨done, rest, s.argv⟩, false)
      else if rest.head? = some '"' then
        let argv := s.argv ++ [done.length + 1]
        let (done, rest) ← skipString length (done ++ ['"']) rest.tail
        if length ≤ done.length then return (⟨done, rest, argv⟩, false)
        else splitLoop fuel ⟨done ++ [nul], rest.tail, argv⟩
      else
        let argv := s.argv ++ [done.length]
        let (done, rest) ← skipWord length done rest
        if length ≤ done.length then return (⟨done, rest, argv⟩, false)
        else splitLoop fuel ⟨done, rest, argv⟩
    else return (s, false)

/-- The arguments as they are in the buffer, each up to its NUL. -/
def Scan.args (s : Scan) : List Text := s.argv.map fun p => cString ((s.done ++ s.rest).drop p)

/-- What is printed if there are too many arguments. -/
def tooManyArgs (args : List Text) : Text :=
  "Too many args ! We only Use:\n".toList ++ args.flatMap (· ++ [' ']) ++ ['\n']

/-- `msh_split`: the arguments, and what is printed. -/
def mshSplit (cmd : Text) : Option (List Text × Text) :=
  (splitLoop length (cmd.length + 1) ⟨[], cmd, []⟩).map fun s =>
    (s.1.args, if s.2 then tooManyArgs s.1.args else [])

end Split

/-- A command of the shell: its name in the table, what it is for, and what it prints and
    returns. -/
structure Syscall where
  name : Text
  desc : Text
  func : List Text → Text × Int

/-- What begins the names of the commands. -/
def cmdPrefix : Text := "__cmd_".toList

/-- The name without its beginning. -/
def Syscall.cmdName (call : Syscall) : Text := call.name.drop 6

/-- `msh_get_cmd`. -/
def mshGetCmd (table : List Syscall) (cmd : Text) (size : Nat) : Option Syscall :=
  table.find? fun call =>
    cmdPrefix.isPrefixOf call.name && call.cmdName == cString (cmd.take size) &&
      call.cmdName.length == size

/-- What happens on a command line: something is printed, or a command is called. -/
inductive Out where
  | text (t : Text)
  /-- `\033[2K\r`: the row is cleared. -/
  | clearRow
  /-- A command gets its arguments. -/
  | call (name : Text) (argv : List Text)
deriving DecidableEq, Repr

/-- `_msh_exec_cmd`: what happens, and what the command returns; the inner `none` is an error. -/
def execCmd (table : List Syscall) (cmd : Text) (length : Nat) :
    Option (Option (List Out × Int)) := do
  let (cmd0, _) ← skipWord length [] cmd
  if cmd0.length = 0 then return none
  else match mshGetCmd table cmd cmd0.length with
    | none      => return none
    | some call =>
      let (argv, message) ← mshSplit length cmd
      if argv.length = 0 then return none
      else
        let (printed, ret) := call.func argv
        return some ([.text message, .call call.cmdName argv, .text printed], ret)

/-- `msh_exec` strips the beginning of the line, whose length is counted down modulo `2 ^ 32`. -/
def strim : Text → Nat → Option (Text × Nat)
  | [], _          => none
  | c :: cs, length =>
    if isBlank c = true then strim cs ((length + 4294967295) % 4294967296)
    else some (c :: cs, length)

/-- The name that is printed if there is no such command: up to the first space. -/
def firstWord : Text → Option Text
  | []      => none
  | c :: cs => if c = ' ' ∨ c = nul then some [] else (firstWord cs).map (c :: ·)

/-- `msh_exec`: what happens, and what it returns. -/
def mshExec (table : List Syscall) (line : Text) (length : Nat) : Option (List Out × Int) := do
  let (cmd, length) ← strim line length
  if length = 0 then return ([], 0)
  else match ← execCmd table cmd length with
    | some done => return done
    | none      =>
      let name ← firstWord cmd
      return ([.text (name ++ ": command not found.\n".toList)], -1)

/-! ### The words of a line -/

/-- What is in quotes: the text up to the first quote that has no backslash before it. -/
def stringWord : Text → Text
  | []            => []
  | [c]           => if c = '"' then [] else [c]
  | c :: d :: cs  =>
    if c = '"' then []
    else if c = '\\' ∧ d = '"' then c :: d :: stringWord cs
    else c :: stringWord (d :: cs)

/-- The first `n` words of a line, and what is left of it. -/
def words : Nat → Text → List Text × Text
  | 0, line     => ([], line)
  | n + 1, line =>
    match line.dropWhile isBlank with
    | []      => ([], [])
    | c :: cs =>
      if c = '"' then
        let (ws, rest) := words n (cs.drop (stringWord cs).length).tail
        (stringWord cs :: ws, rest)
      else
        let (ws, rest) := words n ((c :: cs).dropWhile fun c => !isBlank c)
        (((c :: cs).takeWhile fun c => !isBlank c) :: ws, rest)

/-- The equations of `words`, by what follows the blanks. -/
theorem words_blanks {line : Text} (h : line.dropWhile isBlank = []) (n : Nat) :
    words (n + 1) line = ([], []) := by
  rw [words, h]

theorem words_string {line cs : Text} (h : line.dropWhile isBlank = '"' :: cs) (n : Nat) :
    words (n + 1) line = (stringWord cs :: (words n (cs.drop (stringWord cs).length).tail).1,
      (words n (cs.drop (stringWord cs).length).tail).2) := by
  rw [words, h]
  rfl

theorem words_bare {line cs : Text} {c : Char} (h : line.dropWhile isBlank = c :: cs)
    (hc : c ≠ '"') (n : Nat) :
    words (n + 1) line = ((c :: cs).takeWhile (fun c => !isBlank c) ::
        (words n ((c :: cs).dropWhile fun c => !isBlank c)).1,
      (words n ((c :: cs).dropWhile fun c => !isBlank c)).2) := by
  rw [words, h]
  exact if_neg hc

@[simp] theorem words_nil (n : Nat) : words n [] = ([], []) := by
  cases n <;> rfl

@[simp] theorem isBlank_nul : isBlank nul = false := by decide

/-- A text that ends at a NUL is read up to there. -/
theorem cString_of_head {w r : Text} (hw : nul ∉ w) (hr : r.head? = some nul) :
    cString (w ++ r) = w := by
  cases r with
  | nil => cases hr
  | cons c r =>
    cases hr
    rw [Net.cString_append hw]
    exact List.append_nil w

/-! ### The inner loops -/

section Loops

variable {length : Nat} {text done : Text} (t : Text)

/-- All blanks are stripped, and no more than there are. -/
theorem strip_append (hlen : length = done.length + text.length) :
    strip length done (text ++ nul :: t)
      = some (done ++ List.replicate (text.takeWhile isBlank).length nul,
          text.dropWhile isBlank ++ nul :: t) := by
  induction text generalizing done with
  | nil =>
    rw [List.nil_append, strip, if_neg (by simp)]
    simp
  | cons c text ih =>
    rw [List.length_cons] at hlen
    rw [List.cons_append, strip]
    cases hc : isBlank c with
    | true =>
      rw [if_pos ⟨rfl, by omega⟩, ih (by rw [List.length_append, List.length_singleton]; omega),
        List.takeWhile_cons_of_pos hc, List.dropWhile_cons_of_pos hc, List.length_cons,
        List.replicate_succ, List.append_assoc, List.singleton_append]
    | false =>
      rw [if_neg (by simp), List.takeWhile_cons_of_neg (by simp [hc]),
        List.dropWhile_cons_of_neg (by simp [hc])]
      simp

/-- A word without quotes ends at a blank, or with the line. -/
theorem skipWord_append (hlen : length = done.length + text.length) :
    skipWord length done (text ++ nul :: t)
      = some (done ++ text.takeWhile (fun c => !isBlank c),
          text.dropWhile (fun c => !isBlank c) ++ nul :: t) := by
  induction text generalizing done with
  | nil =>
    rw [List.length_nil] at hlen
    rw [List.nil_append, skipWord, if_neg (by omega)]
    simp
  | cons c text ih =>
    rw [List.length_cons] at hlen
    rw [List.cons_append, skipWord]
    cases hc : isBlank c with
    | false =>
      rw [if_pos ⟨rfl, by omega⟩, ih (by rw [List.length_append, List.length_singleton]; omega),
        List.takeWhile_cons_of_pos (by simp [hc]), List.dropWhile_cons_of_pos (by simp [hc]),
        List.append_assoc, List.singleton_append]
    | true =>
      rw [if_neg (by simp), List.takeWhile_cons_of_neg (by simp [hc]),
        List.dropWhile_cons_of_neg (by simp [hc])]
      simp

/-- A word in quotes ends at its closing quote, or with the line. -/
theorem skipString_append : ∀ (text : Text) {done : Text},
    length = done.length + text.length →
    skipString length done (text ++ nul :: t)
      = some (done ++ stringWord text, text.drop (stringWord text).length ++ nul :: t)
  | [], done, hlen => by
    rw [List.length_nil] at hlen
    cases t <;> simp [skipString, stringWord, hlen]
  | [c], done, hlen => by
    rw [List.length_singleton] at hlen
    by_cases hc : c = '"'
    · subst hc
      simp [skipString, stringWord]
    · have hlen' : length = (done ++ [c]).length + ([] : Text).length := by simp [hlen]
      have hend : skipString length (done ++ [c]) (nul :: t)
          = some (done ++ [c] ++ stringWord [], nul :: t) := skipString_append [] hlen'
      rw [List.singleton_append, skipString, if_pos ⟨hc, by omega⟩,
        if_neg fun h => absurd h.2 (by decide), hend]
      simp [stringWord, hc]
  | c :: d :: cs, done, hlen => by
    rw [List.length_cons, List.length_cons] at hlen
    rw [List.cons_append, List.cons_append, skipString, stringWord]
    by_cases hc : c = '"'
    · rw [if_neg fun h => h.1 hc, if_pos hc]
      simp
    · rw [if_pos ⟨hc, by omega⟩, if_neg hc]
      by_cases hesc : c = '\\' ∧ d = '"'
      · rw [if_pos hesc, if_pos hesc, skipString_append cs (by simp; omega)]
        simp
      · rw [if_neg hesc, if_neg hesc, ← List.cons_append,
          skipString_append (d :: cs) (by simp; omega)]
        simp

end Loops

/-! ### The outer loop -/

/-- What is in quotes is the beginning of what is behind the quote. -/
theorem stringWord_append : ∀ text : Text,
    stringWord text ++ text.drop (stringWord text).length = text
  | []           => rfl
  | [c]          => by
    by_cases hc : c = '"' <;> simp [stringWord, hc]
  | c :: d :: cs => by
    rw [stringWord]
    by_cases hc : c = '"'
    · simp [hc]
    · rw [if_neg hc]
      by_cases hesc : c = '\\' ∧ d = '"'
      · rw [if_pos hesc]
        exact congrArg (c :: d :: ·) (stringWord_append cs)
      · rw [if_neg hesc]
        exact congrArg (c :: ·) (stringWord_append (d :: cs))

/-- A blank or nothing is where the next pass of the loop leaves a NUL. -/
def AtGap (text : Text) : Prop := ∀ c ∈ text.head?, isBlank c = true

/-- What the loop makes of the text that follows `done`: the buffer behind `done` and where the
    arguments `ws` begin in it.  `more` tells whether the loop complains. -/
def Splits (done text : Text) (argv : List Nat) (ws : List Text) (more : Bool)
    (r : Option (Scan × Bool)) : Prop :=
  ∃ s behind offs, r = some (s, more) ∧ s.done ++ s.rest = done ++ behind ∧
    s.argv = argv ++ offs ∧ offs.map (fun p => cString ((done ++ behind).drop p)) = ws ∧
    (AtGap text → behind.head? = some nul)

section Loop

variable {length fuel n : Nat} {text done w r t : Text} {argv : List Nat} {ws : List Text}
  {more : Bool} {res : Option (Scan × Bool)}

/-- The loop stops where nothing is left for it to find. -/
theorem Splits.stop {done' behind : Text} (hbehind : done' ++ r = done ++ behind)
    (hgap : AtGap text → behind.head? = some nul) :
    Splits done text argv [] more (some (⟨done', r, argv⟩, more)) :=
  ⟨_, behind, [], rfl, hbehind, (List.append_nil argv).symm, rfl, hgap⟩

/-- One word, and what the loop makes of the text behind it. -/
theorem Splits.cons (before behind text' : Text) (hw : nul ∉ w)
    (hbefore : AtGap text → before.head? = some nul)
    (hbehind : behind.head? = some nul ∨ behind = [] ∧ AtGap text')
    (h : Splits (done ++ before ++ w ++ behind) text' (argv ++ [(done ++ before).length]) ws more
      res) :
    Splits done text argv (w :: ws) more res := by
  obtain ⟨s, r, offs, hres, hbuf, hargv, hargs, hgap⟩ := h
  have hnul : (behind ++ r).head? = some nul := by
    rcases hbehind with hbehind | ⟨rfl, htext'⟩
    · rw [List.head?_append, hbehind]
      rfl
    · exact hgap htext'
  have hassoc : done ++ (before ++ w ++ behind ++ r) = done ++ before ++ w ++ behind ++ r := by
    simp
  refine ⟨s, before ++ w ++ behind ++ r, (done ++ before).length :: offs, hres, ?_, ?_, ?_, ?_⟩
  · rw [hbuf, hassoc]
  · rw [hargv, List.append_assoc, List.singleton_append]
  · have harg : (done ++ before ++ w ++ behind ++ r).drop (done ++ before).length
        = w ++ (behind ++ r) := by
      rw [List.append_assoc, List.append_assoc, List.drop_left]
    rw [hassoc, List.map_cons, hargs, harg, cString_of_head hw hnul]
  · intro htext
    rw [List.append_assoc, List.append_assoc, List.head?_append, hbefore htext]
    rfl

/-- A word that goes on to the end of the line. -/
theorem Splits.last (before : Text) (hw : nul ∉ w)
    (hbefore : AtGap text → before.head? = some nul) :
    Splits done text argv [w] false (some (⟨done ++ before ++ w, nul :: t,
      argv ++ [(done ++ before).length]⟩, false)) := by
  refine Splits.cons before [] [] hw hbefore (.inr ⟨rfl, by simp [AtGap]⟩) ?_
  rw [List.append_nil]
  exact Splits.stop rfl fun _ => rfl

/-- A word without quotes ends at a gap. -/
theorem atGap_dropWhile (text : Text) : AtGap (text.dropWhile fun c => !isBlank c) := by
  intro c hc
  have hhead := List.head?_dropWhile_not (fun c => !isBlank c) text
  rw [Option.mem_def] at hc
  rw [hc] at hhead
  simpa using hhead

/-- Behind a blank the text that was stripped begins with a NUL. -/
theorem head_replicate (htext : text ≠ []) (hgap : AtGap text) (r : Text) :
    (List.replicate (text.takeWhile isBlank).length nul ++ r).head? = some nul := by
  cases text with
  | nil => exact absurd rfl htext
  | cons c cs => rw [List.takeWhile_cons_of_pos (hgap c rfl)]; rfl

/-- With this fuel the loop finds the words of what is left of the line, the `n` first ones at
    most. -/
def Finds (length fuel : Nat) (t : Text) : Prop :=
  ∀ {n : Nat} {text done : Text} {argv : List Nat}, nul ∉ text →
    length = done.length + text.length → text.length < fuel → argv.length + n = finshArgMax →
    Splits done text argv (words n text).1 (decide ((words n text).2 ≠ []))
      (splitLoop length fuel ⟨done, text ++ nul :: t, argv⟩)

/-- The pass over a word in quotes. -/
theorem Finds.string (h : Finds length fuel t) {before cs : Text} (hcs : nul ∉ cs)
    (hgap : AtGap text → before.head? = some nul)
    (hlen : length = (done ++ before).length + cs.length) (hfuel : cs.length < fuel)
    (hn : argv.length + (n + 1) = finshArgMax) :
    Splits done text argv
      (stringWord cs :: (words n (cs.drop (stringWord cs).length).tail).1)
      (decide ((words n (cs.drop (stringWord cs).length).tail).2 ≠ []))
      ((skipString length (done ++ before) (cs ++ nul :: t)).bind fun x =>
        if length ≤ x.1.length then
          some (⟨x.1, x.2, argv ++ [(done ++ before).length]⟩, false)
        else
          splitLoop length fuel
            ⟨x.1 ++ [nul], x.2.tail, argv ++ [(done ++ before).length]⟩) := by
  have happend := stringWord_append cs
  have hsum := congrArg List.length happend
  rw [List.length_append] at hsum
  have hword : nul ∉ stringWord cs := fun hmem => hcs (happend ▸ List.mem_append_left _ hmem)
  have hrest : nul ∉ cs.drop (stringWord cs).length := fun hmem => hcs (List.mem_of_mem_drop hmem)
  rw [skipString_append t cs hlen, Option.bind_some]
  -- from here on only the lengths of the word and of the rest matter
  generalize stringWord cs = w at hsum hword hrest
  generalize cs.drop w.length = rest at hsum hrest
  have hend : (done ++ before ++ w).length = (done ++ before).length + w.length :=
    List.length_append
  dsimp only
  rw [hend]
  cases rest with
  | nil =>
    -- the line ends before the word does
    rw [List.length_nil] at hsum
    rw [if_pos (by omega), List.tail_nil, words_nil]
    exact Splits.last before hword hgap
  | cons d rest =>
    rw [List.length_cons] at hsum
    rw [if_neg (by omega), List.cons_append, List.tail_cons, List.tail_cons]
    -- the loop writes a NUL over the closing quote
    apply Splits.cons before [nul] rest hword hgap (.inl rfl)
    apply h (fun hmem => hrest (List.mem_cons_of_mem d hmem))
    · rw [List.length_append, List.length_append, List.length_singleton]
      omega
    · omega
    · rw [List.length_append, List.length_singleton]
      omega

/-- The pass over a word without quotes. -/
theorem Finds.word (h : Finds length fuel t) {before cs : Text} {c : Char} (hc : isBlank c = false)
    (hcs : nul ∉ c :: cs) (hgap : AtGap text → before.head? = some nul)
    (hlen : length = (done ++ before).length + (c :: cs).length) (hfuel : cs.length < fuel)
    (hn : argv.length + (n + 1) = finshArgMax) :
    Splits done text argv
      ((c :: cs).takeWhile (fun c => !isBlank c) ::
        (words n ((c :: cs).dropWhile fun c => !isBlank c)).1)
      (decide ((words n ((c :: cs).dropWhile fun c => !isBlank c)).2 ≠ []))
      ((skipWord length (done ++ before) (c :: cs ++ nul :: t)).bind fun x =>
        if length ≤ x.1.length then
          some (⟨x.1, x.2, argv ++ [(done ++ before).length]⟩, false)
        else
          splitLoop length fuel ⟨x.1, x.2, argv ++ [(done ++ before).length]⟩) := by
  have hsum := congrArg List.length
    (List.takeWhile_append_dropWhile (p := fun c => !isBlank c) (l := c :: cs))
  rw [List.length_append, List.length_cons] at hsum
  have hfirst : 0 < ((c :: cs).takeWhile fun c => !isBlank c).length := by
    rw [List.takeWhile_cons_of_pos (by simp [hc])]
    exact Nat.succ_pos _
  have hword : nul ∉ (c :: cs).takeWhile fun c => !isBlank c := fun hmem =>
    hcs ((List.takeWhile_sublist _).subset hmem)
  have hrest : nul ∉ (c :: cs).dropWhile fun c => !isBlank c := fun hmem =>
    hcs ((List.dropWhile_sublist _).subset hmem)
  have hblank := atGap_dropWhile (c :: cs)
  rw [skipWord_append t hlen, Option.bind_some]
  rw [List.length_cons] at hlen
  generalize ((c :: cs).takeWhile fun c => !isBlank c) = w at hsum hfirst hword
  generalize ((c :: cs).dropWhile fun c => !isBlank c) = rest at hsum hrest hblank
  have hend : (done ++ before ++ w).length = (done ++ before).length + w.length :=
    List.length_append
  dsimp only
  rw [hend]
  cases rest with
  | nil =>
    rw [List.length_nil] at hsum
    rw [if_pos (by omega), words_nil]
    exact Splits.last before hword hgap
  | cons d rest =>
    rw [List.length_cons] at hsum
    rw [if_neg (by omega)]
    -- the blank behind the word becomes a NUL in the next pass only
    apply Splits.cons before [] (d :: rest) hword hgap (.inr ⟨rfl, hblank⟩)
    rw [List.append_nil]
    apply h hrest
    · rw [List.length_append, List.length_cons]
      omega
    · rw [List.length_cons]
      omega
    · rw [List.length_append, List.length_singleton]
      omega

/-- **The loop** finds the words. -/
theorem finds (length fuel : Nat) (t : Text) : Finds length fuel t := by
  induction fuel with
  | zero => intro n text done argv _ _ hfuel; omega
  | succ fuel ih =>
    intro n text done argv htext hlen hfuel hn
    by_cases hempty : text = []
    · subst hempty
      have hdone : ¬ done.length < length := by simp [hlen]
      rw [splitLoop, if_neg hdone, words_nil]
      exact Splits.stop rfl fun _ => rfl
    have hpos : 0 < text.length := List.length_pos_iff.mpr hempty
    have hsplit := congrArg List.length (List.takeWhile_append_dropWhile (p := isBlank) (l := text))
    have hdone : done.length < length := by omega
    -- a NUL stands where the last word ended, if that was at a blank
    have hblank : AtGap text → ∀ r : Text,
        (List.replicate (text.takeWhile isBlank).length nul ++ r).head? = some nul :=
      fun hgap r => head_replicate hempty hgap r
    have hhead := List.head?_dropWhile_not isBlank text
    have hnul : nul ∉ text.dropWhile isBlank := fun hmem =>
      htext ((List.dropWhile_sublist isBlank).subset hmem)
    rw [List.length_append] at hsplit
    rw [splitLoop, if_pos hdone]
    dsimp only
    rw [strip_append t hlen]
    simp only [Option.bind_eq_bind, Option.bind_some, List.length_append, List.length_replicate]
    cases n with
    | zero =>
      -- there are as many arguments as there may be
      have hmore : decide ((words 0 text).2 ≠ []) = true := decide_eq_true hempty
      rw [if_pos (by omega), hmore]
      exact Splits.stop (List.append_assoc ..) fun hgap => hblank hgap _
    | succ n =>
      rw [if_neg (by omega)]
      cases hline : text.dropWhile isBlank with
      | nil =>
        -- nothing but blanks was left
        rw [hline, List.length_nil] at hsplit
        rw [if_pos (by omega), words_blanks hline]
        exact Splits.stop (List.append_assoc ..) fun hgap => hblank hgap _
      | cons c cs =>
        rw [hline] at hsplit hhead hnul
        rw [List.length_cons] at hsplit
        rw [if_neg (by omega)]
        have hbegin : done.length + (text.takeWhile isBlank).length
            = (done ++ List.replicate (text.takeWhile isBlank).length nul).length := by simp
        by_cases hc : c = '"'
        · subst hc
          have hquote : done.length + (text.takeWhile isBlank).length + 1
              = (done ++ (List.replicate (text.takeWhile isBlank).length nul ++ ['"'])).length := by
            simp [Nat.add_assoc]
          rw [words_string hline, List.cons_append, List.head?_cons, if_pos rfl, List.tail_cons,
            hquote, List.append_assoc done]
          apply ih.string (fun hmem => hnul (List.mem_cons_of_mem _ hmem))
            (fun hgap => hblank hgap _)
          · rw [← hquote]
            omega
          · omega
          · exact hn
        · have hbare : ¬ (c :: cs ++ nul :: t).head? = some '"' := fun h => hc (Option.some.inj h)
          rw [words_bare hline hc, if_neg hbare, hbegin]
          apply ih.word hhead hnul _ _ (by omega) hn
          · intro hgap
            simpa using hblank hgap []
          · rw [← hbegin, List.length_cons]
            omega

end Loop

/-- **`msh_split` finds the words of every line**, the ten first ones at most, and complains
    exactly if something is left behind the tenth. -/
theorem mshSplit_words {text : Text} (htext : nul ∉ text) (t : Text) :
    mshSplit text.length (text ++ nul :: t)
      = some ((words finshArgMax text).1,
          if (words finshArgMax text).2 = [] then []
          else tooManyArgs (words finshArgMax text).1) := by
  have hloop : Splits [] text [] _ _ (splitLoop text.length ((text ++ nul :: t).length + 1)
      ⟨[], text ++ nul :: t, []⟩) :=
    finds _ _ t htext (Nat.zero_add _).symm (by rw [List.length_append]; omega)
      (Nat.zero_add finshArgMax)
  obtain ⟨s, behind, offs, hres, hbuf, hargv, hargs, -⟩ := hloop
  have hs : s.args = (words finshArgMax text).1 := by
    rw [Scan.args, hbuf, hargv]
    exact hargs
  rw [mshSplit, hres, Option.map_some, hs]
  simp

end RtCharger.Termios.Msh
