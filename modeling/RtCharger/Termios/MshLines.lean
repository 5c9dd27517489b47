import RtCharger.Termios.Msh

namespace RtCharger.Termios.Msh

open RtCharger.Utilities
open RtCharger.Net (nul cString)

/-!
# Lines for commands

A line is written word by word, bare or in quotes, with blanks between the words, and `msh_exec`
calls the command that its first word names.

* `Word`, `WellSpaced`, `render` — words, and how a line is written;
* `words_render`, `words_read_back` — the words are read back as they were written;
* `answer`, `mshExec_answer` — what a line does, and that `msh_exec` does it;
* `answer_render` — a command gets the words of its line.
-/

/-! ### Lines that are written word by word -/

/-- The text may stand in quotes: every quote in it has a backslash before it, and there is none
    at its end. -/
def closes : Text → Bool
  | []           => true
  | [c]          => c != '"' && c != '\\'
  | c :: d :: cs =>
    if c = '\\' ∧ d = '"' then closes cs else c != '"' && closes (d :: cs)

/-- A word as it is, or in quotes. -/
inductive Word where
  | bare (w : Text)
  | quoted (w : Text)
deriving DecidableEq, Repr

def Word.text : Word → Text
  | .bare w   => w
  | .quoted w => w

def Word.written : Word → Text
  | .bare w   => w
  | .quoted w => '"' :: w ++ ['"']

/-- A word without quotes has no blanks and does not begin with a quote. -/
def Word.Valid : Word → Prop
  | .bare w   => w ≠ [] ∧ (∀ c ∈ w, isBlank c = false) ∧ w.head? ≠ some '"'
  | .quoted w => closes w = true

instance : DecidablePred Word.Valid
  | .bare w   =>
    haveI : Decidable (∀ c ∈ w, isBlank c = false) := List.decidableBAll _ w
    inferInstanceAs (Decidable (_ ∧ _ ∧ _))
  | .quoted _ => inferInstanceAs (Decidable (_ = _))

/-- Blanks, as many as there are. -/
def IsGap (gap : Text) : Prop := ∀ c ∈ gap, isBlank c = true

instance : DecidablePred IsGap := fun gap => List.decidableBAll _ gap

/-- Some words, each with the gap behind it. -/
def render (ws : List (Word × Text)) : Text := ws.flatMap fun w => w.1.written ++ w.2

/-- The words are valid, and there is a gap between a word without quotes and the next word. -/
def WellSpaced : List (Word × Text) → Prop
  | []             => True
  | (w, gap) :: ws =>
    w.Valid ∧ IsGap gap ∧ (ws ≠ [] → w = .bare w.text → gap ≠ []) ∧ WellSpaced ws

/-- A text that may stand in quotes is read up to the quote behind it. -/
theorem stringWord_closes : ∀ {w : Text}, closes w = true → ∀ rest : Text,
    stringWord (w ++ '"' :: rest) = w
  | [], _, rest           => by cases rest <;> simp [stringWord]
  | [c], h, rest          => by
    simp only [closes, Bool.and_eq_true, bne_iff_ne] at h
    rw [List.singleton_append, stringWord, if_neg h.1, if_neg fun h' => h.2 h'.1]
    exact congrArg (c :: ·) (stringWord_closes (w := []) rfl rest)
  | c :: d :: cs, h, rest => by
    rw [closes] at h
    rw [List.cons_append, List.cons_append, stringWord]
    by_cases hesc : c = '\\' ∧ d = '"'
    · rw [if_pos hesc] at h
      have hc : c ≠ '"' := by
        rw [hesc.1]
        decide
      rw [if_neg hc, if_pos hesc, stringWord_closes h]
    · rw [if_neg hesc, Bool.and_eq_true, bne_iff_ne] at h
      rw [if_neg h.1, if_neg hesc, ← List.cons_append, stringWord_closes h.2]

/-- Behind a gap the text is read from its beginning. -/
theorem dropWhile_gap {gap : Text} (hgap : IsGap gap) (text : Text) :
    (gap ++ text).dropWhile isBlank = text.dropWhile isBlank := by
  rw [List.dropWhile_append, List.dropWhile_eq_nil_iff.mpr hgap]
  rfl

/-- A word without blanks is read up to the gap behind it. -/
theorem takeWhile_atGap {w r : Text} (hw : ∀ c ∈ w, isBlank c = false) (hr : AtGap r) :
    ((w ++ r).takeWhile fun c => !isBlank c) = w ∧
      ((w ++ r).dropWhile fun c => !isBlank c) = r := by
  have hw' : ∀ c ∈ w, (!isBlank c) = true := fun c hc => by rw [hw c hc]; rfl
  rw [List.takeWhile_append_of_pos hw', List.dropWhile_append_of_pos hw']
  cases r with
  | nil => exact ⟨List.append_nil w, rfl⟩
  | cons c r =>
    have hc : (!isBlank c) = false := by rw [hr c rfl]; rfl
    rw [List.takeWhile_cons_of_neg (by simp [hc]), List.dropWhile_cons_of_neg (by simp [hc])]
    exact ⟨List.append_nil w, rfl⟩

/-- Behind a word without quotes there is a gap, or the line ends. -/
theorem atGap_render {ws : List (Word × Text)} {gap : Text} (hgap : IsGap gap)
    (hsep : ws ≠ [] → gap ≠ []) : AtGap (gap ++ render ws) := by
  intro c hc
  cases gap with
  | cons d gap =>
    cases hc
    exact hgap c List.mem_cons_self
  | nil =>
    cases ws with
    | nil => cases hc
    | cons _ _ => exact absurd rfl (hsep (List.cons_ne_nil _ _))

/-- **Words that are written are read back**: whatever the gaps are, the first words of the line
    are the ones that were written, and nothing is left if there are fewer than `n`. -/
theorem words_render {ws : List (Word × Text)} (hws : WellSpaced ws) {gap : Text}
    (hgap : IsGap gap) (n : Nat) :
    (words n (gap ++ render ws)).1 = (ws.map fun w => w.1.text).take n ∧
      (ws.length < n → (words n (gap ++ render ws)).2 = []) := by
  induction ws generalizing gap n with
  | nil =>
    have hline : (gap ++ render []).dropWhile isBlank = [] := by
      rw [dropWhile_gap hgap]
      rfl
    cases n with
    | zero => exact ⟨rfl, fun h => absurd h (Nat.not_lt_zero _)⟩
    | succ n =>
      rw [words_blanks hline]
      exact ⟨rfl, fun _ => rfl⟩
  | cons w ws ih =>
    obtain ⟨word, gap'⟩ := w
    obtain ⟨hword, hgap', hsep, hws⟩ := hws
    cases n with
    | zero => exact ⟨rfl, fun h => absurd h (Nat.not_lt_zero _)⟩
    | succ n =>
      have hrest := ih hws hgap' n
      have hrender : gap ++ render ((word, gap') :: ws)
          = gap ++ (word.written ++ (gap' ++ render ws)) := by
        rw [render, List.flatMap_cons, List.append_assoc]
        rfl
      have hwords : words (n + 1) (gap ++ render ((word, gap') :: ws))
          = (word.text :: (words n (gap' ++ render ws)).1, (words n (gap' ++ render ws)).2) := by
        rw [hrender]
        cases word with
        | bare w =>
          obtain ⟨hne, hblank, hquote⟩ := hword
          obtain ⟨c, cs, rfl⟩ := List.exists_cons_of_ne_nil hne
          have hc : isBlank c = false := hblank c List.mem_cons_self
          have hline : (gap ++ ((Word.bare (c :: cs)).written ++ (gap' ++ render ws))).dropWhile
              isBlank = c :: (cs ++ (gap' ++ render ws)) := by
            rw [dropWhile_gap hgap]
            exact List.dropWhile_cons_of_neg (by simp [hc])
          have hend := atGap_render hgap' fun hne => hsep hne rfl
          obtain ⟨htake, hdrop⟩ := takeWhile_atGap hblank hend
          rw [List.cons_append] at htake hdrop
          rw [words_bare hline fun h => hquote (congrArg some h), htake, hdrop]
          rfl
        | quoted w =>
          have hline : (gap ++ ((Word.quoted w).written ++ (gap' ++ render ws))).dropWhile isBlank
              = '"' :: (w ++ '"' :: (gap' ++ render ws)) := by
            rw [dropWhile_gap hgap]
            simp [Word.written, List.dropWhile_cons_of_neg, isBlank]
          have htail : ((w ++ '"' :: (gap' ++ render ws)).drop w.length).tail
              = gap' ++ render ws := by
            rw [List.drop_left, List.tail_cons]
          rw [words_string hline, stringWord_closes hword, htail]
          rfl
      rw [hwords, List.map_cons, List.take_succ_cons]
      exact ⟨congrArg (word.text :: ·) hrest.1, fun h => hrest.2 (Nat.lt_of_succ_lt_succ h)⟩

/-- There is no NUL in a line if there is none in its words. -/
theorem nul_not_mem_line {ws : List (Word × Text)} (hws : WellSpaced ws)
    (hnul : ∀ w ∈ ws, nul ∉ w.1.text) {gap : Text} (hgap : IsGap gap) :
    nul ∉ gap ++ render ws := by
  have hblank : ∀ {g : Text}, IsGap g → nul ∉ g := fun hg hmem => by
    have := hg nul hmem
    rw [isBlank_nul] at this
    cases this
  induction ws generalizing gap with
  | nil => simpa [render] using hblank hgap
  | cons w ws ih =>
    obtain ⟨word, gap'⟩ := w
    obtain ⟨-, hgap', -, hws⟩ := hws
    have hrest := ih hws (fun w hw => hnul w (List.mem_cons_of_mem _ hw)) hgap'
    have htext : nul ∉ word.text := hnul _ List.mem_cons_self
    have hword : nul ∉ word.written := by
      cases word with
      | bare w => exact htext
      | quoted w =>
        have hquote : nul ≠ '"' := by decide
        simpa [Word.written, Word.text, hquote] using htext
    rw [render, List.flatMap_cons, List.append_assoc]
    simp only [List.mem_append, not_or] at hrest ⊢
    exact ⟨hblank hgap, hword, hrest⟩

/-- **The words of a line are split as they were written**, bare or in quotes, whatever the gaps
    between them are: `msh_split` gives the command the ten first ones at most, and does not
    complain if there are fewer than ten. -/
theorem words_read_back {ws : List (Word × Text)} (hws : WellSpaced ws)
    (hnul : ∀ w ∈ ws, nul ∉ w.1.text) {gap : Text} (hgap : IsGap gap) (t : Text) :
    ∃ message, mshSplit (gap ++ render ws).length (gap ++ render ws ++ nul :: t)
        = some ((ws.map fun w => w.1.text).take finshArgMax, message) ∧
      (ws.length < finshArgMax → message = []) := by
  have hwords := words_render hws hgap finshArgMax
  rw [mshSplit_words (nul_not_mem_line hws hnul hgap) t, hwords.1]
  refine ⟨_, rfl, fun hfew => ?_⟩
  rw [hwords.2 hfew, if_pos rfl]

/-- `ab "c \" d"`. -/
theorem words_read_back_example :
    ∃ message, mshSplit (([] : Text) ++ render [(.bare ['a', 'b'], [' ']),
        (.quoted ['c', ' ', '\\', '"', ' ', 'd'], [])]).length
      ([] ++ render [(.bare ['a', 'b'], [' ']),
        (.quoted ['c', ' ', '\\', '"', ' ', 'd'], [])] ++ nul :: [])
        = some (([(.bare ['a', 'b'], [' ']), (.quoted ['c', ' ', '\\', '"', ' ', 'd'], [])].map
            fun w : Word × Text => w.1.text).take finshArgMax, message) ∧
      (2 < finshArgMax → message = []) := by
  have hws : WellSpaced [(.bare ['a', 'b'], [' ']),
      (.quoted ['c', ' ', '\\', '"', ' ', 'd'], [])] :=
    ⟨by decide, by decide, by decide, by decide, by decide, by decide, trivial⟩
  exact words_read_back hws (by decide) (by decide) []

/-! ### Running the line -/

/-- The command of that name. -/
def command (table : List Syscall) (name : Text) : Option Syscall :=
  table.find? fun call => cmdPrefix.isPrefixOf call.name && call.cmdName == name

/-- What a line does: nothing, a command is called with the first words, or there is no such
    command. -/
def answer (table : List Syscall) (line : Text) : List Out × Int :=
  let line := line.dropWhile isBlank
  if line = [] then ([], 0)
  else
    match command table (line.takeWhile fun c => !isBlank c) with
    | some call =>
      let (argv, rest) := words finshArgMax line
      let (printed, ret) := call.func argv
      ([.text (if rest = [] then [] else tooManyArgs argv), .call call.cmdName argv,
        .text printed], ret)
    | none      => ([.text (line.takeWhile (· != ' ') ++ ": command not found.\n".toList)], -1)

section Answer

variable {table : List Syscall} {text : Text}

theorem strim_append (hlen : text.length < 4294967296) (t : Text) :
    strim (text ++ nul :: t) text.length
      = some (text.dropWhile isBlank ++ nul :: t, (text.dropWhile isBlank).length) := by
  induction text with
  | nil => rfl
  | cons c text ih =>
    rw [List.length_cons] at hlen
    rw [List.cons_append, strim]
    cases hc : isBlank c with
    | true =>
      have hdec : (text.length + 1 + 4294967295) % 4294967296 = text.length := by omega
      rw [if_pos rfl, List.length_cons, hdec, ih (by omega), List.dropWhile_cons_of_pos hc]
    | false => rw [if_neg (by simp), List.dropWhile_cons_of_neg (by simp [hc])]; rfl

theorem firstWord_append (htext : nul ∉ text) (t : Text) :
    firstWord (text ++ nul :: t) = some (text.takeWhile (· != ' ')) := by
  induction text with
  | nil => simp [firstWord]
  | cons c text ih =>
    rw [List.mem_cons, not_or] at htext
    rw [List.cons_append, firstWord]
    by_cases hc : c = ' '
    · rw [if_pos (.inl hc), List.takeWhile_cons_of_neg (by simp [hc])]
    · rw [if_neg (by simp [hc, Ne.symm htext.1]), ih htext.2,
        List.takeWhile_cons_of_pos (by simp [hc])]
      rfl

/-- A command is found by its name. -/
theorem mshGetCmd_append {name : Text} (hname : nul ∉ name) (r : Text) :
    mshGetCmd table (name ++ r) name.length = command table name := by
  rw [mshGetCmd, command]
  congr 1
  funext call
  rw [List.take_left, Net.cString_of_not_mem hname, Bool.and_assoc]
  congr 1
  by_cases h : call.cmdName = name <;> simp [h]

/-- A line that begins with a word, run as a command. -/
theorem execCmd_append {c : Char} {cs : Text} (hc : isBlank c = false) (hcs : nul ∉ c :: cs)
    (t : Text) :
    execCmd table (c :: cs ++ nul :: t) (c :: cs).length
      = some ((command table ((c :: cs).takeWhile fun c => !isBlank c)).map fun call =>
          ([.text (if (words finshArgMax (c :: cs)).2 = [] then []
              else tooManyArgs (words finshArgMax (c :: cs)).1),
            .call call.cmdName (words finshArgMax (c :: cs)).1,
            .text (call.func (words finshArgMax (c :: cs)).1).1],
          (call.func (words finshArgMax (c :: cs)).1).2)) := by
  have hname : nul ∉ (c :: cs).takeWhile fun c => !isBlank c := fun hmem =>
    hcs ((List.takeWhile_sublist _).subset hmem)
  have hfirst : ((c :: cs).takeWhile fun c => !isBlank c).length ≠ 0 := by
    rw [List.takeWhile_cons_of_pos (by simp [hc])]
    exact Nat.succ_ne_zero _
  have hline : c :: cs ++ nul :: t = ((c :: cs).takeWhile fun c => !isBlank c) ++
      (((c :: cs).dropWhile fun c => !isBlank c) ++ nul :: t) := by
    rw [← List.append_assoc, List.takeWhile_append_dropWhile]
  have hget : mshGetCmd table _ _ = _ :=
    mshGetCmd_append hname (((c :: cs).dropWhile fun c => !isBlank c) ++ nul :: t)
  rw [← hline] at hget
  rw [execCmd, skipWord_append t (Nat.zero_add _).symm]
  simp only [Option.bind_eq_bind, Option.bind_some, List.nil_append]
  rw [if_neg hfirst, hget]
  cases command table ((c :: cs).takeWhile fun c => !isBlank c) with
  | none => rfl
  | some call =>
    have hargv : (words finshArgMax (c :: cs)).1.length ≠ 0 := by
      have hline' : (c :: cs).dropWhile isBlank = c :: cs :=
        List.dropWhile_cons_of_neg (by simp [hc])
      by_cases hquote : c = '"'
      · subst hquote
        rw [finshArgMax, words_string hline']
        exact Nat.succ_ne_zero _
      · rw [finshArgMax, words_bare hline' hquote]
        exact Nat.succ_ne_zero _
    dsimp only
    rw [mshSplit_words hcs, Option.bind_some]
    dsimp only
    rw [if_neg hargv]
    rfl

/-- **Every line is answered**: `msh_exec` of a line does what its words say, and nothing
    outside of the line and the NUL behind it is read or written. -/
theorem mshExec_answer (htext : nul ∉ text) (hlen : text.length < 4294967296) (t : Text) :
    mshExec table (text ++ nul :: t) text.length = some (answer table text) := by
  rw [mshExec, strim_append hlen, answer]
  simp only [Option.bind_eq_bind, Option.bind_some]
  have hhead := List.head?_dropWhile_not isBlank text
  have hnul : nul ∉ text.dropWhile isBlank := fun hmem =>
    htext ((List.dropWhile_sublist isBlank).subset hmem)
  generalize text.dropWhile isBlank = line at hhead hnul
  cases line with
  | nil => rfl
  | cons c cs =>
    rw [if_neg (by simp), if_neg (by simp), execCmd_append hhead hnul]
    cases command table ((c :: cs).takeWhile fun c => !isBlank c) with
    | none =>
      dsimp only [Option.map_none, Option.bind_some]
      rw [firstWord_append hnul]
      rfl
    | some call => rfl

/-- **A command gets the words of its line**, the ten first ones at most. -/
theorem answer_render {name gap gap' : Text} {args : List (Word × Text)} (hgap : IsGap gap)
    (hline : WellSpaced ((.bare name, gap') :: args)) {call : Syscall}
    (hcall : command table name = some call) :
    ∃ message printed, (answer table (gap ++ render ((.bare name, gap') :: args))).1
      = [.text message, .call name ((name :: args.map fun w => w.1.text).take finshArgMax),
          .text printed] := by
  obtain ⟨⟨hne, hblank, -⟩, hgap', hsep, -⟩ := id hline
  obtain ⟨c, cs, rfl⟩ := List.exists_cons_of_ne_nil hne
  have hrender : render ((.bare (c :: cs), gap') :: args) = c :: (cs ++ (gap' ++ render args)) := by
    rw [render, List.flatMap_cons]
    simp [Word.written, render]
  have hdrop : (gap ++ render ((.bare (c :: cs), gap') :: args)).dropWhile isBlank
      = render ((.bare (c :: cs), gap') :: args) := by
    rw [dropWhile_gap hgap, hrender]
    exact List.dropWhile_cons_of_neg (by simp [hblank c List.mem_cons_self])
  have hname : ((render ((.bare (c :: cs), gap') :: args)).takeWhile fun c => !isBlank c)
      = c :: cs := by
    rw [hrender]
    exact (takeWhile_atGap hblank (atGap_render hgap' fun hne => hsep hne rfl)).1
  have hcmd : call.cmdName = c :: cs := by
    have hfound := List.find?_some hcall
    rw [Bool.and_eq_true, beq_iff_eq] at hfound
    exact hfound.2
  have hwords : (words finshArgMax ([] ++ render ((.bare (c :: cs), gap') :: args))).1 = _ :=
    (words_render hline (by simp [IsGap]) finshArgMax).1
  rw [List.nil_append] at hwords
  rw [answer]
  dsimp only
  rw [hdrop, if_neg (by rw [hrender]; exact List.cons_ne_nil _ _), hname, hcall]
  dsimp only
  rw [hwords, hcmd]
  exact ⟨_, _, rfl⟩

end Answer

end RtCharger.Termios.Msh
