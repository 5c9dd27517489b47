import RtCharger.Termios.ShellSession

namespace RtCharger.Termios.Shell

open StepSystem LineBuffer RtCharger.Utilities RtCharger.Termios.Msh
open RtCharger.Net (nul cString)

/-!
# What one sees on the terminal

The shell edits its line and prints what changes of it: a terminal that gives every character one
cell shows the prompt and the line, with the cursor where the next character goes.

* `Screen`, `Screen.write` — the row of the terminal that is written;
* `Shows` — the row shows the prompt and the line;
* `Session.next_cases` — what a character can be;
* `Shows.next`, `row_shows_line` — it does after every character;
* `CommandLine`, `items_arrive` — what is typed in is what the commands get.
-/

/-! ### The terminal -/

/-- The row with the cursor, and the column of the cursor. -/
structure Screen where
  row : Text
  col : Nat
deriving DecidableEq, Repr

/-- A character that takes a cell. -/
def Plain (c : Char) : Prop := c ≠ '\n' ∧ c ≠ '\r' ∧ c ≠ '\x08'

instance : DecidablePred Plain := fun _ => inferInstanceAs (Decidable (_ ∧ _ ∧ _))

namespace Screen

/-- The terminal gets a character. -/
def write (s : Screen) (c : Char) : Screen :=
  if c = '\n' then ⟨[], 0⟩
  else if c = '\r' then ⟨s.row, 0⟩
  else if c = '\x08' then ⟨s.row, s.col - 1⟩
  else ⟨s.row.take s.col ++ List.replicate (s.col - s.row.length) ' ' ++
    c :: s.row.drop (s.col + 1), s.col + 1⟩

/-- The terminal shows what happens. -/
def shown (s : Screen) : Out → Screen
  | .text t   => t.foldl write s
  | .clearRow => ⟨[], 0⟩
  | .call _ _ => s

/-- The row of two parts, with the cursor between them. -/
def between (front rest : Text) : Screen := ⟨front ++ rest, front.length⟩

/-- What is written goes over what is there. -/
theorem foldl_write_plain {t : Text} (ht : ∀ c ∈ t, Plain c) (front rest : Text) :
    t.foldl write (between front rest) = between (front ++ t) (rest.drop t.length) := by
  induction t generalizing front rest with
  | nil => simp
  | cons c t ih =>
    rw [List.forall_mem_cons] at ht
    obtain ⟨⟨hn, hr, hb⟩, ht⟩ := ht
    have hwrite : write (between front rest) c = between (front ++ [c]) (rest.drop 1) := by
      have hsub : front.length - (front ++ rest).length = 0 := by
        rw [List.length_append]
        omega
      have hdrop : (front ++ rest).drop (front.length + 1) = rest.drop 1 := by
        rw [List.drop_append, List.drop_eq_nil_of_le (Nat.le_succ _), List.nil_append,
          Nat.add_sub_cancel_left]
      rw [write, if_neg hn, if_neg hr, if_neg hb, between]
      dsimp only
      rw [List.take_left, hsub, hdrop, between, List.length_append]
      simp
    rw [List.foldl_cons, hwrite, ih ht, List.drop_drop, List.append_assoc, List.length_cons,
      Nat.add_comm 1]
    rfl

/-- The cursor goes back over what was written. -/
theorem foldl_write_backspaces (t front rest : Text) :
    (List.replicate t.length '\x08').foldl write (between (front ++ t) rest)
      = between front (t ++ rest) := by
  have hback : ∀ (k : Nat) (s : Screen),
      (List.replicate k '\x08').foldl write s = ⟨s.row, s.col - k⟩ := by
    intro k
    induction k with
    | zero => exact fun s => rfl
    | succ k ih =>
      intro s
      rw [List.replicate_succ, List.foldl_cons, ih]
      show (⟨s.row, s.col - 1 - k⟩ : Screen) = ⟨s.row, s.col - (k + 1)⟩
      rw [Nat.sub_sub, Nat.add_comm 1]
  rw [hback, between, between, List.length_append, Nat.add_sub_cancel, List.append_assoc]

/-- What is behind the cursor is written anew. -/
theorem foldl_write_over {t : Text} (ht : ∀ c ∈ t, Plain c) (front rest : Text) :
    (t ++ List.replicate t.length '\x08').foldl write (between front rest)
      = between front (t ++ rest.drop t.length) := by
  rw [List.foldl_append, foldl_write_plain ht, foldl_write_backspaces]

/-- Behind the end of a line there is an empty row. -/
theorem foldl_write_newline (s : Screen) (t : Text) :
    (t ++ ['\n']).foldl write s = between [] [] := by
  rw [List.foldl_append]
  rfl

end Screen

/-- Nothing, or some lines. -/
def WholeLines (t : Text) : Prop := t = [] ∨ ∃ u, t = u ++ ['\n']

theorem WholeLines.foldl_write {t : Text} (h : WholeLines t) :
    t.foldl Screen.write (.between [] []) = .between [] [] := by
  rcases h with rfl | ⟨u, rfl⟩
  · rfl
  · exact Screen.foldl_write_newline _ u

theorem WholeLines.shown {t : Text} (h : WholeLines t) :
    Screen.shown (.between [] []) (.text t) = .between [] [] := h.foldl_write

theorem wholeLines_flatMap (names : List Text) :
    WholeLines (names.flatMap fun name => name ++ ['\n']) := by
  rcases List.eq_nil_or_concat names with rfl | ⟨init, name, rfl⟩
  · exact .inl rfl
  · exact .inr ⟨init.flatMap (fun name => name ++ ['\n']) ++ name, by simp⟩

/-! ### What the row shows -/

/-- The row shows the prompt and the line, then blanks, and the cursor is where it is in the
    line. -/
def Shows (prompt : Text) (z : Zipper Char) (s : Screen) : Prop :=
  ∃ k, s = .between (prompt ++ z.before) (z.after ++ List.replicate k ' ')

section Keys

variable {table : List Syscall} {prompt before after : Text} {s : Screen}

/-- A row that begins with a prompt and a text. -/
theorem shows_atEnd {t : Text} (hprompt : ∀ c ∈ prompt, Plain c) (ht : ∀ c ∈ t, Plain c) :
    Shows prompt (.atEnd t) ((prompt ++ t).foldl Screen.write (.between [] [])) := by
  refine ⟨0, ?_⟩
  rw [Screen.foldl_write_plain (List.forall_mem_append.mpr ⟨hprompt, ht⟩), List.drop_nil]
  rfl

theorem Shows.left {z : Zipper Char} (h : Shows prompt z s) :
    Shows prompt z.left
      ((if z.before = [] then [] else [Out.text ['\x08']]).foldl Screen.shown s) := by
  obtain ⟨before, after⟩ := z
  obtain ⟨k, rfl⟩ := h
  rcases List.eq_nil_or_concat before with rfl | ⟨before, c, rfl⟩
  · exact ⟨k, rfl⟩
  · rw [List.concat_eq_append]
    have hback := Screen.foldl_write_backspaces [c] (prompt ++ before)
      (after ++ List.replicate k ' ')
    rw [List.append_assoc] at hback
    refine ⟨k, ?_⟩
    rw [if_neg (by simp)]
    simpa [Screen.shown, Zipper.left] using hback

theorem Shows.right {z : Zipper Char} (h : Shows prompt z s) (hz : ∀ c ∈ z.text, Plain c) :
    Shows prompt z.right
      ((if z.after = [] then [] else [Out.text z.after.head?.toList]).foldl Screen.shown s) := by
  obtain ⟨before, after⟩ := z
  obtain ⟨k, rfl⟩ := h
  cases after with
  | nil => exact ⟨k, by simp [Zipper.right]⟩
  | cons c after =>
    have hc : ∀ d ∈ [c], Plain d := fun d hd => hz d (by simp [List.mem_singleton.mp hd])
    have hwrite := Screen.foldl_write_plain hc (prompt ++ before)
      (c :: after ++ List.replicate k ' ')
    refine ⟨k, ?_⟩
    rw [if_neg (by simp)]
    simpa [Screen.shown, Zipper.right] using hwrite

/-- One blank less behind a text. -/
theorem drop_blanks (t : Text) (k : Nat) :
    (t ++ List.replicate k ' ').drop (t.length + 1) = List.replicate (k - 1) ' ' := by
  rw [List.drop_append, List.drop_eq_nil_of_le (Nat.le_succ _), List.nil_append,
    List.drop_replicate, Nat.add_sub_cancel_left]

theorem Shows.insert {ch : Char} (h : Shows prompt ⟨before, after⟩ s) (hch : Plain ch)
    (hafter : ∀ c ∈ after, Plain c) :
    Shows prompt ((Zipper.mk before after).insert ch)
      (s.shown (.text (ch :: after ++ List.replicate after.length '\x08'))) := by
  obtain ⟨k, rfl⟩ := h
  -- the line is one cell longer, which was a blank if there was one
  refine ⟨k - 1, ?_⟩
  rw [Screen.shown, List.foldl_append,
    Screen.foldl_write_plain (List.forall_mem_cons.mpr ⟨hch, hafter⟩), List.length_cons,
    drop_blanks, List.append_cons, Screen.foldl_write_backspaces, List.append_assoc]
  rfl

theorem Shows.backspace {z : Zipper Char} (h : Shows prompt z s) (hz : ∀ c ∈ z.text, Plain c) :
    Shows prompt z.erase
      ((if z.before = [] then []
        else if z.after = [] then [Out.text ['\x08', ' ', '\x08']]
        else [.text ('\x08' :: z.after ++ [' ', ' ', '\x08'] ++
          List.replicate (z.after.length + 1) '\x08')]).foldl Screen.shown s) := by
  obtain ⟨before, after⟩ := z
  obtain ⟨k, rfl⟩ := h
  rcases List.eq_nil_or_concat before with rfl | ⟨before, c, rfl⟩
  · exact ⟨k, rfl⟩
  · rw [List.concat_eq_append] at *
    have hback : [('\x08' : Char)].foldl Screen.write
        (.between (prompt ++ (before ++ [c])) (after ++ List.replicate k ' '))
          = .between (prompt ++ before) (c :: after ++ List.replicate k ' ') := by
      rw [← List.append_assoc]
      exact Screen.foldl_write_backspaces [c] (prompt ++ before) (after ++ List.replicate k ' ')
    have hafter : ∀ d ∈ after, Plain d := fun d hd => hz d (List.mem_append_right _ hd)
    have herase : (Zipper.mk (before ++ [c]) after).erase = ⟨before, after⟩ := by
      rw [Zipper.erase, List.dropLast_concat]
    rw [if_neg (by simp), herase]
    cases after with
    | nil =>
      -- a blank takes the place of the character, and is one more behind the line
      have hspace : ∀ e ∈ [' '], Plain e := List.forall_mem_singleton.mpr (by decide)
      have hover := Screen.foldl_write_over hspace (prompt ++ before)
        (c :: [] ++ List.replicate k ' ')
      refine ⟨k + 1, ?_⟩
      rw [if_pos rfl, List.foldl_cons, List.foldl_nil, Screen.shown]
      show ([' '] ++ List.replicate 1 '\x08').foldl Screen.write
        (['\x08'].foldl Screen.write _) = _
      rw [hback]
      exact hover
    | cons d after =>
      -- the two blanks go over the last character and one cell more
      have hplain : ∀ e ∈ d :: after ++ [' ', ' '], Plain e :=
        List.forall_mem_append.mpr ⟨hafter, by simp [Plain]⟩
      have hover := Screen.foldl_write_over hplain (prompt ++ before)
        (c :: (d :: after) ++ List.replicate k ' ')
      have hout : d :: after ++ [' ', ' ', '\x08'] ++
          List.replicate ((d :: after).length + 1) '\x08'
            = d :: after ++ [' ', ' '] ++
              List.replicate (d :: after ++ [' ', ' ']).length '\x08' := by
        simp [List.replicate_succ]
      have hlen : (d :: after ++ [' ', ' ']).length = (c :: d :: after).length + 1 := by
        simp
      refine ⟨k - 1 + 2, ?_⟩
      rw [if_neg (List.cons_ne_nil d after), List.foldl_cons, List.foldl_nil, Screen.shown]
      show (d :: after ++ [' ', ' ', '\x08'] ++
        List.replicate ((d :: after).length + 1) '\x08').foldl Screen.write
          (['\x08'].foldl Screen.write _) = _
      rw [hback, hout, hover, hlen, drop_blanks, List.append_assoc (d :: after)]
      rfl

/-- A line of the history is shown in a row of its own. -/
theorem Shows.fromHistory {t : Text} (hprompt : ∀ c ∈ prompt, Plain c) (ht : ∀ c ∈ t, Plain c) :
    Shows prompt (.atEnd t) ([Out.clearRow, .text (prompt ++ t)].foldl Screen.shown s) :=
  shows_atEnd hprompt ht

theorem wholeLines_mshHelp (table : List Syscall) : WholeLines (mshHelp table) :=
  .inr ⟨_, rfl⟩

/-- The prompt and the completed line follow what was printed. -/
theorem Shows.tab {t printed : Text} (hprompt : ∀ c ∈ prompt, Plain c) (ht : ∀ c ∈ t, Plain c)
    (hprinted : WholeLines printed) (front : Text) :
    Shows prompt (.atEnd t) (s.shown (.text (front ++ ['\n'] ++ printed ++ prompt ++ t))) := by
  have hfront : (front ++ ['\n'] ++ printed).foldl Screen.write s = .between [] [] := by
    rw [List.foldl_append, Screen.foldl_write_newline, hprinted.foldl_write]
  rw [Screen.shown, List.append_assoc _ prompt, List.foldl_append, hfront]
  exact shows_atEnd hprompt ht

/-- What a command line prints are whole lines. -/
theorem wholeLines_answer (hfunc : ∀ call ∈ table, ∀ argv, WholeLines (call.func argv).1)
    (line : Text) : ∀ out ∈ (answer table line).1,
      Screen.shown (.between [] []) out = .between [] [] := by
  have hmany : ∀ args, WholeLines (tooManyArgs args) := fun args => .inr ⟨_, rfl⟩
  have hnone : WholeLines ((line.dropWhile isBlank).takeWhile (· != ' ') ++
      ": command not found.\n".toList) :=
    .inr ⟨(line.dropWhile isBlank).takeWhile (· != ' ') ++ ": command not found.".toList, by
      rw [List.append_assoc]
      congr 1⟩
  rw [answer]
  dsimp only
  by_cases hempty : line.dropWhile isBlank = []
  · rw [if_pos hempty]
    exact fun out hout => absurd hout List.not_mem_nil
  rw [if_neg hempty]
  cases hcall : command table ((line.dropWhile isBlank).takeWhile fun c => !isBlank c) with
  | none =>
    intro out hout
    rw [List.mem_singleton.mp hout]
    exact hnone.shown
  | some call =>
    have hmem : call ∈ table := List.mem_of_find?_eq_some hcall
    intro out hout
    simp only [List.mem_cons, List.not_mem_nil, or_false] at hout
    rcases hout with rfl | rfl | rfl
    · split_ifs
      · rfl
      · exact (hmany _).shown
    · rfl
    · exact (hfunc call hmem _).shown

/-- The prompt follows what a command line has printed. -/
theorem Shows.enter (hprompt : ∀ c ∈ prompt, Plain c)
    (hfunc : ∀ call ∈ table, ∀ argv, WholeLines (call.func argv).1) (line : Text) :
    Shows prompt (.atEnd [])
      ((Out.text ['\n'] :: (answer table line).1 ++ [Out.text prompt]).foldl Screen.shown s) := by
  -- whole lines leave the cursor in an empty row, however many there are
  have hanswer : (answer table line).1.foldl Screen.shown (.between [] []) = .between [] [] := by
    have hall := wholeLines_answer hfunc line
    generalize (answer table line).1 = outs at hall
    induction outs with
    | nil => rfl
    | cons out outs ih =>
      rw [List.foldl_cons, hall out List.mem_cons_self]
      exact ih fun o ho => hall o (List.mem_cons_of_mem _ ho)
  have hnewline : s.shown (.text ['\n']) = .between [] [] := Screen.foldl_write_newline s []
  rw [List.cons_append, List.foldl_cons, hnewline, List.foldl_append, hanswer, List.foldl_cons,
    List.foldl_nil, Screen.shown]
  have hshows := shows_atEnd (t := []) hprompt (by simp)
  rwa [List.append_nil] at hshows

end Keys

/-! ### What a character can be -/

/-- A character that is inserted. -/
def Ordinary (c : Char) : Prop :=
  c ≠ nul ∧ c ≠ '\xff' ∧ c ≠ '\t' ∧ c ≠ '\x7f' ∧ c ≠ '\x08' ∧ c ≠ '\r' ∧ c ≠ '\n'

instance : DecidablePred Ordinary := fun _ => inferInstanceAs (Decidable (_ ∧ _))

theorem Ordinary.plain {c : Char} (h : Ordinary c) : Plain c :=
  ⟨h.2.2.2.2.2.2, h.2.2.2.2.2.1, h.2.2.2.2.1⟩

section Cases

variable {table : List Syscall} {prompt : Text}

theorem Session.normal_cases {P : Session → Prop} (a : Session) (ch : Char) (hsame : P a)
    (htab : P (a.tab table prompt)) (hback : P a.backspace) (henter : P (a.enter table prompt))
    (hinsert : Ordinary ch → P (a.insert ch)) : P (a.normal table prompt ch) := by
  unfold Session.normal
  split_ifs with h1 h2 h3 h4
  · exact hsame
  · exact htab
  · exact hback
  · exact henter
  · apply hinsert
    unfold Ordinary
    tauto

/-- **What a character does**: the code of a key may go on, or it is one of the keys, or the
    character is inserted. -/
theorem Session.next_cases {P : Session → Prop} (a : Session) (ch : Char)
    (hsame : ∀ stat, P { a with stat := stat })
    (hup : ∀ stat, P (Session.up prompt { a with stat := stat }))
    (hdown : ∀ stat, P (Session.down prompt { a with stat := stat }))
    (hleft : ∀ stat, P (Session.left { a with stat := stat }))
    (hright : ∀ stat, P (Session.right { a with stat := stat }))
    (htab : ∀ stat, P (Session.tab table prompt { a with stat := stat }))
    (hback : ∀ stat, P (Session.backspace { a with stat := stat }))
    (henter : ∀ stat, P (Session.enter table prompt { a with stat := stat }))
    (hinsert : ∀ stat, Ordinary ch → P (Session.insert { a with stat := stat } ch)) :
    P (a.next table prompt ch) := by
  have hnormal : ∀ stat, P (Session.normal table prompt { a with stat := stat } ch) := fun stat =>
    Session.normal_cases _ ch (hsame stat) (htab stat) (hback stat) (henter stat) (hinsert stat)
  unfold Session.next
  by_cases hesc : ch = '\x1b'
  · rw [if_pos hesc]
    exact hsame _
  rw [if_neg hesc]
  cases hwait : a.stat with
  | waitNormal =>
    exact hnormal a.stat
  | waitSpecKey =>
    dsimp only
    split_ifs
    · exact hsame _
    · exact hnormal _
  | waitFuncKey =>
    dsimp only
    split_ifs
    · exact hup _
    · exact hdown _
    · exact hleft _
    · exact hright _
    · exact hnormal _

end Cases

/-! ### Whole sessions -/

theorem mem_remember {history : List Text} {text t : Text} (h : t ∈ remember history text) :
    t = text ∨ t ∈ history := by
  unfold remember at h
  split_ifs at h
  · exact .inr h
  · rcases List.mem_append.mp h with h | h
    · exact .inr (List.mem_of_mem_tail h)
    · exact .inl (List.mem_singleton.mp h)
  · rcases List.mem_append.mp h with h | h
    · exact .inr h
    · exact .inl (List.mem_singleton.mp h)

/-- Every character has a cell, and the row shows the prompt and the line. -/
structure Displayed (prompt : Text) (a : Session) : Prop where
  line_plain : ∀ c ∈ a.edit.text, Plain c
  history_plain : ∀ text ∈ a.history, ∀ c ∈ text, Plain c
  shows : Shows prompt a.edit (a.out.foldl Screen.shown (.between [] []))

section Runs

variable {table : List Syscall} {prompt : Text} {a : Session}

theorem displayed_init (hprompt : ∀ c ∈ prompt, Plain c) :
    Displayed prompt (.init prompt) where
  line_plain := by simp [Session.init]
  history_plain := by simp [Session.init]
  shows := by
    have hshows := shows_atEnd (t := []) hprompt (by simp)
    rwa [List.append_nil] at hshows

theorem Displayed.goTo (h : Displayed prompt a) (hprompt : ∀ c ∈ prompt, Plain c) (i : Nat) :
    Displayed prompt (a.goTo prompt i) := by
  have ht : ∀ c ∈ a.history.getD i [], Plain c := by
    rw [List.getD_eq_getElem?_getD]
    cases hget : a.history[i]? with
    | none => simp
    | some text => exact h.history_plain text (List.mem_of_getElem? hget)
  refine ⟨?_, h.history_plain, ?_⟩
  · rw [Session.goTo, Zipper.text_atEnd]
    exact ht
  · rw [Session.goTo, List.foldl_append]
    exact Shows.fromHistory hprompt ht

/-- **One character** leaves the row as the line is. -/
theorem Displayed.next (h : Displayed prompt a) (hprompt : ∀ c ∈ prompt, Plain c)
    (hnames : ∀ call ∈ table, ∀ c ∈ call.name, Plain c)
    (hfunc : ∀ call ∈ table, ∀ argv, WholeLines (call.func argv).1) (ch : Char) :
    Displayed prompt (a.next table prompt ch) := by
  have hstat : ∀ stat, Displayed prompt { a with stat := stat } := fun _ =>
    ⟨h.line_plain, h.history_plain, h.shows⟩
  apply Session.next_cases a ch hstat
  case hup =>
    intro stat
    unfold Session.up
    split_ifs
    · exact (hstat stat).goTo hprompt _
    · exact hstat stat
  case hdown =>
    intro stat
    unfold Session.down
    split_ifs
    · exact hstat stat
    · exact (hstat stat).goTo hprompt _
    · exact (hstat stat).goTo hprompt _
  case hleft =>
    intro stat
    refine ⟨?_, h.history_plain, ?_⟩
    · rw [Session.left, Zipper.text_left]
      exact h.line_plain
    · rw [Session.left, List.foldl_append]
      exact h.shows.left
  case hright =>
    intro stat
    refine ⟨?_, h.history_plain, ?_⟩
    · rw [Session.right, Zipper.text_right]
      exact h.line_plain
    · rw [Session.right, List.foldl_append]
      exact h.shows.right h.line_plain
  case htab =>
    intro stat
    -- what is completed is made of what was typed, or of a name
    have hcomplete : ∀ c ∈ complete table a.edit.text, Plain c := by
      intro c hc
      rcases mem_complete hc with hc | ⟨call, hcall, hc⟩
      · exact h.line_plain c hc
      · exact hnames call hcall c hc
    refine ⟨?_, h.history_plain, ?_⟩
    · rw [Session.tab, Zipper.text_atEnd]
      exact hcomplete
    · rw [Session.tab, List.foldl_append]
      apply Shows.tab hprompt hcomplete
      split_ifs
      · exact wholeLines_mshHelp table
      · exact wholeLines_flatMap _
  case hback =>
    intro stat
    refine ⟨fun c hc => h.line_plain c (a.edit.text_erase_sublist.subset hc), h.history_plain, ?_⟩
    rw [Session.backspace, List.foldl_append]
    exact h.shows.backspace h.line_plain
  case henter =>
    intro stat
    refine ⟨by simp [Session.enter], ?_, ?_⟩
    · intro text htext
      rcases mem_remember htext with rfl | htext
      · exact h.line_plain
      · exact h.history_plain text htext
    · rw [Session.enter, List.foldl_append]
      exact Shows.enter hprompt hfunc _
  case hinsert =>
    intro stat hordinary
    refine ⟨?_, h.history_plain, ?_⟩
    · intro c hc
      rcases Zipper.mem_text_insert hc with rfl | hc
      · exact hordinary.plain
      · exact h.line_plain c hc
    · rw [Session.insert, List.foldl_append]
      exact h.shows.insert hordinary.plain fun c hc =>
        h.line_plain c (List.mem_append_right _ hc)

end Runs

/-! ### What the commands get -/

/-- The commands that were called, with their arguments. -/
def calls (out : List Out) : List (Text × List Text) :=
  out.filterMap fun o => match o with
    | .call name argv => some (name, argv)
    | _               => none

/-- A line for a command: its name and its arguments, with blanks between them, and what the
    arguments say. -/
structure CommandLine (table : List Syscall) where
  gap : Text
  name : Text
  gap' : Text
  args : List (Word × Text)
  items : List Cmd.Item
  isGap : IsGap gap
  wellSpaced : WellSpaced ((.bare name, gap') :: args)
  isCommand : (command table name).isSome = true
  args_eq : (args.map fun w => w.1.text) = Cmd.render items
  wellFormed : Cmd.WellFormed items
  args_lt : args.length < finshArgMax
  typed : ∀ c ∈ gap ++ render ((.bare name, gap') :: args), Ordinary c ∧ c ≠ '\x1b'
  text_lt : (gap ++ render ((.bare name, gap') :: args)).length < finshCmdSize

def CommandLine.text {table : List Syscall} (l : CommandLine table) : Text :=
  l.gap ++ render ((.bare l.name, l.gap') :: l.args)

section Calls

variable {table : List Syscall} {prompt : Text}

theorem calls_append (out out' : List Out) : calls (out ++ out') = calls out ++ calls out' :=
  List.filterMap_append

/-- A character of a line is inserted. -/
theorem Session.next_ordinary {a : Session} (hstat : a.stat = .waitNormal) {c : Char}
    (hc : Ordinary c) (hesc : c ≠ '\x1b') : a.next table prompt c = a.insert c := by
  obtain ⟨hnul, hff, htab, hdel, hbs, hcr, hlf⟩ := hc
  rw [Session.next, if_neg hesc, hstat]
  dsimp only
  rw [Session.normal, if_neg (by tauto), if_neg htab, if_neg (by tauto), if_neg (by tauto)]

/-- The end of a line. -/
theorem Session.next_enter {a : Session} (hstat : a.stat = .waitNormal) :
    a.next table prompt '\r' = a.enter table prompt := by
  rw [Session.next, if_neg (by decide), hstat]
  dsimp only
  rw [Session.normal, if_neg (by decide), if_neg (by decide), if_neg (by decide),
    if_pos (by decide)]

/-- The session when a text was typed behind the line. -/
theorem runs_typed (table : List Syscall) (prompt : Text) {a : Session}
    (hstat : a.stat = .waitNormal) {t : Text} (ht : ∀ c ∈ t, Ordinary c ∧ c ≠ '\x1b')
    {line : Text} (hline : a.edit = .atEnd line) (hlt : (line ++ t).length < finshCmdSize) :
    ∃ a', Runs (Session.step table prompt) (Session.Fits table prompt) a t a' ∧
      a'.stat = .waitNormal ∧ a'.edit = .atEnd (line ++ t) ∧ calls a'.out = calls a.out := by
  induction t generalizing a line with
  | nil => exact ⟨a, .nil, hstat, by rw [hline, List.append_nil], rfl⟩
  | cons c t ih =>
    rw [List.forall_mem_cons] at ht
    obtain ⟨⟨hc, hesc⟩, ht⟩ := ht
    have hnext : a.next table prompt c = a.insert c := Session.next_ordinary hstat hc hesc
    have hedit : (a.insert c).edit = .atEnd (line ++ [c]) := by
      rw [Session.insert, hline]
      rfl
    have hfits : a.Fits table prompt c := by
      rw [Session.Fits, hnext, hedit, Zipper.text_atEnd]
      rw [List.length_append, List.length_cons] at hlt
      rw [List.length_append, List.length_singleton]
      omega
    obtain ⟨a', hruns, hstat', hedit', hcalls⟩ :=
      ih (a := a.insert c) hstat ht hedit (by rwa [List.append_assoc, List.singleton_append])
    refine ⟨a', ?_, hstat', ?_, ?_⟩
    · exact (Runs.single hfits (congrArg some hnext)).append hruns
    · rw [hedit', List.append_assoc, List.singleton_append]
    · rw [hcalls, Session.insert, calls_append]
      exact List.append_nil _

/-- A line of a command calls it. -/
theorem calls_answer (l : CommandLine table) :
    calls (answer table l.text).1 = [(l.name, l.name :: l.args.map fun w => w.1.text)] := by
  obtain ⟨call, hcall⟩ := Option.isSome_iff_exists.mp l.isCommand
  obtain ⟨message, printed, hanswer⟩ := answer_render l.isGap l.wellSpaced hcall
  have hall : (l.name :: l.args.map fun w => w.1.text).take finshArgMax
      = l.name :: l.args.map fun w => w.1.text := by
    apply List.take_of_length_le
    rw [List.length_cons, List.length_map]
    exact l.args_lt
  rw [CommandLine.text, hanswer, hall]
  rfl

/-- Lines are typed one after another. -/
theorem runs_lines (prompt : Text) (lines : List (CommandLine table)) {a : Session}
    (hstat : a.stat = .waitNormal) (hline : a.edit = .atEnd []) :
    ∃ a', Runs (Session.step table prompt) (Session.Fits table prompt) a
        (lines.flatMap fun l => l.text ++ ['\r']) a' ∧
      calls a'.out = calls a.out ++
        lines.map fun l => (l.name, l.name :: l.args.map fun w => w.1.text) := by
  induction lines generalizing a with
  | nil => exact ⟨a, .nil, (List.append_nil _).symm⟩
  | cons l lines ih =>
    obtain ⟨a₁, hruns, hstat₁, hedit₁, hcalls₁⟩ :=
      runs_typed table prompt hstat l.typed hline l.text_lt
    have hnext : a₁.next table prompt '\r' = a₁.enter table prompt := Session.next_enter hstat₁
    have hfits : a₁.Fits table prompt '\r' := by
      rw [Session.Fits, hnext]
      show (Zipper.atEnd ([] : Text)).text.length < finshCmdSize
      decide
    have htext : a₁.edit.text = l.text := by
      rw [hedit₁, Zipper.text_atEnd]
      rfl
    have hcalls₂ : calls (a₁.enter table prompt).out
        = calls a.out ++ [(l.name, l.name :: l.args.map fun w => w.1.text)] := by
      rw [Session.enter, htext, calls_append, hcalls₁, List.cons_append, ← List.singleton_append,
        calls_append, calls_append, calls_answer]
      rfl
    obtain ⟨a', hruns', hcalls'⟩ := ih (a := a₁.enter table prompt) hstat₁ rfl
    refine ⟨a', ?_, ?_⟩
    · rw [List.flatMap_cons]
      exact (hruns.append (.single hfits (congrArg some hnext))).append hruns'
    · rw [hcalls', hcalls₂, List.append_assoc, List.map_cons, List.singleton_append]

/-- **What is typed is what the commands get.**  Lines of commands that are typed one after
    another, bare words and words in quotes with blanks between them, call the commands in this
    order, and what `Cmd` makes of the arguments is what the lines say. -/
theorem items_arrive (hnames : ∀ call ∈ table, nul ∉ call.name)
    (lines : List (CommandLine table)) :
    ∃ c, run (Console.step table prompt) (.init prompt)
        (lines.flatMap fun l => l.text ++ ['\r']) = some c ∧
      ((calls c.out).map fun call => (call.1, Cmd.new call.2))
        = lines.map fun l =>
            (l.name, ⟨Cmd.positionals l.items, Cmd.lastValue (Cmd.bindings l.items)⟩) := by
  obtain ⟨a, hruns, hcalls⟩ := runs_lines prompt lines (a := .init prompt) rfl rfl
  obtain ⟨c, hrun, hout, -⟩ := run_follows hnames hruns
  refine ⟨c, hrun, ?_⟩
  rw [hout, hcalls, List.map_append, List.map_map]
  refine List.map_congr_left fun l _ => ?_
  have hscan := Cmd.scan_render l.wellFormed [] []
  show (l.name, Cmd.new (l.name :: l.args.map fun w => w.1.text)) = _
  rw [l.args_eq, Cmd.new, List.drop_one, List.tail_cons]
  exact congrArg (Prod.mk l.name) hscan

/-- A table with one command. -/
def abTable : List Syscall := [⟨"__cmd_ab".toList, [], fun _ => ([], 0)⟩]

/-- ` ab "c d" --e`. -/
def abLine : CommandLine abTable where
  gap := [' ']
  name := ['a', 'b']
  gap' := [' ']
  args := [(.quoted ['c', ' ', 'd'], [' ']), (.bare ['-', '-', 'e'], [])]
  items := [.positional ['c', ' ', 'd'], .flag ['e']]
  isGap := by decide
  wellSpaced := ⟨by decide, by decide, by decide, by decide, by decide, by decide,
    by decide, by decide, by decide, trivial⟩
  isCommand := by decide
  args_eq := by decide
  wellFormed := ⟨by decide, trivial, trivial⟩
  args_lt := by decide
  typed := by simp [render, Word.written, Ordinary, nul]
  text_lt := by decide

/-- The line, typed twice. -/
theorem items_arrive_example :
    ∃ c, run (Console.step abTable ['>']) (.init ['>'])
        ([abLine, abLine].flatMap fun l => l.text ++ ['\r']) = some c ∧
      ((calls c.out).map fun call => (call.1, Cmd.new call.2))
        = [abLine, abLine].map fun l =>
            (l.name, ⟨Cmd.positionals l.items, Cmd.lastValue (Cmd.bindings l.items)⟩) :=
  items_arrive (by simp [abTable]; decide) [abLine, abLine]

end Calls

end RtCharger.Termios.Shell
