import RtCharger.Lib.Framing
import RtCharger.Kernel.Event
import RtCharger.Net.AtText

namespace RtCharger.Net

open Framing RtCharger.Kernel RtCharger.Utilities

/-!
# How the parser thread cuts what the modem sends into lines

`at_recv_readline` collects characters until a line end, the end sign of the client, or the
point where what it has is an unsolicited result code of one of the registered tables.  Of a line
that is longer than the receive buffer it keeps the beginning, and gives it up at its end.

* `getUrcObj`, `atRecvReadline`, `readLines` — the functions of the source, and the lines that
  the loop of `client_parser` gets from a stream;
* `readLines_eq_iff` — these are the lines of the one way to cut the stream;
* `readLines_crlf` — if all result codes end in a line break, they are what stands between the
  line breaks.
-/

/-! ### The functions of the source -/

/-- `struct at_urc`; a handler is named by an `H`. -/
structure AtUrc (H : Type) where
  cmdPrefix : Text
  cmdSuffix : Text
  func : Option H
deriving DecidableEq, Repr

/-- What reading a line uses of `struct at_client`. -/
structure AtClient (H : Type) where
  recvBufsz : Nat
  endSign : Char
  urcTable : List (List (AtUrc H))

variable {H : Type}

/-- The test of `get_urc_obj` for one entry of a table. -/
def AtUrc.fits (buffer : Text) (urc : AtUrc H) : Bool :=
  if buffer.length < urc.cmdPrefix.length + urc.cmdSuffix.length then false
  else urc.cmdPrefix.isPrefixOf buffer && urc.cmdSuffix.isSuffixOf buffer

/-- `get_urc_obj`: the first entry of the first table that fits. -/
def getUrcObj (client : AtClient H) (buffer : Text) : Option (AtUrc H) :=
  client.urcTable.findSome? fun urcTable => urcTable.find? (AtUrc.fits buffer)

/-- `at_recv_readline` between two characters: `recv_line_buf` with the `recv_line_len` characters
    that it holds, `last_ch` and `is_full`. -/
structure Reading where
  recvLine : Text
  lastCh : Char
  isFull : Bool
deriving DecidableEq, Repr

/-- Before the first character. -/
def Reading.start : Reading := ⟨[], nul, false⟩

/-- The character is stored if there is room for it. -/
def Reading.store (client : AtClient H) (r : Reading) (ch : Char) : Reading :=
  if r.recvLine.length < client.recvBufsz then { r with recvLine := r.recvLine ++ [ch] }
  else { r with isFull := true }

/-- The test for `newline or URC data`. -/
def Reading.atEnd (client : AtClient H) (r : Reading) (ch : Char) : Bool :=
  (ch == '\n' && r.lastCh == '\r') || (client.endSign != nul && ch == client.endSign)
    || (getUrcObj client r.recvLine).isSome

/-- `at_recv_readline` on the characters that come: its result and the characters left, or `none`
    as long as it waits for more. -/
def atRecvReadline (client : AtClient H) : Reading → Text → Option (Except RtErr Text × Text)
  | _, []         => none
  | r, ch :: rest =>
    let r := r.store client ch
    if r.atEnd client ch then
      some (if r.isFull then .error .full else .ok r.recvLine, rest)
    else atRecvReadline client { r with lastCh := ch } rest

/-- A line takes at least one character. -/
theorem length_lt_of_atRecvReadline {client : AtClient H} {r : Reading} {s rest : Text}
    {result : Except RtErr Text} (h : atRecvReadline client r s = some (result, rest)) :
    rest.length < s.length := by
  induction s generalizing r with
  | nil => cases h
  | cons ch s ih =>
    rw [atRecvReadline] at h
    by_cases hend : (r.store client ch).atEnd client ch = true
    · rw [if_pos hend] at h
      cases h
      exact Nat.lt_succ_self _
    · rw [if_neg hend] at h
      exact (ih h).trans (Nat.lt_succ_self _)

/-- The results that the loop of `client_parser` gets from a stream, and what is left of it. -/
def readLines (client : AtClient H) (s : Text) : List (Except RtErr Text) × Text :=
  match _h : atRecvReadline client .start s with
  | none                => ([], s)
  | some (result, rest) => (result :: (readLines client rest).1, (readLines client rest).2)
termination_by s.length
decreasing_by all_goals exact length_lt_of_atRecvReadline _h

/-! ### What is known of an unfinished line -/

variable (client : AtClient H)

/-- Where a line ends, said of all its characters: after a line break, after the end sign, or when
    the characters that fit into the buffer are a result code. -/
def Ends (p : Text) : Prop :=
  ['\r', '\n'] <:+ p ∨ (client.endSign ≠ nul ∧ p.getLast? = some client.endSign) ∨
    (getUrcObj client (p.take client.recvBufsz)).isSome = true

instance : DecidablePred (Ends client) := fun _ => inferInstanceAs (Decidable (_ ∨ _ ∨ _))

/-- The state after the characters `p` of an unfinished line. -/
def Reading.after (p : Text) : Reading :=
  ⟨p.take client.recvBufsz, p.getLast?.getD nul, decide (client.recvBufsz < p.length)⟩

/-- What becomes of a line: the parser gets all of it, or nothing if it is too long. -/
def received (line : Text) : Except RtErr Text :=
  if line.length ≤ client.recvBufsz then .ok line else .error .full

variable {client}

variable (client) in
theorem after_nil : Reading.after client [] = .start := by
  simp [Reading.after, Reading.start]

/-- One more character. -/
theorem store_after (p : Text) (ch : Char) :
    (Reading.after client p).store client ch
      = { Reading.after client (p ++ [ch]) with lastCh := p.getLast?.getD nul } := by
  unfold Reading.store
  by_cases hroom : p.length < client.recvBufsz
  · have hp : p.take client.recvBufsz = p := List.take_of_length_le hroom.le
    have hpch : (p ++ [ch]).take client.recvBufsz = p ++ [ch] :=
      List.take_of_length_le (by simpa using Nat.succ_le_of_lt hroom)
    rw [if_pos (by simpa [Reading.after, hp] using hroom)]
    simp only [Reading.after, hp, hpch, Reading.mk.injEq, true_and, List.length_append,
      List.length_singleton, decide_eq_decide]
    omega
  · have hp : (p.take client.recvBufsz).length = client.recvBufsz := by
      rw [List.length_take]
      omega
    have hpch : (p ++ [ch]).take client.recvBufsz = p.take client.recvBufsz :=
      List.take_append_of_le_length (by omega)
    rw [if_neg (by simp [Reading.after, hp])]
    simp only [Reading.after, hpch, Reading.mk.injEq, true_and, List.length_append,
      List.length_singleton]
    exact (decide_eq_true (by omega)).symm

/-- A line break is a `\n` with a `\r` right before it. -/
theorem crlf_suffix_iff (p : Text) (ch : Char) :
    ['\r', '\n'] <:+ p ++ [ch] ↔ ch = '\n' ∧ p.getLast?.getD nul = '\r' := by
  have hcrlf : (['\r', '\n'] : Text) = ['\r'] ++ ['\n'] := rfl
  rw [hcrlf, List.suffix_concat_iff]
  constructor
  · rintro (h | ⟨t, ht, hsuf⟩)
    · simp at h
    · obtain ⟨rfl, hch⟩ := List.append_inj' ht rfl
      obtain ⟨q, rfl⟩ := hsuf
      cases hch
      simp
  · rintro ⟨rfl, hlast⟩
    right
    refine ⟨['\r'], rfl, ?_⟩
    cases hp : p.getLast? with
    | none =>
      rw [hp] at hlast
      exact absurd hlast (by decide)
    | some c =>
      rw [hp] at hlast
      cases hlast
      exact List.singleton_suffix_iff_getLast?_eq_some.mpr hp

/-- **The test of the loop** says where a line ends. -/
theorem atEnd_after (p : Text) (ch : Char) :
    ((Reading.after client p).store client ch).atEnd client ch = true
      ↔ Ends client (p ++ [ch]) := by
  rw [store_after]
  simp only [Reading.atEnd, Reading.after, Bool.or_eq_true, Bool.and_eq_true, beq_iff_eq,
    bne_iff_ne, Ends, crlf_suffix_iff, List.getLast?_concat, Option.some.injEq, or_assoc]

/-! ### One line -/

/-- One turn of the loop, said of the characters of the line. -/
theorem atRecvReadline_cons (p rest : Text) (ch : Char) :
    atRecvReadline client (.after client p) (ch :: rest)
      = if Ends client (p ++ [ch]) then some (received client (p ++ [ch]), rest)
        else atRecvReadline client (.after client (p ++ [ch])) rest := by
  have hafter : ({ (Reading.after client p).store client ch with lastCh := ch } : Reading)
      = .after client (p ++ [ch]) := by
    rw [store_after]
    simp [Reading.after]
  rw [atRecvReadline, hafter]
  by_cases hends : Ends client (p ++ [ch])
  · rw [if_pos ((atEnd_after p ch).mpr hends), if_pos hends, store_after]
    simp only [Reading.after, received, decide_eq_true_eq]
    by_cases hfits : (p ++ [ch]).length ≤ client.recvBufsz
    · rw [if_neg (by omega), if_pos hfits, List.take_of_length_le hfits]
    · rw [if_pos (by omega), if_neg hfits]
  · rw [if_neg fun h => hends ((atEnd_after p ch).mp h), if_neg hends]

/-- **One line**: the reader stops at its end. -/
theorem atRecvReadline_frame {p q rest : Text} (hf : IsFrame (Ends client) (p ++ q)) (hq : q ≠ []) :
    atRecvReadline client (.after client p) (q ++ rest)
      = some (received client (p ++ q), rest) := by
  induction q generalizing p with
  | nil => exact absurd rfl hq
  | cons ch q ih =>
    have hassoc : p ++ ch :: q = p ++ [ch] ++ q := by simp
    rw [hassoc] at hf ⊢
    rw [List.cons_append, atRecvReadline_cons]
    by_cases hq : q = []
    · subst hq
      rw [List.append_nil] at hf ⊢
      rw [if_pos hf.last, List.nil_append]
    · rw [if_neg, ih hf hq]
      intro hends
      have heq := hf.first _ (List.prefix_append ..) (by simp) hends
      exact hq (List.append_right_eq_self.mp heq.symm)

/-- An unfinished line: the reader waits for more. -/
theorem atRecvReadline_open {p q : Text} (ho : Open (Ends client) (p ++ q)) :
    atRecvReadline client (.after client p) q = none := by
  induction q generalizing p with
  | nil => rfl
  | cons ch q ih =>
    have hassoc : p ++ ch :: q = p ++ [ch] ++ q := by simp
    rw [hassoc] at ho
    rw [atRecvReadline_cons, if_neg (ho _ (List.prefix_append ..) (by simp)), ih ho]

variable (client) in
/-- Every stream begins with a line or is unfinished. -/
theorem frame_or_open (p q : Text) (hp : Open (Ends client) p) :
    (∃ f rest, q = f ++ rest ∧ f ≠ [] ∧ IsFrame (Ends client) (p ++ f)) ∨
      Open (Ends client) (p ++ q) := by
  induction q generalizing p with
  | nil => exact .inr (by simpa using hp)
  | cons ch q ih =>
    by_cases hends : Ends client (p ++ [ch])
    · exact .inl ⟨[ch], q, rfl, by simp, isFrame_snoc hp hends⟩
    · rcases ih (p ++ [ch]) (hp.snoc hends) with ⟨f, rest, rfl, -, hf⟩ | ho
      · exact .inl ⟨ch :: f, rest, rfl, by simp, by simpa using hf⟩
      · exact .inr (by simpa using ho)

/-! ### The lines of a stream -/

theorem readLines_nil {s : Text} (h : atRecvReadline client .start s = none) :
    readLines client s = ([], s) := by
  rw [readLines]
  split
  · rfl
  · rename_i hsome
    rw [h] at hsome
    cases hsome

theorem readLines_cons {s rest : Text} {result : Except RtErr Text}
    (h : atRecvReadline client .start s = some (result, rest)) :
    readLines client s = (result :: (readLines client rest).1, (readLines client rest).2) := by
  rw [readLines]
  split
  · rename_i hnone
    rw [h] at hnone
    cases hnone
  · rename_i hsome
    rw [h] at hsome
    cases hsome
    rfl

/-- The loop gets the lines of the stream, one after the other. -/
theorem readLines_of_framed {s rest : Text} {lines : List Text}
    (h : Framed (Ends client) s lines rest) :
    readLines client s = (lines.map (received client), rest) := by
  induction lines generalizing s with
  | nil =>
    rw [show s = rest from h.cut]
    refine readLines_nil ?_
    rw [← after_nil client]
    exact atRecvReadline_open (p := []) h.unfinished
  | cons line lines ih =>
    have hline := h.frames line List.mem_cons_self
    have hs : s = line ++ (lines.flatten ++ rest) := by
      rw [h.cut, List.flatten_cons, List.append_assoc]
    have hread : atRecvReadline client .start s
        = some (received client line, lines.flatten ++ rest) := by
      rw [hs, ← after_nil client]
      exact atRecvReadline_frame (p := []) hline hline.ne_nil
    rw [readLines_cons hread,
      ih ⟨rfl, fun l hl => h.frames l (List.mem_cons_of_mem _ hl), h.unfinished⟩, List.map_cons]

variable (client) in
/-- Every stream can be cut into lines. -/
theorem exists_framed (s : Text) : ∃ lines rest, Framed (Ends client) s lines rest := by
  induction hn : s.length using Nat.strong_induction_on generalizing s with
  | _ n ih =>
    rcases frame_or_open client [] s open_nil with ⟨f, rest, rfl, hne, hf⟩ | ho
    · have hlt : rest.length < n := by
        have hpos : 0 < f.length := List.length_pos_of_ne_nil hne
        rw [← hn, List.length_append]
        omega
      obtain ⟨lines, tail, hframed⟩ := ih _ hlt rest rfl
      exact ⟨f :: lines, tail, hframed.cons hf⟩
    · exact ⟨[], s, framed_open ho⟩

/-- **The lines of a stream.**  What the parser thread gets are the lines of the one way to cut the
    stream where a line ends: all of a line that fits into the buffer, an error in place of one
    that does not, and nothing of what is not finished. -/
theorem readLines_eq_iff (s rest : Text) (results : List (Except RtErr Text)) :
    readLines client s = (results, rest)
      ↔ ∃ lines, Framed (Ends client) s lines rest ∧ results = lines.map (received client) := by
  constructor
  · intro h
    obtain ⟨lines, tail, hframed⟩ := exists_framed client s
    rw [readLines_of_framed hframed] at h
    cases h
    exact ⟨lines, hframed, rfl⟩
  · rintro ⟨lines, hframed, rfl⟩
    exact readLines_of_framed hframed

/-- However the stream arrives in parts, the lines are the same. -/
theorem readLines_append (s t : Text) :
    readLines client (s ++ t)
      = ((readLines client s).1 ++ (readLines client ((readLines client s).2 ++ t)).1,
          (readLines client ((readLines client s).2 ++ t)).2) := by
  obtain ⟨lines, rest, hs⟩ := exists_framed client s
  obtain ⟨lines', rest', ht⟩ := exists_framed client (rest ++ t)
  rw [readLines_of_framed hs, readLines_of_framed ht, readLines_of_framed (hs.append ht),
    List.map_append]

/-! ### Result codes that end in a line break -/

/-- `kEndl`, which is the suffix of every code that `AtUrcBuilder` registers without giving one. -/
def kEndl : Text := ['\r', '\n']

/-- No end sign is set, and all result codes end in a line break. -/
structure CrlfCodes (client : AtClient H) : Prop where
  noEndSign : client.endSign = nul
  suffix : ∀ urcTable ∈ client.urcTable, ∀ urc ∈ urcTable, kEndl <:+ urc.cmdSuffix

/-- A code that fits is an entry of a table. -/
theorem mem_of_getUrcObj {buffer : Text} {urc : AtUrc H} (h : getUrcObj client buffer = some urc) :
    (∃ urcTable ∈ client.urcTable, urc ∈ urcTable) ∧ urc.fits buffer = true := by
  obtain ⟨urcTable, htable, hfind⟩ := List.exists_of_findSome?_eq_some h
  exact ⟨⟨urcTable, htable, List.mem_of_find?_eq_some hfind⟩, List.find?_some hfind⟩

/-- What fits a code has its prefix and its suffix. -/
theorem AtUrc.fits_iff (buffer : Text) (urc : AtUrc H) :
    urc.fits buffer = true ↔ urc.cmdPrefix.length + urc.cmdSuffix.length ≤ buffer.length ∧
      urc.cmdPrefix <+: buffer ∧ urc.cmdSuffix <:+ buffer := by
  unfold AtUrc.fits
  split_ifs with hshort
  · constructor
    · intro h
      cases h
    · rintro ⟨hlen, -⟩
      omega
  · rw [Bool.and_eq_true, List.isPrefixOf_iff_prefix, List.isSuffixOf_iff_suffix]
    exact ⟨fun h => ⟨by omega, h⟩, fun h => h.2⟩

/-- A line that ends for whatever reason has a line break in time. -/
theorem CrlfCodes.exists_crlf (hc : CrlfCodes client) {p : Text} (h : Ends client p) :
    ∃ q, q <+: p ∧ q ≠ [] ∧ kEndl <:+ q := by
  rcases h with hcrlf | ⟨hsign, -⟩ | hurc
  · refine ⟨p, List.prefix_rfl, ?_, hcrlf⟩
    rintro rfl
    exact absurd (List.suffix_nil.mp hcrlf) (by decide)
  · exact absurd hc.noEndSign hsign
  · obtain ⟨urc, hsome⟩ := Option.isSome_iff_exists.mp hurc
    obtain ⟨⟨urcTable, htable, hmem⟩, hfits⟩ := mem_of_getUrcObj hsome
    have hsuf : kEndl <:+ p.take client.recvBufsz :=
      (hc.suffix urcTable htable urc hmem).trans ((urc.fits_iff _).mp hfits).2.2
    refine ⟨_, List.take_prefix .., ?_, hsuf⟩
    intro hnil
    rw [hnil] at hsuf
    exact absurd (List.suffix_nil.mp hsuf) (by decide)

/-- Streams are cut at the line breaks. -/
theorem CrlfCodes.framed_iff (hc : CrlfCodes client) {s rest : Text} {lines : List Text} :
    Framed (Ends client) s lines rest ↔ Framed (kEndl <:+ ·) s lines rest :=
  framed_congr (fun _ h => .inl h) fun _ _ h => hc.exists_crlf h

/-- **Lines of the modem.**  Whatever texts without a line break the modem sends, each followed by
    one, the parser thread gets them in this order, each whole or, if it does not fit into the
    buffer, not at all. -/
theorem readLines_crlf (hc : CrlfCodes client) {bodies : List Text} {rest : Text}
    (hbodies : ∀ body ∈ bodies, ¬kEndl <:+: body) (hrest : ¬kEndl <:+: rest) :
    readLines client ((bodies.map (· ++ kEndl)).flatten ++ rest)
      = (bodies.map fun body => received client (body ++ kEndl), rest) := by
  have hframed : Framed (kEndl <:+ ·) ((bodies.map (· ++ kEndl)).flatten ++ rest)
      (bodies.map (· ++ kEndl)) rest := framed_marked (by decide) hbodies hrest
  rw [readLines_of_framed (hc.framed_iff.mpr hframed), List.map_map]
  rfl

end RtCharger.Net
