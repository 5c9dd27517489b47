import RtCharger.Net.AtReadline
import RtCharger.Utilities.Split

namespace RtCharger.Net

open RtCharger.Utilities

/-!
# The response to a command

`client_parser` copies every line that is no result code into the response that is waited for,
as long as there is room, and decides by the line whether the response is complete.  The lines lie
in the buffer one behind the other, each with a NUL at its end, and `at_resp_get_line` and
`at_resp_get_line_by_kw` walk over them.

* `parseResponse`, `atRespGetLine`, `atRespGetLineByKw` — the functions of the source;
* `kept` — the lines that there is room for;
* `putAll_holds` — what the response holds after any lines;
* `response_lines` — what is read from it.
-/

/-! ### The functions of the source -/

/-- `struct at_response`, with the `buf_len` characters of `buf`. -/
structure AtResponse where
  buf : Text
  bufSize : Nat
  lineNum : Nat
  lineCounts : Nat
deriving DecidableEq, Repr

/-- `at_resp_status_t`. -/
inductive AtRespStatus where
  | ok
  | error
  | timeout
  | buffFull
deriving DecidableEq, Repr

/-- `at_create_resp`. -/
def atCreateResp (bufSize lineNum : Nat) : AtResponse := ⟨[], bufSize, lineNum, 0⟩

/-- `resp->buf_len = 0; resp->line_counts = 0;`, taken together. -/
def AtResponse.reset (resp : AtResponse) : AtResponse := { resp with buf := [], lineCounts := 0 }

/-- `AT_RESP_END_OK`, `AT_RESP_END_ERROR` and `AT_RESP_END_FAIL`. -/
def atRespEndOk : Text := ['O', 'K']

@[inherit_doc atRespEndOk]
def atRespEndError : Text := ['E', 'R', 'R', 'O', 'R']

@[inherit_doc atRespEndOk]
def atRespEndFail : Text := ['F', 'A', 'I', 'L']

/-- `strstr(buf, keyword)` finds something: both are read up to the first NUL. -/
def strstr (buf keyword : Text) : Bool := decide (keyword <:+: cString buf)

/-- `check response result`: the status if the response is complete with the line that lies in
    the receive buffer. -/
def checkResponse (resp : AtResponse) (recvLineBuf : Text) : Option AtRespStatus :=
  if atRespEndOk.isPrefixOf recvLineBuf ∧ resp.lineNum = 0 then some .ok
  else if strstr recvLineBuf atRespEndError ∨ atRespEndFail.isPrefixOf recvLineBuf then some .error
  else if resp.lineCounts = resp.lineNum ∧ resp.lineNum ≠ 0 then some .ok
  else none

/-- `client->recv_line_buf[client->recv_line_len - 1] = '\0'`. -/
def terminated (line : Text) : Text := line.dropLast ++ [nul]

/-- The line is copied if there is room. -/
def AtResponse.put (resp : AtResponse) (recvLineBuf : Text) : AtResponse :=
  if resp.buf.length + recvLineBuf.length < resp.bufSize then
    { resp with buf := resp.buf ++ recvLineBuf, lineCounts := resp.lineCounts + 1 }
  else resp

/-- What `client_parser` does with a line of a response: the response, the status of the client,
    and whether the response is complete. -/
def parseResponse (resp : AtResponse) (respStatus : AtRespStatus) (line : Text) :
    AtResponse × AtRespStatus × Bool :=
  let recvLineBuf := terminated line
  let respStatus :=
    if resp.buf.length + recvLineBuf.length < resp.bufSize then respStatus else .buffFull
  match checkResponse (resp.put recvLineBuf) recvLineBuf with
  | some result => (resp.put recvLineBuf, result, true)
  | none        => (resp.put recvLineBuf, respStatus, false)

/-- `resp_buf += strlen(resp_buf) + 1`. -/
def skipLine (respBuf : Text) : Text := respBuf.drop ((cString respBuf).length + 1)

/-- The loop of `at_resp_get_line`: the line `n` lines further on. -/
def lineAt : Nat → Text → Text
  | 0, respBuf     => cString respBuf
  | n + 1, respBuf => lineAt n (skipLine respBuf)

/-- `at_resp_get_line`; the lines are counted from 1. -/
def atRespGetLine (resp : AtResponse) (respLine : Nat) : Option Text :=
  if respLine > resp.lineCounts ∨ respLine = 0 then none
  else some (lineAt (respLine - 1) resp.buf)

/-- The loop of `at_resp_get_line_by_kw` over the next `n` lines. -/
def lineWith (keyword : Text) : Nat → Text → Option Text
  | 0, _           => none
  | n + 1, respBuf =>
    if strstr respBuf keyword then some (cString respBuf)
    else lineWith keyword n (skipLine respBuf)

/-- `at_resp_get_line_by_kw`. -/
def atRespGetLineByKw (resp : AtResponse) (keyword : Text) : Option Text :=
  lineWith keyword resp.lineCounts resp.buf

/-! ### Lines in a buffer -/

/-- Texts one behind the other, each with a NUL at its end. -/
def packed (texts : List Text) : Text := (texts.map (· ++ [nul])).flatten

theorem packed_append (texts texts' : List Text) :
    packed (texts ++ texts') = packed texts ++ packed texts' := by
  simp [packed]

theorem cString_packed {t : Text} (ht : nul ∉ t) (rest : Text) :
    cString (t ++ [nul] ++ rest) = t := by
  rw [List.append_assoc, cString_append ht]
  simp [cString]

theorem skipLine_packed {t : Text} (ht : nul ∉ t) (rest : Text) :
    skipLine (t ++ [nul] ++ rest) = rest := by
  rw [skipLine, cString_packed ht]
  exact List.drop_left' (by simp)

/-- The walk finds the texts that were packed. -/
theorem lineAt_packed {texts : List Text} (htexts : ∀ t ∈ texts, nul ∉ t) {n : Nat}
    (hn : n < texts.length) (rest : Text) : lineAt n (packed texts ++ rest) = texts[n] := by
  induction texts generalizing n with
  | nil => exact absurd hn (Nat.not_lt_zero n)
  | cons t texts ih =>
    have ht := htexts t List.mem_cons_self
    have hcons : packed (t :: texts) ++ rest = t ++ [nul] ++ (packed texts ++ rest) := by
      simp [packed]
    rw [hcons]
    cases n with
    | zero => exact cString_packed ht _
    | succ n =>
      rw [lineAt, skipLine_packed ht,
        ih (fun u hu => htexts u (List.mem_cons_of_mem _ hu)) (Nat.lt_of_succ_lt_succ hn)]
      rfl

/-- The search finds the first of them that has the keyword in it. -/
theorem lineWith_packed {texts : List Text} (htexts : ∀ t ∈ texts, nul ∉ t) (keyword : Text)
    {n : Nat} (hn : n ≤ texts.length) (rest : Text) :
    lineWith keyword n (packed texts ++ rest)
      = (texts.take n).find? fun t => decide (keyword <:+: t) := by
  induction texts generalizing n with
  | nil =>
    obtain rfl : n = 0 := Nat.le_zero.mp hn
    rfl
  | cons t texts ih =>
    have ht := htexts t List.mem_cons_self
    have hcons : packed (t :: texts) ++ rest = t ++ [nul] ++ (packed texts ++ rest) := by
      simp [packed]
    cases n with
    | zero => rfl
    | succ n =>
      rw [hcons, lineWith, strstr, cString_packed ht, skipLine_packed ht, List.take_succ_cons,
        ih (fun u hu => htexts u (List.mem_cons_of_mem _ hu)) (Nat.le_of_succ_le_succ hn)]
      by_cases hkey : keyword <:+: t
      · rw [List.find?_cons_of_pos (by simpa using hkey), if_pos (by simpa using hkey)]
      · rw [List.find?_cons_of_neg (by simpa using hkey), if_neg (by simpa using hkey)]

/-- What a line is read as: the texts between the NULs that it has in it, of which there are none
    in what a modem sends. -/
def pieces (line : Text) : List Text := split nul (-1) line.dropLast

theorem nul_not_mem_pieces (line : Text) : ∀ t ∈ pieces line, nul ∉ t :=
  not_mem_of_mem_splitFrom List.not_mem_nil

theorem packed_fields (fields : List Text) (hne : fields ≠ []) :
    packed fields = [nul].intercalate fields ++ [nul] := by
  induction fields with
  | nil => exact absurd rfl hne
  | cons f fields ih =>
    by_cases hfields : fields = []
    · subst hfields
      simp [packed]
    · rw [List.intercalate_cons_of_ne_nil hfields, List.append_assoc, ← ih hfields]
      simp [packed]

/-- A line in the buffer is its pieces, packed. -/
theorem packed_pieces (line : Text) : packed (pieces line) = terminated line := by
  rw [pieces, split, packed_fields _ (splitFrom_ne_nil _ _ _), splitFrom_intercalate]
  rfl

/-! ### What a response holds -/

/-- The lines that there is room for, when `used` characters of the buffer are taken. -/
def kept (bufSize : Nat) : Nat → List Text → List Text
  | _, []            => []
  | used, line :: ls =>
    if used + line.length < bufSize then line :: kept bufSize (used + line.length) ls
    else kept bufSize used ls

/-- The response after the lines `ls`, as far as the buffer goes. -/
def AtResponse.putAll (resp : AtResponse) (ls : List Text) : AtResponse :=
  ls.foldl (fun resp line => resp.put (terminated line)) resp

/-- Lines that are not empty keep their length when their last character becomes a NUL. -/
theorem length_terminated {line : Text} (h : line ≠ []) :
    (terminated line).length = line.length := by
  have hpos : 0 < line.length := List.length_pos_of_ne_nil h
  rw [terminated, List.length_append, List.length_dropLast, List.length_singleton]
  omega

/-- What never changes. -/
theorem putAll_bufSize (resp : AtResponse) (ls : List Text) :
    (resp.putAll ls).bufSize = resp.bufSize ∧ (resp.putAll ls).lineNum = resp.lineNum := by
  induction ls generalizing resp with
  | nil => exact ⟨rfl, rfl⟩
  | cons line ls ih =>
    obtain ⟨hsize, hnum⟩ := ih (resp.put (terminated line))
    have hput : (resp.put (terminated line)).bufSize = resp.bufSize ∧
        (resp.put (terminated line)).lineNum = resp.lineNum := by
      unfold AtResponse.put
      split_ifs <;> exact ⟨rfl, rfl⟩
    exact ⟨hsize.trans hput.1, hnum.trans hput.2⟩

/-- **What a response holds** after some lines: those that there was room for, packed, and their
    number. -/
theorem putAll_holds (resp : AtResponse) {ls : List Text} (hne : ∀ line ∈ ls, line ≠ []) :
    (resp.putAll ls).buf
        = resp.buf ++ packed ((kept resp.bufSize resp.buf.length ls).flatMap pieces) ∧
      (resp.putAll ls).lineCounts
        = resp.lineCounts + (kept resp.bufSize resp.buf.length ls).length := by
  induction ls generalizing resp with
  | nil => exact ⟨by simp [AtResponse.putAll, kept, packed], rfl⟩
  | cons line ls ih =>
    have hline := length_terminated (hne line List.mem_cons_self)
    have hls : ∀ l ∈ ls, l ≠ [] := fun l hl => hne l (List.mem_cons_of_mem _ hl)
    show ((resp.put (terminated line)).putAll ls).buf = _ ∧
      ((resp.put (terminated line)).putAll ls).lineCounts = _
    by_cases hroom : resp.buf.length + line.length < resp.bufSize
    · have hput : resp.put (terminated line)
          = { resp with buf := resp.buf ++ terminated line, lineCounts := resp.lineCounts + 1 } :=
        if_pos (hline.symm ▸ hroom)
      obtain ⟨hbuf, hcounts⟩ := ih (resp.put (terminated line)) hls
      rw [hbuf, hcounts, hput, kept, if_pos hroom]
      simp only [List.length_append, hline, List.flatMap_cons, packed_append, packed_pieces,
        List.append_assoc, List.length_cons, true_and]
      omega
    · have hput : resp.put (terminated line) = resp := if_neg (hline.symm ▸ hroom)
      rw [hput, kept, if_neg hroom]
      exact ih resp hls

/-- The kept lines are some of the lines, in order. -/
theorem kept_sublist (bufSize used : Nat) (ls : List Text) : (kept bufSize used ls).Sublist ls := by
  induction ls generalizing used with
  | nil => exact List.Sublist.slnil
  | cons line ls ih =>
    rw [kept]
    split_ifs
    · exact (ih _).cons_cons _
    · exact (ih _).cons _

/-- The kept lines fill less than the buffer. -/
theorem length_kept_lt {bufSize used : Nat} (hused : used < bufSize) (ls : List Text) :
    used + (kept bufSize used ls).flatten.length < bufSize := by
  induction ls generalizing used with
  | nil => simpa [kept] using hused
  | cons line ls ih =>
    rw [kept]
    split_ifs with hroom
    · rw [List.flatten_cons, List.length_append, ← Nat.add_assoc]
      exact ih hroom
    · exact ih hused

/-- Packed lines are as long as the lines. -/
theorem length_packed {ls : List Text} (hne : ∀ line ∈ ls, line ≠ []) :
    (packed (ls.flatMap pieces)).length = ls.flatten.length := by
  induction ls with
  | nil => rfl
  | cons line ls ih =>
    rw [List.flatMap_cons, packed_append, packed_pieces, List.flatten_cons, List.length_append,
      List.length_append, length_terminated (hne line List.mem_cons_self),
      ih fun l hl => hne l (List.mem_cons_of_mem _ hl)]

/-- There are at least as many texts as lines. -/
theorem length_le_pieces (ls : List Text) : ls.length ≤ (ls.flatMap pieces).length := by
  induction ls with
  | nil => exact le_rfl
  | cons line ls ih =>
    have hpos : 0 < (pieces line).length := List.length_pos_of_ne_nil (splitFrom_ne_nil _ _ _)
    rw [List.flatMap_cons, List.length_append, List.length_cons]
    omega

/-- No NUL is in the texts of the lines that there was room for. -/
theorem nul_not_mem_texts {bufSize : Nat} {ls : List Text} :
    ∀ t ∈ (kept bufSize 0 ls).flatMap pieces, nul ∉ t := by
  intro t ht
  obtain ⟨line, -, htl⟩ := List.mem_flatMap.mp ht
  exact nul_not_mem_pieces line t htl

/-- The search by a keyword finds the first of the lines that has it in it. -/
theorem atRespGetLineByKw_putAll {bufSize : Nat} {ls : List Text} (hne : ∀ line ∈ ls, line ≠ [])
    (keyword : Text) :
    atRespGetLineByKw ((atCreateResp bufSize 0).putAll ls) keyword
      = (((kept bufSize 0 ls).flatMap pieces).take (kept bufSize 0 ls).length).find?
          fun t => decide (keyword <:+: t) := by
  obtain ⟨hbuf, hcounts⟩ := putAll_holds (atCreateResp bufSize 0) hne
  rw [atRespGetLineByKw, hbuf, hcounts]
  simp only [atCreateResp, List.nil_append, List.length_nil, Nat.zero_add]
  have hfound := lineWith_packed nul_not_mem_texts keyword (length_le_pieces (kept bufSize 0 ls)) []
  rwa [List.append_nil] at hfound

/-- **The lines of a response.**  After any lines have come in, a response that was empty holds the
    ones that there was room for: `at_resp_get_line` finds them by their numbers and
    `at_resp_get_line_by_kw` finds the first of them that has the keyword in it, each up to its
    last character; a line with a NUL in it counts once and is found as several.  The buffer is
    never full. -/
theorem response_lines {bufSize : Nat} (hsize : 0 < bufSize) {ls : List Text}
    (hne : ∀ line ∈ ls, line ≠ []) :
    let resp := (atCreateResp bufSize 0).putAll ls
    let texts := (kept bufSize 0 ls).flatMap pieces
    resp.buf.length < bufSize ∧
      (∀ n, atRespGetLine resp n
        = if n = 0 ∨ (kept bufSize 0 ls).length < n then none else texts[n - 1]?) ∧
      ∀ keyword, atRespGetLineByKw resp keyword
        = (texts.take (kept bufSize 0 ls).length).find? fun t => decide (keyword <:+: t) := by
  intro resp texts
  obtain ⟨hbuf, hcounts⟩ := putAll_holds (atCreateResp bufSize 0) hne
  have hbuf' : resp.buf = packed texts := hbuf
  have hcounts' : resp.lineCounts = (kept bufSize 0 ls).length := by
    rw [show resp.lineCounts = _ from hcounts]
    simp [atCreateResp]
  have hle : (kept bufSize 0 ls).length ≤ texts.length := length_le_pieces _
  have hpacked : resp.buf = packed texts ++ [] := by rw [hbuf', List.append_nil]
  refine ⟨?_, fun n => ?_, fun keyword => ?_⟩
  · have hkept := length_kept_lt hsize ls
    rw [hbuf', length_packed fun line hline => hne line ((kept_sublist _ _ _).mem hline)]
    omega
  · unfold atRespGetLine
    rw [hcounts']
    by_cases hn : n = 0 ∨ (kept bufSize 0 ls).length < n
    · rw [if_pos hn, if_pos (by omega)]
    · have hlt : n - 1 < texts.length := by omega
      rw [if_neg hn, if_neg (by omega), hpacked, lineAt_packed nul_not_mem_texts hlt,
        List.getElem?_eq_getElem hlt]
  · exact atRespGetLineByKw_putAll hne keyword

/-- Two lines of three fit. -/
theorem response_lines_example :
    ((atCreateResp 10 0).putAll [['a', 'b', '\r', '\n'], ['c', 'd', 'e', 'f', 'g', '\n'],
      ['O', 'K', '\r', '\n']]).buf.length < 10 :=
  (response_lines (by decide) (by decide)).1

end RtCharger.Net
