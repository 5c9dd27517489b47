import RtCharger.Lib.Effect
import RtCharger.Net.AtExec
import RtCharger.Utilities.Scanf

namespace RtCharger.Devices.Basic

open Effect RtCharger.Net RtCharger.Net.AtExec RtCharger.Utilities

/-!
# What the modem says about itself

`Basic` asks the modem for the strength of its signal and for its numbers: it gives a command,
looks for the line of the response with a keyword in it and reads that line by a format, into
memory that it has not initialised or that has room for a number of the usual length only.

* `parseByKwEx`, `getRssi`, `getImei`, `getIccid` — the functions of the source;
* `Found` — what a response says, by the lines that came;
* `query_cases` — a query, for any format with one conversion;
* `rssi_read`, `imei_read`, `iccid_read` — what is returned, and when memory behind the string is
  written to.
-/

/-! ### The functions of the source -/

/-- `AtResponse::kBufSize`. -/
def kBufSize : Nat := 512

/-- `at_resp_parse_line_args_by_kw`: what it returns, and what it writes. -/
def atRespParseLineArgsByKw (resp : AtResponse) (keyword respExpr : Text) : Int × List Scanned :=
  match atRespGetLineByKw resp keyword with
  | none      => (-1, [])
  | some line => vsscanf line respExpr

/-- `AtResponse::parseByKwEx`, with so many places to write to. -/
def parseByKwEx (resp : AtResponse) (allRequired : Bool) (args : Nat) (keyword respExpr : Text) :
    Outcome Exn (Int × List Scanned) :=
  let (cnt, values) := atRespParseLineArgsByKw resp keyword respExpr
  if allRequired = true ∧ cnt ≠ args then .threw (.std "resp err") else .returned (cnt, values)

/-- `AtResponse::parseByKw`. -/
def parseByKw (resp : AtResponse) (args : Nat) (keyword respExpr : Text) :
    Outcome Exn (Int × List Scanned) :=
  parseByKwEx resp true args keyword respExpr

/-- An `int` that was not initialised, after something was written to it; a number that is no
    `int` leaves anything there. -/
def writtenInt : List Scanned → Outcome Exn Int
  | [.int n] => if intMin ≤ n ∧ n ≤ intMax then .returned n else .undefined
  | _        => .undefined

/-- A string of NULs, after a text was written to its characters, with a NUL behind it; the string
    itself has one NUL behind its `size` characters. -/
def writtenChars (size : Nat) : List Scanned → Outcome Exn Text
  | [.text t] =>
    if t.length ≤ size then .returned (t ++ List.replicate (size - t.length) nul) else .undefined
  | _         => .undefined

/-- A command is given, and one value is read from its response. -/
def query {α : Type} (exec : Text → Outcome Exn AtResponse) (cmd keyword respExpr : Text)
    (written : List Scanned → Outcome Exn α) : Outcome Exn α := do
  let resp ← exec cmd
  let (_, values) ← parseByKw resp 1 keyword respExpr
  written values

variable (exec : Text → Outcome Exn AtResponse)

/-- `Basic::getRssi`. -/
def getRssi : Outcome Exn Int :=
  query exec "AT+CSQ".toList "+CSQ".toList "+CSQ: %d".toList writtenInt

/-- `Basic::getImei`. -/
def getImei : Outcome Exn Text :=
  query exec "AT+CGSN=1".toList "+CGSN".toList "+CGSN: \"%[^\"]\"".toList (writtenChars 15)

/-- `Basic::getIccid`. -/
def getIccid : Outcome Exn Text :=
  query exec "AT+ECICCID".toList "+ECICCID".toList "+ECICCID: %s".toList (writtenChars 20)

/-! ### What a response says -/

/-- The line that is found by a keyword, of those that came and for which there was room. -/
def lineFor (ls : List Text) (keyword : Text) : Option Text :=
  (((kept kBufSize 0 ls).flatMap pieces).take (kept kBufSize 0 ls).length).find?
    fun t => decide (keyword <:+: t)

/-- The line with the keyword says `v`: behind `head`, white space and `lead` there is a text for
    the conversion, which does not go on behind it. -/
def Found (ls : List Text) (keyword head lead : Text) (d : Directive) (v : Scanned) : Prop :=
  ∃ line gap t rest, lineFor ls keyword = some line ∧ line = head ++ gap ++ (lead ++ t) ++ rest ∧
    (∀ c ∈ gap, isSpace c = true) ∧ Takes d t v ∧ StopsAt d.goesOn rest

section Query

variable {exec} {α : Type} {cmd keyword respExpr : Text} {ls : List Text}

/-- **A query**: the value that the line says is written, or the line says none, and that is
    thrown. -/
theorem query_cases
    (hexec : exec cmd = .returned ((atCreateResp kBufSize kLineNum).putAll ls))
    (hne : ∀ line ∈ ls, line ≠ []) {P : Scanned → Prop}
    (hformat : ∀ v, P v ↔ ∃ line, lineFor ls keyword = some line ∧
      (scan (directives respExpr) line).1 = [v]) (written : List Scanned → Outcome Exn α) :
    (∃ v, P v ∧ (∀ w, P w → w = v) ∧ query exec cmd keyword respExpr written = written [v]) ∨
    ((¬ ∃ v, P v) ∧ query exec cmd keyword respExpr written = .threw (.std "resp err")) := by
  have hquery : query exec cmd keyword respExpr written
      = (parseByKw ((atCreateResp kBufSize kLineNum).putAll ls) 1 keyword respExpr).bind
          fun r => written r.2 := by
    rw [query, hexec]
    rfl
  have hline : atRespGetLineByKw ((atCreateResp kBufSize kLineNum).putAll ls) keyword
      = lineFor ls keyword := atRespGetLineByKw_putAll hne keyword
  rw [hquery, parseByKw, parseByKwEx, atRespParseLineArgsByKw, hline]
  cases hfor : lineFor ls keyword with
  | none =>
    -- `at_resp_get_line_by_kw` returns null, which is not one argument either
    refine .inr ⟨?_, rfl⟩
    rintro ⟨v, hv⟩
    obtain ⟨line, hsome, -⟩ := (hformat v).mp hv
    rw [hfor] at hsome
    cases hsome
  | some line =>
    dsimp only
    have hone : (vsscanf line respExpr).1 = 1 ↔
        ∃ v, (scan (directives respExpr) line).1 = [v] := vsscanf_eq_one_iff
    -- the line decides: `vsscanf` reads the one value, or it is not counted
    by_cases hcount : (vsscanf line respExpr).1 = 1
    · obtain ⟨v, hv⟩ := hone.mp hcount
      refine .inl ⟨v, (hformat v).mpr ⟨line, hfor, hv⟩, fun w hw => ?_, ?_⟩
      · obtain ⟨line', hsome, hw'⟩ := (hformat w).mp hw
        rw [hfor] at hsome
        obtain rfl := Option.some.inj hsome
        exact (List.cons.inj (hw'.symm.trans hv)).1
      · rw [if_neg (fun h => h.2 hcount)]
        exact congrArg written hv
    · refine .inr ⟨?_, ?_⟩
      · rintro ⟨v, hv⟩
        obtain ⟨line', hsome, hv'⟩ := (hformat v).mp hv
        rw [hfor] at hsome
        obtain rfl := Option.some.inj hsome
        exact hcount (hone.mpr ⟨v, hv'⟩)
      · rw [if_pos ⟨rfl, hcount⟩]
        rfl

/-- A text is written to a string of `size` characters: it fits exactly if it is not longer. -/
theorem query_text
    (hexec : exec cmd = .returned ((atCreateResp kBufSize kLineNum).putAll ls))
    (hne : ∀ line ∈ ls, line ≠ []) {P : Scanned → Prop}
    (hformat : ∀ v, P v ↔ ∃ line, lineFor ls keyword = some line ∧
      (scan (directives respExpr) line).1 = [v])
    (htext : ∀ v, P v → ∃ t, v = .text t) (size : Nat) :
    (∀ id, query exec cmd keyword respExpr (writtenChars size) = .returned id ↔
      ∃ t, P (.text t) ∧ t.length ≤ size ∧ id = t ++ List.replicate (size - t.length) nul) ∧
    (query exec cmd keyword respExpr (writtenChars size) = .threw (.std "resp err") ↔
      ¬ ∃ v, P v) ∧
    (query exec cmd keyword respExpr (writtenChars size) = .undefined ↔
      ∃ t, P (.text t) ∧ size < t.length) := by
  rcases query_cases hexec hne hformat (writtenChars size) with
    ⟨v, hv, honly, hquery⟩ | ⟨hnone, hquery⟩
  · obtain ⟨t, rfl⟩ := htext v hv
    have hsame : ∀ u, P (.text u) → u = t := fun u hu => Scanned.text.inj (honly _ hu)
    rw [hquery, writtenChars]
    by_cases hfits : t.length ≤ size
    · rw [if_pos hfits]
      refine ⟨fun id => ⟨fun h => ⟨t, hv, hfits, (Outcome.returned.inj h).symm⟩, ?_⟩, ?_, ?_⟩
      · rintro ⟨u, hu, -, rfl⟩
        rw [hsame u hu]
      · exact ⟨nofun, fun h => absurd ⟨_, hv⟩ h⟩
      · refine ⟨nofun, ?_⟩
        rintro ⟨u, hu, hlong⟩
        rw [hsame u hu] at hlong
        exact absurd hfits (Nat.not_le.mpr hlong)
    · -- the text would be written past the end of the string
      rw [if_neg hfits]
      refine ⟨fun id => ⟨nofun, ?_⟩, ?_, ?_⟩
      · rintro ⟨u, hu, hshort, -⟩
        rw [hsame u hu] at hshort
        exact absurd hshort hfits
      · exact ⟨nofun, fun h => absurd ⟨_, hv⟩ h⟩
      · exact ⟨fun _ => ⟨t, hv, Nat.not_le.mp hfits⟩, fun _ => rfl⟩
  · rw [hquery]
    refine ⟨fun id => ⟨nofun, ?_⟩, ⟨fun _ => hnone, fun _ => rfl⟩, nofun, ?_⟩
    · rintro ⟨u, hu, -⟩
      exact absurd ⟨_, hu⟩ hnone
    · rintro ⟨u, hu, -⟩
      exact absurd ⟨_, hu⟩ hnone

/-- The formats with white space before a conversion that skips it anyway. -/
theorem found_gap_iff {head : Text} {d : Directive} (hd : d.Skips)
    (hfmt : directives respExpr = head.map .lit ++ [.space, d]) (v : Scanned) :
    Found ls keyword head [] d v ↔ ∃ line, lineFor ls keyword = some line ∧
      (scan (directives respExpr) line).1 = [v] := by
  rw [hfmt]
  constructor
  · rintro ⟨line, gap, t, rest, hline, heq, hall⟩
    exact ⟨line, hline, (scan_gap_iff head hd).mpr ⟨gap, t, rest, heq, hall⟩⟩
  · rintro ⟨line, hline, hscan⟩
    obtain ⟨gap, t, rest, heq, hall⟩ := (scan_gap_iff head hd).mp hscan
    exact ⟨line, gap, t, rest, hline, heq, hall⟩

/-- **The strength of the signal** is the number behind `+CSQ:` in the first line with `+CSQ` in
    it.  Without a number there the call throws, and never returns what is in the memory. -/
theorem rssi_read
    (hexec : exec "AT+CSQ".toList = .returned ((atCreateResp kBufSize kLineNum).putAll ls))
    (hne : ∀ line ∈ ls, line ≠ []) :
    (∀ n, getRssi exec = .returned n ↔
      (intMin ≤ n ∧ n ≤ intMax) ∧ Found ls "+CSQ".toList "+CSQ:".toList [] .int (.int n)) ∧
    (getRssi exec = .threw (.std "resp err") ↔
      ¬ ∃ v, Found ls "+CSQ".toList "+CSQ:".toList [] .int v) ∧
    (getRssi exec = .undefined ↔
      ∃ n, Found ls "+CSQ".toList "+CSQ:".toList [] .int (.int n) ∧
        ¬ (intMin ≤ n ∧ n ≤ intMax)) := by
  have hformat : ∀ v, Found ls "+CSQ".toList "+CSQ:".toList [] .int v ↔
      ∃ line, lineFor ls "+CSQ".toList = some line ∧
        (scan (directives "+CSQ: %d".toList) line).1 = [v] := found_gap_iff (.inl rfl) rfl
  rw [getRssi]
  rcases query_cases hexec hne hformat writtenInt with
    ⟨v, hv, honly, hquery⟩ | ⟨hnone, hquery⟩
  · obtain ⟨m, rfl⟩ : ∃ m, v = .int m := by
      obtain ⟨_, _, _, _, _, _, _, htakes, _⟩ := hv
      cases htakes
      exact ⟨_, rfl⟩
    have hsame : ∀ n, Found ls "+CSQ".toList "+CSQ:".toList [] .int (.int n) → n = m :=
      fun n hn => Scanned.int.inj (honly _ hn)
    rw [hquery, writtenInt]
    by_cases hrange : intMin ≤ m ∧ m ≤ intMax
    · rw [if_pos hrange]
      refine ⟨fun n => ⟨fun h => ?_, fun ⟨_, hn⟩ => by rw [hsame n hn]⟩,
        ⟨nofun, fun h => absurd ⟨_, hv⟩ h⟩, nofun, ?_⟩
      · rw [← Outcome.returned.inj h]
        exact ⟨hrange, hv⟩
      · rintro ⟨n, hn, hout⟩
        rw [hsame n hn] at hout
        exact absurd hrange hout
    · -- the digits are more than an `int` holds
      rw [if_neg hrange]
      refine ⟨fun n => ⟨nofun, ?_⟩, ⟨nofun, fun h => absurd ⟨_, hv⟩ h⟩,
        fun _ => ⟨m, hv, hrange⟩, fun _ => rfl⟩
      rintro ⟨hin, hn⟩
      rw [hsame n hn] at hin
      exact absurd hin hrange
  · rw [hquery]
    refine ⟨fun n => ⟨nofun, fun ⟨_, hn⟩ => absurd ⟨_, hn⟩ hnone⟩,
      ⟨fun _ => hnone, fun _ => rfl⟩, nofun, ?_⟩
    rintro ⟨n, hn, -⟩
    exact absurd ⟨_, hn⟩ hnone

/-- `+CSQ: 21,99`. -/
theorem rssi_read_example :
    getRssi (fun _ => .returned ((atCreateResp kBufSize kLineNum).putAll
        ["+CSQ: 21,99\r\n".toList, "OK\r\n".toList])) = .returned 21 ↔
      (intMin ≤ 21 ∧ 21 ≤ intMax) ∧ Found ["+CSQ: 21,99\r\n".toList, "OK\r\n".toList]
        "+CSQ".toList "+CSQ:".toList [] .int (.int 21) :=
  (rssi_read rfl (by decide)).1 21

/-- **The number of the modem** is the text in quotes behind `+CGSN:`, and NULs behind it if it is
    shorter than 15 characters.  The call writes behind its string exactly if it is longer, and
    throws if there is none. -/
theorem imei_read
    (hexec : exec "AT+CGSN=1".toList = .returned ((atCreateResp kBufSize kLineNum).putAll ls))
    (hne : ∀ line ∈ ls, line ≠ []) :
    (∀ id, getImei exec = .returned id ↔
      ∃ t, Found ls "+CGSN".toList "+CGSN:".toList ['"'] (.upTo '"') (.text t) ∧
        t.length ≤ 15 ∧ id = t ++ List.replicate (15 - t.length) nul) ∧
    (getImei exec = .threw (.std "resp err") ↔
      ¬ ∃ v, Found ls "+CGSN".toList "+CGSN:".toList ['"'] (.upTo '"') v) ∧
    (getImei exec = .undefined ↔
      ∃ t, Found ls "+CGSN".toList "+CGSN:".toList ['"'] (.upTo '"') (.text t) ∧
        15 < t.length) := by
  have hfmt : directives "+CGSN: \"%[^\"]\"".toList
      = "+CGSN:".toList.map .lit ++ [.space, .lit '"', .upTo '"', .lit '"'] := rfl
  refine query_text hexec hne (fun v => ?_) ?_ 15
  · rw [hfmt]
    constructor
    · rintro ⟨line, gap, t, rest, hline, heq, hall⟩
      exact ⟨line, hline, (scan_quoted_iff _ rfl).mpr ⟨gap, t, rest, heq, hall⟩⟩
    · rintro ⟨line, hline, hscan⟩
      obtain ⟨gap, t, rest, heq, hall⟩ := (scan_quoted_iff _ rfl).mp hscan
      exact ⟨line, gap, t, rest, hline, heq, hall⟩
  · rintro v ⟨_, _, _, _, _, _, _, htakes, _⟩
    cases htakes
    exact ⟨_, rfl⟩

/-- A number of 16 digits. -/
theorem imei_read_example :
    getImei (fun _ => .returned ((atCreateResp kBufSize kLineNum).putAll
        ["+CGSN: \"8644310412345678\"\r\n".toList, "OK\r\n".toList])) = .undefined ↔
      ∃ t, Found ["+CGSN: \"8644310412345678\"\r\n".toList, "OK\r\n".toList]
        "+CGSN".toList "+CGSN:".toList ['"'] (.upTo '"') (.text t) ∧ 15 < t.length :=
  (imei_read rfl (by decide)).2.2

/-- **The number of the card** is the text behind `+ECICCID:`, for which there are 20 characters. -/
theorem iccid_read
    (hexec : exec "AT+ECICCID".toList = .returned ((atCreateResp kBufSize kLineNum).putAll ls))
    (hne : ∀ line ∈ ls, line ≠ []) :
    (∀ id, getIccid exec = .returned id ↔
      ∃ t, Found ls "+ECICCID".toList "+ECICCID:".toList [] .word (.text t) ∧
        t.length ≤ 20 ∧ id = t ++ List.replicate (20 - t.length) nul) ∧
    (getIccid exec = .threw (.std "resp err") ↔
      ¬ ∃ v, Found ls "+ECICCID".toList "+ECICCID:".toList [] .word v) ∧
    (getIccid exec = .undefined ↔
      ∃ t, Found ls "+ECICCID".toList "+ECICCID:".toList [] .word (.text t) ∧
        20 < t.length) := by
  refine query_text hexec hne (found_gap_iff (.inr rfl) rfl) ?_ 20
  rintro v ⟨_, _, _, _, _, _, _, htakes, _⟩
  cases htakes
  exact ⟨_, rfl⟩

end Query

end RtCharger.Devices.Basic
