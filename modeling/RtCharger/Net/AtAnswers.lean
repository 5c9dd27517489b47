import RtCharger.Net.AtExec

namespace RtCharger.Net.AtExec

open StepSystem RtCharger.Kernel RtCharger.Utilities

/-!
# Which lines answer a command

The parser thread reads `client->resp` twice, and clears it and releases the semaphore in two
more steps.  A command that times out in between leaves a token or a null pointer behind.  As long
as no time-out meets the parser there, and the parser does not test `client->resp` while it is that
of a command that has timed out, one command at a time is under way, and it returns with the first
line after it was registered that completes a response.

* `Clean` — these two conditions;
* `Answer` — the lines that answered a command, among all lines;
* `Phase` — how the command that has the lock and the parser stand to each other;
* `Inv`, `Inv.step` — the invariant of all clean runs;
* `commands_answered`, `parser_safe` — what it says about commands and about the parser;
* `handlers_called` — every line that is a result code is handled once, in all runs.
-/

variable {Tid H : Type}

/-! ### Lines that complete a response -/

/-- The status of a line that completes a response without a number of lines. -/
def finalOf (line : Text) : Option AtRespStatus :=
  checkResponse (atCreateResp 0 kLineNum) (terminated line)

theorem checkResponse_of_lineNum {resp : AtResponse} (h : resp.lineNum = kLineNum) (line : Text) :
    checkResponse resp (terminated line) = finalOf line := by
  simp [finalOf, checkResponse, h, atCreateResp, kLineNum]

/-- The response of a command when it is new. -/
def Fresh (resp : AtResponse) : Prop := ∃ bufSize, resp = atCreateResp bufSize kLineNum

/-- The response holds the lines. -/
def Holds (resp : AtResponse) (ls : List Text) : Prop :=
  ∃ bufSize, resp = (atCreateResp bufSize kLineNum).putAll ls

theorem Fresh.holds {resp : AtResponse} (h : Fresh resp) : Holds resp [] := h

theorem Holds.lineNum {resp : AtResponse} {ls : List Text} (h : Holds resp ls) :
    resp.lineNum = kLineNum := by
  obtain ⟨bufSize, rfl⟩ := h
  exact (putAll_bufSize _ ls).2

theorem Holds.reset {resp : AtResponse} {ls : List Text} (h : Holds resp ls) :
    Holds resp.reset [] := by
  refine ⟨resp.bufSize, ?_⟩
  have hnum := h.lineNum
  cases resp
  cases hnum
  rfl

/-- One more line. -/
theorem Holds.put {resp : AtResponse} {ls : List Text} (h : Holds resp ls) (line : Text) :
    Holds (resp.put (terminated line)) (ls ++ [line]) := by
  obtain ⟨bufSize, rfl⟩ := h
  refine ⟨bufSize, ?_⟩
  simp [AtResponse.putAll]

/-- What the parser does with a line of a response that has no number of lines. -/
theorem parseResponse_of_lineNum {resp : AtResponse} (h : resp.lineNum = kLineNum)
    (respStatus : AtRespStatus) (line : Text) :
    (parseResponse resp respStatus line).1 = resp.put (terminated line) ∧
    (parseResponse resp respStatus line).2.2 = (finalOf line).isSome ∧
    ∀ status, finalOf line = some status →
      (parseResponse resp respStatus line).2.1 = status := by
  have hput : (resp.put (terminated line)).lineNum = kLineNum := by
    unfold AtResponse.put
    split_ifs <;> exact h
  unfold parseResponse
  simp only [checkResponse_of_lineNum hput]
  cases finalOf line with
  | none => exact ⟨rfl, rfl, nofun⟩
  | some result =>
    refine ⟨rfl, rfl, ?_⟩
    rintro status hstatus
    exact Option.some.inj hstatus

/-! ### Answers -/

/-- The lines `heard` answer a command with `status`: they are the first ones after `mark`, and
    only the last of them completes a response.  Of these the last ones were `stored`. -/
structure Answer (others : List Text) (mark : Nat) (heard stored : List Text)
    (status : AtRespStatus) : Prop where
  final : ∃ before line, heard = before ++ [line] ∧ (∀ l ∈ before, finalOf l = none) ∧
    finalOf line = some status
  order : heard <+: others.drop mark
  mark_le : mark ≤ others.length
  stored : stored <:+ heard

/-- Later lines do not matter. -/
theorem Answer.grow {others heard stored : List Text} {mark : Nat} {status : AtRespStatus}
    (h : Answer others mark heard stored status) (ls : List Text) :
    Answer (others ++ ls) mark heard stored status := by
  refine ⟨h.final, ?_, ?_, h.stored⟩
  · rw [List.drop_append_of_le_length h.mark_le]
    exact h.order.trans (List.prefix_append ..)
  · rw [List.length_append]
    exact Nat.le_add_right_of_le h.mark_le

/-- A command has timed out, or it has returned what its answer says with the response that the
    stored lines make. -/
def Ended.Ok (others : List Text) (e : Ended Tid) : Prop :=
  e.result = .timeout ∨ ∃ status, Answer others e.mark e.heard e.stored status ∧
    e.result = resultOf status ∧ Holds e.response e.stored

theorem Ended.Ok.grow {others : List Text} {e : Ended Tid} (h : e.Ok others) (ls : List Text) :
    e.Ok (others ++ ls) := by
  rcases h with h | ⟨status, hanswer, h⟩
  · exact .inl h
  · exact .inr ⟨status, hanswer.grow ls, h⟩

/-! ### Clean runs -/

/-- The thread whose response the parser is about to take up. -/
def System.takesUp (s : System Tid H) : Option Tid :=
  match s.parser with
  | .testing _ => s.resp
  | _          => none

/-- No time-out while the parser is busy with a response, and the parser does not take up the
    response of a command that has timed out and has not cleared `client->resp` yet. -/
def Clean (s : System Tid H) : Action Tid → Prop
  | .timeout _ => s.parser.busy = false
  | .parse     =>
    (s.takesUp.all fun t => decide (s.pc t ≠ .timedOut ∧ s.pc t ≠ .leaving .timeout)) = true
  | _          => True

instance (s : System Tid H) : (a : Action Tid) → Decidable (Clean s a)
  | .timeout _ => inferInstanceAs (Decidable (_ = _))
  | .parse     => inferInstanceAs (Decidable (_ = _))
  | .arrive _  => isTrue trivial
  | .call _ _  => isTrue trivial
  | .next _    => isTrue trivial

/-! ### How the command and the parser stand to each other -/

/-- The command waits for its answer, or will. -/
def Pc.awaits : Pc → Bool
  | .registered | .cleared | .sent | .suspended => true
  | _                                           => false

/-- The line that the parser is about to store. -/
def ParserPc.storingLine : ParserPc Tid → List Text
  | .loading line | .storing line _ => [line]
  | _                               => []

/-- No response is under way, and there is no token. -/
structure Quiet (s : System Tid H) : Prop where
  resp : s.resp = none
  parser : s.parser.busy = false
  token : s.respNotice = ⟨0, []⟩

/-- The semaphore without a token. -/
def noToken (pc : Pc) (t : Tid) : RtSemaphore Tid := ⟨0, if pc = .suspended then [t] else []⟩

/-- The parser is not busy, or it is about to store a line into the response of thread `t`. -/
def ParserPc.Serves (t : Tid) (parser : ParserPc Tid) : Prop :=
  parser.busy = false ∨ (∃ line, parser = .loading line) ∨ ∃ line, parser = .storing line t

/-- The lines since the command was registered, none of which completes a response. -/
structure Unanswered (s : System Tid H) : Prop where
  heard : s.others.drop s.mark = s.heard ++ s.parser.storingLine
  mark_le : s.mark ≤ s.others.length
  stored : s.stored <:+ s.heard
  none : ∀ line ∈ s.heard, finalOf line = none

/-- The answer of the command is there, and the status says so. -/
structure Answered (s : System Tid H) (t : Tid) (status : AtRespStatus) : Prop where
  answer : Answer s.others s.mark s.heard s.stored status
  status : s.respStatus = status
  holds : Holds (s.response t) s.stored

/-- Where thread `t`, which has the lock, is in its command, and where the parser is. -/
inductive Phase (s : System Tid H) (t : Tid) : Pc → Prop
  | before {pc : Pc} (hpc : pc = .locked ∨ pc = .statusSet) (hquiet : Quiet s)
      (hfresh : Fresh (s.response t)) : Phase s t pc
  | waiting {pc : Pc} (hpc : pc.awaits = true) (hresp : s.resp = some t)
      (hparser : s.parser.Serves t) (htoken : s.respNotice = noToken pc t)
      (hheard : Unanswered s) (hholds : Holds (s.response t) s.stored) : Phase s t pc
  | clearing {pc : Pc} {status : AtRespStatus} (hpc : pc.awaits = true) (hresp : s.resp = some t)
      (hparser : s.parser = .clearing) (htoken : s.respNotice = noToken pc t)
      (hanswered : Answered s t status) : Phase s t pc
  | notifying {pc : Pc} {status : AtRespStatus} (hpc : pc.awaits = true) (hresp : s.resp = none)
      (hparser : s.parser = .notifying) (htoken : s.respNotice = noToken pc t)
      (hanswered : Answered s t status) : Phase s t pc
  | token {pc : Pc} {status : AtRespStatus} (hpc : pc.awaits = true ∧ pc ≠ .suspended)
      (hresp : s.resp = none) (hparser : s.parser.busy = false) (htoken : s.respNotice = ⟨1, []⟩)
      (hanswered : Answered s t status) : Phase s t pc
  | answered {pc : Pc} {status : AtRespStatus}
      (hpc : pc = .woken ∨ pc = .leaving (resultOf status) ∨ pc = .unlocking (resultOf status))
      (hquiet : Quiet s) (hanswered : Answered s t status) : Phase s t pc
  | expired {pc : Pc} (hpc : pc = .timedOut ∨ pc = .leaving .timeout) (hresp : s.resp = some t)
      (hparser : s.parser.busy = false) (htoken : s.respNotice = ⟨0, []⟩) : Phase s t pc
  | gone {pc : Pc} (hpc : pc = .unlocking .timeout) (hquiet : Quiet s) : Phase s t pc

/-- What holds of the client while `o` has the lock. -/
def Standing (s : System Tid H) : Option Tid → Prop
  | none   => Quiet s
  | some t => Phase s t (s.pc t)

/-- The invariant. -/
structure Inv (s : System Tid H) : Prop where
  owner : ∃ o, s.lock = mutexOf o ∧ (∀ u, (s.pc u).holds = true ↔ o = some u) ∧ Standing s o
  fresh : ∀ u, s.pc u = .entered → Fresh (s.response u)
  ended : ∀ e ∈ s.ended, e.Ok s.others

variable {client : AtClient H} {s s' : System Tid H}

/-! ### Steps that leave the command alone -/

/-- Nothing that the command has to do with changes, except that lines pass by while no response
    is waited for. -/
structure Aside (s s' : System Tid H) : Prop where
  resp : s'.resp = s.resp
  respStatus : s'.respStatus = s.respStatus
  respNotice : s'.respNotice = s.respNotice
  mark : s'.mark = s.mark
  heard : s'.heard = s.heard
  stored : s'.stored = s.stored
  parser : s'.parser = s.parser ∨ s.parser.busy = false ∧ s'.parser.busy = false
  others : ∃ ls, s'.others = s.others ++ ls ∧ (s.resp = none ∨ ls = [])

theorem storingLine_of_not_busy {parser : ParserPc Tid} (h : parser.busy = false) :
    parser.storingLine = [] := by
  cases parser <;> first | rfl | cases h

theorem Aside.busy (h : Aside s s') (hbusy : s.parser.busy = false) : s'.parser.busy = false := by
  rcases h.parser with heq | ⟨-, hnew⟩
  · rw [heq]
    exact hbusy
  · exact hnew

theorem Aside.parser_eq (h : Aside s s') {parser : ParserPc Tid} (hparser : s.parser = parser)
    (hbusy : parser.busy = true) : s'.parser = parser := by
  rcases h.parser with heq | ⟨hold, -⟩
  · rw [heq, hparser]
  · rw [hparser, hbusy] at hold
    cases hold

theorem Aside.quiet (h : Aside s s') (hquiet : Quiet s) : Quiet s' :=
  ⟨h.resp.trans hquiet.resp, h.busy hquiet.parser, h.respNotice.trans hquiet.token⟩

theorem Aside.answered (h : Aside s s') {t : Tid} (hresponse : s'.response t = s.response t)
    {status : AtRespStatus} (hans : Answered s t status) : Answered s' t status := by
  obtain ⟨ls, hothers, -⟩ := h.others
  refine ⟨?_, h.respStatus.trans hans.status, ?_⟩
  · rw [hothers, h.mark, h.heard, h.stored]
    exact hans.answer.grow ls
  · rw [hresponse, h.stored]
    exact hans.holds

theorem Aside.serves (h : Aside s s') {t : Tid} (hserves : s.parser.Serves t) :
    s'.parser.Serves t := by
  rcases hserves with hbusy | ⟨line, hload⟩ | ⟨line, hstore⟩
  · exact .inl (h.busy hbusy)
  · exact .inr (.inl ⟨line, h.parser_eq hload rfl⟩)
  · exact .inr (.inr ⟨line, h.parser_eq hstore rfl⟩)

theorem Aside.unanswered (h : Aside s s') {t : Tid} (hresp : s.resp = some t)
    (hun : Unanswered s) : Unanswered s' := by
  obtain ⟨ls, hothers, hls⟩ := h.others
  obtain rfl : ls = [] := hls.resolve_left (by rw [hresp]; nofun)
  rw [List.append_nil] at hothers
  have hline : s'.parser.storingLine = s.parser.storingLine := by
    rcases h.parser with heq | ⟨hold, hnew⟩
    · rw [heq]
    · rw [storingLine_of_not_busy hold, storingLine_of_not_busy hnew]
  refine ⟨?_, ?_, ?_, ?_⟩
  · rw [hothers, h.mark, h.heard, hline]
    exact hun.heard
  · rw [hothers, h.mark]
    exact hun.mark_le
  · rw [h.stored, h.heard]
    exact hun.stored
  · rw [h.heard]
    exact hun.none

/-- The command stays where it is. -/
theorem Aside.phase (h : Aside s s') {t : Tid} (hresponse : s'.response t = s.response t) {pc : Pc}
    (hphase : Phase s t pc) : Phase s' t pc := by
  cases hphase with
  | before hpc hquiet hfresh => exact .before hpc (h.quiet hquiet) (by rw [hresponse]; exact hfresh)
  | waiting hpc hresp hparser htoken hheard hholds =>
    refine .waiting hpc (h.resp.trans hresp) (h.serves hparser) (h.respNotice.trans htoken)
      (h.unanswered hresp hheard) ?_
    rw [hresponse, h.stored]
    exact hholds
  | clearing hpc hresp hparser htoken hanswered =>
    exact .clearing hpc (h.resp.trans hresp) (h.parser_eq hparser rfl) (h.respNotice.trans htoken)
      (h.answered hresponse hanswered)
  | notifying hpc hresp hparser htoken hanswered =>
    exact .notifying hpc (h.resp.trans hresp) (h.parser_eq hparser rfl) (h.respNotice.trans htoken)
      (h.answered hresponse hanswered)
  | token hpc hresp hparser htoken hanswered =>
    exact .token hpc (h.resp.trans hresp) (h.busy hparser) (h.respNotice.trans htoken)
      (h.answered hresponse hanswered)
  | answered hpc hquiet hanswered =>
    exact .answered hpc (h.quiet hquiet) (h.answered hresponse hanswered)
  | expired hpc hresp hparser htoken =>
    exact .expired hpc (h.resp.trans hresp) (h.busy hparser) (h.respNotice.trans htoken)
  | gone hpc hquiet => exact .gone hpc (h.quiet hquiet)

theorem Inv.aside (hinv : Inv s) (h : Aside s s') (hlock : s'.lock = s.lock) (hpc : s'.pc = s.pc)
    (hresponse : s'.response = s.response) (hended : s'.ended = s.ended) : Inv s' := by
  obtain ⟨⟨o, howner, hholds, hstand⟩, hfresh, hok⟩ := hinv
  refine ⟨⟨o, hlock.trans howner, by rw [hpc]; exact hholds, ?_⟩, ?_, ?_⟩
  · cases o with
    | none => exact h.quiet hstand
    | some t =>
      show Phase s' t (s'.pc t)
      rw [hpc]
      exact h.phase (congrFun hresponse t) hstand
  · rw [hpc, hresponse]
    exact hfresh
  · obtain ⟨ls, hothers, -⟩ := h.others
    rw [hended, hothers]
    exact fun e he => (hok e he).grow ls

/-! ### Steps of the command and of the parser -/

/-- The thread that has the lock, and nobody else. -/
theorem Inv.of_holds (h : Inv s) {t : Tid} (ht : (s.pc t).holds = true) :
    s.lock = mutexOf (some t) ∧ Phase s t (s.pc t) ∧
      ∀ u, (s.pc u).holds = true ↔ some t = some u := by
  obtain ⟨⟨o, hlock, hholds, hstand⟩, -, -⟩ := h
  obtain rfl := (hholds t).mp ht
  exact ⟨hlock, hstand, hholds⟩

/-- Somebody has the lock while anything is under way. -/
theorem Inv.exists_owner (h : Inv s) (hbusy : ¬Quiet s) :
    ∃ t, (s.pc t).holds = true ∧ Phase s t (s.pc t) := by
  obtain ⟨⟨o, hlock, hholds, hstand⟩, -, -⟩ := h
  cases o with
  | none => exact absurd hstand hbusy
  | some t => exact ⟨t, (hholds t).mpr rfl, hstand⟩

section Command

variable [DecidableEq Tid]

/-- The thread that has the lock goes on. -/
theorem Inv.go (h : Inv s) {t : Tid} (ht : (s.pc t).holds = true) {pc : Pc}
    (hlock : s'.lock = s.lock) (hpc : s'.pc = Function.update s.pc t pc) (hholds : pc.holds = true)
    (hphase : Phase s' t pc) (hresponse : ∀ u, u ≠ t → s'.response u = s.response u)
    (hothers : s.others <+: s'.others) (hended : s'.ended = s.ended) : Inv s' := by
  obtain ⟨hmutex, -, howner⟩ := h.of_holds ht
  refine ⟨⟨some t, hlock.trans hmutex, fun u => ?_, ?_⟩, fun u hu => ?_, fun e he => ?_⟩
  · rw [hpc]
    by_cases hut : u = t
    · subst hut
      simp [hholds]
    · rw [Function.update_of_ne hut]
      exact howner u
  · show Phase s' t (s'.pc t)
    rw [hpc, Function.update_self]
    exact hphase
  · rw [hpc] at hu
    by_cases hut : u = t
    · subst hut
      rw [Function.update_self] at hu
      rw [hu] at hholds
      cases hholds
    · rw [Function.update_of_ne hut] at hu
      rw [hresponse u hut]
      exact h.fresh u hu
  · rw [hended] at he
    obtain ⟨ls, hls⟩ := hothers
    rw [← hls]
    exact (h.ended e he).grow ls

/-- The same, from one place in the command to the next. -/
theorem Inv.advance (h : Inv s) {t : Tid} {pc pc' : Pc} (hpc : s.pc t = pc)
    (ht : pc.holds = true) (hphase : Phase s t pc → Phase s' t pc') (hlock : s'.lock = s.lock)
    (hpc' : s'.pc = Function.update s.pc t pc') (hholds : pc'.holds = true)
    (hresponse : ∀ u, u ≠ t → s'.response u = s.response u) (hothers : s'.others = s.others)
    (hended : s'.ended = s.ended) : Inv s' := by
  subst hpc
  exact h.go ht hlock hpc' hholds (hphase (h.of_holds ht).2.1) hresponse
    (hothers ▸ List.prefix_rfl) hended

/-- `client->resp_status` is set. -/
theorem Phase.setStatus {t : Tid} (h : Phase s t .locked) :
    Phase ({ s with respStatus := .ok }.goto t .statusSet) t .statusSet := by
  cases h with
  | before _ hquiet hfresh =>
    exact .before (.inr rfl) ⟨hquiet.resp, hquiet.parser, hquiet.token⟩ hfresh
  | waiting hpc => cases hpc
  | clearing hpc => cases hpc
  | notifying hpc => cases hpc
  | token hpc => cases hpc.1
  | answered hpc => simp at hpc
  | expired hpc => simp at hpc
  | gone hpc => cases hpc

/-- The command registers its response. -/
theorem Phase.register {t : Tid} (h : Phase s t .statusSet) :
    Phase ({ s with resp := some t, mark := s.others.length, heard := [], stored := [] }.goto t
      .registered) t .registered := by
  cases h with
  | before hpc hquiet hfresh =>
    refine .waiting rfl rfl (.inl hquiet.parser) hquiet.token ⟨?_, le_rfl, List.suffix_rfl, nofun⟩
      hfresh.holds
    show s.others.drop s.others.length = [] ++ s.parser.storingLine
    rw [storingLine_of_not_busy hquiet.parser, List.drop_length]
    rfl
  | waiting hpc => cases hpc
  | clearing hpc => cases hpc
  | notifying hpc => cases hpc
  | token hpc => cases hpc.1
  | answered hpc => simp at hpc
  | expired hpc => simp at hpc
  | gone hpc => cases hpc

/-- An answer that was there before the response was emptied is an answer of nothing stored. -/
theorem Answered.reset {t : Tid} {status : AtRespStatus} (h : Answered s t status)
    (pc : Pc) : Answered ({ s with
      response := Function.update s.response t (s.response t).reset, stored := [] }.goto t pc) t
        status := by
  refine ⟨⟨h.answer.final, h.answer.order, h.answer.mark_le, List.nil_suffix⟩, h.status, ?_⟩
  show Holds (Function.update s.response t (s.response t).reset t) []
  rw [Function.update_self]
  exact h.holds.reset

/-- The command empties its response. -/
theorem Phase.reset {t : Tid} (h : Phase s t .registered) :
    Phase ({ s with
      response := Function.update s.response t (s.response t).reset, stored := [] }.goto t
        .cleared) t .cleared := by
  cases h with
  | before hpc => simp at hpc
  | waiting hpc hresp hparser htoken hheard hholds =>
    refine .waiting rfl hresp hparser htoken
      ⟨hheard.heard, hheard.mark_le, List.nil_suffix, hheard.none⟩ ?_
    show Holds (Function.update s.response t (s.response t).reset t) []
    rw [Function.update_self]
    exact hholds.reset
  | clearing hpc hresp hparser htoken hanswered =>
    exact .clearing rfl hresp hparser htoken (hanswered.reset _)
  | notifying hpc hresp hparser htoken hanswered =>
    exact .notifying rfl hresp hparser htoken (hanswered.reset _)
  | token hpc hresp hparser htoken hanswered =>
    exact .token ⟨rfl, nofun⟩ hresp hparser htoken (hanswered.reset _)
  | answered hpc => simp at hpc
  | expired hpc => simp at hpc
  | gone hpc => cases hpc

/-- A step within the command that changes nothing else. -/
theorem Phase.send {t : Tid} (h : Phase s t .cleared) : Phase (s.goto t .sent) t .sent := by
  cases h with
  | before hpc => simp at hpc
  | waiting hpc hresp hparser htoken hheard hholds =>
    exact .waiting rfl hresp hparser htoken
      ⟨hheard.heard, hheard.mark_le, hheard.stored, hheard.none⟩ hholds
  | clearing hpc hresp hparser htoken hans =>
    exact .clearing rfl hresp hparser htoken ⟨hans.answer, hans.status, hans.holds⟩
  | notifying hpc hresp hparser htoken hans =>
    exact .notifying rfl hresp hparser htoken ⟨hans.answer, hans.status, hans.holds⟩
  | token hpc hresp hparser htoken hans =>
    exact .token ⟨rfl, nofun⟩ hresp hparser htoken ⟨hans.answer, hans.status, hans.holds⟩
  | answered hpc => simp at hpc
  | expired hpc => simp at hpc
  | gone hpc => cases hpc

/-- The command takes the token, or is suspended. -/
theorem Phase.take {t : Tid} (h : Phase s t .sent) :
    ∃ pc, s.take t = { s with respNotice := (rtSemTake s.respNotice t).2 }.goto t pc ∧
      pc.holds = true ∧ Phase (s.take t) t pc := by
  have hsuspend : s.respNotice = noToken .sent t →
      s.take t = { s with respNotice := noToken .suspended t }.goto t .suspended ∧
        (rtSemTake s.respNotice t).2 = noToken .suspended t := by
    intro htoken
    simp [System.take, rtSemTake, htoken, noToken]
  cases h with
  | before hpc => simp at hpc
  | waiting hpc hresp hparser htoken hheard hholds =>
    obtain ⟨htake, hsem⟩ := hsuspend htoken
    refine ⟨.suspended, by rw [htake, hsem], rfl, ?_⟩
    rw [htake]
    exact .waiting rfl hresp hparser rfl
      ⟨hheard.heard, hheard.mark_le, hheard.stored, hheard.none⟩ hholds
  | clearing hpc hresp hparser htoken hans =>
    obtain ⟨htake, hsem⟩ := hsuspend htoken
    refine ⟨.suspended, by rw [htake, hsem], rfl, ?_⟩
    rw [htake]
    exact .clearing rfl hresp hparser rfl ⟨hans.answer, hans.status, hans.holds⟩
  | notifying hpc hresp hparser htoken hans =>
    obtain ⟨htake, hsem⟩ := hsuspend htoken
    refine ⟨.suspended, by rw [htake, hsem], rfl, ?_⟩
    rw [htake]
    exact .notifying rfl hresp hparser rfl ⟨hans.answer, hans.status, hans.holds⟩
  | token hpc hresp hparser htoken hans =>
    have htake : s.take t = { s with respNotice := ⟨0, []⟩ }.goto t .woken := by
      simp [System.take, rtSemTake, htoken]
    refine ⟨.woken, by simp [System.take, rtSemTake, htoken], rfl, ?_⟩
    rw [htake]
    exact .answered (.inl rfl) ⟨hresp, hparser, rfl⟩ ⟨hans.answer, hans.status, hans.holds⟩
  | answered hpc => simp at hpc
  | expired hpc => simp at hpc
  | gone hpc => cases hpc

/-- The command looks at the status. -/
theorem Phase.wake {t : Tid} (h : Phase s t .woken) :
    Phase (s.goto t (.leaving (resultOf s.respStatus))) t (.leaving (resultOf s.respStatus)) := by
  cases h with
  | before hpc => simp at hpc
  | waiting hpc => cases hpc
  | clearing hpc => cases hpc
  | notifying hpc => cases hpc
  | token hpc => cases hpc.1
  | answered hpc hquiet hans =>
    refine .answered (.inr (.inl ?_)) ⟨hquiet.resp, hquiet.parser, hquiet.token⟩
      ⟨hans.answer, hans.status, hans.holds⟩
    rw [hans.status]
  | expired hpc => simp at hpc
  | gone hpc => cases hpc

/-- The command has timed out. -/
theorem Phase.expire {t : Tid} (h : Phase s t .timedOut) :
    Phase ({ s with respStatus := .timeout }.goto t (.leaving .timeout)) t (.leaving .timeout) := by
  cases h with
  | before hpc => simp at hpc
  | waiting hpc => cases hpc
  | clearing hpc => cases hpc
  | notifying hpc => cases hpc
  | token hpc => cases hpc.1
  | answered hpc => simp at hpc
  | expired hpc hresp hparser htoken => exact .expired (.inr rfl) hresp hparser htoken
  | gone hpc => cases hpc

/-- `__exit`. -/
theorem Phase.leave {t : Tid} {result : RtErr} (h : Phase s t (.leaving result)) :
    Phase ({ s with resp := none }.goto t (.unlocking result)) t (.unlocking result) := by
  cases h with
  | before hpc => simp at hpc
  | waiting hpc => cases hpc
  | clearing hpc => cases hpc
  | notifying hpc => cases hpc
  | token hpc => cases hpc.1
  | answered hpc hquiet hans =>
    obtain rfl : result = _ := by simpa using hpc
    exact .answered (.inr (.inr rfl)) ⟨rfl, hquiet.parser, hquiet.token⟩
      ⟨hans.answer, hans.status, hans.holds⟩
  | expired hpc hresp hparser htoken =>
    obtain rfl : result = _ := by simpa using hpc
    exact .gone rfl ⟨rfl, hparser, htoken⟩
  | gone hpc => cases hpc

omit [DecidableEq Tid] in
/-- What a command leaves behind when it gives the lock back. -/
theorem Phase.done {t : Tid} {result : RtErr} (h : Phase s t (.unlocking result)) :
    Quiet s ∧ Ended.Ok s.others
      (⟨t, result, s.response t, s.mark, s.heard, s.stored⟩ : Ended Tid) := by
  cases h with
  | before hpc => simp at hpc
  | waiting hpc => cases hpc
  | clearing hpc => cases hpc
  | notifying hpc => cases hpc
  | token hpc => cases hpc.1
  | answered hpc hquiet hans =>
    obtain rfl : result = _ := by simpa using hpc
    exact ⟨hquiet, .inr ⟨_, hans.answer, rfl, hans.holds⟩⟩
  | expired hpc => simp at hpc
  | gone hpc hquiet =>
    obtain rfl : result = _ := by simpa using hpc
    exact ⟨hquiet, .inl rfl⟩

/-- The time-out of a command whose response the parser is not busy with. -/
theorem Phase.timeout {t : Tid} {sem : RtSemaphore Tid} (h : Phase s t .suspended)
    (hsem : rtSemTimeout s.respNotice t = some sem) (hclean : s.parser.busy = false) :
    Phase ({ s with respNotice := sem }.goto t .timedOut) t .timedOut := by
  cases h with
  | before hpc => simp at hpc
  | waiting hpc hresp hparser htoken hheard hholds =>
    refine .expired (.inl rfl) hresp hclean ?_
    rw [htoken] at hsem
    simp only [rtSemTimeout, noToken, if_true, List.mem_singleton, Option.some.injEq] at hsem
    show sem = _
    rw [← hsem]
    simp
  | clearing hpc hresp hparser => rw [hparser] at hclean; cases hclean
  | notifying hpc hresp hparser => rw [hparser] at hclean; cases hclean
  | token hpc => exact absurd rfl hpc.2
  | answered hpc => simp at hpc
  | expired hpc => simp at hpc
  | gone hpc => cases hpc

end Command

/-! ### Steps of the parser -/

/-- A line is tested while a response is waited for. -/
theorem Phase.wanted {t u : Tid} {pc : Pc} {line : Text} (h : Phase s t pc)
    (hparser : s.parser = .testing line) (hresp : s.resp = some u)
    (hclean : pc ≠ .timedOut ∧ pc ≠ .leaving .timeout) :
    Phase { s with others := s.others ++ [line], parser := .loading line } t pc := by
  cases h with
  | before hpc hquiet => rw [hquiet.resp] at hresp; cases hresp
  | waiting hpc hresp hserves htoken hheard hholds =>
    refine .waiting hpc hresp (.inr (.inl ⟨line, rfl⟩)) htoken ⟨?_, ?_, hheard.stored, hheard.none⟩
      hholds
    · have hdrop := hheard.heard
      rw [hparser] at hdrop
      show (s.others ++ [line]).drop s.mark = s.heard ++ [line]
      rw [List.drop_append_of_le_length hheard.mark_le, hdrop]
      simp [ParserPc.storingLine]
    · simp only [List.length_append]
      exact Nat.le_add_right_of_le hheard.mark_le
  | clearing hpc hresp hclearing => rw [hparser] at hclearing; cases hclearing
  | notifying hpc hnone => rw [hresp] at hnone; cases hnone
  | token hpc hnone => rw [hresp] at hnone; cases hnone
  | answered hpc hquiet => rw [hquiet.resp] at hresp; cases hresp
  | expired hpc => exact absurd hpc (not_or.mpr hclean)
  | gone hpc hquiet => rw [hquiet.resp] at hresp; cases hresp

/-- The parser is about to store a line: the command waits for it. -/
theorem Phase.of_storing {t : Tid} {pc : Pc} (h : Phase s t pc) (hbusy : s.parser.busy = true)
    (hline : s.parser ≠ .clearing ∧ s.parser ≠ .notifying) :
    pc.awaits = true ∧ s.resp = some t ∧ s.parser.Serves t ∧ s.respNotice = noToken pc t ∧
      Unanswered s ∧ Holds (s.response t) s.stored := by
  cases h with
  | before hpc hquiet => rw [hquiet.parser] at hbusy; cases hbusy
  | waiting hpc hresp hserves htoken hheard hholds =>
    exact ⟨hpc, hresp, hserves, htoken, hheard, hholds⟩
  | clearing hpc hresp hclearing => exact absurd hclearing hline.1
  | notifying hpc hresp hnotifying => exact absurd hnotifying hline.2
  | token hpc hresp hidle => rw [hidle] at hbusy; cases hbusy
  | answered hpc hquiet => rw [hquiet.parser] at hbusy; cases hbusy
  | expired hpc hresp hidle => rw [hidle] at hbusy; cases hbusy
  | gone hpc hquiet => rw [hquiet.parser] at hbusy; cases hbusy

/-- The parser loads the response that it will store the line into. -/
theorem Phase.load {t u : Tid} {pc : Pc} {line : Text} (h : Phase s t pc)
    (hparser : s.parser = .loading line) (hresp : s.resp = some u) :
    Phase { s with parser := .storing line u } t pc := by
  obtain ⟨hpc, hrespt, -, htoken, hheard, hholds⟩ :=
    h.of_storing (by rw [hparser]; rfl) (by rw [hparser]; exact ⟨nofun, nofun⟩)
  obtain rfl : t = u := Option.some.inj (hrespt.symm.trans hresp)
  refine .waiting hpc hresp (.inr (.inr ⟨line, rfl⟩)) htoken ⟨?_, hheard.mark_le, hheard.stored,
    hheard.none⟩ hholds
  rw [hheard.heard, hparser]
  rfl

/-- The parser stores the line. -/
theorem Phase.store [DecidableEq Tid] {t u : Tid} {pc : Pc} {line : Text} (h : Phase s t pc)
    (hparser : s.parser = .storing line u) : u = t ∧ Phase (s.store line u) t pc := by
  obtain ⟨hpc, hresp, hserves, htoken, hheard, hholds⟩ :=
    h.of_storing (by rw [hparser]; rfl) (by rw [hparser]; exact ⟨nofun, nofun⟩)
  obtain rfl : u = t := by
    rw [hparser] at hserves
    rcases hserves with hbusy | ⟨l, hload⟩ | ⟨l, hstore⟩
    · cases hbusy
    · cases hload
    · cases hstore
      rfl
  refine ⟨rfl, ?_⟩
  obtain ⟨hput, hfinal, hstatus⟩ := parseResponse_of_lineNum hholds.lineNum s.respStatus line
  have hdrop : s.others.drop s.mark = s.heard ++ [line] := by
    rw [hheard.heard, hparser]
    rfl
  have hstored : s.stored ++ [line] <:+ s.heard ++ [line] := by
    obtain ⟨before, hbefore⟩ := hheard.stored
    exact ⟨before, by rw [← hbefore, List.append_assoc]⟩
  have hnew : Holds ((s.store line u).response u) (s.stored ++ [line]) := by
    simp only [System.store, Function.update_self, hput]
    exact hholds.put line
  cases hline : finalOf line with
  | none =>
    -- the answer goes on
    have hreading : (s.store line u).parser = .reading := by
      simp [System.store, hfinal, hline]
    refine .waiting hpc hresp (.inl (by rw [hreading]; rfl)) htoken
      ⟨?_, hheard.mark_le, hstored, ?_⟩ hnew
    · rw [hreading]
      show s.others.drop s.mark = s.heard ++ [line] ++ []
      rw [hdrop, List.append_nil]
    · intro l hl
      rcases List.mem_append.mp hl with hl | hl
      · exact hheard.none l hl
      · rw [List.mem_singleton.mp hl]
        exact hline
  | some status =>
    -- its last line: `line` and the lines heard before it are the answer
    have hclearing : (s.store line u).parser = .clearing := by
      simp [System.store, hfinal, hline]
    have hans : Answered (s.store line u) u status := by
      refine ⟨⟨⟨s.heard, line, rfl, hheard.none, hline⟩, ?_, hheard.mark_le, hstored⟩, ?_, hnew⟩
      · show s.heard ++ [line] <+: s.others.drop s.mark
        rw [hdrop]
      · simp only [System.store, hstatus status hline]
    exact .clearing hpc hresp hclearing htoken hans

/-- The parser clears `client->resp`. -/
theorem Phase.clear {t : Tid} {pc : Pc} (h : Phase s t pc) (hparser : s.parser = .clearing) :
    Phase { s with resp := none, parser := .notifying } t pc := by
  have hbusy : s.parser.busy ≠ false := by rw [hparser]; nofun
  cases h with
  | before hpc hquiet => exact absurd hquiet.parser hbusy
  | waiting hpc hresp hserves =>
    rw [hparser] at hserves
    rcases hserves with hidle | ⟨l, hload⟩ | ⟨l, hstore⟩
    · cases hidle
    · cases hload
    · cases hstore
  | clearing hpc hresp hclearing htoken hans =>
    exact .notifying hpc rfl rfl htoken ⟨hans.answer, hans.status, hans.holds⟩
  | notifying hpc hresp hnotifying => rw [hparser] at hnotifying; cases hnotifying
  | token hpc hresp hidle => exact absurd hidle hbusy
  | answered hpc hquiet => exact absurd hquiet.parser hbusy
  | expired hpc hresp hidle => exact absurd hidle hbusy
  | gone hpc hquiet => exact absurd hquiet.parser hbusy

/-- The parser releases the semaphore: the command wakes up, or finds a token. -/
theorem Phase.notify [DecidableEq Tid] {t : Tid} (h : Phase s t (s.pc t))
    (hparser : s.parser = .notifying) :
    ∃ pc, pc.holds = true ∧
      ({ s.release with parser := .reading } : System Tid H) = { s with
        respNotice := (rtSemRelease s.respNotice).2.1
        pc := Function.update s.pc t pc
        parser := .reading } ∧
      Phase { s.release with parser := .reading } t pc := by
  have hbusy : s.parser.busy ≠ false := by rw [hparser]; nofun
  generalize hpct : s.pc t = pc at h
  cases h with
  | before hpc hquiet => exact absurd hquiet.parser hbusy
  | waiting hpc hresp hserves =>
    rw [hparser] at hserves
    rcases hserves with hidle | ⟨l, hload⟩ | ⟨l, hstore⟩
    · cases hidle
    · cases hload
    · cases hstore
  | clearing hpc hresp hclearing => rw [hparser] at hclearing; cases hclearing
  | notifying hpc hresp hnotifying htoken hans =>
    by_cases hsus : pc = .suspended
    · subst hsus
      have hrel : s.release = { s with respNotice := ⟨0, []⟩ }.goto t .woken := by
        simp [System.release, rtSemRelease, htoken, noToken]
      refine ⟨.woken, rfl, ?_, ?_⟩
      · rw [hrel, htoken]
        rfl
      · rw [hrel]
        exact .answered (.inl rfl) ⟨hresp, rfl, rfl⟩ ⟨hans.answer, hans.status, hans.holds⟩
    · -- the command does not wait yet, or no more: it finds the token
      have hrel : s.release = { s with respNotice := ⟨1, []⟩ } := by
        simp [System.release, rtSemRelease, htoken, noToken, hsus, rtSemValueMax]
      refine ⟨pc, ?_, ?_, ?_⟩
      · cases pc <;> first | rfl | cases hpc
      · rw [hrel, htoken, ← hpct, Function.update_eq_self]
        simp [rtSemRelease, noToken, hpct, hsus, rtSemValueMax]
      · rw [hrel]
        exact .token ⟨hpc, hsus⟩ hresp rfl rfl ⟨hans.answer, hans.status, hans.holds⟩
  | token hpc hresp hidle => exact absurd hidle hbusy
  | answered hpc hquiet => exact absurd hquiet.parser hbusy
  | expired hpc hresp hidle => exact absurd hidle hbusy
  | gone hpc hquiet => exact absurd hquiet.parser hbusy

/-! ### The invariant of clean runs -/

theorem inv_initial (Tid H : Type) : Inv (System.initial Tid H) :=
  ⟨⟨none, rfl, fun u => by simp [System.initial, Pc.holds], ⟨rfl, rfl, rfl⟩⟩,
    fun u hu => by simp [System.initial] at hu, nofun⟩

section Steps

variable [DecidableEq Tid]

/-- A thread that calls is no other thread's business. -/
theorem Inv.call (h : Inv s) {t : Tid} (bufSize : Nat) (hpc : s.pc t = .idle) :
    Inv ({ s with
      response := Function.update s.response t (atCreateResp bufSize kLineNum) }.goto t .entered) := by
  obtain ⟨⟨o, hlock, hholds, hstand⟩, hfresh, hended⟩ := h
  have hother : ∀ u, o = some u → u ≠ t := by
    rintro u rfl rfl
    have hu := (hholds u).mpr rfl
    rw [hpc] at hu
    cases hu
  refine ⟨⟨o, hlock, fun u => ?_, ?_⟩, fun u hu => ?_, hended⟩
  · by_cases hut : u = t
    · subst hut
      simp only [System.goto, Function.update_self, Pc.holds, Bool.false_eq_true, false_iff]
      exact fun heq => hother u heq rfl
    · simp only [System.goto, Function.update_of_ne hut]
      exact hholds u
  · have haside : Aside s ({ s with
        response := Function.update s.response t (atCreateResp bufSize kLineNum) }.goto t .entered) :=
      ⟨rfl, rfl, rfl, rfl, rfl, rfl, .inl rfl, [], by simp [System.goto], .inr rfl⟩
    cases o with
    | none => exact haside.quiet hstand
    | some u =>
      have hut : u ≠ t := hother u rfl
      show Phase _ u (Function.update s.pc t .entered u)
      rw [Function.update_of_ne hut]
      exact haside.phase (Function.update_of_ne hut ..) hstand
  · by_cases hut : u = t
    · subst hut
      exact ⟨bufSize, by simp [System.goto]⟩
    · simp only [System.goto, Function.update_of_ne hut] at hu ⊢
      exact hfresh u hu

/-- A thread takes the lock. -/
theorem Inv.lock (h : Inv s) {t : Tid} {err : RtErr} {lock : RtMutex Tid}
    (hpc : s.pc t = .entered) (htake : rtMutexTake s.lock t = some (err, lock)) :
    Inv ({ s with lock := lock }.goto t .locked) := by
  obtain ⟨⟨o, hlock, hholds, hstand⟩, hfresh, hended⟩ := h
  -- the lock is free: its owner would be suspended, or be the thread itself
  obtain rfl : o = none := by
    cases o with
    | none => rfl
    | some u =>
      have hut : u ≠ t := by
        rintro rfl
        have hu := (hholds u).mpr rfl
        rw [hpc] at hu
        cases hu
      rw [hlock, take_held hut] at htake
      cases htake
  rw [hlock, take_free] at htake
  cases htake
  refine ⟨⟨some t, rfl, fun u => ?_, ?_⟩, fun u hu => ?_, hended⟩
  · by_cases hut : u = t
    · subst hut
      simp [System.goto, Pc.holds]
    · simp only [System.goto, Function.update_of_ne hut]
      rw [hholds u]
      simp [Ne.symm hut]
  · show Phase _ t (Function.update s.pc t .locked t)
    rw [Function.update_self]
    exact .before (.inl rfl) ⟨hstand.resp, hstand.parser, hstand.token⟩ (hfresh t hpc)
  · by_cases hut : u = t
    · subst hut
      simp [System.goto] at hu
    · simp only [System.goto, Function.update_of_ne hut] at hu ⊢
      exact hfresh u hu

/-- A thread gives the lock back. -/
theorem Inv.return (h : Inv s) {t : Tid} {result : RtErr} (hpc : s.pc t = .unlocking result) :
    Inv (s.return t result) := by
  obtain ⟨hlock, hphase, howner⟩ := h.of_holds (t := t) (by rw [hpc]; rfl)
  rw [hpc] at hphase
  obtain ⟨hquiet, hok⟩ := hphase.done
  refine ⟨⟨none, ?_, fun u => ?_, ⟨hquiet.resp, hquiet.parser, hquiet.token⟩⟩, fun u hu => ?_,
    fun e he => ?_⟩
  · simp [System.return, System.goto, hlock]
  · by_cases hut : u = t
    · subst hut
      simp [System.return, System.goto, Pc.holds]
    · simp only [System.return, System.goto, Function.update_of_ne hut]
      rw [howner u]
      simp [Ne.symm hut]
  · by_cases hut : u = t
    · subst hut
      simp [System.return, System.goto] at hu
    · simp only [System.return, System.goto, Function.update_of_ne hut] at hu ⊢
      exact h.fresh u hu
  · simp only [System.return, System.goto, List.mem_append, List.mem_singleton] at he
    rcases he with he | rfl
    · exact h.ended e he
    · exact hok

omit [DecidableEq Tid] in
/-- A parser that is busy with a response has somebody to serve. -/
theorem Inv.serving (h : Inv s) (hbusy : s.resp ≠ none ∨ s.parser.busy = true) :
    ∃ t, (s.pc t).holds = true ∧ Phase s t (s.pc t) := by
  refine h.exists_owner fun hquiet => ?_
  rcases hbusy with hresp | hbusy
  · exact hresp hquiet.resp
  · rw [hquiet.parser] at hbusy
    cases hbusy

omit [DecidableEq Tid] in
/-- The response that is registered is that of the thread that has the lock. -/
theorem Phase.resp_eq {t u : Tid} {pc : Pc} (h : Phase s t pc) (hresp : s.resp = some u) :
    s.resp = some t := by
  cases h with
  | before hpc hquiet => rw [hquiet.resp] at hresp; cases hresp
  | waiting hpc hr => exact hr
  | clearing hpc hr => exact hr
  | notifying hpc hr => rw [hresp] at hr; cases hr
  | token hpc hr => rw [hresp] at hr; cases hr
  | answered hpc hquiet => rw [hquiet.resp] at hresp; cases hresp
  | expired hpc hr => exact hr
  | gone hpc hquiet => rw [hquiet.resp] at hresp; cases hresp

/-- The semaphore is taken, or the thread waits for it. -/
theorem Inv.take (h : Inv s) {t : Tid} (hpc : s.pc t = .sent) : Inv (s.take t) := by
  have ht : (s.pc t).holds = true := by rw [hpc]; rfl
  have hphase := (h.of_holds ht).2.1
  rw [hpc] at hphase
  obtain ⟨pc, htake, hholds, hnew⟩ := hphase.take
  rw [htake] at hnew ⊢
  exact h.go ht rfl rfl hholds hnew (fun _ _ => rfl) List.prefix_rfl rfl

/-- A line is for the response of the thread that has the lock. -/
theorem Inv.wanted (h : Inv s) {line : Text} {u : Tid} (hclean : Clean s .parse)
    (hparser : s.parser = .testing line) (hresp : s.resp = some u) :
    Inv { s with others := s.others ++ [line], parser := .loading line } := by
  obtain ⟨t, ht, hphase⟩ := h.serving (.inl (by rw [hresp]; nofun))
  have hrespt := hphase.resp_eq hresp
  have hut : s.pc t ≠ .timedOut ∧ s.pc t ≠ .leaving .timeout := by
    simpa [Clean, System.takesUp, hparser, hrespt] using hclean
  exact h.go ht rfl (Function.update_eq_self t s.pc).symm ht (hphase.wanted hparser hresp hut)
    (fun _ _ => rfl) (List.prefix_append ..) rfl

theorem Inv.load (h : Inv s) {line : Text} {u : Tid} (hparser : s.parser = .loading line)
    (hresp : s.resp = some u) : Inv { s with parser := .storing line u } := by
  obtain ⟨t, ht, hphase⟩ := h.serving (.inr (by rw [hparser]; rfl))
  exact h.go ht rfl (Function.update_eq_self t s.pc).symm ht (hphase.load hparser hresp)
    (fun _ _ => rfl) List.prefix_rfl rfl

omit [DecidableEq Tid] in
/-- What was tested is still there. -/
theorem Inv.resp_ne_none (h : Inv s) {line : Text} (hparser : s.parser = .loading line) :
    s.resp ≠ none := by
  obtain ⟨t, ht, hphase⟩ := h.serving (.inr (by rw [hparser]; rfl))
  rw [(hphase.of_storing (by rw [hparser]; rfl) (by rw [hparser]; exact ⟨nofun, nofun⟩)).2.1]
  exact Option.some_ne_none t

theorem Inv.store (h : Inv s) {line : Text} {u : Tid} (hparser : s.parser = .storing line u) :
    Inv (s.store line u) := by
  obtain ⟨t, ht, hphase⟩ := h.serving (.inr (by rw [hparser]; rfl))
  obtain ⟨rfl, hnew⟩ := hphase.store hparser
  exact h.go ht rfl (Function.update_eq_self _ s.pc).symm ht hnew
    (fun _ hut => Function.update_of_ne hut ..) List.prefix_rfl rfl

theorem Inv.clear (h : Inv s) (hparser : s.parser = .clearing) :
    Inv { s with resp := none, parser := .notifying } := by
  obtain ⟨t, ht, hphase⟩ := h.serving (.inr (by rw [hparser]; rfl))
  exact h.go ht rfl (Function.update_eq_self t s.pc).symm ht (hphase.clear hparser)
    (fun _ _ => rfl) List.prefix_rfl rfl

theorem Inv.notify (h : Inv s) (hparser : s.parser = .notifying) :
    Inv { s.release with parser := .reading } := by
  obtain ⟨t, ht, hphase⟩ := h.serving (.inr (by rw [hparser]; rfl))
  obtain ⟨pc, hholds, heq, hnew⟩ := hphase.notify hparser
  rw [heq] at hnew ⊢
  exact h.go ht rfl rfl hholds hnew (fun _ _ => rfl) List.prefix_rfl rfl

/-- **Every clean step keeps the invariant.** -/
theorem Inv.step (h : Inv s) {a : Action Tid} (hclean : Clean s a)
    (hstep : AtExec.step client s a = some s') : Inv s' := by
  cases step_did hstep with
  | arrive text =>
    exact h.aside ⟨rfl, rfl, rfl, rfl, rfl, rfl, .inl rfl, [], by simp, .inr rfl⟩ rfl rfl rfl rfl
  | call bufSize hpc => exact h.call bufSize hpc
  | lock hpc htake => exact h.lock hpc htake
  | setStatus hpc =>
    exact h.advance hpc rfl Phase.setStatus rfl rfl rfl (fun _ _ => rfl) rfl rfl
  | register hpc =>
    exact h.advance hpc rfl Phase.register rfl rfl rfl (fun _ _ => rfl) rfl rfl
  | reset hpc =>
    exact h.advance hpc rfl Phase.reset rfl rfl rfl (fun _ hut => Function.update_of_ne hut ..)
      rfl rfl
  | send hpc => exact h.advance hpc rfl Phase.send rfl rfl rfl (fun _ _ => rfl) rfl rfl
  | take hpc => exact h.take hpc
  | wake hpc => exact h.advance hpc rfl Phase.wake rfl rfl rfl (fun _ _ => rfl) rfl rfl
  | expire hpc => exact h.advance hpc rfl Phase.expire rfl rfl rfl (fun _ _ => rfl) rfl rfl
  | leave hpc => exact h.advance hpc rfl Phase.leave rfl rfl rfl (fun _ _ => rfl) rfl rfl
  | «return» hpc => exact h.return hpc
  | timeout hpc hsem =>
    exact h.advance hpc rfl (fun hphase => hphase.timeout hsem hclean) rfl rfl rfl
      (fun _ _ => rfl) rfl rfl
  | @read result rest hparser hread =>
    refine h.aside ⟨rfl, rfl, rfl, rfl, rfl, rfl, .inr ⟨by rw [hparser]; rfl, ?_⟩,
      [], by simp, .inr rfl⟩ rfl rfl rfl rfl
    cases result <;> rfl
  | handle hparser hurc =>
    exact h.aside ⟨rfl, rfl, rfl, rfl, rfl, rfl, .inr ⟨by rw [hparser]; rfl, rfl⟩,
      [], by simp, .inr rfl⟩ rfl rfl rfl rfl
  | pass hparser hurc =>
    exact h.aside ⟨rfl, rfl, rfl, rfl, rfl, rfl, .inr ⟨by rw [hparser]; rfl, rfl⟩,
      [], by simp, .inr rfl⟩ rfl rfl rfl rfl
  | unwanted hparser hresp =>
    exact h.aside ⟨rfl, rfl, rfl, rfl, rfl, rfl, .inr ⟨by rw [hparser]; rfl, rfl⟩,
      [_], rfl, .inl hresp⟩ rfl rfl rfl rfl
  | wanted hparser hresp => exact h.wanted hclean hparser hresp
  | load hparser hresp => exact h.load hparser hresp
  | loadNull hparser hresp => exact absurd hresp (h.resp_ne_none hparser)
  | store hparser => exact h.store hparser
  | clear hparser => exact h.clear hparser
  | notify hparser => exact h.notify hparser

end Steps

/-! ### Clean runs -/

/-- The lines tested so far are the first ones of the modem that are no result codes. -/
theorem Streamed.others_first (h : Streamed client s) :
    s.others <+: (readLines client s.arrived).1.flatMap (othersOf client) := by
  rw [h.read, List.flatMap_append, ← h.others, List.append_assoc]
  exact List.prefix_append ..

section Runs

variable [DecidableEq Tid]

theorem inv_of_clean {as : List (Action Tid)}
    (h : Runs (step client) Clean (System.initial Tid H) as s) : Inv s :=
  h.invariant Inv (fun _ _ _ hinv hclean hstep => hinv.step hclean hstep) (inv_initial Tid H)

theorem streamed_of_runs {ok : System Tid H → Action Tid → Prop} {as : List (Action Tid)}
    (h : Runs (step client) ok (System.initial Tid H) as s) : Streamed client s := by
  refine h.invariant (Streamed client) (fun _ _ _ hinv _ hstep => hinv.step hstep) ?_
  have hnil : readLines client [] = ([], []) := readLines_nil rfl
  exact ⟨by simp [System.initial, hnil], rfl, rfl⟩

/-- A client with one result code. -/
def exampleClient : AtClient Unit := ⟨16, nul, [[⟨['+', 'X'], kEndl, some ()⟩]]⟩

/-- A command that is answered after a result code and another line, and a second one that times
    out. -/
def exampleRun : List (Action (Fin 2)) :=
  [.call 0 64, .call 1 64] ++ List.replicate 6 (.next 0)
    ++ [.arrive ((([['+', 'X', '7'], ['a'], ['O', 'K']]).map (· ++ kEndl)).flatten ++ ['b'])]
    ++ List.replicate 14 .parse ++ List.replicate 3 (.next 0) ++ List.replicate 6 (.next 1)
    ++ [.timeout 1] ++ List.replicate 3 (.next 1)

/-- The state after it. -/
def exampleState : System (Fin 2) Unit :=
  (checkedRun (step exampleClient) Clean (System.initial (Fin 2) Unit) exampleRun).get
    (by decide +kernel)

theorem exampleRuns :
    Runs (step exampleClient) Clean (System.initial (Fin 2) Unit) exampleRun exampleState :=
  runs_checked_get _

/-- **One command at a time.**  In such runs, under both conditions of `Clean`, two threads never
    have the lock at once, the parser never uses a null response, and when it stores a line the
    thread whose response it is waits for it. -/
theorem parser_safe {as : List (Action Tid)}
    (h : Runs (step client) Clean (System.initial Tid H) as s) :
    (∀ t u, (s.pc t).holds = true → (s.pc u).holds = true → t = u) ∧ s.parser ≠ .faulted ∧
      ∀ line t, s.parser = .storing line t → (s.pc t).awaits = true ∧ s.resp = some t := by
  have hinv := inv_of_clean h
  refine ⟨fun t u ht hu => ?_, fun hfault => ?_, fun line t hstore => ?_⟩
  · exact Option.some.inj ((hinv.of_holds ht).2.2 u |>.mp hu)
  · obtain ⟨t, ht, hphase⟩ := hinv.serving (.inr (by rw [hfault]; rfl))
    have hserves := (hphase.of_storing (by rw [hfault]; rfl)
      (by rw [hfault]; exact ⟨nofun, nofun⟩)).2.2.1
    rw [hfault] at hserves
    rcases hserves with hbusy | ⟨l, hload⟩ | ⟨l, hstore⟩
    · cases hbusy
    · cases hload
    · cases hstore
  · obtain ⟨u, hu, hphase⟩ := hinv.serving (.inr (by rw [hstore]; rfl))
    obtain ⟨hpc, hresp, -⟩ := hphase.of_storing (by rw [hstore]; rfl)
      (by rw [hstore]; exact ⟨nofun, nofun⟩)
    obtain ⟨rfl, -⟩ := hphase.store hstore
    exact ⟨hpc, hresp⟩

/-- The same two commands. -/
theorem parser_safe_example : exampleState.parser ≠ .faulted := (parser_safe exampleRuns).2.1

/-- A time-out that meets the parser before it releases the semaphore leaves a token behind, and
    the next command returns success without any line. -/
example :
    ((run (step exampleClient) (System.initial (Fin 2) Unit)
      ([.call 0 64] ++ List.replicate 6 (.next 0) ++ [.arrive (['O', 'K'] ++ kEndl)]
        ++ List.replicate 5 .parse ++ [.timeout 0] ++ List.replicate 3 (.next 0)
        ++ List.replicate 2 .parse ++ [.call 1 64] ++ List.replicate 9 (.next 1))).map
      fun s => s.ended.map fun e => (e.thread, e.result, e.heard))
      = some [(0, .timeout, [['O', 'K'] ++ kEndl]), (1, .ok, [])] := by
  decide +kernel

/-- **Handlers.**  In every run, clean or not, if all result codes end in a line break and the
    modem has sent texts without one, each followed by one: the handlers called so far, the one
    that is about to be called and those for what is not read yet are the ones for these lines, in
    order.  A line that does not fit into the buffer has none, and the others have the one of the
    first code that fits. -/
theorem handlers_called (hc : CrlfCodes client) {as : List (Action Tid)}
    (h : Runs (step client) anyAction (System.initial Tid H) as s) {bodies : List Text}
    {rest : Text} (harrived : s.arrived = (bodies.map (· ++ kEndl)).flatten ++ rest)
    (hbodies : ∀ body ∈ bodies, ¬kEndl <:+: body) (hrest : ¬kEndl <:+: rest) :
    s.calls ++ s.parser.calling client ++ (readLines client s.unread).1.flatMap (callsOf client)
      = bodies.flatMap fun body => callsOf client (received client (body ++ kEndl)) := by
  have hstream := streamed_of_runs h
  have hread := hstream.read
  rw [harrived, readLines_crlf hc hbodies hrest, Prod.mk.injEq] at hread
  rw [hstream.calls, ← List.flatMap_append, ← hread.1, List.flatMap_map]

/-- Three lines, of which the first is a result code, and the beginning of a fourth one. -/
theorem handlers_called_example :
    exampleState.calls ++ exampleState.parser.calling exampleClient
        ++ (readLines exampleClient exampleState.unread).1.flatMap (callsOf exampleClient)
      = [['+', 'X', '7'], ['a'], ['O', 'K']].flatMap fun body =>
          callsOf exampleClient (received exampleClient (body ++ kEndl)) :=
  handlers_called ⟨rfl, by decide⟩ (exampleRuns.mono fun _ _ _ => trivial)
    (show exampleState.arrived = _ ++ ['b'] by decide +kernel) (by decide) (by decide)

end Runs

end RtCharger.Net.AtExec
