import RtCharger.Lib.Effect

namespace RtCharger.Os

open Effect

/-!
# Signals

`Signals<R(P...)>` and `Signals<void(P...)>` of `signals.hxx`.  A signal is a list of
subscribers; each is called with a reply signal and the emitted arguments.  A reply signal is
itself a `Signals<void(…)>`, whose subscribers get a reply signal in turn: `RetSig n` is the
`n`-th unrolling of that type, and every statement below holds for every `n`.

* `Signals.plain` — the closure that `operator+=` makes of a plain callback;
* `Signals.emitReplying` — an emission with a reply handler;
* `broadcast` — what an emission is for: one call and one answer for each subscriber, in order;
* `run_emitReplying` — an emission is a broadcast, and returns;
* `broadcast_recorded` — the calls a broadcast makes.
-/

variable {σ P R Ans : Type} {n : Nat}

/-! ### Reply signals -/

/-- `Signals<void(std::optional<std::exception_ptr>)>`, the reply signal of a
    `Signals<void(P...)>`, unrolled `n` times. -/
def RetSig (σ : Type) : Nat → Type
  | 0     => PUnit
  | n + 1 => List (RetSig σ n → Option Exn → Comp Exn σ Unit)

/-- A default-constructed reply signal. -/
def RetSig.empty (σ : Type) : (n : Nat) → RetSig σ n
  | 0     => ⟨⟩
  | _ + 1 => []

/-- `operator()(P ...p)` of a reply signal. -/
def RetSig.emit : (n : Nat) → RetSig σ n → Option Exn → Comp Exn σ Unit
  | 0, _, _       => pure ()
  | n + 1, cbs, v => forEach cbs fun cb => cb (RetSig.empty σ n) v

/-- `Signals<void(A)>`: the list `cbs`. -/
abbrev VoidSignals (σ A : Type) (n : Nat) : Type := List (RetSig σ n → A → Comp Exn σ Unit)

/-- `operator()(P ...p)` of a `Signals<void(A)>`. -/
def VoidSignals.emit (cbs : VoidSignals σ P n) (p : P) : Comp Exn σ Unit :=
  forEach cbs fun cb => cb (RetSig.empty σ n) p

/-- The closure of `Signals<void(A)>::operator+=` for a plain callback. -/
def VoidSignals.plain (cb : P → Comp Exn σ Unit) : RetSig σ n → P → Comp Exn σ Unit := fun r p =>
  tryCatch Exn.isStd (cb p >>= fun _ => RetSig.emit n r none)
    fun e => RetSig.emit n r (some e)

/-- `Signals<void(A)>::operator+=` of a plain callback. -/
def VoidSignals.subscribe (cbs : VoidSignals σ P n) (cb : P → Comp Exn σ Unit) :
    VoidSignals σ P n :=
  cbs ++ [VoidSignals.plain cb]

/-! ### Signals with a reply -/

/-- A signal whose reply signal is a `Signals<void(Ans)>`. -/
abbrev Signals (σ P Ans : Type) (n : Nat) : Type :=
  List (VoidSignals σ Ans n → P → Comp Exn σ Unit)

/-- The closure of `operator+=` for a plain callback: it is called inside a `try` block, and
    so is the reply with what it returned; what is thrown is replied too. -/
def Signals.plain (ret : R → Ans) (exc : Exn → Ans) (cb : P → Comp Exn σ R) :
    VoidSignals σ Ans n → P → Comp Exn σ Unit := fun r p =>
  tryCatch Exn.isStd (cb p >>= fun result => r.emit (ret result))
    fun e => r.emit (exc e)

/-- `operator+=` of a plain callback. -/
def Signals.subscribe (ret : R → Ans) (exc : Exn → Ans) (cbs : Signals σ P Ans n)
    (cb : P → Comp Exn σ R) : Signals σ P Ans n :=
  cbs ++ [Signals.plain ret exc cb]

/-- `operator()(std::function<ret_f> r, P ...p)`: every subscriber gets a reply signal of its
    own, to which `r` is subscribed. -/
def Signals.emitReplying (cbs : Signals σ P Ans n) (r : Ans → Comp Exn σ Unit) (p : P) :
    Comp Exn σ Unit :=
  forEach cbs fun cb =>
    let signal : VoidSignals σ Ans n := []
    cb (signal.subscribe r) p

/-- `Signals<R(P...)>::operator+=`: the reply is a `std::variant<R, std::exception_ptr>`. -/
def subscribeReturning (cbs : Signals σ P (Except Exn R) n) (cb : Callback σ P R) :
    Signals σ P (Except Exn R) n :=
  cbs.subscribe .ok .error cb.call

/-- `Signals<void(P...)>::operator+=`: the reply is a `std::optional<std::exception_ptr>`. -/
def subscribeVoid (cbs : Signals σ P (Option Exn) n) (cb : Callback σ P Unit) :
    Signals σ P (Option Exn) n :=
  cbs.subscribe (fun _ => none) some cb.call

/-! ### What an emission is for -/

/-- Call each subscriber with the arguments, and after each call the handler with what came of
    it. -/
def broadcast (answer : Except StdException R → Ans) (handler : Callback σ Ans Unit) (p : P) :
    List (Callback σ P R) → σ → σ
  | [], s        => s
  | cb :: cbs, s =>
    broadcast answer handler p cbs (handler (answer (cb p s).1) (cb p s).2).2

/-- The answer for a subscriber of a `Signals` with these replies. -/
def answerWith (ret : R → Ans) (exc : Exn → Ans) : Except StdException R → Ans
  | .ok result => ret result
  | .error e   => exc (.std e)

/-! ### An emission is a broadcast -/

@[simp] theorem run_emit_empty (n : Nat) (v : Option Exn) (s : σ) :
    (RetSig.emit n (RetSig.empty σ n) v).run s = (.returned (), s) := by
  cases n with
  | zero   => rfl
  | succ n => rfl

/-- A plain callback on a reply signal is called once, and nothing it throws gets out. -/
theorem run_emit_plain (handler : Callback σ Ans Unit) (v : Ans) (s : σ) :
    (VoidSignals.emit [VoidSignals.plain (n := n) handler.call] v).run s
      = (.returned (), (handler v s).2) := by
  have hbody : (VoidSignals.plain handler.call (RetSig.empty σ n) v).run s
      = (.returned (), (handler v s).2) := by
    cases hcall : handler v s with
    | mk result s' =>
      cases result with
      | ok _ =>
        have hok : (handler.call v >>= fun _ => RetSig.emit n (RetSig.empty σ n) none).run s
            = (.returned (), s') := by
          rw [run_bind_returned (run_call_ok hcall), run_emit_empty]
        exact run_tryCatch_returned hok _
      | error e =>
        have hthrow := run_bind_threw (run_call_error hcall)
          fun _ => RetSig.emit n (RetSig.empty σ n) none
        rw [VoidSignals.plain, run_tryCatch_threw hthrow rfl, run_emit_empty]
  exact run_forEach_cons hbody []

/-- A plain subscriber is called once and answered once.  The answer for a return is given
    inside the `try` block; as it does not throw, the `catch` clause is not entered for it. -/
theorem run_plain (ret : R → Ans) (exc : Exn → Ans) (cb : Callback σ P R)
    (handler : Callback σ Ans Unit) (p : P) (s : σ) :
    (Signals.plain ret exc cb.call [VoidSignals.plain (n := n) handler.call] p).run s
      = (.returned (), (handler (answerWith ret exc (cb p s).1) (cb p s).2).2) := by
  cases hcall : cb p s with
  | mk result s' =>
    cases result with
    | ok b =>
      have hok : (cb.call p >>= fun result =>
          VoidSignals.emit [VoidSignals.plain (n := n) handler.call] (ret result)).run s
          = (.returned (), (handler (ret b) s').2) := by
        rw [run_bind_returned (run_call_ok hcall), run_emit_plain]
      exact run_tryCatch_returned hok _
    | error e =>
      have hthrow := run_bind_threw (run_call_error hcall) fun result =>
        VoidSignals.emit [VoidSignals.plain (n := n) handler.call] (ret result)
      rw [Signals.plain, run_tryCatch_threw hthrow rfl, run_emit_plain]
      rfl

/-- Subscribing one callback after the other. -/
theorem foldl_subscribe (ret : R → Ans) (exc : Exn → Ans) (subs : List (Callback σ P R))
    (cbs : Signals σ P Ans n) :
    subs.foldl (fun cbs cb => Signals.subscribe ret exc cbs cb.call) cbs
      = cbs ++ subs.map fun cb => Signals.plain ret exc cb.call := by
  induction subs generalizing cbs with
  | nil => simp
  | cons cb subs ih =>
    rw [List.foldl_cons, ih, Signals.subscribe, List.map_cons, List.append_assoc]
    rfl

/-- **An emission is a broadcast.**  It returns, whatever subscribers and handler throw. -/
theorem run_emitReplying (ret : R → Ans) (exc : Exn → Ans) (subs : List (Callback σ P R))
    (handler : Callback σ Ans Unit) (p : P) (s : σ) :
    (Signals.emitReplying (n := n)
        (subs.foldl (fun cbs cb => Signals.subscribe ret exc cbs cb.call) [])
        handler.call p).run s
      = (.returned (), broadcast (answerWith ret exc) handler p subs s) := by
  rw [foldl_subscribe, List.nil_append, Signals.emitReplying]
  induction subs generalizing s with
  | nil => rfl
  | cons cb subs ih =>
    rw [List.map_cons]
    refine (run_forEach_cons ?_ _).trans (ih _)
    exact run_plain ret exc cb handler p s

/-! ### The calls an emission makes -/

/-- One entry of the record of an emission. -/
inductive Call (P R Ans : Type) where
  /-- The `i`-th subscriber is called. -/
  | subscriber (i : Nat) (p : P)
  /-- Its call ends. -/
  | ended (i : Nat) (result : Except StdException R)
  /-- The reply handler is called. -/
  | handler (v : Ans)
deriving Repr

/-- The `i`-th subscriber, recording its calls and how they end. -/
def recordedSubscriber (i : Nat) (cb : Callback σ P R) :
    Callback (σ × List (Call P R Ans)) P R := fun p s =>
  ((cb p s.1).1, (cb p s.1).2, s.2 ++ [.subscriber i p, .ended i (cb p s.1).1])

/-- The reply handler, recording its calls. -/
def recordedHandler (handler : Callback σ Ans Unit) :
    Callback (σ × List (Call P R Ans)) Ans Unit := fun v s =>
  ((handler v s.1).1, (handler v s.1).2, s.2 ++ [.handler v])

/-- The calls of an emission whose subscribers, counted from `i`, end with `results`: each
    subscriber is called and ends, and then the handler is called with its answer. -/
def transcript (answer : Except StdException R → Ans) (p : P) :
    Nat → List (Except StdException R) → List (Call P R Ans)
  | _, []             => []
  | i, result :: rest =>
    [.subscriber i p, .ended i result, .handler (answer result)] ++ transcript answer p (i + 1) rest

/-- Subscribers that record under consecutive numbers. -/
def recorded (subs : List (Callback σ P R)) (i : Nat) :
    List (Callback (σ × List (Call P R Ans)) P R) :=
  (subs.zipIdx i).map fun x => recordedSubscriber x.2 x.1

/-- **A broadcast calls everybody once, in order**, and answers with what came of each call. -/
theorem broadcast_recorded (answer : Except StdException R → Ans) (handler : Callback σ Ans Unit)
    (p : P) (subs : List (Callback σ P R)) (i : Nat) (s : σ) (log : List (Call P R Ans)) :
    ∃ results s', results.length = subs.length ∧
      broadcast answer (recordedHandler handler) p (recorded subs i) (s, log)
        = (s', log ++ transcript answer p i results) := by
  induction subs generalizing i s log with
  | nil => exact ⟨[], s, rfl, by simp [recorded, broadcast, transcript]⟩
  | cons cb subs ih =>
    obtain ⟨results, s', hlen, hrest⟩ :=
      ih (i + 1) (handler (answer (cb p s).1) (cb p s).2).2
        (log ++ [.subscriber i p, .ended i (cb p s).1] ++ [.handler (answer (cb p s).1)])
    refine ⟨(cb p s).1 :: results, s', by simp [hlen], ?_⟩
    show broadcast answer (recordedHandler handler) p (recorded subs (i + 1)) _ = _
    simp only [recordedSubscriber, recordedHandler]
    rw [hrest]
    simp [transcript]

/-- **Broadcast of both kinds of signals.**  Whatever the subscribers and the reply handler
    return or throw, an emission returns; it has called every subscriber once, in the order of
    their subscription and with the emitted arguments, and after each of them the handler once,
    with the value returned (or nothing, for `void`) or with the exception thrown. -/
theorem emission_isolated_answered_once (n : Nat) (σ P R : Type) (p : P) (s : σ) :
    (∀ (subs : List (Callback σ P R)) (handler : Callback σ (Except Exn R) Unit),
      ∃ results s', results.length = subs.length ∧
        (Signals.emitReplying (n := n)
            ((recorded subs 0).foldl subscribeReturning [])
            (recordedHandler handler).call p).run (s, [])
          = (.returned (), s', transcript (answerWith .ok .error) p 0 results)) ∧
    (∀ (subs : List (Callback σ P Unit)) (handler : Callback σ (Option Exn) Unit),
      ∃ results s', results.length = subs.length ∧
        (Signals.emitReplying (n := n)
            ((recorded subs 0).foldl subscribeVoid [])
            (recordedHandler handler).call p).run (s, [])
          = (.returned (), s', transcript (answerWith (fun _ => none) some) p 0 results)) := by
  constructor
  · intro subs handler
    obtain ⟨results, s', hlen, hrun⟩ :=
      broadcast_recorded (answerWith .ok .error) handler p subs 0 s []
    refine ⟨results, s', hlen, ?_⟩
    have hemit := run_emitReplying (n := n) .ok .error (recorded subs 0)
      (recordedHandler handler) p (s, [])
    rw [hrun] at hemit
    exact hemit
  · intro subs handler
    obtain ⟨results, s', hlen, hrun⟩ :=
      broadcast_recorded (answerWith (fun _ => none) some) handler p subs 0 s []
    refine ⟨results, s', hlen, ?_⟩
    have hemit := run_emitReplying (n := n) (fun _ => none) some (recorded subs 0)
      (recordedHandler handler) p (s, [])
    rw [hrun] at hemit
    exact hemit

end RtCharger.Os
