import RtCharger.Os.ObservableBinding

namespace RtCharger.Devices.Relay

open StepSystem RtCharger.Os.Observables

/-!
# Relays

A `Relay` is driven through three observables: its own `value`, the `handler` of its `OutputPin`
and the `inited` of that, each with a subscriber that assigns to the next one or works on the pin.
Here they stand among the other observables of a program, with any other subscribers, which may
also switch the relay again while it is being switched.

* `relayChanged`, `handlerChanged`, `initedChanged` — the closures of the constructors;
* `Foreign` — code that leaves `handler`, `inited` and the pin alone, which are private;
* `Settled`, `Settles` — the pin agrees with the value, or will when the closures have returned;
* `relay_follows` — it does whenever nothing is in progress.
-/

/-! ### The functions of the source -/

/-- `Relay::Polar`. -/
inductive Polar where
  | high
  | low
deriving DecidableEq, Repr

/-- `Relay::Value`. -/
inductive Value where
  | on
  | off
deriving DecidableEq, Repr

/-- The observables of the relay, and those of the rest of the program. -/
inductive Name (O : Type) where
  | value
  | handler
  | inited
  | other (o : O)
deriving DecidableEq, Repr

/-- What they hold. -/
inductive Held (T : Type) where
  | value (v : Option Value)
  | handler (v : Option Bool)
  | inited (v : Bool)
  | other (x : T)
deriving DecidableEq, Repr

/-- The pin: whether it is an output, the level that was written last, and whether one was
    written while it was an input. -/
structure Pin where
  output : Bool
  level : Option Bool
  misused : Bool
deriving DecidableEq, Repr

/-- `rt_pin_mode`. -/
def Pin.mode (output : Bool) (pin : Pin) : Pin := { pin with output }

/-- `rt_pin_write`. -/
def Pin.write (level : Bool) (pin : Pin) : Pin :=
  { pin with level := some level, misused := pin.misused || !pin.output }

section Closures

variable {O T R : Type}

/-- The code of a subscriber; it may work on the pin and on the rest of the program. -/
abbrev Code (O T R : Type) : Type := Body (Name O) (Pin × R) (Held T)

/-- Work on the pin. -/
def onPin (f : Pin → Pin) : Code O T R := .other (fun x => (f x.1, x.2)) fun _ => .done

/-- `onPinVal` and `offPinVal`. -/
def pinVal (polar : Polar) : Value → Bool
  | .on  => polar == .high
  | .off => !(polar == .high)

/-- `inited.onChanged` in `OutputPin::OutputPin`. -/
def initedChanged : Held T → Code O T R
  | .inited true  => onPin (Pin.mode true)
  | .inited false => onPin (Pin.mode false)
  | _             => .done

/-- `handler.onChanged` in `OutputPin::OutputPin`. -/
def handlerChanged : Held T → Code O T R
  | .handler none         => .call .inited (.assign (.inited false)) fun _ => .done
  | .handler (some value) =>
    .call .inited (.assign (.inited true)) fun _ => onPin (Pin.write value)
  | _                     => .done

/-- `value.onChanged` in `Relay::Relay`. -/
def relayChanged (polar : Polar) : Held T → Code O T R
  | .value (some val) =>
    .call .handler (.assign (.handler (some (pinVal polar val)))) fun _ => .done
  | .value none       => .call .handler (.assign (.handler none)) fun _ => .done
  | _                 => .done

/-- The program after the constructors of the relay and its pin, which is an input after reset. -/
def constructed (polar : Polar) (others : O → T) (rest : R) :
    State (Name O) (Pin × R) (Held T) :=
  { initial (fun
      | .value   => .value none
      | .handler => .handler none
      | .inited  => .inited false
      | .other o => .other (others o)) (⟨false, none, false⟩, rest) with
    onChanged := fun
      | .value   => [relayChanged polar]
      | .handler => [handlerChanged]
      | .inited  => [initedChanged]
      | .other _ => [] }

/-! ### The rest of the program -/

/-- The operations that the rest of the program may use: `handler` and `inited` are private, and
    an optional has no increment. -/
def Allowed : Name O → Op (Held T) → Prop
  | .value, .assign (.value _) => True
  | .other _, _                => True
  | _, _                       => False

/-- Code of the rest of the program. -/
inductive Foreign : Code O T R → Prop where
  | done : Foreign .done
  | other {f k} : (∀ x, (f x).1 = x.1) → (∀ x, Foreign (k x)) → Foreign (.other f k)
  | read {o k} : (∀ v, Foreign (k v)) → Foreign (.read o k)
  | call {o op k} : Allowed o op → (∀ v, Foreign (k v)) → Foreign (.call o op k)

/-- Subscribers of the rest of the program. -/
def ForeignCbs (cbs : List (Held T → Code O T R)) : Prop := ∀ cb ∈ cbs, ∀ v, Foreign (cb v)

/-- What such code leaves to be done. -/
def ForeignTask : Task (Name O) (Pin × R) (Held T) → Prop
  | .body b         => Foreign b
  | .loop _ _ _ cbs => ForeignCbs cbs

/-- What the rest of the program does. -/
def Outside : Act (Name O) (Pin × R) (Held T) → Prop
  | .subscribe .value cb     => ∀ v, Foreign (cb v)
  | .subscribe (.other _) cb => ∀ v, Foreign (cb v)
  | .subscribe _ _           => False
  | .call o op               => Allowed o op
  | .next                    => True
  | .other f                 => ∀ x, (f x).1 = x.1

/-! ### When the pin agrees -/

/-- The pin is what the handler says. -/
structure Agrees (pin : Pin) (handler : Option Bool) : Prop where
  output : pin.output = handler.isSome
  level : ∀ b, handler = some b → pin.level = some b
  used : pin.misused = false

/-- The relay's own subscribers are the first ones. -/
structure Wired (polar : Polar) (onChanged : Name O → List (Held T → Code O T R)) : Prop where
  value : ∃ cbs, onChanged .value = relayChanged polar :: cbs ∧ ForeignCbs cbs
  handler : onChanged .handler = [handlerChanged]
  inited : onChanged .inited = [initedChanged]
  other : ∀ o, ForeignCbs (onChanged (.other o))

/-- The state of the relay: `v` is its value, and `told` what its pin was told. -/
structure Holds (polar : Polar) (s : State (Name O) (Pin × R) (Held T)) (v : Option Value)
    (told : Option Bool) : Prop where
  wired : Wired polar s.onChanged
  value : s.value .value = .value v
  handler : s.value .handler = .handler told
  inited : s.value .inited = .inited told.isSome
  agrees : Agrees s.rest.1 told

/-- The closures of the relay have returned. -/
structure Settled (polar : Polar) (s : State (Name O) (Pin × R) (Held T)) : Prop where
  holds : ∃ v, Holds polar s v (v.map (pinVal polar))
  control : ∀ t ∈ s.control, ForeignTask t

end Closures

variable {O T R : Type} [DecidableEq O] [DecidableEq T] {polar : Polar} {inc : Held T → Held T}
  {s s' : State (Name O) (Pin × R) (Held T)} {c : List (Task (Name O) (Pin × R) (Held T))}

/-! ### How the closures run -/

variable (inc) in
/-- `inited = b`: the mode is set if it was another one. -/
theorem nexts_inited {b b' : Bool} {k : Held T → Code O T R}
    (hc : s.control = .body (.call .inited (.assign (.inited b)) k) :: c)
    (hw : s.onChanged .inited = [initedChanged]) (hi : s.value .inited = .inited b')
    (hmode : s.rest.1.output = b') :
    ∃ n s', nexts inc n s = some s' ∧ s'.control = .body (k (.inited b)) :: c ∧
      s'.onChanged = s.onChanged ∧ s'.value = Function.update s.value .inited (.inited b) ∧
      s'.rest = (s.rest.1.mode b, s.rest.2) := by
  by_cases hb : b' = b
  · subst hb
    refine ⟨1, { s with control := .body (k (.inited b')) :: c }, ?_, rfl, rfl, ?_, ?_⟩
    · simp [nexts, run, step, next, hc, enter, operatorAssign, hi]
    · rw [← hi, Function.update_eq_self]
    · rw [Pin.mode, ← hmode]
  · refine ⟨5, { (s.change .inited (.inited b)).hear .inited 0 (.inited b) with
      rest := (s.rest.1.mode b, s.rest.2)
      control := .body (k (.inited b)) :: c }, ?_, rfl, rfl, rfl, rfl⟩
    cases b <;>
      simp [nexts, run, step, next, hc, enter, operatorAssign, hi, hb, hw, State.change,
        State.hear, Arg.read, initedChanged, onPin, List.replicate_succ]

variable (inc) in
/-- `handler = h`: the pin follows. -/
theorem nexts_handler {h h' : Option Bool} {k : Held T → Code O T R}
    (hc : s.control = .body (.call .handler (.assign (.handler h)) k) :: c)
    (hw : Wired polar s.onChanged) (hh : s.value .handler = .handler h')
    (hi : s.value .inited = .inited h'.isSome) (ha : Agrees s.rest.1 h') :
    ∃ n s', nexts inc n s = some s' ∧ s'.control = .body (k (.handler h)) :: c ∧
      s'.onChanged = s.onChanged ∧ s'.value .value = s.value .value ∧
      s'.value .handler = .handler h ∧ s'.value .inited = .inited h.isSome ∧
      Agrees s'.rest.1 h := by
  by_cases heq : h' = h
  · subst heq
    refine ⟨1, { s with control := .body (k (.handler h')) :: c }, ?_, rfl, rfl, rfl, hh, hi, ha⟩
    simp [nexts, run, step, next, hc, enter, operatorAssign, hh]
  · -- the loop over the one subscriber of `handler` begins, and calls it
    obtain ⟨s₂, hrun₂, hc₂, hw₂, hv₂, hr₂⟩ : ∃ s₂, nexts inc 2 s = some s₂ ∧
        s₂.control = .body (handlerChanged (.handler h)) ::
          .loop .handler (.newVal (.handler h)) 1 [] :: .body (k (.handler h)) :: c ∧
        s₂.onChanged = s.onChanged ∧ s₂.value = Function.update s.value .handler (.handler h) ∧
        s₂.rest = s.rest := by
      refine ⟨{ (s.change .handler (.handler h)).hear .handler 0 (.handler h) with
        control := .body (handlerChanged (.handler h)) ::
          .loop .handler (.newVal (.handler h)) 1 [] :: .body (k (.handler h)) :: c },
        ?_, rfl, rfl, rfl, rfl⟩
      simp [nexts, run, step, next, hc, enter, operatorAssign, hh, heq, hw.handler, State.change,
        State.hear, Arg.read, List.replicate_succ]
    have hinited : s₂.onChanged .inited = [initedChanged] := by rw [hw₂, hw.inited]
    have hi₂ : s₂.value .inited = .inited h'.isSome := by
      rw [hv₂]
      simpa using hi
    have hmode₂ : s₂.rest.1.output = h'.isSome := by rw [hr₂, ha.output]
    cases h with
    | none =>
      -- `inited` becomes false, which makes the pin an input
      obtain ⟨n, s₃, hrun₃, hc₃, hw₃, hv₃, hr₃⟩ :=
        nexts_inited inc hc₂ hinited hi₂ hmode₂
      refine ⟨2 + (n + 2), { s₃ with control := .body (k (.handler none)) :: c }, ?_, rfl,
        hw₃.trans hw₂, ?_, ?_, ?_, ?_⟩
      · rw [nexts_add 2 _ hrun₂, nexts_add n _ hrun₃]
        simp [nexts, run, step, next, hc₃, List.replicate_succ]
      · simp [hv₃, hv₂]
      · simp [hv₃, hv₂]
      · simp [hv₃]
      · show Agrees s₃.rest.1 none
        rw [hr₃, hr₂]
        exact ⟨rfl, by simp, ha.used⟩
    | some b =>
      -- the pin is an output before it is written
      obtain ⟨n, s₃, hrun₃, hc₃, hw₃, hv₃, hr₃⟩ :=
        nexts_inited inc hc₂ hinited hi₂ hmode₂
      refine ⟨2 + (n + 3), { s₃ with
        rest := (s₃.rest.1.write b, s₃.rest.2)
        control := .body (k (.handler (some b))) :: c }, ?_, rfl, hw₃.trans hw₂, ?_, ?_, ?_, ?_⟩
      · rw [nexts_add 2 _ hrun₂, nexts_add n _ hrun₃]
        simp [nexts, run, step, next, hc₃, onPin, List.replicate_succ]
      · simp [hv₃, hv₂]
      · simp [hv₃, hv₂]
      · simp [hv₃]
      · show Agrees (s₃.rest.1.write b) (some b)
        rw [hr₃, hr₂]
        exact ⟨rfl, fun b' hb => hb, by simp [Pin.write, Pin.mode, ha.used]⟩

variable (inc) in
/-- `value = v`: when the relay's own subscriber has returned, the pin is what `v` means, and the
    loop goes on to the others. -/
theorem nexts_value {v : Option Value} {told : Option Bool} {cbs : List (Held T → Code O T R)}
    (hc : s.control = .loop .value (.newVal (.value v)) 0 (relayChanged polar :: cbs) :: c)
    (hs : Holds polar s v told) :
    ∃ n s', nexts inc n s = some s' ∧
      s'.control = .loop .value (.newVal (.value v)) 1 cbs :: c ∧
      Holds polar s' v (v.map (pinVal polar)) := by
  obtain ⟨s₁, hrun₁, hc₁, hw₁, hv₁, hr₁⟩ : ∃ s₁, nexts inc 1 s = some s₁ ∧
      s₁.control = .body (.call .handler (.assign (.handler (v.map (pinVal polar)))) fun _ => .done)
        :: .loop .value (.newVal (.value v)) 1 cbs :: c ∧
      s₁.onChanged = s.onChanged ∧ s₁.value = s.value ∧ s₁.rest = s.rest := by
    refine ⟨{ s.hear .value 0 (.value v) with
      control := .body (.call .handler (.assign (.handler (v.map (pinVal polar)))) fun _ => .done)
        :: .loop .value (.newVal (.value v)) 1 cbs :: c }, ?_, rfl, rfl, rfl, rfl⟩
    cases v <;> simp [nexts, run, step, next, hc, State.hear, Arg.read, relayChanged]
  have hwired : Wired polar s₁.onChanged := by rw [hw₁]; exact hs.wired
  obtain ⟨n, s₂, hrun₂, hc₂, hw₂, hv₂, hh₂, hi₂, ha₂⟩ := nexts_handler inc hc₁ hwired
    (by rw [hv₁, hs.handler]) (by rw [hv₁, hs.inited]) (by rw [hr₁]; exact hs.agrees)
  refine ⟨1 + (n + 1), { s₂ with control := .loop .value (.newVal (.value v)) 1 cbs :: c },
    ?_, rfl, ⟨?_, ?_, hh₂, hi₂, ha₂⟩⟩
  · rw [nexts_add 1 _ hrun₁, nexts_add n _ hrun₂]
    simp [nexts, run, step, next, hc₂]
  · show Wired polar s₂.onChanged
    rw [hw₂]
    exact hwired
  · show s₂.value .value = _
    rw [hv₂, hv₁, hs.value]

/-! ### Every run -/

variable (polar inc) in
/-- The closures of the relay have returned or will; nothing else can come between. -/
def Settles (s : State (Name O) (Pin × R) (Held T)) : Prop :=
  ∃ n s', nexts inc n s = some s' ∧ Settled polar s'

theorem Settled.settles (h : Settled polar s) : Settles polar inc s := ⟨0, s, rfl, h⟩

omit [DecidableEq O] [DecidableEq T] in
/-- Other observables and the rest of the program may change. -/
theorem Holds.congr {v : Option Value} {told : Option Bool} (h : Holds polar s v told)
    (hw : s'.onChanged = s.onChanged) (hv : s'.value .value = s.value .value)
    (hh : s'.value .handler = s.value .handler) (hi : s'.value .inited = s.value .inited)
    (hr : s'.rest.1 = s.rest.1) : Holds polar s' v told :=
  ⟨by rw [hw]; exact h.wired, hv.trans h.value, hh.trans h.handler, hi.trans h.inited,
    by rw [hr]; exact h.agrees⟩

/-- **An operation of the rest of the program**: either it has nothing to do with the relay, or
    the relay's own subscriber is called first. -/
theorem Settled.enter (h : Settled polar s) {o : Name O} {op : Op (Held T)} (hop : Allowed o op)
    {k : Held T → List (Task (Name O) (Pin × R) (Held T))} (hk : ∀ r, ∀ t ∈ k r, ForeignTask t) :
    Settles polar inc (enter inc s o op k) := by
  obtain ⟨⟨v, hs⟩, hcontrol⟩ := h
  cases o with
  | handler => cases op <;> exact hop.elim
  | inited => cases op <;> exact hop.elim
  | other o =>
    -- its subscribers are all foreign
    have hloop : ∀ arg r, ∀ t ∈ Task.loop (.other o) arg 0 (s.onChanged (.other o)) :: k r,
        ForeignTask t := by
      intro arg r t ht
      rcases List.mem_cons.mp ht with rfl | ht
      · exact hs.wired.other o
      · exact hk r t ht
    have hchange : ∀ x, Holds polar (s.change (.other o) x) v (v.map (pinVal polar)) := fun x =>
      hs.congr rfl (by simp [State.change]) (by simp [State.change]) (by simp [State.change]) rfl
    cases op with
    | assign x =>
      unfold Os.Observables.enter operatorAssign
      dsimp only
      split_ifs with hsame
      · exact Settled.settles ⟨⟨v, hs.congr rfl rfl rfl rfl rfl⟩, hk x⟩
      · exact Settled.settles ⟨⟨v, (hchange x).congr rfl rfl rfl rfl rfl⟩, hloop _ x⟩
    | increment =>
      exact Settled.settles ⟨⟨v, (hchange (inc (s.value (.other o)))).congr rfl rfl rfl rfl rfl⟩,
        hloop _ _⟩
  | value =>
    cases op with
    | increment => exact hop.elim
    | assign x =>
      cases x with
      | handler b => exact hop.elim
      | inited b => exact hop.elim
      | other x => exact hop.elim
      | value w =>
        unfold Os.Observables.enter operatorAssign
        dsimp only
        split_ifs with hsame
        · exact Settled.settles ⟨⟨v, hs.congr rfl rfl rfl rfl rfl⟩, hk _⟩
        · obtain ⟨cbs, hcbs, hforeign⟩ := hs.wired.value
          have hholds : Holds polar { s.change .value (.value w) with
              control := .loop .value (.newVal (.value w)) 0 (s.onChanged .value)
                :: k (.value w) } w (v.map (pinVal polar)) :=
            ⟨hs.wired, by simp [State.change], by simpa [State.change] using hs.handler,
              by simpa [State.change] using hs.inited, hs.agrees⟩
          obtain ⟨n, s', hrun, hc, hs'⟩ := nexts_value inc (by rw [hcbs]) hholds
          refine ⟨n, s', hrun, ⟨w, hs'⟩, fun t ht => ?_⟩
          rw [hc] at ht
          rcases List.mem_cons.mp ht with rfl | ht
          · exact hforeign
          · exact hk _ t ht

/-- The next step, when it is foreign code that goes on. -/
theorem Settled.next (h : Settled polar s) (hnext : next inc s = some s') :
    Settles polar inc s' := by
  obtain ⟨⟨v, hs⟩, hcontrol⟩ := h
  unfold Os.Observables.next at hnext
  split at hnext
  · cases hnext
  · rename_i c hc
    obtain rfl := Option.some.inj hnext
    rw [hc] at hcontrol
    exact Settled.settles ⟨⟨v, hs.congr rfl rfl rfl rfl rfl⟩, (List.forall_mem_cons.mp hcontrol).2⟩
  · rename_i f k c hc
    obtain rfl := Option.some.inj hnext
    rw [hc] at hcontrol
    obtain ⟨hbody, hrest⟩ := List.forall_mem_cons.mp hcontrol
    -- foreign code, which leaves the pin to the relay
    cases hbody with
    | other hf hk =>
      exact Settled.settles ⟨⟨v, hs.congr rfl rfl rfl rfl (hf s.rest)⟩,
        List.forall_mem_cons.mpr ⟨hk s.rest, hrest⟩⟩
  · rename_i o k c hc
    obtain rfl := Option.some.inj hnext
    rw [hc] at hcontrol
    obtain ⟨hbody, hrest⟩ := List.forall_mem_cons.mp hcontrol
    cases hbody with
    | read hk =>
      exact Settled.settles ⟨⟨v, hs.congr rfl rfl rfl rfl rfl⟩,
        List.forall_mem_cons.mpr ⟨hk _, hrest⟩⟩
  · rename_i o op k c hc
    obtain rfl := Option.some.inj hnext
    have hsettled : Settled polar s := ⟨⟨v, hs⟩, hcontrol⟩
    rw [hc] at hcontrol
    obtain ⟨hbody, hrest⟩ := List.forall_mem_cons.mp hcontrol
    cases hbody with
    | call hop hk =>
      exact hsettled.enter hop fun r => List.forall_mem_cons.mpr ⟨hk r, hrest⟩
  · rename_i o arg i c hc
    obtain rfl := Option.some.inj hnext
    rw [hc] at hcontrol
    exact Settled.settles ⟨⟨v, hs.congr rfl rfl rfl rfl rfl⟩, (List.forall_mem_cons.mp hcontrol).2⟩
  · rename_i o arg i cb cbs c hc
    obtain rfl := Option.some.inj hnext
    rw [hc] at hcontrol
    -- the next subscriber is called; the loop is what is left of it
    obtain ⟨hloop, hrest⟩ := List.forall_mem_cons.mp hcontrol
    obtain ⟨hcb, hcbs⟩ := List.forall_mem_cons.mp hloop
    exact Settled.settles ⟨⟨v, hs.congr rfl rfl rfl rfl rfl⟩,
      List.forall_mem_cons.mpr ⟨hcb _, List.forall_mem_cons.mpr ⟨hcbs, hrest⟩⟩⟩

omit [DecidableEq T] in
/-- A new subscriber comes behind the relay's own. -/
theorem Wired.subscribe (h : Wired polar s.onChanged) {o : Name O} {cb : Held T → Code O T R}
    (hout : Outside (.subscribe o cb)) : Wired polar (s.subscribe o cb).onChanged := by
  cases o with
  | handler => exact hout.elim
  | inited => exact hout.elim
  | value =>
    obtain ⟨cbs, hcbs, hforeign⟩ := h.value
    refine ⟨⟨cbs ++ [cb], by simp [State.subscribe, hcbs], fun cb' hcb => ?_⟩,
      by simpa [State.subscribe] using h.handler, by simpa [State.subscribe] using h.inited,
      fun o => by simpa [State.subscribe] using h.other o⟩
    rcases List.mem_append.mp hcb with hcb | hcb
    · exact hforeign cb' hcb
    · obtain rfl := List.mem_singleton.mp hcb
      exact hout
  | other o =>
    refine ⟨by simpa [State.subscribe] using h.value, by simpa [State.subscribe] using h.handler,
      by simpa [State.subscribe] using h.inited, fun o' => ?_⟩
    by_cases ho : o' = o
    · subst ho
      intro cb' hcb
      simp only [State.subscribe, Function.update_self] at hcb
      rcases List.mem_append.mp hcb with hcb | hcb
      · exact h.other o' cb' hcb
      · obtain rfl := List.mem_singleton.mp hcb
        exact hout
    · have hne : Name.other o' ≠ .other o := fun heq => ho (Name.other.inj heq)
      show ForeignCbs (Function.update s.onChanged _ _ _)
      rw [Function.update_of_ne hne]
      exact h.other o'

/-- **Every step**, of the relay or of the rest of the program. -/
theorem Settles.step (h : Settles polar inc s) {a : Act (Name O) (Pin × R) (Held T)}
    (hout : Outside a) (hstep : step inc s a = some s') : Settles polar inc s' := by
  obtain ⟨n, t, hrun, hsettled⟩ := h
  cases n with
  | zero =>
    obtain rfl := Option.some.inj hrun
    cases a with
    | next => exact hsettled.next hstep
    | call o op =>
      obtain ⟨-, rfl⟩ := State.outermost_eq_some hstep
      exact hsettled.enter hout fun _ => nofun
    | other f =>
      obtain ⟨-, rfl⟩ := State.outermost_eq_some hstep
      obtain ⟨⟨v, hs⟩, hcontrol⟩ := hsettled
      exact Settled.settles ⟨⟨v, hs.congr rfl rfl rfl rfl (hout s.rest)⟩, hcontrol⟩
    | subscribe o cb =>
      obtain ⟨-, rfl⟩ := State.outermost_eq_some hstep
      obtain ⟨⟨v, hs⟩, hcontrol⟩ := hsettled
      exact Settled.settles ⟨⟨v, ⟨hs.wired.subscribe hout, hs.value, hs.handler, hs.inited,
        hs.agrees⟩⟩, hcontrol⟩
  | succ n =>
    have hnexts : nexts inc (n + 1) s = (next inc s).bind fun t => nexts inc n t := rfl
    rw [hnexts] at hrun
    obtain ⟨t', hnext, hrest⟩ := Option.bind_eq_some_iff.mp hrun
    have hbusy : s.control ≠ [] := fun hnil => by
      rw [next, hnil] at hnext
      cases hnext
    -- so nothing else can happen than the next step
    have houter : ∀ x, s.outermost x ≠ some s' := fun x hx =>
      hbusy (State.outermost_eq_some hx).1
    cases a with
    | next =>
      obtain rfl : t' = s' := Option.some.inj (hnext.symm.trans hstep)
      exact ⟨n, t, hrest, hsettled⟩
    | call o op => exact absurd hstep (houter _)
    | other f => exact absurd hstep (houter _)
    | subscribe o cb => exact absurd hstep (houter _)

omit [DecidableEq O] [DecidableEq T] in
theorem settled_constructed (polar : Polar) (others : O → T) (rest : R) :
    Settled polar (constructed polar others rest) :=
  ⟨⟨none, ⟨⟨[], rfl, nofun⟩, rfl, rfl, fun _ => nofun⟩, rfl, rfl, rfl, rfl, nofun, rfl⟩, nofun⟩

/-- **The pin follows the value.**  Whatever the rest of the program subscribes to the relay and
    does with it, also while it is being switched: whenever nothing is in progress, the pin is an
    output exactly if the relay has a value, it has the level for this value, and no level was
    ever written while it was an input. -/
theorem relay_follows {others : O → T} {rest : R} {as : List (Act (Name O) (Pin × R) (Held T))}
    (h : Runs (step inc) (fun _ => Outside) (constructed polar others rest) as s)
    (hidle : s.control = []) :
    ∃ v, s.value .value = .value v ∧ s.rest.1.output = v.isSome ∧
      (∀ x, v = some x → s.rest.1.level = some (pinVal polar x)) ∧ s.rest.1.misused = false := by
  have hsettles : Settles polar inc s := h.invariant (Settles polar inc)
    (fun _ _ _ hs hout hstep => hs.step hout hstep) (settled_constructed polar others rest).settles
  obtain ⟨n, t, hrun, hsettled⟩ := hsettles
  obtain rfl : s = t := by
    cases n with
    | zero => exact Option.some.inj hrun
    | succ n =>
      have hnexts : nexts inc (n + 1) s = (next inc s).bind fun t => nexts inc n t := rfl
      rw [hnexts, next, hidle] at hrun
      cases hrun
  obtain ⟨⟨v, hs⟩, -⟩ := hsettled
  refine ⟨v, hs.value, ?_, fun x hx => hs.agrees.level _ (by rw [hx]; rfl), hs.agrees.used⟩
  rw [hs.agrees.output, Option.isSome_map]

/-- A subscriber that switches the relay off when it is switched on. -/
def exampleCb : Held Unit → Code Unit Unit Unit
  | .value (some .on) => .call .value (.assign (.value (some .off))) fun _ => .done
  | _                 => .done

/-- It is subscribed, and the relay is switched on. -/
def exampleActs : List (Act (Name Unit) (Pin × Unit) (Held Unit)) :=
  [.subscribe .value exampleCb, .call .value (.assign (.value (some .on)))] ++
    List.replicate 27 .next

theorem outside_example : ∀ a ∈ exampleActs, Outside a := by
  have hforeign : ∀ v, Foreign (exampleCb v) := fun v => by
    unfold exampleCb
    split
    · exact .call trivial fun _ => .done
    · exact .done
  have hfirst : ∀ a ∈ ([.subscribe .value exampleCb, .call .value (.assign (.value (some .on)))] :
      List (Act (Name Unit) (Pin × Unit) (Held Unit))), Outside a :=
    List.forall_mem_cons.mpr ⟨hforeign, List.forall_mem_cons.mpr ⟨trivial, nofun⟩⟩
  intro a ha
  rcases List.mem_append.mp ha with ha | ha
  · exact hfirst a ha
  · rw [(List.mem_replicate.mp ha).2]
    trivial

/-- The relay is off in the end. -/
def exampleState : State (Name Unit) (Pin × Unit) (Held Unit) :=
  (run (step id) (constructed .low (fun _ => ()) ()) exampleActs).get (by decide)

theorem relay_follows_example : exampleState.value .value = .value (some .off) ∧
    exampleState.rest.1.output = true ∧ exampleState.rest.1.level = some true := by
  have hrun : run (step id) (constructed .low (fun _ => ()) ()) exampleActs = some exampleState :=
    (Option.some_get _).symm
  obtain ⟨v, hv, houtput, hlevel, -⟩ := relay_follows
    (runs_of_forall (fun a ha _ => outside_example a ha) hrun) (by decide)
  have hoff : v = some .off := Held.value.inj (hv.symm.trans (by decide))
  subst hoff
  exact ⟨by decide, houtput, hlevel _ rfl⟩

end RtCharger.Devices.Relay
