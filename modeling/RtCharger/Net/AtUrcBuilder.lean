import RtCharger.Lib.Effect
import RtCharger.Lib.OneHot
import RtCharger.Utilities.Text
import RtCharger.Utilities.LimitedSlots

namespace RtCharger.Net

open Effect OneHot RtCharger.Utilities

/-!
# The handlers of `AtUrcBuilder::probe`

What the handler that `probe` registers does with a line: it cuts the body at commas, turns
each field into the argument that the callback's signature asks for, calls the callback and
sets the event bits it asked for.  A callback is described by the list of its parameters.

* `preprocessArg`, `getArgs`, `ArgProvider.next`, `eventBits`, `Probe.handle` — the functions of
  the source;
* `run_next_…` — one argument, for each kind of parameter;
* `run_handle` — a line whose arguments are all there.
-/

/-! ### Fields -/

/-- `AtUrcBuilder::Options`. -/
structure Options where
  unwrapQuota : Bool
  removeLeadingPad : Bool
deriving DecidableEq, Repr

/-- `kDefaultOpt`. -/
def kDefaultOpt : Options := ⟨true, true⟩

/-- `PreprocessArg`; `none` when it reads a position that the view does not have. -/
def preprocessArg (sv : Text) (opt : Options) : Option Text :=
  let sv :=
    if opt.removeLeadingPad then
      let noPadPos := (sv.takeWhile fun c => c == ' ').length
      sv.drop noPadPos
    else sv
  if opt.unwrapQuota then
    match sv[0]? with
    | none       => none
    | some first =>
      -- `&&` does not look at the last character if the first one is no quote
      if first = '"' ∧ sv[sv.length - 1]? = some '"' then some ((sv.drop 1).take (sv.length - 2))
      else some sv
  else some sv

/-- `getArgs<Prefix, Suffix>`: the fields between the prefix and the suffix. -/
def getArgs {σ : Type} (urcPrefix urcSuffix data : Text) (cnt : Nat) :
    Comp Exn σ (List Text) :=
  -- `size - Prefix.view().size() - Suffix.view().size()` wraps around in a short line
  let count :=
    if urcPrefix.length + urcSuffix.length ≤ data.length then
      data.length - urcPrefix.length - urcSuffix.length
    else data.length
  match substr data urcPrefix.length count with
  | none            => raise (.std "basic_string_view::substr")
  | some argStrView => pure (split ',' ((cnt : Int) - 1) argStrView)

/-! ### Arguments -/

/-- The types a parameter of a callback may have: `EventEmitter`, the element of the slots,
    `int`, and `std::string_view`; the other arithmetic types are left out. -/
inductive Param where
  | emitter
  | slot
  | int
  | view
deriving DecidableEq, Repr

/-- An argument; an object is named by an `A`. -/
inductive Arg (A : Type) where
  | emitter
  | slot (obj : A)
  | int (n : Int)
  | view (t : Text)
deriving DecidableEq, Repr

/-- `ArgProvider` and the `ArgMapper` it uses. -/
structure ArgProvider where
  argStrs : List Text
  i : Nat
  slotId : Option Int
deriving DecidableEq, Repr

/-- How a handler finds the object of a slot: nothing if no slots were set. -/
abbrev Acquire (A : Type) : Type := Option (Int → Outcome Exn A)

variable {A σ : Type}

/-- `ArgProvider::operator()<Arg>` with `ArgMapper::operator()<X>`: the field at `i` is read and
    preprocessed for every parameter, also for an emitter, which does not use it. -/
def ArgProvider.next (acquire : Acquire A) (opt : Options) (uninitialised : Nat → Int)
    (param : Param) : Comp Exn ArgProvider (Arg A) := do
  let p ← getState
  let argStr ← ofOption p.argStrs[p.i]?
  let a ← ofOption (preprocessArg argStr opt)
  match param with
  | .emitter => pure .emitter
  | .slot    =>
    let slotId := parseInt a (uninitialised p.i)
    modifyState fun p => { p with slotId := some slotId }
    match acquire with
    | none         => raise (.std "slots not set")
    | some acquire =>
      let obj ← ofOutcome (acquire slotId)
      modifyState fun p => { p with i := p.i + 1 }
      pure (.slot obj)
  | .int     =>
    modifyState fun p => { p with i := p.i + 1 }
    pure (.int (parseInt a (uninitialised p.i)))
  | .view    =>
    modifyState fun p => { p with i := p.i + 1 }
    pure (.view a)

/-- `p.template operator()<Args>()...`, evaluated from left to right. -/
def ArgProvider.all (acquire : Acquire A) (opt : Options) (uninitialised : Nat → Int) :
    List Param → Comp Exn ArgProvider (List (Arg A))
  | []              => pure []
  | param :: params => do
    let arg ← ArgProvider.next acquire opt uninitialised param
    let args ← ArgProvider.all acquire opt uninitialised params
    pure (arg :: args)

/-! ### Events -/

/-- What a callback leaves for the handler: the events it returned, and those it emitted. -/
structure Emitted where
  result : List Int
  events : List Int
deriving DecidableEq, Repr

/-- Nothing. -/
def Emitted.none : Emitted := ⟨[], []⟩

/-- `1 << n` for an `int`. -/
def shiftOne (n : Int) : Option (BitVec 32) :=
  if h : 0 ≤ n ∧ n < 32 then some (oneHot ⟨n.toNat, by omega⟩) else none

/-- `bits |= 1 << (r + slotId)` for all events. -/
def eventBits (slotId : Int) : List Int → Option (BitVec 32)
  | []      => some 0#32
  | r :: rs => do
    let bits ← eventBits slotId rs
    let b ← shiftOne (r + slotId)
    pure (b ||| bits)

/-! ### Handlers -/

/-- What `probe` was given: the prefix and suffix of the line, the parameters of the callback
    and the callback, the slots, the event set, the offset and the options. -/
structure Probe (σ A : Type) where
  urcPrefix : Text
  urcSuffix : Text
  params : List Param
  callback : List (Arg A) → Comp Exn σ Emitted
  slots : Option (σ → Int → Outcome Exn A)
  event : Option (BitVec 32 → Comp Exn σ Unit)
  offset : Option Int
  opt : Options

/-- `then` of `probeInternal`. -/
def Probe.thenSet (probe : Probe σ A) (slotId : Option Int) (emitted : Emitted) :
    Comp Exn σ Unit := do
  let result := emitted.result ++ probe.offset.toList ++ emitted.events
  let bits ← ofOption (eventBits (slotId.getD 0) result)
  if bits = 0#32 then pure ()
  else
    match probe.event with
    | none     => raise (.std "event not set")
    | some set => set bits

/-- `runProbe` without the `try` block of `run`. -/
def Probe.invoke (probe : Probe σ A) (uninitialised : Nat → Int) (data : Text) :
    Comp Exn σ Unit := do
  let s ← getState
  let argStrs ← getArgs probe.urcPrefix probe.urcSuffix data probe.params.length
  let acquire := probe.slots.map fun slots => slots s
  let r ← withLocal ⟨argStrs, 0, none⟩
    (ArgProvider.all acquire probe.opt uninitialised probe.params)
  let emitted ← probe.callback r.1
  probe.thenSet r.2.slotId emitted

/-- The handler: `run` catches and prints whatever is thrown. -/
def Probe.handle (probe : Probe σ A) (uninitialised : Nat → Int) (data : Text) :
    Comp Exn σ Unit :=
  tryCatch (fun _ => true) (probe.invoke uninitialised data) fun _ => pure ()

/-! ### Lines and fields -/

/-- The body of a line is what stands between the prefix and the suffix. -/
theorem run_getArgs (urcPrefix urcSuffix body : Text) (cnt : Nat) (s : σ) :
    (getArgs urcPrefix urcSuffix (urcPrefix ++ body ++ urcSuffix) cnt).run s
      = (.returned (split ',' ((cnt : Int) - 1) body), s) := by
  have hlen : urcPrefix.length + urcSuffix.length ≤ (urcPrefix ++ body ++ urcSuffix).length := by
    simp only [List.length_append]
    omega
  have hcount : (urcPrefix ++ body ++ urcSuffix).length - urcPrefix.length - urcSuffix.length
      = body.length := by
    simp only [List.length_append]
    omega
  have hsub : substr (urcPrefix ++ body ++ urcSuffix) urcPrefix.length body.length = some body := by
    have hle : urcPrefix.length ≤ (urcPrefix ++ body ++ urcSuffix).length := by omega
    rw [substr, if_pos hle, List.append_assoc, List.drop_left, List.take_left]
  simp only [getArgs, if_pos hlen, hcount, hsub, run_pure]

/-- A field that starts with neither a space nor a quote is left as it is. -/
theorem preprocessArg_plain {c : Char} (hspace : c ≠ ' ') (hquote : c ≠ '"') (cs : Text)
    (opt : Options) : preprocessArg (c :: cs) opt = some (c :: cs) := by
  obtain ⟨unwrap, pad⟩ := opt
  cases unwrap <;> cases pad <;> simp [preprocessArg, hspace, hquote]

/-- The same for a field that is not empty and has neither of them anywhere. -/
theorem preprocessArg_of_not_mem {t : Text} (hne : t ≠ []) (hspace : ' ' ∉ t) (hquote : '"' ∉ t)
    (opt : Options) : preprocessArg t opt = some t := by
  cases t with
  | nil => exact absurd rfl hne
  | cons c cs =>
    simp only [List.mem_cons, not_or] at hspace hquote
    exact preprocessArg_plain (Ne.symm hspace.1) (Ne.symm hquote.1) cs opt

/-- A numeral is left as it is. -/
theorem preprocessArg_of_isNumeral {t : Text} {n : Int} (h : IsNumeral t n) (opt : Options) :
    preprocessArg t opt = some t :=
  preprocessArg_of_not_mem h.mem.1 (h.not_mem (by decide) (by decide))
    (h.not_mem (by decide) (by decide)) opt

/-- A quoted field loses its quotes. -/
theorem preprocessArg_quoted (t : Text) :
    preprocessArg ('"' :: (t ++ ['"'])) kDefaultOpt = some t := by
  simp [preprocessArg, kDefaultOpt]

/-- A text without its leading spaces. -/
def unpadded (t : Text) : Text := t.dropWhile fun c => c == ' '

/-- A text without its first and last character, if both are quotes; they may be the same one. -/
def unquoted (t : Text) : Text :=
  if t.head? = some '"' ∧ t.getLast? = some '"' then t.tail.dropLast else t

/-- What is skipped is the leading spaces. -/
theorem drop_pad (t : Text) :
    t.drop (t.takeWhile fun c => c == ' ').length = unpadded t := by
  induction t with
  | nil => rfl
  | cons c cs ih =>
    by_cases hc : c = ' '
    · simpa [unpadded, hc] using ih
    · simp [unpadded, hc]

/-- The text in which `PreprocessArg` looks for quotes. -/
def padRemoved (opt : Options) (sv : Text) : Text :=
  if opt.removeLeadingPad = true then unpadded sv else sv

/-- What comes out with `UnwrapQuota`.  Left out is an empty rest. -/
theorem preprocessArg_of_unwrap {opt : Options} (h : opt.unwrapQuota = true) {sv : Text}
    (hne : padRemoved opt sv ≠ []) :
    preprocessArg sv opt = some (unquoted (padRemoved opt sv)) := by
  -- only the rest matters
  have hrest : preprocessArg sv opt = preprocessArg (padRemoved opt sv) ⟨true, false⟩ := by
    simp only [preprocessArg, drop_pad, h, padRemoved, if_true, Bool.false_eq_true, if_false]
  obtain ⟨c, cs, hcons⟩ := List.exists_cons_of_ne_nil hne
  have hlast : (c :: cs)[(c :: cs).length - 1]? = (c :: cs).getLast? :=
    List.getLast?_eq_getElem?.symm
  rw [hrest, hcons, preprocessArg]
  simp only [Bool.false_eq_true, if_false, if_true, List.getElem?_cons_zero, hlast]
  unfold unquoted
  by_cases hq : c = '"' ∧ (c :: cs).getLast? = some '"'
  · rw [if_pos hq, if_pos ⟨congrArg some hq.1, hq.2⟩, List.dropLast_eq_take]
    simp
  · have hhead : ¬((c :: cs).head? = some '"' ∧ (c :: cs).getLast? = some '"') :=
      fun hand => hq ⟨Option.some.inj hand.1, hand.2⟩
    rw [if_neg hq, if_neg hhead]

/-- **The default options**: a field loses its leading spaces and then its quotes.  Left out are
    the fields of nothing but spaces. -/
theorem preprocessArg_default {t : Text} (hne : unpadded t ≠ []) :
    preprocessArg t kDefaultOpt = some (unquoted (unpadded t)) :=
  preprocessArg_of_unwrap rfl hne

/-! ### One argument -/

section Next

variable {acquire : Acquire A} {opt : Options} {uninitialised : Nat → Int} {p : ArgProvider}
  {field a : Text}

/-- An emitter consumes no field. -/
theorem run_next_emitter (hfield : p.argStrs[p.i]? = some field)
    (ha : preprocessArg field opt = some a) :
    (ArgProvider.next acquire opt uninitialised .emitter).run p = (.returned .emitter, p) := by
  show (ArgProvider.next acquire opt uninitialised .emitter) p = _
  simp [ArgProvider.next, bind, Comp.bind, getState, hfield, ofOption, ha, pure]

/-- An integer is parsed from its field. -/
theorem run_next_int {n : Int} (hfield : p.argStrs[p.i]? = some field)
    (ha : preprocessArg field opt = some a) (hn : parseInt a (uninitialised p.i) = n) :
    (ArgProvider.next acquire opt uninitialised .int).run p
      = (.returned (.int n), { p with i := p.i + 1 }) := by
  subst hn
  show (ArgProvider.next acquire opt uninitialised .int) p = _
  simp [ArgProvider.next, bind, Comp.bind, getState, hfield, ofOption, ha, pure, modifyState]

/-- A view is its field. -/
theorem run_next_view (hfield : p.argStrs[p.i]? = some field)
    (ha : preprocessArg field opt = some a) :
    (ArgProvider.next acquire opt uninitialised .view).run p
      = (.returned (.view a), { p with i := p.i + 1 }) := by
  show (ArgProvider.next acquire opt uninitialised .view) p = _
  simp [ArgProvider.next, bind, Comp.bind, getState, hfield, ofOption, ha, pure, modifyState]

/-- A slot is looked up by the number in its field, which is remembered. -/
theorem run_next_slot {find : Int → Outcome Exn A} {obj : A} {n : Int}
    (hfield : p.argStrs[p.i]? = some field) (ha : preprocessArg field opt = some a)
    (hn : parseInt a (uninitialised p.i) = n) (hfind : find n = .returned obj) :
    (ArgProvider.next (some find) opt uninitialised .slot).run p
      = (.returned (.slot obj), { p with slotId := some n, i := p.i + 1 }) := by
  subst hn
  show (ArgProvider.next (some find) opt uninitialised .slot) p = _
  simp [ArgProvider.next, bind, Comp.bind, getState, hfield, ofOption, ha, pure, modifyState,
    ofOutcome, hfind]

/-- The number of a live slot is looked up as its object. -/
theorem run_next_live {α : Type} {slotCnt : Nat} {slots : LimitedSlots α slotCnt}
    {s : Fin slotCnt} {x : α} (hlive : slots s = some x) (hcnt : slotCnt ≤ 256)
    (hfield : p.argStrs[p.i]? = some field) (hnum : IsNumeral field s.val) :
    (ArgProvider.next (some fun slotId => slots.acuqire (toSlotType slotId)) opt uninitialised
        .slot).run p
      = (.returned (.slot s), { p with slotId := some s.val, i := p.i + 1 }) := by
  have hlt : s.val < slotCnt := s.isLt
  have hparse : parseInt field (uninitialised p.i) = s.val := by
    apply parseInt_of_isNumeral hnum
    · simp only [intMin]
      omega
    · simp only [intMax]
      omega
  have hfind : slots.acuqire (toSlotType s.val) = .returned s := by
    rw [toSlotType_of_lt (by omega)]
    exact LimitedSlots.acuqire_live hlive
  exact run_next_slot hfield (preprocessArg_of_isNumeral hnum opt) hparse hfind

theorem run_all_nil : (ArgProvider.all acquire opt uninitialised []).run p
    = (.returned [], p) := rfl

/-- One argument and then the others. -/
theorem run_all_cons {param : Param} {params : List Param} {arg : Arg A} {args : List (Arg A)}
    {p' p'' : ArgProvider}
    (hnext : (ArgProvider.next acquire opt uninitialised param).run p = (.returned arg, p'))
    (hrest : (ArgProvider.all acquire opt uninitialised params).run p' = (.returned args, p'')) :
    (ArgProvider.all acquire opt uninitialised (param :: params)).run p
      = (.returned (arg :: args), p'') := by
  rw [ArgProvider.all, run_bind_returned hnext, run_bind_returned hrest]
  rfl

end Next

/-! ### A whole line -/

/-- **A line whose arguments are all there**: the callback is called with them, and then the
    events are set. -/
theorem run_handle {probe : Probe σ A} {uninitialised : Nat → Int} {body : Text} {s s' s'' : σ}
    {args : List (Arg A)} {p : ArgProvider} {emitted : Emitted}
    (hargs : (ArgProvider.all (probe.slots.map fun slots => slots s) probe.opt uninitialised
        probe.params).run ⟨split ',' ((probe.params.length : Int) - 1) body, 0, none⟩
      = (.returned args, p))
    (hcall : (probe.callback args).run s = (.returned emitted, s'))
    (hset : (probe.thenSet p.slotId emitted).run s' = (.returned (), s'')) :
    (probe.handle uninitialised (probe.urcPrefix ++ body ++ probe.urcSuffix)).run s
      = (.returned (), s'') := by
  refine run_tryCatch_returned ?_ _
  rw [Probe.invoke, run_bind_returned (run_getState s), run_bind_returned (run_getArgs ..),
    run_bind_returned (run_withLocal_returned hargs s), run_bind_returned hcall]
  exact hset

/-- No event at all: nothing is set. -/
theorem run_thenSet_none {probe : Probe σ A} (hoffset : probe.offset = none) (slotId : Option Int)
    (s : σ) : (probe.thenSet slotId Emitted.none).run s = (.returned (), s) := by
  simp [Probe.thenSet, Emitted.none, hoffset, eventBits, run_bind_returned (run_ofOption_some _ s)]

/-- One event: its bit, counted from the slot number, is set. -/
theorem run_thenSet_one {probe : Probe σ A} {set : BitVec 32 → Comp Exn σ Unit}
    (hevent : probe.event = some set) {slotId : Option Int} {emitted : Emitted} {r : Int}
    (hone : emitted.result ++ probe.offset.toList ++ emitted.events = [r]) {b : Fin 32}
    (hb : r + slotId.getD 0 = b.val) (s : σ) :
    (probe.thenSet slotId emitted).run s = (set (oneHot b)).run s := by
  have hshift : shiftOne (r + slotId.getD 0) = some (oneHot b) := by
    have hlt := b.isLt
    rw [shiftOne, dif_pos (by omega)]
    congr
    omega
  have hbits : eventBits (slotId.getD 0) [r] = some (oneHot b) := by
    simp [eventBits, hshift]
  rw [Probe.thenSet, hone, hbits]
  show (if oneHot b = 0#32 then (pure () : Comp Exn σ Unit) else _).run s = _
  rw [if_neg (oneHot_ne_zero b), hevent]

end RtCharger.Net
