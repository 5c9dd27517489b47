import RtCharger.Lib.Effect
import RtCharger.Utilities.Text
import Mathlib.Logic.Function.Basic

namespace RtCharger.Termios

open Effect RtCharger.Utilities

/-!
# Command lines

`Cmd` sorts the words of a command line into a queue of positional arguments and a map of named
ones.  A word that begins with `--` is a name; the next word is its value, unless there is none
or it is a name itself.

* `scan` — the loop of the constructor, which takes one word or two in a round;
* `Item`, `render`, `WellFormed` — what a command line says, and how it is written;
* `new_render` — a command line is read back as what it says;
* `exists_wellFormed` — every list of words is a command line that says something;
* `getFromPos`, `getFromName`, `select` — how a command gets at its arguments.
-/

/-- `arg.rfind("--", 0) == 0`. -/
def isName (arg : Text) : Bool := ['-', '-'].isPrefixOf arg

/-- `Cmd`: the deque `q` and the map `m`. -/
structure Cmd where
  q : List Text
  m : Text → Option Text

namespace Cmd

/-- `q.push_back(arg)`. -/
def push (cmd : Cmd) (arg : Text) : Cmd := { cmd with q := cmd.q ++ [arg] }

/-- `m[name] = value`. -/
def assign (cmd : Cmd) (name value : Text) : Cmd :=
  { cmd with m := Function.update cmd.m name (some value) }

/-- The loop of `Cmd::Cmd` over the words from `argv[i]` on. -/
def scan : List Text → Cmd → Cmd
  | [], cmd => cmd
  | [arg], cmd =>
    if isName arg then cmd.assign (arg.drop 2) ['1'] else cmd.push arg
  | arg :: next :: rest, cmd =>
    if isName arg then
      if isName next then scan (next :: rest) (cmd.assign (arg.drop 2) ['1'])
      else scan rest (cmd.assign (arg.drop 2) next)
    else scan (next :: rest) (cmd.push arg)

/-- `Cmd::Cmd`.  `argv[0]` is the name of the command. -/
def new (argv : List Text) : Cmd := scan (argv.drop 1) ⟨[], fun _ => none⟩

/-! ### What a command line says -/

/-- A positional argument, a name with a value, or a name alone. -/
inductive Item where
  | positional (arg : Text)
  | pair (name value : Text)
  | flag (name : Text)
deriving DecidableEq, Repr

/-- The words of an item. -/
def Item.words : Item → List Text
  | .positional arg  => [arg]
  | .pair name value => ['-' :: '-' :: name, value]
  | .flag name       => ['-' :: '-' :: name]

/-- The words of a command line. -/
def render (items : List Item) : List Text := items.flatMap Item.words

/-- The positional arguments, in order. -/
def positionals (items : List Item) : List Text :=
  items.filterMap fun item => match item with
    | .positional arg => some arg
    | _               => none

/-- What the names are given, in order; a name alone is given `1`. -/
def bindings (items : List Item) : List (Text × Text) :=
  items.filterMap fun item => match item with
    | .positional _    => none
    | .pair name value => some (name, value)
    | .flag name       => some (name, ['1'])

/-- What the name is given last. -/
def lastValue (bs : List (Text × Text)) (name : Text) : Option Text :=
  (bs.reverse.find? fun b => decide (b.1 = name)).map Prod.snd

/-- There is no word left, or the next one is a name. -/
def NameNext : List Item → Prop
  | .positional _ :: _ => False
  | _                  => True

/-- No positional argument and no value begins with `--`, and what follows a name alone is
    nothing or a name. -/
def WellFormed : List Item → Prop
  | []                     => True
  | .positional arg :: is  => isName arg = false ∧ WellFormed is
  | .pair _ value :: is    => isName value = false ∧ WellFormed is
  | .flag _ :: is          => NameNext is ∧ WellFormed is

/-! ### Names -/

@[simp] theorem isName_dashes (name : Text) : isName ('-' :: '-' :: name) = true := by
  simp [isName]

/-- A name is written behind two dashes. -/
theorem eq_of_isName {arg : Text} (h : isName arg = true) : arg = '-' :: '-' :: arg.drop 2 := by
  obtain ⟨name, rfl⟩ := List.isPrefixOf_iff_prefix.mp h
  rfl

/-! ### Bindings -/

@[simp] theorem lastValue_nil (name : Text) : lastValue [] name = none := rfl

/-- One more binding at the end hides the earlier ones of its name. -/
theorem lastValue_snoc (bs : List (Text × Text)) (b : Text × Text) :
    lastValue (bs ++ [b]) = Function.update (lastValue bs) b.1 (some b.2) := by
  funext name
  unfold lastValue
  rw [List.reverse_append, List.reverse_singleton, List.singleton_append, List.find?_cons]
  by_cases h : b.1 = name
  · subst h
    simp
  · rw [Function.update_of_ne (Ne.symm h), decide_eq_false h]

/-! ### One round of the loop -/

theorem scan_positional {arg : Text} (h : isName arg = false) (rest : List Text) (cmd : Cmd) :
    scan (arg :: rest) cmd = scan rest (cmd.push arg) := by
  cases rest with
  | nil => simp [scan, h]
  | cons next rest => simp [scan, h]

theorem scan_pair (name : Text) {value : Text} (h : isName value = false) (rest : List Text)
    (cmd : Cmd) :
    scan (('-' :: '-' :: name) :: value :: rest) cmd = scan rest (cmd.assign name value) := by
  simp [scan, h]

theorem scan_flag (name : Text) {rest : List Text}
    (h : ∀ next, rest.head? = some next → isName next = true) (cmd : Cmd) :
    scan (('-' :: '-' :: name) :: rest) cmd = scan rest (cmd.assign name ['1']) := by
  cases rest with
  | nil => simp [scan]
  | cons next rest => simp [scan, h next rfl]

/-- The first word of the items is a name if that is required of them. -/
theorem isName_head_render {items : List Item} (h : NameNext items) {next : Text}
    (hnext : (render items).head? = some next) : isName next = true := by
  cases items with
  | nil => cases hnext
  | cons item is =>
    cases item with
    | positional arg => exact h.elim
    | pair name value =>
      cases hnext
      exact isName_dashes name
    | flag name =>
      cases hnext
      exact isName_dashes name

/-! ### Reading back -/

/-- **The loop** appends what the items say to what there is: one round for each item. -/
theorem scan_render {items : List Item} (h : WellFormed items) (q : List Text)
    (bs : List (Text × Text)) :
    scan (render items) ⟨q, lastValue bs⟩
      = ⟨q ++ positionals items, lastValue (bs ++ bindings items)⟩ := by
  induction items generalizing q bs with
  | nil => simp [render, scan, positionals, bindings]
  | cons item is ih =>
    cases item with
    | positional arg =>
      obtain ⟨harg, his⟩ := h
      show scan (arg :: render is) _ = _
      rw [scan_positional harg, push, ih his, List.append_assoc]
      rfl
    | pair name value =>
      obtain ⟨hvalue, his⟩ := h
      show scan (('-' :: '-' :: name) :: value :: render is) _ = _
      rw [scan_pair name hvalue, assign, ← lastValue_snoc bs (name, value), ih his,
        List.append_assoc]
      rfl
    | flag name =>
      obtain ⟨hnext, his⟩ := h
      show scan (('-' :: '-' :: name) :: render is) _ = _
      rw [scan_flag name (fun _ => isName_head_render hnext), assign,
        ← lastValue_snoc bs (name, ['1']), ih his, List.append_assoc]
      rfl

/-- **Command lines parse back**, whatever the order of their items: the deque holds the
    positional arguments in order, and the map gives each name the value it was given last,
    `1` where it stood alone, and nothing else. -/
theorem new_render (prog : Text) {items : List Item} (h : WellFormed items) :
    (new (prog :: render items)).q = positionals items ∧
      ∀ name, (new (prog :: render items)).m name = lastValue (bindings items) name := by
  have hscan := scan_render h [] []
  have hempty : (fun _ => none : Text → Option Text) = lastValue [] := rfl
  have hnew : new (prog :: render items) = ⟨positionals items, lastValue (bindings items)⟩ := by
    rw [new, List.drop_one, List.tail_cons, hempty, hscan]
    rfl
  rw [hnew]
  exact ⟨rfl, fun _ => rfl⟩

/-- `set --v 1 a --w --v 2 b`. -/
theorem new_render_set :
    (new (['s'] :: render [.pair ['v'] ['1'], .positional ['a'], .flag ['w'],
        .pair ['v'] ['2'], .positional ['b']])).q
      = positionals [.pair ['v'] ['1'], .positional ['a'], .flag ['w'], .pair ['v'] ['2'],
          .positional ['b']] ∧
    ∀ name, (new (['s'] :: render [.pair ['v'] ['1'], .positional ['a'], .flag ['w'],
        .pair ['v'] ['2'], .positional ['b']])).m name
      = lastValue (bindings [.pair ['v'] ['1'], .positional ['a'], .flag ['w'],
          .pair ['v'] ['2'], .positional ['b']]) name :=
  new_render ['s'] ⟨by decide, by decide, trivial, by decide, by decide, trivial⟩

/-- Items whose first word is a name, or that have none, may follow a name alone. -/
theorem nameNext_of_head {items : List Item} (h : WellFormed items)
    (hhead : ∀ next, (render items).head? = some next → isName next = true) : NameNext items := by
  cases items with
  | nil => trivial
  | cons item is =>
    cases item with
    | positional arg =>
      have hname : isName arg = true := hhead arg rfl
      rw [h.1] at hname
      cases hname
    | pair name value => trivial
    | flag name => trivial

/-- **Every list of words** is a command line that says something. -/
theorem exists_wellFormed : ∀ words : List Text, ∃ items, WellFormed items ∧ render items = words
  | [] => ⟨[], trivial, rfl⟩
  | [arg] => by
    by_cases harg : isName arg = true
    · refine ⟨[.flag (arg.drop 2)], ⟨trivial, trivial⟩, ?_⟩
      show ['-' :: '-' :: arg.drop 2] = [arg]
      rw [← eq_of_isName harg]
    · exact ⟨[.positional arg], ⟨Bool.eq_false_iff.mpr harg, trivial⟩, rfl⟩
  | arg :: next :: rest => by
    obtain ⟨items, hwf, hrender⟩ := exists_wellFormed (next :: rest)
    by_cases harg : isName arg = true
    · by_cases hnext : isName next = true
      · have hnameNext : NameNext items := by
          apply nameNext_of_head hwf
          rw [hrender]
          rintro _ ⟨⟩
          exact hnext
        refine ⟨.flag (arg.drop 2) :: items, ⟨hnameNext, hwf⟩, ?_⟩
        show ('-' :: '-' :: arg.drop 2) :: render items = _
        rw [hrender, ← eq_of_isName harg]
      · -- the next word is the value, and the rest is a command line of its own
        obtain ⟨items', hwf', hrender'⟩ := exists_wellFormed rest
        refine ⟨.pair (arg.drop 2) next :: items', ⟨Bool.eq_false_iff.mpr hnext, hwf'⟩, ?_⟩
        show ('-' :: '-' :: arg.drop 2) :: next :: render items' = _
        rw [hrender', ← eq_of_isName harg]
    · refine ⟨.positional arg :: items, ⟨Bool.eq_false_iff.mpr harg, hwf⟩, ?_⟩
      show arg :: render items = _
      rw [hrender]

/-! ### Getting at the arguments -/

/-- `Cmd::assertV`. -/
def assertV (predict : Bool) (msg : String) : Comp Exn Cmd Unit :=
  if predict then pure () else raise (.std msg)

/-- `Cmd::getFromPos`. -/
def getFromPos : Comp Exn Cmd Text := do
  match (← getState).q with
  | []        => raise (.std "too few args")
  | front :: q =>
    modifyState fun cmd => { cmd with q := q }
    pure front

/-- `Cmd::getFromName`. -/
def getFromName (name : Text) : Comp Exn Cmd Text := do
  let found := (← getState).m name
  assertV found.isSome ("named arg " ++ String.ofList name ++ " required")
  ofOption found

/-- `Cmd::getFrom`, where `none` is a null pointer. -/
def getFrom : Option Text → Comp Exn Cmd Text
  | none      => getFromPos
  | some name => getFromName name

/-- The valid keys in the message of `select`. -/
def validKeys : List Text → String
  | []          => ""
  | [key]       => String.ofList key
  | key :: keys => String.ofList key ++ "|" ++ validKeys keys

/-- `Cmd::select` of strings, up to the call of what was selected; `sel` is the map, in the order
    in which it is iterated. -/
def select {α : Type} (name : Option Text) (sel : List (Text × α)) : Comp Exn Cmd α := do
  let key ← getFrom name
  let found := sel.find? fun kvp => decide (kvp.1 = key)
  assertV found.isSome
    ("bad arg " ++ String.ofList key ++ ", valid are: [" ++ validKeys (sel.map Prod.fst) ++ "]")
  ofOption (found.map Prod.snd)

/-- The positional arguments are taken in order. -/
theorem run_getFrom_cons (front : Text) (q : List Text) (m : Text → Option Text) :
    (getFrom none).run ⟨front :: q, m⟩ = (.returned front, ⟨q, m⟩) := rfl

/-- After the last of them it is an error. -/
theorem run_getFrom_nil (m : Text → Option Text) :
    (getFrom none).run ⟨[], m⟩ = (.threw (.std "too few args"), ⟨[], m⟩) := rfl

/-- A named argument is there if it was given. -/
theorem run_getFrom_some (name : Text) (cmd : Cmd) :
    (getFrom (some name)).run cmd
      = match cmd.m name with
        | some value => (.returned value, cmd)
        | none       =>
          (.threw (.std ("named arg " ++ String.ofList name ++ " required")), cmd) := by
  rw [getFrom, getFromName, run_bind_returned (run_getState cmd)]
  cases cmd.m name with
  | none => rfl
  | some value => rfl

/-- What is selected is one of the values of the map. -/
theorem run_select_returned {α : Type} {name : Option Text} {cmd cmd' : Cmd} {key : Text}
    (hkey : (getFrom name).run cmd = (.returned key, cmd')) {sel : List (Text × α)} {a : α}
    (hfound : sel.find? (fun kvp => decide (kvp.1 = key)) = some (key, a)) :
    (select name sel).run cmd = (.returned a, cmd') := by
  rw [select, run_bind_returned hkey]
  simp only [hfound, Option.isSome_some]
  rfl

end Cmd

end RtCharger.Termios
