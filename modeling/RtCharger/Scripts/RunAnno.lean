import RtCharger.Scripts.Preset

namespace RtCharger.Scripts

open Effect

/-!
# Running the annotations

`run_anno.py`: the walk over the tree of a file, which runs the annotations of each commented
cursor before and after its children.  `get_commands` looks the kind of the cursor up in a
dictionary that has three kinds, for every comment.

* `getCommands`, `runCommands`, `dfs`, `runAnnotations` — the functions of the source;
* `run_visit_pre_iff`, `run_visit_post_iff` — what a visit does, and when it raises nothing.
-/

variable {Env : Type}

section Walk

variable (tools : Tools Env)

/-- The dictionary of `get_commands`. -/
def targetOf : CursorKind → Except PyErr Target
  | .classDecl   => .ok .class_
  | .constructor => .ok .constructor
  | .fieldDecl   => .ok .fieldDecl
  | _            => .error .keyError

/-- `get_commands`: the kind is looked up for each of the annotations. -/
def getCommands (kind : CursorKind) : Except PyErr (List (Anno Env)) :=
  (annos tools).filterM fun anno => do
    -- before it is asked whether the annotation is one for this kind
    let target ← targetOf kind
    pure (decide (target ∈ anno.targets))

/-- One line of `run_commands`: an annotation that is not in `g` is not evaluated. -/
def runCommand (cursor : Cursor) (action : Action) (g : List (Anno Env)) (e : AnnoExpr) :
    Comp PyErr (World Env) Unit :=
  match g.find? fun anno => anno.name = e.cmdName with
  | none      => pure ()
  | some anno => do
    let call ← ofExcept e.call
    match action with
    | .pre  => anno.invoke cursor call
    | .post => anno.runPost cursor call

/-- `run_commands`. -/
def runCommands (cursor : Cursor) (action : Action) (comment : List AnnoExpr)
    (g : List (Anno Env)) : Comp PyErr (World Env) Unit :=
  forEach comment (runCommand cursor action g)

/-- What `run_annotations` does with a pair that `dfs` yields; it yields none for a cursor without
    a comment. -/
def visit (cursor : Cursor) (action : Action) : Comp PyErr (World Env) Unit :=
  match cursor.info.comment with
  | none         => pure ()
  | some comment => do
    modifyState fun w => { w with visits := w.visits ++ [(cursor, action)] }
    let g ← ofExcept (getCommands tools cursor.info.kind)
    runCommands cursor action comment g

mutual

/-- `dfs`, in step with the loop that it feeds. -/
def dfs (fileName : String) : Cursor → Comp PyErr (World Env) Unit
  | .mk info children => do
    visit tools (.mk info children) .pre
    dfsChildren fileName children
    visit tools (.mk info children) .post

/-- The loop over the children: those in other files are skipped, with all that is below them. -/
def dfsChildren (fileName : String) : List Cursor → Comp PyErr (World Env) Unit
  | []            => pure ()
  | child :: rest => do
    match child.info.file with
      | none      => raise .attributeError
      | some name => if name ≠ fileName then pure () else dfs fileName child
    dfsChildren fileName rest

end

/-- `run_annotations`. -/
def runAnnotations (fileName : String) (tu : Cursor) : Comp PyErr (World Env) Unit :=
  dfs tools fileName tu

end Walk

/-! ### The contexts of `preset` -/

/-- The stack of `preset`. -/
def World.stack (w : World Env) : List Ctx := w.contexts "preset"

/-- The world with another stack, and other records. -/
def World.put (w : World Env) (stack : List Ctx) (visits : List (Cursor × Action))
    (posted : List Posted) (env : Env) : World Env :=
  ⟨Function.update w.contexts "preset" stack, visits, posted, env⟩

section Put

variable (w : World Env) (stack : List Ctx) (visits : List (Cursor × Action))
  (posted : List Posted) (env : Env)

@[simp] theorem stack_put : (w.put stack visits posted env).stack = stack := by
  show Function.update w.contexts "preset" stack "preset" = stack
  rw [Function.update_self]

@[simp] theorem visits_put : (w.put stack visits posted env).visits = visits := rfl

@[simp] theorem posted_put : (w.put stack visits posted env).posted = posted := rfl

@[simp] theorem env_put : (w.put stack visits posted env).env = env := rfl

@[simp] theorem put_put (stack' : List Ctx) (visits' : List (Cursor × Action))
    (posted' : List Posted) (env' : Env) :
    (w.put stack visits posted env).put stack' visits' posted' env'
      = w.put stack' visits' posted' env' := by
  rw [World.put, World.put, World.put, Function.update_idem]

@[simp] theorem put_self : w.put w.stack w.visits w.posted w.env = w := by
  rw [World.put, World.stack, Function.update_eq_self]

end Put

/-- The context on top is changed. -/
def onTop (f : Ctx → Ctx) : List Ctx → List Ctx
  | []        => []
  | top :: st => f top :: st

/-- Several notes are recorded. -/
def Ctx.appendAll (ctx : Ctx) (notes : List (String × Note)) : Ctx :=
  notes.foldl (fun c n => c.append n.1 n.2) ctx

/-- The stack, after notes were recorded on top of it. -/
def noted (notes : List (String × Note)) : List Ctx → List Ctx := onTop fun c => c.appendAll notes

@[simp] theorem noted_nil (st : List Ctx) : noted [] st = st := by
  cases st <;> rfl

theorem noted_append (notes notes' : List (String × Note)) (st : List Ctx) :
    noted (notes ++ notes') st = noted notes' (noted notes st) := by
  cases st with
  | nil => rfl
  | cons top st =>
    show (top.appendAll (notes ++ notes') :: st) = _
    rw [Ctx.appendAll, List.foldl_append]
    rfl

theorem noted_eq_nil_iff {notes : List (String × Note)} {st : List Ctx} :
    noted notes st = [] ↔ st = [] := by
  cases st with
  | nil => exact Iff.rfl
  | cons top st =>
    constructor
    · intro h
      cases h
    · intro h
      cases h

/-! ### The annotations of a comment -/

/-- What a `config` or a `use` records. -/
def AnnoExpr.fieldNote (e : AnnoExpr) : Option Note :=
  match e.call with
  | .error _ => none
  | .ok call =>
    if e.cmdName = "config" then (configArg call).map .config
    else if e.cmdName = "use" ∧ call.kwargs = [] then some (.use call.args)
    else none

/-- The arguments of a `preset`. -/
def AnnoExpr.presetArgs (e : AnnoExpr) : Option (List Val) :=
  match e.call with
  | .error _ => none
  | .ok call => if e.cmdName = "preset" ∧ call.kwargs = [] then some call.args else none

/-- The annotation can be called, if it is one for the kind of cursor. -/
def AnnoExpr.Callable (kind : CursorKind) (e : AnnoExpr) : Prop :=
  match kind with
  | .fieldDecl => (e.cmdName = "config" ∨ e.cmdName = "use") → e.fieldNote.isSome
  | .classDecl => e.cmdName = "preset" → e.presetArgs.isSome
  | _          => True

/-- The lines of the comment. -/
def Cursor.exprs (c : Cursor) : List AnnoExpr := c.info.comment.getD []

/-- The notes that the comment of a field records. -/
def Cursor.ownNotes (c : Cursor) : List (String × Note) :=
  if c.info.kind = .fieldDecl then
    (c.exprs.filterMap AnnoExpr.fieldNote).map fun n => (c.info.usr, n)
  else []

/-- The arguments of each `preset` in the comment of a class. -/
def Cursor.presetCalls (c : Cursor) : List (List Val) :=
  if c.info.kind = .classDecl then c.exprs.filterMap AnnoExpr.presetArgs else []

/-- The kinds of cursors whose comments can be read. -/
def CursorKind.Known (kind : CursorKind) : Prop :=
  kind = .classDecl ∨ kind = .constructor ∨ kind = .fieldDecl

/-- There is no comment, or it is that of a class, of a constructor or of a field, and its
    annotations can be called. -/
def Cursor.Readable (c : Cursor) : Prop :=
  ∀ comment, c.info.comment = some comment →
    c.info.kind.Known ∧ ∀ e ∈ comment, e.Callable c.info.kind

/-- The visit of a cursor, if it has a comment. -/
def Cursor.visited (c : Cursor) (action : Action) : List (Cursor × Action) :=
  if c.info.comment.isSome then [(c, action)] else []

section Visit

variable {tools : Tools Env} {cursor : Cursor} {e : AnnoExpr}
  {w w' : World Env}

/-- Only three kinds are in the dictionary. -/
theorem known_of_getCommands {kind : CursorKind} {g : List (Anno Env)}
    (h : getCommands tools kind = .ok g) : kind.Known := by
  cases kind with
  | classDecl => exact .inl rfl
  | constructor => exact .inr (.inl rfl)
  | fieldDecl => exact .inr (.inr rfl)
  | _ => cases h

theorem getCommands_field : getCommands tools .fieldDecl = .ok [configAnno, useAnno] := rfl

theorem getCommands_class : getCommands tools .classDecl = .ok [presetAnno tools] := rfl

theorem getCommands_constructor : getCommands tools .constructor = .ok [] := rfl

/-! ### One line of a comment -/

/-- A note can be recorded, since there is a context. -/
theorem run_appendNote (hstack : w.stack ≠ []) (note : Note) :
    (appendNote "preset" cursor note).run w
      = (.returned (),
          w.put (noted [(cursor.info.usr, note)] w.stack) w.visits w.posted w.env) := by
  obtain ⟨top, rest, hcons⟩ := List.exists_cons_of_ne_nil hstack
  have htop : w.contexts "preset" = top :: rest := hcons
  rw [hcons]
  show appendNote "preset" cursor note w = _
  rw [appendNote, htop]
  rfl

/-- What an annotation does in a visit. -/
def Anno.act (anno : Anno Env) (cursor : Cursor) (call : Call) :
    Action → Comp PyErr (World Env) Unit
  | .pre  => anno.invoke cursor call
  | .post => anno.runPost cursor call

section Lines

variable {action : Action} {g : List (Anno Env)} {anno : Anno Env} {call : Call}

/-- A line that names an annotation of `g`. -/
theorem run_line_iff (hfind : g.find? (fun a => a.name = e.cmdName) = some anno) :
    (runCommand cursor action g e).run w = (.returned (), w') ↔
      ∃ call, e.call = .ok call ∧ (anno.act cursor call action).run w = (.returned (), w') := by
  have hline : runCommand cursor action g e
      = ofExcept e.call >>= fun call => anno.act cursor call action := by
    rw [runCommand, hfind]
    cases action <;> rfl
  rw [hline, run_bind_returned_iff]
  constructor
  · rintro ⟨call, w₁, hcall, hact⟩
    obtain ⟨hok, rfl⟩ := run_ofExcept_returned_iff.mp hcall
    exact ⟨call, hok, hact⟩
  · rintro ⟨call, hok, hact⟩
    exact ⟨call, w, run_ofExcept_returned_iff.mpr ⟨hok, rfl⟩, hact⟩

/-- Any other line does nothing. -/
theorem run_line_none_iff (hfind : g.find? (fun a => a.name = e.cmdName) = none) :
    (runCommand cursor action g e).run w = (.returned (), w') ↔ w' = w := by
  rw [runCommand, hfind]
  exact returned_eq_iff

/-- `config` has one argument. -/
theorem run_config_iff (hstack : w.stack ≠ []) :
    (configAnno.act cursor call .pre).run w = (.returned (), w') ↔
      ∃ type, configArg call = some type ∧
        w' = w.put (noted [(cursor.info.usr, .config type)] w.stack) w.visits w.posted w.env := by
  show (config cursor call).run w = _ ↔ _
  unfold config
  cases configArg call with
  | none =>
    constructor
    · intro h
      cases h
    · rintro ⟨type, htype, -⟩
      cases htype
  | some type =>
    show (appendNote "preset" cursor (.config type)).run w = _ ↔ _
    rw [run_appendNote hstack, returned_eq_iff]
    simp

/-- `use` has no named arguments. -/
theorem run_use_iff (hstack : w.stack ≠ []) :
    (useAnno.act cursor call .pre).run w = (.returned (), w') ↔
      call.kwargs = [] ∧
        w' = w.put (noted [(cursor.info.usr, .use call.args)] w.stack) w.visits w.posted w.env := by
  show (use cursor call).run w = _ ↔ _
  rw [use, run_guarded_iff, run_appendNote hstack, returned_eq_iff]

/-- `preset` has no named arguments either, and makes a context. -/
theorem run_preset_iff :
    ((presetAnno tools).act cursor call .pre).run w = (.returned (), w') ↔
      call.kwargs = [] ∧ w' = w.put (Ctx.empty :: w.stack) w.visits w.posted w.env := by
  have hpush : ((presetAnno tools).act cursor call .pre).run w
      = (preset cursor call).run (w.put (Ctx.empty :: w.stack) w.visits w.posted w.env) := rfl
  rw [hpush, preset, run_guarded_iff, run_pure, returned_eq_iff]

end Lines

/-- The arguments of a line that records something have been evaluated. -/
theorem exists_call_of_fieldNote {note : Note} (h : e.fieldNote = some note) :
    ∃ call, e.call = .ok call := by
  cases hcall : e.call with
  | error err =>
    rw [AnnoExpr.fieldNote, hcall] at h
    cases h
  | ok call => exact ⟨call, rfl⟩

/-- The world after the note of a line. -/
def noteEffect (cursor : Cursor) (e : AnnoExpr) (w : World Env) : World Env :=
  w.put (noted (e.fieldNote.toList.map fun n => (cursor.info.usr, n)) w.stack) w.visits w.posted
    w.env

/-- A `config` or a `use` returns exactly if there is a note to record. -/
theorem run_noteLine_iff {g : List (Anno Env)} {anno : Anno Env}
    (hfind : g.find? (fun a => a.name = e.cmdName) = some anno)
    (hname : e.cmdName = "config" ∨ e.cmdName = "use")
    (hact : ∀ call, e.call = .ok call →
      ((anno.act cursor call .pre).run w = (.returned (), w') ↔
        ∃ note, e.fieldNote = some note ∧
          w' = w.put (noted [(cursor.info.usr, note)] w.stack) w.visits w.posted w.env)) :
    (runCommand cursor .pre g e).run w = (.returned (), w') ↔
      e.Callable .fieldDecl ∧ w' = noteEffect cursor e w := by
  rw [run_line_iff hfind]
  constructor
  · rintro ⟨call, hcall, hrun⟩
    obtain ⟨note, hnote, rfl⟩ := (hact call hcall).mp hrun
    refine ⟨fun _ => by rw [hnote]; rfl, ?_⟩
    rw [noteEffect, hnote]
    rfl
  · rintro ⟨hcallable, rfl⟩
    obtain ⟨note, hnote⟩ := Option.isSome_iff_exists.mp (hcallable hname)
    obtain ⟨call, hcall⟩ := exists_call_of_fieldNote hnote
    refine ⟨call, hcall, (hact call hcall).mpr ⟨note, hnote, ?_⟩⟩
    rw [noteEffect, hnote]
    rfl

/-- **A line of a field**, before its children; it needs a context if it records something. -/
theorem run_fieldLine_iff (hstack : e.cmdName = "config" ∨ e.cmdName = "use" → w.stack ≠ []) :
    (runCommand cursor .pre [configAnno, useAnno] e).run w = (.returned (), w') ↔
      e.Callable .fieldDecl ∧ w' = noteEffect cursor e w := by
  by_cases hconfig : e.cmdName = "config"
  · have hfind : [configAnno, useAnno].find? (fun a : Anno Env => a.name = e.cmdName)
        = some configAnno := by simp [configAnno, hconfig]
    refine run_noteLine_iff hfind (.inl hconfig) fun call hcall => ?_
    have hnote : e.fieldNote = (configArg call).map .config := by
      rw [AnnoExpr.fieldNote, hcall]
      exact if_pos hconfig
    rw [run_config_iff (hstack (.inl hconfig)), hnote]
    simp
  by_cases huse : e.cmdName = "use"
  · have hfind : [configAnno, useAnno].find? (fun a : Anno Env => a.name = e.cmdName)
        = some useAnno := by simp [configAnno, useAnno, huse]
    refine run_noteLine_iff hfind (.inr huse) fun call hcall => ?_
    have hnote : e.fieldNote = if call.kwargs = [] then some (.use call.args) else none := by
      rw [AnnoExpr.fieldNote, hcall]
      simp [huse]
    rw [run_use_iff (hstack (.inr huse)), hnote]
    by_cases hkwargs : call.kwargs = []
    · simp [hkwargs]
    · simp [hkwargs]
  · -- any other name is not in `g`, and has no note either
    have hfind : [configAnno, useAnno].find? (fun a : Anno Env => a.name = e.cmdName) = none := by
      simp [configAnno, useAnno, Ne.symm hconfig, Ne.symm huse]
    have hnote : e.fieldNote = none := by
      rw [AnnoExpr.fieldNote]
      split
      · rfl
      · rw [if_neg hconfig, if_neg fun h => huse h.1]
    have heffect : noteEffect cursor e w = w := by
      rw [noteEffect, hnote]
      exact (congrArg (w.put · w.visits w.posted w.env) (noted_nil w.stack)).trans (put_self w)
    have hcallable : e.Callable .fieldDecl := fun h => absurd h (not_or.mpr ⟨hconfig, huse⟩)
    rw [run_line_none_iff hfind, heffect, and_iff_right hcallable]

/-- The world after the context of a line. -/
def pushEffect (e : AnnoExpr) (w : World Env) : World Env :=
  w.put (e.presetArgs.toList.map (fun _ => Ctx.empty) ++ w.stack) w.visits w.posted w.env

/-- A line that calls `preset`. -/
theorem presetArgs_eq_some_iff {args : List Val} : e.presetArgs = some args ↔
    e.cmdName = "preset" ∧ ∃ call, e.call = .ok call ∧ call.kwargs = [] ∧ call.args = args := by
  rw [AnnoExpr.presetArgs]
  cases e.call with
  | error err => simp
  | ok call => simp [and_assoc]

theorem presetArgs_of_ne (hpreset : e.cmdName ≠ "preset") : e.presetArgs = none :=
  Option.eq_none_iff_forall_ne_some.mpr fun _ h => hpreset (presetArgs_eq_some_iff.mp h).1

/-- The only annotation of a class is found by its name. -/
theorem find_preset (tools : Tools Env) :
    [presetAnno tools].find? (fun a : Anno Env => a.name = e.cmdName)
    = if e.cmdName = "preset" then some (presetAnno tools) else none := by
  by_cases hpreset : e.cmdName = "preset"
  · simp [presetAnno, hpreset]
  · simp [presetAnno, hpreset, Ne.symm hpreset]

/-- **A line of a class**, before its children. -/
theorem run_classLine_iff :
    (runCommand cursor .pre [presetAnno tools] e).run w = (.returned (), w') ↔
      e.Callable .classDecl ∧ w' = pushEffect e w := by
  by_cases hpreset : e.cmdName = "preset"
  · have hfind := (find_preset tools).trans (if_pos hpreset)
    rw [run_line_iff hfind]
    constructor
    · rintro ⟨call, hcall, hact⟩
      obtain ⟨hkwargs, rfl⟩ := run_preset_iff.mp hact
      have hargs : e.presetArgs = some call.args :=
        presetArgs_eq_some_iff.mpr ⟨hpreset, call, hcall, hkwargs, rfl⟩
      refine ⟨fun _ => by rw [hargs]; rfl, ?_⟩
      rw [pushEffect, hargs]
      rfl
    · rintro ⟨hcallable, rfl⟩
      obtain ⟨args, hargs⟩ := Option.isSome_iff_exists.mp (hcallable hpreset)
      obtain ⟨-, call, hcall, hkwargs, -⟩ := presetArgs_eq_some_iff.mp hargs
      refine ⟨call, hcall, run_preset_iff.mpr ⟨hkwargs, ?_⟩⟩
      rw [pushEffect, hargs]
      rfl
  · have hfind := (find_preset tools).trans (if_neg hpreset)
    have heffect : pushEffect e w = w := by
      rw [pushEffect, presetArgs_of_ne hpreset]
      exact put_self w
    have hcallable : e.Callable .classDecl := fun h => absurd h hpreset
    rw [run_line_none_iff hfind, heffect, and_iff_right hcallable]

/-! ### A whole comment -/

theorem foldl_noteEffect (exprs : List AnnoExpr) (w : World Env) :
    exprs.foldl (fun w e => noteEffect cursor e w) w
      = w.put (noted ((exprs.filterMap AnnoExpr.fieldNote).map fun n => (cursor.info.usr, n))
          w.stack) w.visits w.posted w.env := by
  induction exprs generalizing w with
  | nil =>
    show w = w.put (noted [] w.stack) w.visits w.posted w.env
    rw [noted_nil, put_self]
  | cons e exprs ih =>
    rw [List.foldl_cons, ih, noteEffect, put_put, stack_put, ← noted_append]
    cases hnote : e.fieldNote <;> simp [hnote]

theorem foldl_pushEffect (exprs : List AnnoExpr) (w : World Env) :
    exprs.foldl (fun w e => pushEffect e w) w
      = w.put (List.replicate (exprs.filterMap AnnoExpr.presetArgs).length Ctx.empty ++ w.stack)
          w.visits w.posted w.env := by
  induction exprs generalizing w with
  | nil =>
    show w = w.put w.stack w.visits w.posted w.env
    rw [put_self]
  | cons e exprs ih =>
    rw [List.foldl_cons, ih, pushEffect, put_put, stack_put]
    cases hargs : e.presetArgs with
    | none => simp [hargs]
    | some args => simp [hargs, List.replicate_succ']

/-- The world when a cursor has been entered. -/
def World.entered (w : World Env) (cursor : Cursor) : World Env :=
  w.put (List.replicate cursor.presetCalls.length Ctx.empty ++ noted cursor.ownNotes w.stack)
    (w.visits ++ cursor.visited .pre) w.posted w.env

/-- A cursor with a comment is recorded, and then its kind is looked up. -/
theorem run_visit_iff {comment : List AnnoExpr} (hcomment : cursor.info.comment = some comment)
    (action : Action) :
    (visit tools cursor action).run w = (.returned (), w') ↔
      ∃ g, getCommands tools cursor.info.kind = .ok g ∧
        (runCommands cursor action comment g).run
          (w.put w.stack (w.visits ++ cursor.visited action) w.posted w.env)
            = (.returned (), w') := by
  have hvisited : cursor.visited action = [(cursor, action)] := by
    rw [Cursor.visited, hcomment]
    rfl
  have hlogged : w.put w.stack (w.visits ++ cursor.visited action) w.posted w.env
      = { w with visits := w.visits ++ [(cursor, action)] } := by
    rw [hvisited, World.put, World.stack, Function.update_eq_self]
  rw [hlogged, visit, hcomment, run_bind_returned (run_modifyState _ w), run_bind_returned_iff]
  constructor
  · rintro ⟨g, w₁, hg, hrun⟩
    obtain ⟨hok, rfl⟩ := run_ofExcept_returned_iff.mp hg
    exact ⟨g, hok, hrun⟩
  · rintro ⟨g, hok, hrun⟩
    exact ⟨g, _, run_ofExcept_returned_iff.mpr ⟨hok, rfl⟩, hrun⟩

/-- The annotations that are found for a known kind. -/
theorem getCommands_known (tools : Tools Env) {kind : CursorKind}
    (h : kind.Known) :
    ∃ g, getCommands tools kind = .ok g := by
  rcases h with rfl | rfl | rfl
  · exact ⟨_, getCommands_class⟩
  · exact ⟨_, getCommands_constructor⟩
  · exact ⟨_, getCommands_field⟩

/-- **The comment of a class**, before the children. -/
theorem run_classComment_pre_iff {comment : List AnnoExpr} :
    (runCommands cursor .pre comment [presetAnno tools]).run w = (.returned (), w') ↔
      (∀ e ∈ comment, e.Callable .classDecl) ∧
        w' = w.put (List.replicate (comment.filterMap AnnoExpr.presetArgs).length Ctx.empty
          ++ w.stack) w.visits w.posted w.env := by
  rw [← foldl_pushEffect]
  exact run_forEach_returned_iff (P := fun _ => True) (fun _ _ _ => trivial)
    (fun _ _ _ _ _ => run_classLine_iff) trivial

/-- **The comment of a field**, before the children; it needs a context if it records something. -/
theorem run_fieldComment_pre_iff {comment : List AnnoExpr}
    (hstack : ∀ e ∈ comment, e.cmdName = "config" ∨ e.cmdName = "use" → w.stack ≠ []) :
    (runCommands cursor .pre comment [configAnno, useAnno]).run w = (.returned (), w') ↔
      (∀ e ∈ comment, e.Callable .fieldDecl) ∧
        w' = w.put (noted ((comment.filterMap AnnoExpr.fieldNote).map fun n => (cursor.info.usr, n))
          w.stack) w.visits w.posted w.env := by
  -- a note does not take the context away that the next line needs
  have hkeep : ∀ (e : AnnoExpr) (w : World Env),
      (∀ e ∈ comment, e.cmdName = "config" ∨ e.cmdName = "use" → w.stack ≠ []) →
        ∀ e' ∈ comment, e'.cmdName = "config" ∨ e'.cmdName = "use" →
          (noteEffect cursor e w).stack ≠ [] := by
    intro e w hw e' he' hname
    rw [noteEffect, stack_put, Ne, noted_eq_nil_iff]
    exact hw e' he' hname
  rw [← foldl_noteEffect]
  exact run_forEach_returned_iff hkeep (fun e he _ _ hw => run_fieldLine_iff (hw e he)) hstack

/-- A comment none of whose lines does anything. -/
theorem run_idleComment_iff {comment : List AnnoExpr} {g : List (Anno Env)} {action : Action}
    (hline : ∀ e ∈ comment, ∀ w w' : World Env,
      (runCommand cursor action g e).run w = (.returned (), w') ↔ w' = w) :
    (runCommands cursor action comment g).run w = (.returned (), w') ↔ w' = w := by
  have hloop : (runCommands cursor action comment g).run w = (.returned (), w') ↔
      (∀ e ∈ comment, True) ∧ w' = w :=
    run_forEach_idle_iff fun e he w' => by rw [hline e he w w', true_and]
  exact hloop.trans (and_iff_right fun _ _ => trivial)

/-- **The comment of a constructor** has nothing that is run. -/
theorem run_constructorComment_iff {comment : List AnnoExpr} {action : Action} :
    (runCommands cursor action comment ([] : List (Anno Env))).run w = (.returned (), w') ↔
      w' = w :=
  run_idleComment_iff fun _ _ _ _ => run_line_none_iff List.find?_nil

/-- A field with a `config` or a `use`. -/
def Cursor.Records (c : Cursor) : Prop :=
  c.info.kind = .fieldDecl ∧ ∃ e ∈ c.exprs, e.cmdName = "config" ∨ e.cmdName = "use"

theorem exprs_of_comment {comment : List AnnoExpr} (h : cursor.info.comment = some comment) :
    cursor.exprs = comment := by
  rw [Cursor.exprs, h]
  rfl

/-- **A comment before the children.** -/
theorem run_comment_pre_iff {comment : List AnnoExpr} {g : List (Anno Env)}
    (hcomment : cursor.info.comment = some comment)
    (hg : getCommands tools cursor.info.kind = .ok g) (hstack : cursor.Records → w.stack ≠ []) :
    (runCommands cursor .pre comment g).run w = (.returned (), w') ↔
      (∀ e ∈ comment, e.Callable cursor.info.kind) ∧
        w' = w.put (List.replicate cursor.presetCalls.length Ctx.empty
          ++ noted cursor.ownNotes w.stack) w.visits w.posted w.env := by
  have hexprs := exprs_of_comment hcomment
  rcases known_of_getCommands hg with hkind | hkind | hkind
  · have hnotes : cursor.ownNotes = [] := by simp [Cursor.ownNotes, hkind]
    have hcalls : cursor.presetCalls = comment.filterMap AnnoExpr.presetArgs := by
      rw [Cursor.presetCalls, if_pos hkind, hexprs]
    rw [hkind, getCommands_class] at hg
    cases hg
    rw [run_classComment_pre_iff, hkind, hnotes, hcalls, noted_nil]
  · have hnotes : cursor.ownNotes = [] := by simp [Cursor.ownNotes, hkind]
    have hcalls : cursor.presetCalls = [] := by simp [Cursor.presetCalls, hkind]
    have hcallable : ∀ e ∈ comment, e.Callable cursor.info.kind := by
      rw [hkind]
      exact fun _ _ => trivial
    rw [hkind, getCommands_constructor] at hg
    cases hg
    rw [run_constructorComment_iff, and_iff_right hcallable, hnotes, hcalls, noted_nil]
    exact iff_of_eq (congrArg (w' = ·) (put_self w).symm)
  · have hnotes : cursor.ownNotes
        = (comment.filterMap AnnoExpr.fieldNote).map fun n => (cursor.info.usr, n) := by
      rw [Cursor.ownNotes, if_pos hkind, hexprs]
    have hcalls : cursor.presetCalls = [] := by simp [Cursor.presetCalls, hkind]
    rw [hkind, getCommands_field] at hg
    cases hg
    -- this is the only kind whose annotations need a context
    have hlines : ∀ e ∈ comment, e.cmdName = "config" ∨ e.cmdName = "use" → w.stack ≠ [] :=
      fun e he hname => hstack ⟨hkind, e, hexprs ▸ he, hname⟩
    rw [run_fieldComment_pre_iff hlines, hkind, hnotes, hcalls]
    rfl

/-- **A cursor before its children**: it returns exactly if the comment is readable, provided
    that a field which records something is in a context. -/
theorem run_visit_pre_iff (hstack : cursor.Records → w.stack ≠ []) :
    (visit tools cursor .pre).run w = (.returned (), w') ↔
      cursor.Readable ∧ w' = w.entered cursor := by
  cases hcomment : cursor.info.comment with
  | none =>
    have hreadable : cursor.Readable := by
      intro comment h
      rw [hcomment] at h
      cases h
    have hentered : w.entered cursor = w := by
      simp [World.entered, Cursor.presetCalls, Cursor.ownNotes, Cursor.exprs, Cursor.visited,
        hcomment]
    rw [visit, hcomment, hentered, and_iff_right hreadable]
    exact returned_eq_iff
  | some comment =>
    rw [run_visit_iff hcomment]
    constructor
    · rintro ⟨g, hg, hrun⟩
      obtain ⟨hcallable, rfl⟩ := (run_comment_pre_iff hcomment hg (by simpa using hstack)).mp hrun
      refine ⟨?_, by simp [World.entered]⟩
      intro comment' h
      rw [hcomment] at h
      cases h
      exact ⟨known_of_getCommands hg, hcallable⟩
    · rintro ⟨hreadable, rfl⟩
      obtain ⟨hknown, hcallable⟩ := hreadable comment hcomment
      obtain ⟨g, hg⟩ := getCommands_known tools hknown
      refine ⟨g, hg, (run_comment_pre_iff hcomment hg (by simpa using hstack)).mpr
        ⟨hcallable, by simp [World.entered]⟩⟩

/-! ### After the children -/

/-- The post actions at the end of a class, with the contexts that were made for it. -/
def Cursor.postedAt (c : Cursor) (ctxs : List Ctx) : List Posted :=
  List.zipWith (fun args ctx => ⟨c, args, some ctx⟩) c.presetCalls ctxs

theorem run_onEnv_returned_iff {α : Type} {c : Comp PyErr Env α} {a : α} :
    (onEnv c).run w = (.returned a, w') ↔
      ∃ env, c.run w.env = (.returned a, env) ∧ w' = { w with env := env } := by
  show onEnv c w = _ ↔ ∃ env, c w.env = _ ∧ _
  rw [onEnv]
  obtain ⟨o, env⟩ := c w.env
  constructor
  · intro h
    cases h
    exact ⟨env, rfl, rfl⟩
  · rintro ⟨env', h, rfl⟩
    cases h
    rfl

/-- The end of a `preset` uses its context and drops it. -/
theorem run_presetEnd_iff {call : Call} {ctx : Ctx} {rest : List Ctx} (hkwargs : call.kwargs = [])
    (hstack : w.stack = ctx :: rest) :
    ((presetAnno tools).act cursor call .post).run w = (.returned (), w') ↔
      ∃ env, (post tools cursor call.args (some ctx)).run w.env = (.returned (), env) ∧
        w' = w.put rest w.visits (w.posted ++ [⟨cursor, call.args, some ctx⟩]) env := by
  have htop : w.contexts "preset" = ctx :: rest := hstack
  have hhead : (w.contexts "preset").head? = some ctx := congrArg List.head? htop
  -- the record is made before `post` runs, and stays if it raises
  have hcalled : ((presetAnno tools).act cursor call .post).run w
      = (onEnv (post tools cursor call.args (w.contexts "preset").head?) >>= fun _ =>
          popContext "preset").run
            { w with
              posted := w.posted ++ [⟨cursor, call.args, (w.contexts "preset").head?⟩] } := by
    show (postPreset tools cursor call >>= fun _ => popContext "preset").run w = _
    rw [postPreset, if_pos hkwargs]
    rfl
  have hpop : ∀ env, (popContext "preset").run
        { w with posted := w.posted ++ [⟨cursor, call.args, some ctx⟩], env := env }
      = (.returned (),
          w.put rest w.visits (w.posted ++ [⟨cursor, call.args, some ctx⟩]) env) := by
    intro env
    show popContext "preset" ⟨w.contexts, w.visits, _, env⟩ = _
    rw [popContext, htop]
    rfl
  rw [hcalled, hhead, run_bind_returned_iff]
  constructor
  · rintro ⟨_, w₁, hrun, hend⟩
    obtain ⟨env, hpost, rfl⟩ := run_onEnv_returned_iff.mp hrun
    rw [hpop, returned_eq_iff] at hend
    exact ⟨env, hpost, hend⟩
  · rintro ⟨env, hpost, rfl⟩
    exact ⟨(), _, run_onEnv_returned_iff.mpr ⟨env, hpost, rfl⟩, hpop env⟩

/-- A `preset` of a class, after its children. -/
theorem run_presetLine_post_iff {args : List Val} {ctx : Ctx} {rest : List Ctx}
    (hargs : e.presetArgs = some args) (hstack : w.stack = ctx :: rest) :
    (runCommand cursor .post [presetAnno tools] e).run w = (.returned (), w') ↔
      ∃ env, (post tools cursor args (some ctx)).run w.env = (.returned (), env) ∧
        w' = w.put rest w.visits (w.posted ++ [⟨cursor, args, some ctx⟩]) env := by
  obtain ⟨hpreset, call, hcall, hkwargs, rfl⟩ := presetArgs_eq_some_iff.mp hargs
  rw [run_line_iff ((find_preset tools).trans (if_pos hpreset))]
  constructor
  · rintro ⟨call', hcall', hact⟩
    rw [hcall] at hcall'
    cases hcall'
    exact (run_presetEnd_iff hkwargs hstack).mp hact
  · intro hpost
    exact ⟨call, hcall, (run_presetEnd_iff hkwargs hstack).mpr hpost⟩

/-- Any other line of a class does nothing there. -/
theorem run_otherLine_post_iff (hcallable : e.Callable .classDecl) (hargs : e.presetArgs = none) :
    (runCommand cursor .post [presetAnno tools] e).run w = (.returned (), w') ↔ w' = w := by
  have hpreset : e.cmdName ≠ "preset" := by
    intro h
    have hsome := hcallable h
    rw [hargs] at hsome
    cases hsome
  exact run_line_none_iff ((find_preset tools).trans (if_neg hpreset))

/-- **The comment of a class**, after the children: each of its contexts is used and dropped. -/
theorem run_classComment_post_iff {comment : List AnnoExpr} {ctxs rest : List Ctx}
    (hcallable : ∀ e ∈ comment, e.Callable .classDecl)
    (hlen : ctxs.length = (comment.filterMap AnnoExpr.presetArgs).length)
    (hstack : w.stack = ctxs ++ rest) :
    (runCommands cursor .post comment [presetAnno tools]).run w = (.returned (), w') ↔
      ∃ env, (runPosts tools ((comment.filterMap AnnoExpr.presetArgs).zipWith
            (fun args ctx => ⟨cursor, args, some ctx⟩) ctxs)).run w.env = (.returned (), env) ∧
        w' = w.put rest w.visits (w.posted ++ (comment.filterMap AnnoExpr.presetArgs).zipWith
            (fun args ctx => ⟨cursor, args, some ctx⟩) ctxs) env := by
  induction comment generalizing w ctxs with
  | nil =>
    have hnil : ctxs = [] := List.eq_nil_of_length_eq_zero hlen
    subst hnil
    have hrest : rest = w.stack := hstack.symm
    subst hrest
    constructor
    · intro h
      cases h
      refine ⟨_, rfl, ?_⟩
      rw [List.filterMap_nil, List.zipWith_nil_left, List.append_nil, put_self]
    · rintro ⟨env, henv, rfl⟩
      cases henv
      rw [List.filterMap_nil, List.zipWith_nil_left, List.append_nil, put_self]
      rfl
  | cons e comment ih =>
    obtain ⟨he, hcomment⟩ := List.forall_mem_cons.mp hcallable
    rw [runCommands, run_forEach_cons_iff]
    -- a line without a call made no context, and takes none
    cases hargs : e.presetArgs with
    | none =>
      have hfilter : (e :: comment).filterMap AnnoExpr.presetArgs
          = comment.filterMap AnnoExpr.presetArgs := List.filterMap_cons_none hargs
      rw [hfilter] at hlen ⊢
      rw [← ih hcomment hlen hstack]
      constructor
      · rintro ⟨w₁, hline, hrun⟩
        obtain rfl := (run_otherLine_post_iff he hargs).mp hline
        exact hrun
      · intro hrun
        exact ⟨w, (run_otherLine_post_iff he hargs).mpr rfl, hrun⟩
    | some args =>
      have hfilter : (e :: comment).filterMap AnnoExpr.presetArgs
          = args :: comment.filterMap AnnoExpr.presetArgs := List.filterMap_cons_some hargs
      rw [hfilter] at hlen ⊢
      -- the first line takes the context on top, which the last one made
      obtain ⟨ctx, ctxs, rfl⟩ := List.exists_cons_of_length_eq_add_one hlen
      have hrest : ctxs.length = (comment.filterMap AnnoExpr.presetArgs).length :=
        Nat.succ.inj hlen
      have hrun : ∀ env, (runCommands cursor .post comment [presetAnno tools]).run
            (w.put (ctxs ++ rest) w.visits (w.posted ++ [⟨cursor, args, some ctx⟩]) env)
              = (.returned (), w') ↔ _ :=
        fun env => ih hcomment hrest (stack_put ..)
      rw [List.zipWith_cons_cons]
      constructor
      · rintro ⟨w₁, hline, hcomment⟩
        obtain ⟨env, hpost, rfl⟩ := (run_presetLine_post_iff hargs hstack).mp hline
        obtain ⟨env', hposts, rfl⟩ := (hrun env).mp hcomment
        refine ⟨env', run_forEach_cons_iff.mpr ⟨env, hpost, hposts⟩, ?_⟩
        rw [put_put, visits_put, posted_put, List.append_assoc, List.singleton_append]
      · rintro ⟨env', hposts, rfl⟩
        obtain ⟨env, hpost, hposts⟩ := run_forEach_cons_iff.mp hposts
        refine ⟨_, (run_presetLine_post_iff hargs hstack).mpr ⟨env, hpost, rfl⟩,
          (hrun env).mpr ⟨env', hposts, ?_⟩⟩
        rw [put_put, visits_put, posted_put, List.append_assoc, List.singleton_append]

/-- Without contexts of its own, a cursor has no post action. -/
theorem idle_post_iff {ctxs rest : List Ctx} (hcalls : cursor.presetCalls = [])
    (hlen : ctxs.length = cursor.presetCalls.length) (hstack : w.stack = ctxs ++ rest)
    (visits : List (Cursor × Action)) :
    w' = w.put w.stack visits w.posted w.env ↔
      ∃ env, (runPosts tools (cursor.postedAt ctxs)).run w.env = (.returned (), env) ∧
        w' = w.put rest visits (w.posted ++ cursor.postedAt ctxs) env := by
  have hnil : ctxs = [] := List.eq_nil_of_length_eq_zero (hlen.trans (congrArg List.length hcalls))
  subst hnil
  rw [List.nil_append] at hstack
  rw [Cursor.postedAt, hcalls, List.zipWith_nil_left, List.append_nil, hstack]
  constructor
  · intro h
    exact ⟨w.env, rfl, h⟩
  · rintro ⟨env, henv, h⟩
    cases henv
    exact h

/-- A line of a field, after the children: its arguments are evaluated once more. -/
theorem run_fieldLine_post_iff (hcallable : e.Callable .fieldDecl) :
    (runCommand cursor .post [configAnno, useAnno] e).run w = (.returned (), w') ↔ w' = w := by
  cases hfind : [configAnno, useAnno].find? (fun a : Anno Env => a.name = e.cmdName) with
  | none => exact run_line_none_iff hfind
  | some anno =>
    have hmem : anno = configAnno ∨ anno = useAnno := by simpa using List.mem_of_find?_eq_some hfind
    have hname : anno.name = e.cmdName := by simpa using List.find?_some hfind
    have hfield : e.cmdName = "config" ∨ e.cmdName = "use" :=
      hmem.imp (fun h => by rw [← hname, h]; rfl) (fun h => by rw [← hname, h]; rfl)
    have hidle : ∀ call, (anno.act cursor call .post).run w = (.returned (), w) := by
      intro call
      rcases hmem with rfl | rfl <;> rfl
    rw [run_line_iff hfind]
    constructor
    · rintro ⟨call, -, hact⟩
      rw [hidle call] at hact
      cases hact
      rfl
    · rintro rfl
      obtain ⟨note, hnote⟩ := Option.isSome_iff_exists.mp (hcallable hfield)
      obtain ⟨call, hcall⟩ := exists_call_of_fieldNote hnote
      exact ⟨call, hcall, hidle call⟩

/-- **A comment after the children.** -/
theorem run_comment_post_iff {comment : List AnnoExpr} {g : List (Anno Env)} {ctxs rest : List Ctx}
    (hcomment : cursor.info.comment = some comment)
    (hg : getCommands tools cursor.info.kind = .ok g)
    (hcallable : ∀ e ∈ comment, e.Callable cursor.info.kind)
    (hlen : ctxs.length = cursor.presetCalls.length) (hstack : w.stack = ctxs ++ rest) :
    (runCommands cursor .post comment g).run w = (.returned (), w') ↔
      ∃ env, (runPosts tools (cursor.postedAt ctxs)).run w.env = (.returned (), env) ∧
        w' = w.put rest w.visits (w.posted ++ cursor.postedAt ctxs) env := by
  have hexprs := exprs_of_comment hcomment
  rcases known_of_getCommands hg with hkind | hkind | hkind
  · have hcalls : cursor.presetCalls = comment.filterMap AnnoExpr.presetArgs := by
      rw [Cursor.presetCalls, if_pos hkind, hexprs]
    rw [hkind, getCommands_class] at hg
    cases hg
    rw [hkind] at hcallable
    rw [Cursor.postedAt, hcalls]
    exact run_classComment_post_iff hcallable (hcalls ▸ hlen) hstack
  · have hcalls : cursor.presetCalls = [] := by simp [Cursor.presetCalls, hkind]
    rw [hkind, getCommands_constructor] at hg
    cases hg
    rw [run_constructorComment_iff]
    rw [← idle_post_iff hcalls hlen hstack, put_self]
  · have hcalls : cursor.presetCalls = [] := by simp [Cursor.presetCalls, hkind]
    rw [hkind, getCommands_field] at hg
    cases hg
    rw [hkind] at hcallable
    rw [run_idleComment_iff fun e he _ _ => run_fieldLine_post_iff (hcallable e he)]
    rw [← idle_post_iff hcalls hlen hstack, put_self]

/-- **A cursor after its children**: the contexts that were made for it are on top. -/
theorem run_visit_post_iff {ctxs rest : List Ctx} (hreadable : cursor.Readable)
    (hlen : ctxs.length = cursor.presetCalls.length) (hstack : w.stack = ctxs ++ rest) :
    (visit tools cursor .post).run w = (.returned (), w') ↔
      ∃ env, (runPosts tools (cursor.postedAt ctxs)).run w.env = (.returned (), env) ∧
        w' = w.put rest (w.visits ++ cursor.visited .post) (w.posted ++ cursor.postedAt ctxs)
          env := by
  cases hcomment : cursor.info.comment with
  | none =>
    have hcalls : cursor.presetCalls = [] := by
      simp [Cursor.presetCalls, Cursor.exprs, hcomment]
    have hvisited : cursor.visited .post = [] := by simp [Cursor.visited, hcomment]
    have hidle : (visit tools cursor .post).run w = (.returned (), w') ↔ w' = w := by
      rw [visit, hcomment]
      exact returned_eq_iff
    rw [hidle, hvisited, List.append_nil]
    rw [← idle_post_iff hcalls hlen hstack, put_self]
  | some comment =>
    obtain ⟨hknown, hcallable⟩ := hreadable comment hcomment
    obtain ⟨g, hg⟩ := getCommands_known tools hknown
    have hcommands : (runCommands cursor .post comment g).run
          (w.put w.stack (w.visits ++ cursor.visited .post) w.posted w.env)
            = (.returned (), w') ↔ _ :=
      run_comment_post_iff hcomment hg hcallable hlen ((stack_put ..).trans hstack)
    rw [env_put, visits_put, posted_put] at hcommands
    simp only [put_put] at hcommands
    rw [run_visit_iff hcomment, ← hcommands]
    constructor
    · rintro ⟨g', hg', hrun⟩
      rw [hg] at hg'
      cases hg'
      exact hrun
    · intro hrun
      exact ⟨g, hg, hrun⟩

end Visit

end RtCharger.Scripts
