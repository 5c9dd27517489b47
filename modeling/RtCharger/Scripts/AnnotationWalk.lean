import RtCharger.Scripts.RunAnno

namespace RtCharger.Scripts

open Effect

/-!
# The walk over a file

What the walk comes to can be told from the tree alone: which cursors are visited, in which
contexts the fields are recorded, and which post actions are called with them.  The notes of a
field go up the tree to the next class with a `preset`, which keeps them; nothing else does.

* `report` — the walk, told from the tree;
* `fileVisits` — every cursor of the file that has a comment, before and after what is below it;
* `Scoped` — a field that records something is in a class with a `preset`;
* `run_dfs_iff` — **the walk** over a tree, from any stack of contexts: one lemma for a tree and one
  for a list of trees, by induction on both;
* `visits_eq_iff` — when the visits are all that there are.
-/

variable {Env : Type}

/-! ### What is to be expected -/

/-- What a walk leaves behind: the visits, the notes that no class of the tree has kept, and the
    post actions. -/
structure Report where
  visits : List (Cursor × Action)
  notes : List (String × Note)
  posted : List Posted

namespace Report

def empty : Report := ⟨[], [], []⟩

def append (r r' : Report) : Report :=
  ⟨r.visits ++ r'.visits, r.notes ++ r'.notes, r.posted ++ r'.posted⟩

theorem empty_append (r : Report) : empty.append r = r := rfl

end Report

/-- The contexts of a class in which notes were recorded: those on top of it get them. -/
def Cursor.contexts (c : Cursor) (notes : List (String × Note)) : List Ctx :=
  noted notes (List.replicate c.presetCalls.length Ctx.empty)

/-- What a walk over its children leaves behind, with the cursor around it: a class with a `preset`
    keeps the notes for its post action. -/
def Report.within (r : Report) (c : Cursor) : Report where
  visits := c.visited .pre ++ r.visits ++ c.visited .post
  notes := c.ownNotes ++ if c.presetCalls = [] then r.notes else []
  posted := r.posted ++ c.postedAt (c.contexts r.notes)

section Spec

variable (fileName : String)

mutual

/-- The walk over a tree. -/
def report : Cursor → Report
  | .mk info children => (reportChildren children).within (.mk info children)

/-- The walk over the children that are in the file. -/
def reportChildren : List Cursor → Report
  | []            => .empty
  | child :: rest =>
    (if child.info.file = some fileName then report child else .empty).append (reportChildren rest)

end

mutual

/-- The cursors that are reached. -/
def reached : Cursor → List Cursor
  | .mk info children => .mk info children :: reachedChildren children

def reachedChildren : List Cursor → List Cursor
  | []            => []
  | child :: rest =>
    (if child.info.file = some fileName then reached child else []) ++ reachedChildren rest

end

mutual

/-- The visits of all cursors of the file, wherever they are. -/
def fileVisits : Cursor → List (Cursor × Action)
  | .mk info children =>
    (Cursor.mk info children).visited .pre ++ fileVisitsChildren children
      ++ (Cursor.mk info children).visited .post

def fileVisitsChildren : List Cursor → List (Cursor × Action)
  | []                        => []
  | .mk info children :: rest =>
    -- what is below a cursor of another file counts as well
    (if info.file = some fileName then fileVisits (.mk info children)
      else fileVisitsChildren children) ++ fileVisitsChildren rest

end

/-- A class with a `preset`. -/
def Cursor.Presets (c : Cursor) : Prop :=
  c.info.kind = .classDecl ∧ ∃ e ∈ c.exprs, e.cmdName = "preset"

mutual

/-- Every `config` and every `use` of a field is in a class with a `preset`; `inside` tells that
    there is one around the tree. -/
def Scoped : Cursor → Prop → Prop
  | .mk info children, inside =>
    ((Cursor.mk info children).Records → inside) ∧
      ScopedChildren children (inside ∨ (Cursor.mk info children).Presets)

def ScopedChildren : List Cursor → Prop → Prop
  | [], _                 => True
  | child :: rest, inside =>
    (child.info.file = some fileName → Scoped child inside) ∧ ScopedChildren rest inside

end

/-- The walk can pass the cursor: its comment is readable, and its children are in a file. -/
def Cursor.Passable (c : Cursor) : Prop :=
  c.Readable ∧ ∀ child ∈ c.children, child.info.file ≠ none

/-- No comment of the file is below a child that is in another file. -/
def Cursor.Unshadowed (c : Cursor) : Prop :=
  ∀ child ∈ c.children, child.info.file ≠ some fileName →
    fileVisitsChildren fileName child.children = []

end Spec

/-! ### Reports and worlds -/

section Comes

variable {tools : Tools Env} {cursor : Cursor} {r r' : Report}
  {w w' : World Env}

/-- The world after what a report tells. -/
def World.after (w : World Env) (r : Report) (env : Env) : World Env :=
  w.put (noted r.notes w.stack) (w.visits ++ r.visits) (w.posted ++ r.posted) env

/-- The world has become what a report tells, and none of the post actions has raised. -/
def Comes (tools : Tools Env) (w : World Env) (r : Report)
    (w' : World Env) : Prop :=
  ∃ env, (runPosts tools r.posted).run w.env = (.returned (), env) ∧ w' = w.after r env

theorem comes_empty_iff : Comes tools w .empty w' ↔ w' = w := by
  have hafter : w.after .empty w.env = w := by
    rw [World.after, Report.empty, noted_nil, List.append_nil, List.append_nil, put_self]
  constructor
  · rintro ⟨env, henv, rfl⟩
    cases henv
    exact hafter
  · rintro rfl
    exact ⟨w'.env, rfl, hafter.symm⟩

theorem after_append (w : World Env) (r r' : Report) (env env' : Env) :
    w.after (r.append r') env' = (w.after r env).after r' env' := by
  rw [World.after, World.after, World.after, put_put, stack_put, visits_put, posted_put,
    ← noted_append, List.append_assoc, List.append_assoc]
  rfl

theorem comes_append_iff : Comes tools w (r.append r') w' ↔
    ∃ w₁, Comes tools w r w₁ ∧ Comes tools w₁ r' w' := by
  constructor
  · rintro ⟨env', hposts, rfl⟩
    obtain ⟨env, hpost, hpost'⟩ := run_forEach_append_iff.mp hposts
    exact ⟨w.after r env, ⟨env, hpost, rfl⟩, env', hpost', after_append ..⟩
  · rintro ⟨w₁, ⟨env, hpost, rfl⟩, env', hpost', rfl⟩
    exact ⟨env', run_forEach_append_iff.mpr ⟨env, hpost, hpost'⟩, (after_append ..).symm⟩

/-- Contexts are neither made nor dropped. -/
theorem Comes.stack_eq_nil_iff (h : Comes tools w r w') : w'.stack = [] ↔ w.stack = [] := by
  obtain ⟨env, -, rfl⟩ := h
  rw [World.after, stack_put, noted_eq_nil_iff]

theorem length_noted (notes : List (String × Note)) (st : List Ctx) :
    (noted notes st).length = st.length := by
  cases st <;> rfl

theorem length_contexts (notes : List (String × Note)) :
    (cursor.contexts notes).length = cursor.presetCalls.length := by
  rw [Cursor.contexts, length_noted, List.length_replicate]

/-- **The notes of the children** go to the context of their class, or past it to the one below. -/
theorem stack_within (notes : List (String × Note)) (st : List Ctx) :
    noted notes (List.replicate cursor.presetCalls.length Ctx.empty ++ noted cursor.ownNotes st)
      = cursor.contexts notes
        ++ noted (cursor.ownNotes ++ if cursor.presetCalls = [] then notes else []) st := by
  rw [Cursor.contexts]
  cases hcalls : cursor.presetCalls with
  | nil =>
    -- it has no context: the notes go to the one that its own go to
    rw [if_pos rfl, noted_append]
    rfl
  | cons args calls =>
    rw [if_neg (List.cons_ne_nil _ _), List.append_nil]
    rfl

/-- **A cursor around the walk over its children.** -/
theorem comes_within_iff (hreadable : cursor.Readable) :
    (∃ w₂, Comes tools (w.entered cursor) r w₂ ∧
        (visit tools cursor .post).run w₂ = (.returned (), w')) ↔
      Comes tools w (r.within cursor) w' := by
  have hpost : ∀ env, (visit tools cursor .post).run ((w.entered cursor).after r env)
      = (.returned (), w') ↔ _ := fun env =>
    run_visit_post_iff hreadable (length_contexts r.notes) (by
      rw [World.after, stack_put, World.entered, stack_put]
      exact stack_within r.notes w.stack)
  -- what the post action leaves on the stack is what was there, with the notes that went past
  have hend : ∀ env env', ((w.entered cursor).after r env).put
        (noted (r.within cursor).notes w.stack)
        (((w.entered cursor).after r env).visits ++ cursor.visited .post)
        (((w.entered cursor).after r env).posted ++ cursor.postedAt (cursor.contexts r.notes)) env'
      = w.after (r.within cursor) env' := by
    intro env env'
    simp [World.after, World.entered, Report.within]
  constructor
  · rintro ⟨w₂, ⟨env, hposts, rfl⟩, hrun⟩
    obtain ⟨env', hown, rfl⟩ := (hpost env).mp hrun
    exact ⟨env', run_forEach_append_iff.mpr ⟨env, hposts, hown⟩, hend env env'⟩
  · rintro ⟨env', hposts, rfl⟩
    obtain ⟨env, hposts, hown⟩ := run_forEach_append_iff.mp hposts
    exact ⟨_, ⟨env, hposts, rfl⟩, (hpost env).mpr ⟨env', hown, (hend env env').symm⟩⟩

end Comes

/-! ### The walk -/

section Walk

variable {tools : Tools Env} {fileName : String}

theorem forall_reached_iff {P : Cursor → Prop} {info : Info} {children : List Cursor} :
    (∀ c ∈ reached fileName (.mk info children), P c) ↔
      P (.mk info children) ∧ ∀ c ∈ reachedChildren fileName children, P c := by
  rw [reached, List.forall_mem_cons]

theorem forall_reachedChildren_iff {P : Cursor → Prop} {child : Cursor} {rest : List Cursor} :
    (∀ c ∈ reachedChildren fileName (child :: rest), P c) ↔
      (child.info.file = some fileName → ∀ c ∈ reached fileName child, P c) ∧
        ∀ c ∈ reachedChildren fileName rest, P c := by
  rw [reachedChildren, List.forall_mem_append]
  split_ifs with hfile
  · rw [forall_prop_of_true hfile]
  · simp [hfile]

section Children

variable {child : Cursor} {rest : List Cursor}

theorem run_dfsChildren_lost (h : child.info.file = none) {w : World Env} :
    (dfsChildren tools fileName (child :: rest)).run w = (.threw .attributeError, w) := by
  rw [dfsChildren, h]
  rfl

theorem dfsChildren_skipped {name : String} (h : child.info.file = some name)
    (hname : name ≠ fileName) :
    dfsChildren tools fileName (child :: rest) = dfsChildren tools fileName rest := by
  rw [dfsChildren, h]
  exact if_pos hname

theorem dfsChildren_walked (h : child.info.file = some fileName) :
    dfsChildren tools fileName (child :: rest)
      = dfs tools fileName child >>= fun _ => dfsChildren tools fileName rest := by
  rw [dfsChildren, h]
  exact if_neg (not_not.mpr rfl)

/-- **A child that is walked**, and then the rest, from wherever the child leaves off. -/
theorem run_walked_iff {P Q : Prop} {w w' : World Env} (h : child.info.file = some fileName)
    (hchild : ∀ w₁, (dfs tools fileName child).run w = (.returned (), w₁) ↔
      P ∧ Comes tools w (report fileName child) w₁)
    (hrest : ∀ w₁, Comes tools w (report fileName child) w₁ →
      ((dfsChildren tools fileName rest).run w₁ = (.returned (), w') ↔
        Q ∧ Comes tools w₁ (reportChildren fileName rest) w')) :
    (dfsChildren tools fileName (child :: rest)).run w = (.returned (), w') ↔
      (P ∧ Q) ∧
        Comes tools w ((report fileName child).append (reportChildren fileName rest)) w' := by
  rw [dfsChildren_walked h, run_bind_returned_iff, comes_append_iff]
  constructor
  · rintro ⟨_, w₁, hdfs, hloop⟩
    obtain ⟨hp, hcomes⟩ := (hchild w₁).mp hdfs
    obtain ⟨hq, hcomes'⟩ := (hrest w₁ hcomes).mp hloop
    exact ⟨⟨hp, hq⟩, w₁, hcomes, hcomes'⟩
  · rintro ⟨⟨hp, hq⟩, w₁, hcomes, hcomes'⟩
    exact ⟨(), w₁, (hchild w₁).mpr ⟨hp, hcomes⟩, (hrest w₁ hcomes).mpr ⟨hq, hcomes'⟩⟩

end Children

/-- A readable class with a `preset` has a context. -/
theorem presetCalls_ne_nil {c : Cursor} (hreadable : c.Readable) (hpresets : c.Presets) :
    c.presetCalls ≠ [] := by
  obtain ⟨hkind, e, he, hname⟩ := hpresets
  cases hcomment : c.info.comment with
  | none =>
    rw [Cursor.exprs, hcomment] at he
    cases he
  | some comment =>
    rw [exprs_of_comment hcomment] at he
    have hcallable := (hreadable comment hcomment).2 e he
    rw [hkind] at hcallable
    obtain ⟨args, hargs⟩ := Option.isSome_iff_exists.mp (hcallable hname)
    rw [Cursor.presetCalls, if_pos hkind, exprs_of_comment hcomment]
    exact List.ne_nil_of_mem (List.mem_filterMap.mpr ⟨e, he, hargs⟩)

/-- There is a context below a cursor if there was one, or if the cursor has made one. -/
theorem stack_entered_ne_nil {c : Cursor} {w : World Env} {inside : Prop} (hreadable : c.Readable)
    (hstack : inside → w.stack ≠ []) (h : inside ∨ c.Presets) : (w.entered c).stack ≠ [] := by
  rw [World.entered, stack_put]
  rcases h with h | h
  · have hnoted : noted c.ownNotes w.stack ≠ [] := fun heq => hstack h (noted_eq_nil_iff.mp heq)
    exact List.append_ne_nil_of_right_ne_nil _ hnoted
  · apply List.append_ne_nil_of_left_ne_nil
    rw [Ne, List.replicate_eq_nil_iff, List.length_eq_zero_iff]
    exact presetCalls_ne_nil hreadable h

mutual

/-- **The walk over a tree** returns exactly if every cursor that is reached can be passed and no
    post action raises, and it leaves behind what the tree tells. -/
theorem run_dfs_iff (t : Cursor) {inside : Prop} {w w' : World Env}
    (hscoped : Scoped fileName t inside) (hstack : inside → w.stack ≠ []) :
    (dfs tools fileName t).run w = (.returned (), w') ↔
      (∀ c ∈ reached fileName t, c.Passable) ∧ Comes tools w (report fileName t) w' := by
  cases t with
  | mk info children =>
    rw [Scoped] at hscoped
    obtain ⟨hrecords, hchildren⟩ := hscoped
    have hpre : ∀ w₁, (visit tools (.mk info children) .pre).run w = (.returned (), w₁) ↔ _ :=
      fun w₁ => run_visit_pre_iff fun h => hstack (hrecords h)
    constructor
    · intro h
      rw [dfs] at h
      obtain ⟨_, w₁, hfirst, hrest⟩ := run_bind_returned_iff.mp h
      obtain ⟨hreadable, rfl⟩ := (hpre w₁).mp hfirst
      -- the fields below have a context: one from outside, or that of the cursor
      obtain ⟨_, w₂, hwalk, hpost⟩ := run_bind_returned_iff.mp hrest
      obtain ⟨⟨hfiles, hpass⟩, hcomes⟩ := (run_dfsChildren_iff children hchildren
        (stack_entered_ne_nil hreadable hstack)).mp hwalk
      exact ⟨forall_reached_iff.mpr ⟨⟨hreadable, hfiles⟩, hpass⟩,
        (comes_within_iff hreadable).mp ⟨w₂, hcomes, hpost⟩⟩
    · rintro ⟨hall, hcomes⟩
      obtain ⟨⟨hreadable, hfiles⟩, hpass⟩ := forall_reached_iff.mp hall
      obtain ⟨w₂, hcomes, hpost⟩ := (comes_within_iff hreadable).mpr hcomes
      have hwalk := (run_dfsChildren_iff children hchildren
        (stack_entered_ne_nil hreadable hstack)).mpr ⟨⟨hfiles, hpass⟩, hcomes⟩
      rw [dfs, run_bind_returned ((hpre _).mpr ⟨hreadable, rfl⟩), run_bind_returned hwalk]
      exact hpost

/-- **The walk over the children.** -/
theorem run_dfsChildren_iff (ts : List Cursor) {inside : Prop} {w w' : World Env}
    (hscoped : ScopedChildren fileName ts inside) (hstack : inside → w.stack ≠ []) :
    (dfsChildren tools fileName ts).run w = (.returned (), w') ↔
      ((∀ child ∈ ts, child.info.file ≠ none) ∧
          ∀ c ∈ reachedChildren fileName ts, c.Passable) ∧
        Comes tools w (reportChildren fileName ts) w' := by
  cases ts with
  | nil =>
    rw [reportChildren, comes_empty_iff]
    constructor
    · intro h
      cases h
      exact ⟨⟨fun _ h => absurd h List.not_mem_nil, fun _ h => absurd h List.not_mem_nil⟩, rfl⟩
    · rintro ⟨-, rfl⟩
      rfl
  | cons child rest =>
    rw [ScopedChildren] at hscoped
    obtain ⟨hchild, hrest⟩ := hscoped
    rw [reportChildren, List.forall_mem_cons, forall_reachedChildren_iff]
    cases hfile : child.info.file with
    | none =>
      rw [run_dfsChildren_lost hfile]
      constructor
      · intro h
        cases h
      · rintro ⟨⟨⟨hne, -⟩, -⟩, -⟩
        exact absurd rfl hne
    | some name =>
      by_cases hname : name = fileName
      · rw [hname] at hfile
        have hwalk : (dfsChildren tools fileName (child :: rest)).run w = (.returned (), w') ↔ _ :=
          run_walked_iff hfile (fun w₁ => run_dfs_iff child (hchild hfile) hstack)
            fun w₁ hcomes => run_dfsChildren_iff rest hrest fun h =>
              mt hcomes.stack_eq_nil_iff.mp (hstack h)
        rw [hwalk, hname, if_pos rfl]
        simp [and_left_comm]
      · -- it is skipped with all that is below it
        have hother : some name ≠ some fileName := fun h => hname (Option.some.inj h)
        rw [dfsChildren_skipped hfile hname, if_neg hother, run_dfsChildren_iff rest hrest hstack,
          Report.empty_append]
        simp [hname]

end

/-! ### All the comments of a file -/

mutual

/-- No more is visited than there is. -/
theorem length_visits_le (t : Cursor) :
    (report fileName t).visits.length ≤ (fileVisits fileName t).length := by
  cases t with
  | mk info children =>
    have hchildren := length_visitsChildren_le children
    rw [report, fileVisits, Report.within]
    simp only [List.length_append]
    omega

theorem length_visitsChildren_le (ts : List Cursor) :
    (reportChildren fileName ts).visits.length ≤ (fileVisitsChildren fileName ts).length := by
  match ts with
  | [] => exact Nat.le_refl 0
  | .mk info children :: rest =>
    have hrest := length_visitsChildren_le rest
    have hchild := length_visits_le (.mk info children)
    rw [reportChildren, fileVisitsChildren, Report.append, Cursor.info_mk]
    simp only [List.length_append]
    split_ifs with hfile
    · omega
    · rw [Report.empty, List.length_nil]
      omega

end

/-- Two lists in sequence agree with longer ones exactly if each does. -/
theorem append_eq_append_iff_of_length_le {α : Type} {xs ys xs' ys' : List α}
    (hxs : xs.length ≤ xs'.length) (hys : ys.length ≤ ys'.length) :
    xs ++ ys = xs' ++ ys' ↔ xs = xs' ∧ ys = ys' := by
  constructor
  · intro h
    have hlength := congrArg List.length h
    rw [List.length_append, List.length_append] at hlength
    exact List.append_inj h (by omega)
  · rintro ⟨rfl, rfl⟩
    rfl

mutual

/-- **All the comments of the file are visited** exactly if none is below another file's cursor. -/
theorem visits_eq_iff (t : Cursor) :
    (report fileName t).visits = fileVisits fileName t ↔
      ∀ c ∈ reached fileName t, c.Unshadowed fileName := by
  cases t with
  | mk info children =>
    rw [report, fileVisits, Report.within, List.append_left_inj, List.append_right_inj,
      visitsChildren_eq_iff children, forall_reached_iff]
    rfl

theorem visitsChildren_eq_iff (ts : List Cursor) :
    (reportChildren fileName ts).visits = fileVisitsChildren fileName ts ↔
      (∀ child ∈ ts, child.info.file ≠ some fileName →
          fileVisitsChildren fileName child.children = []) ∧
        ∀ c ∈ reachedChildren fileName ts, c.Unshadowed fileName := by
  match ts with
  | [] =>
    refine ⟨fun _ => ⟨fun _ h => absurd h List.not_mem_nil, fun _ h => absurd h List.not_mem_nil⟩,
      fun _ => rfl⟩
  | .mk info children :: rest =>
    have hle : (reportChildren fileName rest).visits.length
        ≤ (fileVisitsChildren fileName rest).length := length_visitsChildren_le rest
    rw [List.forall_mem_cons, forall_reachedChildren_iff, reportChildren, fileVisitsChildren,
      Report.append, Cursor.info_mk, Cursor.children_mk]
    split_ifs with hfile
    · rw [append_eq_append_iff_of_length_le (length_visits_le _) hle,
        visits_eq_iff (.mk info children), visitsChildren_eq_iff rest]
      simp only [hfile, ne_eq, not_true_eq_false, false_implies, true_and, true_implies]
      exact and_left_comm
    · rw [append_eq_append_iff_of_length_le (Nat.zero_le _) hle, visitsChildren_eq_iff rest]
      simp only [hfile, ne_eq, not_false_eq_true, true_implies, false_implies, true_and,
        Report.empty, and_assoc]
      rw [eq_comm]

end

/-! ### A run -/

/-- There is no context yet, and nothing has happened. -/
def World.start (env : Env) : World Env := ⟨fun _ => [], [], [], env⟩

/-- What a run is for: it raises nothing, has visited every commented cursor of the file before and
    after what is below it, has given the post action of each class the notes of the fields that
    have it as their innermost class with a `preset`, and has dropped all contexts. -/
def Balanced (tools : Tools Env) (fileName : String) (tu : Cursor)
    (env : Env) : Prop :=
  ∃ w, (runAnnotations tools fileName tu).run (World.start env) = (.returned (), w) ∧
    w.visits = fileVisits fileName tu ∧ w.posted = (report fileName tu).posted ∧
    ∀ name, w.contexts name = []

end Walk

/-! ### A class in a class -/

/-- `preset.mako`, rendered. -/
def presetMako (page : Page) : String :=
  "\n" ++ String.join (page.includes.map fun param => "#include " ++ param ++ "\n")
    ++ "namespace Preset \x7b\nclass " ++ page.className ++ page.argDecls
    ++ ": public Singleton<" ++ page.className ++ page.argImpls ++ ">, public ::" ++ page.className
    ++ " \x7b\n    friend singleton_t;\n    " ++ page.className ++ "(): ::" ++ page.className
    ++ "(" ++ ", ".intercalate page.params ++ ") \x7b\x7d\n"
    ++ String.join (page.configs.items.flatMap fun config => config.2.items.map fun item =>
      "    static const " ++ item.1 ++ " " ++ ", ".intercalate (item.2.map (·.name)) ++ ";\n")
    ++ "\x7d;\n\x7d"

/-- `preset.config.mako`, rendered; no list of fields is empty. -/
def configMako (page : ConfigPage) : String :=
  String.join (page.includes.map fun param => "#include " ++ param ++ "\n")
    ++ "\nnamespace Preset \x7b\n"
    ++ String.join (page.configItems.items.map fun item => "const " ++ item.1 ++ "\n"
      ++ ",\n".intercalate (item.2.map fun field =>
        "    " ++ page.className ++ "::" ++ field.name ++ " = 0") ++ ";\n")
    ++ "\x7d"

/-- The children of a cursor; each is the lexical child of that cursor. -/
def together (children : List Cursor) : List Cursor :=
  children.map fun c => .mk { c.info with
    siblings := children.map fun s => ⟨s.info.kind, s.info.spelling, s.info.file⟩ } c.children

/-- A cursor without a comment. -/
def plain (file : String) (kind : CursorKind) (name : String) (arguments : List String)
    (children : List Cursor) : Cursor :=
  .mk ⟨kind, name, name, "", none, some file, none, arguments, []⟩ (together children)

/-- `//! cmd_name(args)`. -/
def line (cmdName : String) (args : List Val) : AnnoExpr := ⟨cmdName, .ok ⟨args, []⟩⟩

/-- A field with the type and the comment that are given, and the file that declares the type. -/
def fieldOf (name type declFile : String) (e : AnnoExpr) : Cursor :=
  .mk ⟨.fieldDecl, name, name, type, some declFile, some "a.hxx", some [e], [], []⟩ []

/-- A class with a `preset`, and a constructor that has an argument for its field. -/
def classOf (name : String) (field : Cursor) (more : List Cursor) : Cursor :=
  .mk ⟨.classDecl, name, name, name, some "a.hxx", some "a.hxx", some [line "preset" []], [], []⟩
    (together (plain "a.hxx" .constructor name [field.info.spelling] [] :: field :: more))

/-- A field that is configured in `app.cxx`. -/
def appField : Cursor :=
  fieldOf "a" "rt_base_t" "./rt-thread/include/rtdef.h" (line "config" [.str "app"])

/-- Two classes, one in the other. -/
def nestedFile : Cursor :=
  plain "a.hxx" .translationUnit "a.hxx" []
    [classOf "Outer" appField
      [classOf "Inner" (fieldOf "b" "Speed" "./net/speed.hxx" (line "config" [.str "net"])) []]]

/-- `app.cxx`, with a value of another class in it. -/
def appConfig : Cursor :=
  plain "./configs/app.cxx" .translationUnit "./configs/app.cxx" []
    [plain "./configs/app.cxx" .namespaceDecl "Preset" []
      [plain "./configs/app.cxx" .varDecl "kPort" []
        [plain "./configs/app.cxx" .typeRef "Preset::Other" [] [],
          plain "./configs/app.cxx" (.other 106) "" [] []]]]

/-- The templates of the source; what is appended to files is collected, and of those that
    configure something only `app.cxx` is there. -/
def collect : Tools (List (String × String)) where
  cwd := ["src".toList]
  isWord c := c.isAlphanum || c = '_'
  renderPreset page := .ok (presetMako page)
  renderConfig page := .ok (configMako page)
  append name text written := .ok (written ++ [(name, text)])
  fileExists name _ := name = "./configs/app.cxx"
  createTu name _ :=
    if name = "./configs/app.cxx" then .ok appConfig
    else .error (.other "TranslationUnitLoadError")

/-- A class with a `preset` and a method that has a comment. -/
def methodFile : Cursor :=
  plain "a.hxx" .translationUnit "a.hxx" []
    [classOf "Outer" appField
      [.mk ⟨.cxxMethod, "f", "f", "void ()", none, some "a.hxx", some [], [], []⟩ []]]

end RtCharger.Scripts
