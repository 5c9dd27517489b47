import RtCharger.Lib.Effect
import Mathlib.Logic.Function.Basic

namespace RtCharger.Scripts

open Effect

/-!
# The annotations

The package `annotations`: what `config` and `use` record about a field, the stack of contexts
that they record it in, and how an annotation is run.  Syntax trees are those of libclang, with
the annotations of each comment found and their arguments evaluated.

* `Cursor` — the trees;
* `World` — the contexts, the environment in which files are written, and what has happened;
* `config`, `use` — the annotations of a field;
* `Anno.invoke`, `Anno.runPost` — what runs an annotation.
-/

/-! ### Trees -/

/-- What Python code raises. -/
inductive PyErr where
  | attributeError
  | indexError
  | keyError
  | stopIteration
  | typeError
  | valueError
  /-- Whatever is raised by the arguments of an annotation, by a template or by a file. -/
  | other (what : String)
deriving DecidableEq, Repr

/-- `CursorKind`. -/
inductive CursorKind where
  | translationUnit
  | namespaceDecl
  | classDecl
  | structDecl
  | enumDecl
  | constructor
  | cxxMethod
  | fieldDecl
  | varDecl
  | namespaceRef
  | templateRef
  | typeRef
  | other (n : Nat)
deriving DecidableEq, Repr

/-- Values of arguments: texts, integers, and lists of texts as an example of what is neither a text
    nor a key. -/
inductive Val where
  | str (s : String)
  | num (n : Int)
  | list (items : List String)
deriving DecidableEq, Repr

/-- The arguments of a call. -/
structure Call where
  args : List Val
  kwargs : List (String × Val)
deriving DecidableEq, Repr

/-- A line `//! cmd_name(...)` of a comment, and the arguments of the call that its evaluation
    comes to, or what it raises.  A name alone is called without arguments. -/
structure AnnoExpr where
  cmdName : String
  call : Except PyErr Call

/-- What is used of a child of `lexical_parent`. -/
structure Sibling where
  kind : CursorKind
  spelling : String
  file : Option String
deriving DecidableEq, Repr

/-- What is used of a cursor but its children: `get_usr()`, `spelling`, `type.spelling`, the file
    of `type.get_declaration()`, which a built-in type does not have, `location.file`, the comment,
    `get_arguments()`, and the children of `lexical_parent`. -/
structure Info where
  kind : CursorKind
  usr : String
  spelling : String
  typeSpelling : String
  declFile : Option String
  file : Option String
  comment : Option (List AnnoExpr)
  arguments : List String
  siblings : List Sibling

/-- `Cursor`. -/
inductive Cursor where
  | mk (info : Info) (children : List Cursor)

namespace Cursor

def info : Cursor → Info
  | .mk info _ => info

def children : Cursor → List Cursor
  | .mk _ children => children

@[simp] theorem info_mk (info : Info) (children : List Cursor) :
    (Cursor.mk info children).info = info := rfl

@[simp] theorem children_mk (info : Info) (children : List Cursor) :
    (Cursor.mk info children).children = children := rfl

end Cursor

/-! ### Contexts -/

/-- `Config` and `Use`. -/
inductive Note where
  | config (type : Val)
  | use (params : List Val)
deriving DecidableEq, Repr

/-- `params` of a `Use`. -/
def Note.params? : Note → Option (List Val)
  | .use params => some params
  | .config _   => none

/-- `type` of a `Config`. -/
def Note.type? : Note → Option Val
  | .config type => some type
  | .use _       => none

/-- A context: what was recorded of each field. -/
abbrev Ctx : Type := String → Option (List Note)

/-- `{}`. -/
def Ctx.empty : Ctx := fun _ => none

/-- Append to the list of a field, which is made if it is not there. -/
def Ctx.append (ctx : Ctx) (usr : String) (note : Note) : Ctx :=
  Function.update ctx usr (some ((ctx usr).getD [] ++ [note]))

/-- `Action`. -/
inductive Action where
  | pre
  | post
deriving DecidableEq, Repr

/-- A call of the post action of `preset`, with the context that it got. -/
structure Posted where
  cursor : Cursor
  args : List Val
  ctx : Option Ctx

variable {Env : Type}

/-- `contexts`, each stack with its top first, and the environment; and, for the record, which
    cursors were visited and for which classes the post action was called. -/
structure World (Env : Type) where
  contexts : String → List Ctx
  visits : List (Cursor × Action)
  posted : List Posted
  env : Env

/-- `contexts[name].append({})`. -/
def pushContext (name : String) : Comp PyErr (World Env) Unit :=
  modifyState fun w =>
    { w with contexts := Function.update w.contexts name (Ctx.empty :: w.contexts name) }

/-- `contexts[name].pop()`. -/
def popContext (name : String) : Comp PyErr (World Env) Unit := fun w =>
  match w.contexts name with
  | []        => (.threw .indexError, w)
  | _ :: rest => (.returned (), { w with contexts := Function.update w.contexts name rest })

/-- `get_ctx_of_cursor(cursor, name).append(note)`: there has to be a context. -/
def appendNote (name : String) (cursor : Cursor) (note : Note) : Comp PyErr (World Env) Unit :=
  fun w =>
    match w.contexts name with
    | []          => (.threw .typeError, w)
    | top :: rest => (.returned (), { w with
        contexts := Function.update w.contexts name (top.append cursor.info.usr note :: rest) })

/-! ### The annotations -/

/-- The one argument of `config`. -/
def configArg (call : Call) : Option Val :=
  match call.args, call.kwargs with
  | [type], []         => some type
  | [], [(name, type)] => if name = "type" then some type else none
  | _, _               => none

/-- `config`. -/
def config (cursor : Cursor) (call : Call) : Comp PyErr (World Env) Unit :=
  match configArg call with
  | some type => appendNote "preset" cursor (.config type)
  | none      => raise .typeError

/-- `use`. -/
def use (cursor : Cursor) (call : Call) : Comp PyErr (World Env) Unit :=
  if call.kwargs = [] then appendNote "preset" cursor (.use call.args) else raise .typeError

/-! ### What runs them -/

/-- `Target`. -/
inductive Target where
  | class_
  | constructor
  | fieldDecl
deriving DecidableEq, Repr

/-- `Anno`; all of them are entries. -/
structure Anno (Env : Type) where
  name : String
  targets : List Target
  withContext : Bool
  func : Cursor → Call → Comp PyErr (World Env) Unit
  postAction : Option (Cursor → Call → Comp PyErr (World Env) Unit)

/-- `Anno.invoke`. -/
def Anno.invoke (anno : Anno Env) (cursor : Cursor) (call : Call) :
    Comp PyErr (World Env) Unit := do
  if anno.withContext then pushContext anno.name else pure ()
  anno.func cursor call

/-- `Anno.post_action`. -/
def Anno.runPost (anno : Anno Env) (cursor : Cursor) (call : Call) :
    Comp PyErr (World Env) Unit := do
  match anno.postAction with
    | some f => f cursor call
    | none   => pure ()
  if anno.withContext then popContext anno.name else pure ()

/-- The annotation `config`. -/
def configAnno : Anno Env := ⟨"config", [.fieldDecl], false, config, none⟩

/-- The annotation `use`. -/
def useAnno : Anno Env := ⟨"use", [.fieldDecl], false, use, none⟩

end RtCharger.Scripts
