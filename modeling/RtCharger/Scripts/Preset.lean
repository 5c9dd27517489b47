import RtCharger.Scripts.IncludeParam
import RtCharger.Lib.OrderedDict
import Mathlib.Data.List.Induction

namespace RtCharger.Scripts

open Effect OrderedDict

/-!
# The annotation `preset`

What the end of a `preset` class makes of it: the parameters of its constructor, a page for the
file of the class, and one for each file in which its fields are configured, which is looked
through if it is there already.  The templates, the files and libclang are `Tools`.

* `Page`, `ConfigPage` — what the templates are rendered with;
* `post`, `annos` — the functions of the source;
* `Posted.Fits` — what the post action needs of its class;
* `Written` — what has to succeed outside of it;
* `run_runPosts_iff` — that this is all: the post actions raise nothing exactly then.
-/

variable {Env : Type}

/-! ### The parameters of the constructor -/

/-- `try_get_ptr_ee`. -/
def tryGetPtrEe (field : Cursor) : Option Info :=
  if field.info.kind ≠ .fieldDecl then none
  else
    match field.children with
    | [mayStd, mayPtr, mayType] =>
      if mayStd.info.kind ≠ .namespaceRef ∨ mayStd.info.spelling ≠ "std" then none
      else if mayPtr.info.kind ≠ .templateRef ∨ mayPtr.info.spelling ≠ "shared_ptr" then none
      else if mayType.info.kind ≠ .typeRef then none
      else some mayType.info
    | _ => none

/-- `s.split(" ")[-1]`. -/
def lastWord (s : String) : String := (s.splitOn " ").getLastD ""

/-- `make_prefix`, for names in ASCII. -/
def makePrefix (name : String) : Except PyErr String :=
  match name.toList with
  | []      => .error .indexError
  | c :: cs => .ok (String.ofList ('k' :: c.toUpper :: cs))

/-- Only texts can be joined. -/
def Val.text : Val → Except PyErr String
  | .str s => .ok s
  | _      => .error .typeError

/-- `", ".join(params)`. -/
def joinParams (params : List Val) : Except PyErr String := do
  let texts ← params.mapM Val.text
  pure (", ".intercalate texts)

/-- The values that can be a key. -/
inductive Key where
  | str (s : String)
  | num (n : Int)
deriving DecidableEq, Repr

/-- A list is no key. -/
def Val.key? : Val → Option Key
  | .str s  => some (.str s)
  | .num n  => some (.num n)
  | .list _ => none

/-- A key in a text. -/
def Key.text : Key → String
  | .str s => s
  | .num n => toString n

/-- `prop`: a field that is to be configured. -/
structure ConfigProp where
  name : String
  cursor : Info

/-- A field with its keys in `configs`. -/
structure ConfigEntry where
  type : Key
  fieldType : String
  prop : ConfigProp

/-- `configs`. -/
abbrev Configs : Type := Dict Key (Dict String (List ConfigProp))

/-- A field is put behind the others of its keys, which are made if they are not there. -/
def Configs.add (configs : Configs) (e : ConfigEntry) : Configs :=
  configs.modify e.type .empty fun configTypes => configTypes.modify e.fieldType [] (· ++ [e.prop])

/-- `tep_str`: the parameters of the last `use`. -/
def tepStr (notes : List Note) : Except PyErr String :=
  match (notes.filterMap Note.params?).getLast? with
  | none        => .ok ""
  | some params => do
    let text ← joinParams params
    pure ("<" ++ text ++ ">")

/-- The parameter for a pointer to something that may have a preset itself. -/
def presetParam (ptrEe : Info) (notes : List Note) :
    Except PyErr (String × Option ConfigEntry) := do
  let tep ← tepStr notes
  pure (lastWord ptrEe.spelling ++ tep ++ "::get()", none)

/-- The parameter for anything else, and what is to be configured for it. -/
def configParam (field : Info) (notes : List Note) :
    Except PyErr (String × Option ConfigEntry) := do
  let fieldName ← makePrefix field.spelling
  match (notes.filterMap Note.type?).getLast? with
  | none      => pure (fieldName, none)
  | some type =>
    match type.key? with
    | none     => .error .typeError
    | some key => pure (fieldName, some ⟨key, lastWord field.typeSpelling, fieldName, field⟩)

/-- The parameter for an argument of the constructor, from what the context has of its field. -/
def boundParam (ctx : Option Ctx) (field : Cursor) : Except PyErr (String × Option ConfigEntry) :=
  match ctx with
  | none     => .error .typeError
  | some ctx =>
    let notes := (ctx field.info.usr).getD []
    match tryGetPtrEe field with
    | some ptrEe => presetParam ptrEe notes
    | none       => configParam field.info notes

/-- `fields[name]`: the last field of a name is the one in the dictionary. -/
def Cursor.field (cursor : Cursor) (name : String) : Except PyErr Cursor :=
  match cursor.children.reverse.find? fun c =>
      c.info.kind = .fieldDecl ∧ c.info.spelling = name with
  | none       => .error .keyError
  | some field => .ok field

/-- The loop over the arguments of the constructor: `params` and `configs`. -/
def bindFields (cursor : Cursor) (ctx : Option Ctx) : Except PyErr (List String × Configs) :=
  match cursor.children.find? fun c => c.info.kind = .constructor with
  | none      => .error .stopIteration
  | some ctor => do
    let bound ← ctor.info.arguments.mapM fun name => do
      let field ← cursor.field name
      boundParam ctx field
    pure (bound.map (·.1), (bound.filterMap (·.2)).foldl Configs.add .empty)

/-! ### The pages -/

/-- `location.file.name`. -/
def nameOf : Option String → Except PyErr String
  | none      => .error .attributeError
  | some name => .ok name

/-- A namespace `Preset`. -/
def Sibling.IsPreset (c : Sibling) : Prop := c.kind = .namespaceDecl ∧ c.spelling = "Preset"

instance : DecidablePred Sibling.IsPreset := fun _ => inferInstanceAs (Decidable (_ ∧ _))

/-- `preset_nss`: those of the file of the class. -/
def presetNss (cursor : Cursor) : Except PyErr (List Sibling) :=
  cursor.info.siblings.filterM fun c =>
    if c.IsPreset then do
      let name ← nameOf c.file
      let own ← nameOf cursor.info.file
      pure (decide (name = own))
    else pure false

/-- `make_arg_decls` of the template. -/
def makeArgDecls (args : List Val) : Except PyErr String :=
  if 0 < args.length then do
    let text ← joinParams args
    pure ("<" ++ text ++ ">")
  else pure ""

/-- `arg.split(" ")`: only texts can be split. -/
def Val.lastWord : Val → Except PyErr String
  | .str s => .ok (Scripts.lastWord s)
  | _      => .error .attributeError

/-- `make_arg_impls` of the template. -/
def makeArgImpls (args : List Val) : Except PyErr String :=
  if 0 < args.length then do
    let words ← args.mapM Val.lastWord
    pure ("<" ++ ", ".intercalate words ++ ">")
  else pure ""

/-- What `preset.mako` is rendered with, its functions of the arguments evaluated. -/
structure Page where
  includes : List String
  className : String
  params : List String
  configs : Configs
  argDecls : String
  argImpls : String

/-- What `preset.config.mako` is rendered with.  The includes are a set: none comes twice, and
    their order is up to the template. -/
structure ConfigPage where
  includes : List String
  configItems : Dict String (List ConfigProp)
  className : String

/-- What is outside of the annotations: the working directory, what the regular expression takes
    for a letter, the rendering of the two templates, opening a file with mode `a` to write to it,
    `os.path.exists`, and `create_tu`. -/
structure Tools (Env : Type) where
  cwd : Dir
  isWord : Char → Bool
  renderPreset : Page → Except PyErr String
  renderConfig : ConfigPage → Except PyErr String
  append : String → String → Env → Except PyErr Env
  fileExists : String → Env → Bool
  createTu : String → Env → Except PyErr Cursor

/-- What `post` renders `preset.mako` with: nothing, if there is a namespace already. -/
def postPage (cursor : Cursor) (args : List Val) (ctx : Option Ctx) :
    Except PyErr (Option Page) := do
  let nss ← presetNss cursor
  if 0 < nss.length then pure none
  else do
    let (params, configs) ← bindFields cursor ctx
    let argDecls ← makeArgDecls args
    let argImpls ← makeArgImpls args
    pure (some ⟨["<utilities/singleton.hxx>"], cursor.info.spelling, params, configs, argDecls,
      argImpls⟩)

section Post

variable (tools : Tools Env)

/-- The include of a field's type: that of the first field. -/
def fieldInclude (fields : List ConfigProp) : Except PyErr String :=
  match fields with
  | []         => .error .indexError
  | field :: _ => do
    let name ← nameOf field.cursor.declFile
    getIncludeParam tools.isWord tools.cwd name

/-- The page for one of the `configs`. -/
def configPage (cursor : Cursor) (configItems : Dict String (List ConfigProp)) :
    Except PyErr ConfigPage := do
  let name ← nameOf cursor.info.file
  let own ← getIncludeParam tools.isWord tools.cwd name
  let includes ← configItems.items.mapM fun item => fieldInclude tools item.2
  pure ⟨includes.foldl (fun set param => set.insert param) [own], configItems,
    cursor.info.spelling⟩

/-- The namespaces `Preset` of a file. -/
def configNss (configFile : String) (tu : Cursor) : Except PyErr (List Cursor) :=
  tu.children.filterM fun child =>
    if child.info.kind = .namespaceDecl then do
      let name ← nameOf child.info.file
      pure (decide (name = configFile ∧ child.info.spelling = "Preset"))
    else pure false

/-- `var_type, var_from = var.get_children()`. -/
def unpackVar (var : Cursor) : Except PyErr Unit :=
  if var.children.length = 2 then .ok () else .error .valueError

/-- The loop over the namespaces of a file that is there: it ends after the first, and what it
    finds is only printed. -/
def checkConfig (configFile : String) (tu : Cursor) : Except PyErr Unit := do
  let nss ← configNss configFile tu
  match nss with
  | []      => pure ()
  | ns :: _ => do
    let _ ← (ns.children.filter fun child => child.info.kind = .varDecl).mapM unpackVar
    pure ()

/-- `config_file`. -/
def configFile (configType : Key) : String := "./configs/" ++ configType.text ++ ".cxx"

/-- One round of the loop over `configs`; what is rendered is only printed. -/
def postConfig (cursor : Cursor) (config : Key × Dict String (List ConfigProp)) :
    Comp PyErr Env Unit := do
  let page ← ofExcept (configPage tools cursor config.2)
  let _ ← ofExcept (tools.renderConfig page)
  let env ← getState
  if tools.fileExists (configFile config.1) env then do
    let tu ← ofExcept (tools.createTu (configFile config.1) env)
    ofExcept (checkConfig (configFile config.1) tu)
  else pure ()

/-- What `post` does with its page. -/
def generate (cursor : Cursor) (page : Page) : Comp PyErr Env Unit := do
  let rendered ← ofExcept (tools.renderPreset page)
  let name ← ofExcept (nameOf cursor.info.file)
  updateState (tools.append name rendered)
  forEach page.configs.items (postConfig tools cursor)

/-- `post`. -/
def post (cursor : Cursor) (args : List Val) (ctx : Option Ctx) : Comp PyErr Env Unit := do
  let page ← ofExcept (postPage cursor args ctx)
  match page with
  | none      => pure ()
  | some page => generate tools cursor page

/-- A computation in the environment. -/
def onEnv {α : Type} (c : Comp PyErr Env α) : Comp PyErr (World Env) α := fun w =>
  match c w.env with
  | (o, env) => (o, { w with env := env })

/-- `preset`. -/
def preset (_ : Cursor) (call : Call) : Comp PyErr (World Env) Unit :=
  if call.kwargs = [] then pure () else raise .typeError

/-- `preset.post`, with the context on top of the stack. -/
def postPreset (cursor : Cursor) (call : Call) : Comp PyErr (World Env) Unit :=
  if call.kwargs = [] then do
    let w ← getState
    let ctx := (w.contexts "preset").head?
    modifyState fun w => { w with posted := w.posted ++ [⟨cursor, call.args, ctx⟩] }
    onEnv (post tools cursor call.args ctx)
  else raise .typeError

/-- The annotation `preset`. -/
def presetAnno : Anno Env := ⟨"preset", [.class_], true, preset, some (postPreset tools)⟩

/-- `annotations.get()`. -/
def annos : List (Anno Env) := [configAnno, presetAnno tools, useAnno]

end Post

/-! ### What the post action asks for -/

/-- A text. -/
def Val.IsStr : Val → Prop
  | .str _ => True
  | _      => False

theorem text_ok_iff {v : Val} : (∃ s, v.text = .ok s) ↔ v.IsStr := by
  cases v with
  | str s => exact ⟨fun _ => trivial, fun _ => ⟨s, rfl⟩⟩
  | num n => exact ⟨fun ⟨_, h⟩ => (nomatch h), False.elim⟩
  | list items => exact ⟨fun ⟨_, h⟩ => (nomatch h), False.elim⟩

theorem lastWord_ok_iff {v : Val} : (∃ s, v.lastWord = .ok s) ↔ v.IsStr := by
  cases v with
  | str s => exact ⟨fun _ => trivial, fun _ => ⟨_, rfl⟩⟩
  | num n => exact ⟨fun ⟨_, h⟩ => (nomatch h), False.elim⟩
  | list items => exact ⟨fun ⟨_, h⟩ => (nomatch h), False.elim⟩

theorem joinParams_ok_iff {params : List Val} :
    (∃ text, joinParams params = .ok text) ↔ ∀ v ∈ params, v.IsStr := by
  rw [joinParams, exists_bind_pure_iff, exists_mapM_eq_ok_iff]
  exact forall₂_congr fun v _ => text_ok_iff

theorem makeArgDecls_ok_iff {args : List Val} :
    (∃ text, makeArgDecls args = .ok text) ↔ ∀ v ∈ args, v.IsStr := by
  rw [makeArgDecls]
  split_ifs with hargs
  · rw [exists_bind_pure_iff, joinParams_ok_iff]
  · obtain rfl := List.eq_nil_of_length_eq_zero (Nat.eq_zero_of_not_pos hargs)
    exact ⟨fun _ v hv => absurd hv List.not_mem_nil, fun _ => ⟨"", rfl⟩⟩

theorem makeArgImpls_ok_iff {args : List Val} :
    (∃ text, makeArgImpls args = .ok text) ↔ ∀ v ∈ args, v.IsStr := by
  rw [makeArgImpls]
  split_ifs with hargs
  · rw [exists_bind_pure_iff, exists_mapM_eq_ok_iff]
    exact forall₂_congr fun v _ => lastWord_ok_iff
  · obtain rfl := List.eq_nil_of_length_eq_zero (Nat.eq_zero_of_not_pos hargs)
    exact ⟨fun _ v hv => absurd hv List.not_mem_nil, fun _ => ⟨"", rfl⟩⟩

/-- A field for which the constructor's argument can be found: the parameters of its last `use` are
    texts, if it is a pointer; otherwise it has a name, and the last `config` is not given a
    list. -/
def Ctx.Binds (ctx : Ctx) (field : Cursor) : Prop :=
  match tryGetPtrEe field with
  | some _ => ∀ params, (((ctx field.info.usr).getD []).filterMap Note.params?).getLast?
      = some params → ∀ v ∈ params, v.IsStr
  | none   => field.info.spelling ≠ "" ∧ ∀ items,
      (((ctx field.info.usr).getD []).filterMap Note.type?).getLast? ≠ some (.list items)

/-- Where the field is to be configured, if it is. -/
def Ctx.configType (ctx : Ctx) (field : Cursor) : Option Key :=
  match tryGetPtrEe field with
  | some _ => none
  | none   => (((ctx field.info.usr).getD []).filterMap Note.type?).getLast?.bind Val.key?

theorem makePrefix_ok_iff {name : String} : (∃ text, makePrefix name = .ok text) ↔ name ≠ "" := by
  rw [makePrefix, Ne, ← String.toList_eq_nil_iff]
  cases name.toList with
  | nil => exact ⟨fun ⟨_, h⟩ => (nomatch h), fun h => absurd rfl h⟩
  | cons c cs => exact ⟨fun _ => List.cons_ne_nil c cs, fun _ => ⟨_, rfl⟩⟩

theorem presetParam_ok_iff {ptrEe : Info} {notes : List Note} :
    (∃ bound, presetParam ptrEe notes = .ok bound) ↔
      ∀ params, (notes.filterMap Note.params?).getLast? = some params → ∀ v ∈ params, v.IsStr := by
  have htep : (∃ bound, presetParam ptrEe notes = .ok bound) ↔ ∃ tep, tepStr notes = .ok tep :=
    exists_bind_pure_iff
  rw [htep, tepStr]
  cases (notes.filterMap Note.params?).getLast? with
  | none => exact ⟨fun _ _ h => (nomatch h), fun _ => ⟨"", rfl⟩⟩
  | some params =>
    rw [exists_bind_pure_iff, joinParams_ok_iff]
    simp

theorem configParam_ok_iff {field : Info} {notes : List Note} :
    (∃ bound, configParam field notes = .ok bound) ↔
      field.spelling ≠ "" ∧
        ∀ items, (notes.filterMap Note.type?).getLast? ≠ some (.list items) := by
  rw [configParam, ← makePrefix_ok_iff]
  generalize (notes.filterMap Note.type?).getLast? = last
  constructor
  · rintro ⟨bound, h⟩
    obtain ⟨fieldName, hname, hrest⟩ := bind_eq_ok_iff.mp h
    refine ⟨⟨fieldName, hname⟩, ?_⟩
    rintro items rfl
    cases hrest
  · rintro ⟨⟨fieldName, hname⟩, hlist⟩
    rw [hname]
    match last with
    | none               => exact ⟨_, rfl⟩
    | some (.str _)      => exact ⟨_, rfl⟩
    | some (.num _)      => exact ⟨_, rfl⟩
    | some (.list items) => exact absurd rfl (hlist items)

theorem boundParam_ok_iff {ctx : Option Ctx} {field : Cursor} :
    (∃ bound, boundParam ctx field = .ok bound) ↔ ∃ c, ctx = some c ∧ c.Binds field := by
  cases ctx with
  | none =>
    constructor
    · rintro ⟨bound, h⟩
      cases h
    · rintro ⟨c, h, -⟩
      cases h
  | some ctx =>
    have hfield : (∃ bound, boundParam (some ctx) field = .ok bound) ↔ ctx.Binds field := by
      unfold boundParam Ctx.Binds
      cases tryGetPtrEe field with
      | some ptrEe => exact presetParam_ok_iff
      | none => exact configParam_ok_iff
    rw [hfield]
    constructor
    · intro h
      exact ⟨ctx, rfl, h⟩
    · rintro ⟨c, h, hbinds⟩
      cases h
      exact hbinds

/-- The keys of a field that is to be configured, and the field. -/
def ConfigEntry.keys (e : ConfigEntry) : Key × String × Info := (e.type, e.fieldType, e.prop.cursor)

/-- The same, from the context. -/
def Ctx.keys (ctx : Ctx) (field : Cursor) : Option (Key × String × Info) :=
  (ctx.configType field).map fun type => (type, lastWord field.info.typeSpelling, field.info)

theorem boundParam_keys {ctx : Ctx} {field : Cursor} {bound : String × Option ConfigEntry}
    (h : boundParam (some ctx) field = .ok bound) :
    bound.2.map ConfigEntry.keys = ctx.keys field := by
  unfold boundParam at h
  unfold Ctx.keys Ctx.configType
  cases hptr : tryGetPtrEe field with
  | some ptrEe =>
    rw [hptr] at h
    obtain ⟨tep, -, heq⟩ := bind_eq_ok_iff.mp h
    cases heq
    rfl
  | none =>
    rw [hptr] at h
    obtain ⟨fieldName, -, hrest⟩ := bind_eq_ok_iff.mp h
    generalize (((ctx field.info.usr).getD []).filterMap Note.type?).getLast? = last at hrest ⊢
    match last with
    | none =>
      cases hrest
      rfl
    | some (.str _) =>
      cases hrest
      rfl
    | some (.num _) =>
      cases hrest
      rfl
    | some (.list _) => cases hrest

/-! ### What is in `configs` -/

section Configs

variable {configs : Configs} {e : ConfigEntry} {entries : List ConfigEntry} {type : Key}
  {fieldType : String}

/-- The fields of a pair of keys. -/
def Configs.fields (configs : Configs) (type : Key) (fieldType : String) :
    Option (List ConfigProp) :=
  (configs.get type).bind fun configTypes => configTypes.get fieldType

/-- The entry is one of a pair of keys. -/
def ConfigEntry.HasKeys (type : Key) (fieldType : String) (e : ConfigEntry) : Prop :=
  e.type = type ∧ e.fieldType = fieldType

instance : DecidablePred (ConfigEntry.HasKeys type fieldType) :=
  fun _ => inferInstanceAs (Decidable (_ ∧ _))

theorem fields_add : (configs.add e).fields type fieldType
    = if e.HasKeys type fieldType then some ((configs.fields type fieldType).getD [] ++ [e.prop])
      else configs.fields type fieldType := by
  have hinit : ∀ ft, ((configs.get e.type).getD .empty).get ft
      = (configs.get e.type).bind fun configTypes => configTypes.get ft := by
    intro ft
    cases configs.get e.type <;> rfl
  rw [Configs.fields, Configs.add, Dict.get_modify]
  by_cases htype : type = e.type
  · subst htype
    rw [if_pos rfl]
    show ((((configs.get e.type).getD .empty).modify e.fieldType [] (· ++ [e.prop])).get fieldType)
      = _
    rw [Dict.get_modify, hinit, hinit]
    by_cases hft : fieldType = e.fieldType
    · subst hft
      rw [if_pos rfl, if_pos ⟨rfl, rfl⟩]
      rfl
    · rw [if_neg hft, if_neg fun h => hft h.2.symm]
      rfl
  · rw [if_neg htype, if_neg fun h => htype h.1.symm]
    rfl

/-- **The fields of a pair of keys** are those that were put there, in their order. -/
theorem fields_foldl_add : (entries.foldl Configs.add .empty : Configs).fields type fieldType
    = if (entries.filter (·.HasKeys type fieldType)) = [] then none
      else some ((entries.filter (·.HasKeys type fieldType)).map (·.prop)) := by
  induction entries using List.reverseRecOn with
  | nil => rfl
  | append_singleton entries e ih =>
    rw [List.foldl_append, List.foldl_cons, List.foldl_nil, fields_add, ih, List.filter_append]
    by_cases hkeys : e.HasKeys type fieldType
    · rw [if_pos hkeys]
      by_cases hfilter : entries.filter (·.HasKeys type fieldType) = []
      · simp [hfilter, hkeys]
      · simp [hfilter, hkeys]
    · simp [hkeys]

/-- The first of them is the first that was put there with the keys. -/
theorem exists_fields_of_find (h : entries.find? (·.HasKeys type fieldType) = some e) :
    ∃ props, (entries.foldl Configs.add .empty : Configs).fields type fieldType = some props ∧
      props.head? = some e.prop := by
  have hhead : (entries.filter (·.HasKeys type fieldType)).head? = some e :=
    List.head?_filter.trans h
  have hne : entries.filter (·.HasKeys type fieldType) ≠ [] := by
    intro hnil
    rw [hnil] at hhead
    cases hhead
  refine ⟨_, fields_foldl_add.trans (if_neg hne), ?_⟩
  rw [List.head?_map, hhead]
  rfl

theorem find_of_fields {props : List ConfigProp}
    (h : (entries.foldl Configs.add .empty : Configs).fields type fieldType = some props) :
    ∃ e, entries.find? (·.HasKeys type fieldType) = some e ∧ props.head? = some e.prop := by
  rw [fields_foldl_add] at h
  split_ifs at h with hnil
  obtain ⟨e, he⟩ := Option.isSome_iff_exists.mp (List.isSome_head?.mpr hnil)
  refine ⟨e, List.head?_filter.symm.trans he, ?_⟩
  rw [← Option.some.inj h, List.head?_map, he]
  rfl

/-- No key is without fields. -/
theorem exists_get_of_get {d : Dict String (List ConfigProp)}
    (h : (entries.foldl Configs.add .empty : Configs).get type = some d) :
    ∃ fieldType props, d.get fieldType = some props := by
  induction entries using List.reverseRecOn generalizing d with
  | nil => cases h
  | append_singleton entries e ih =>
    rw [List.foldl_append, List.foldl_cons, List.foldl_nil, Configs.add, Dict.get_modify] at h
    split_ifs at h with htype
    · cases h
      exact ⟨e.fieldType, _, (Dict.get_modify ..).trans (if_pos rfl)⟩
    · exact ih h

end Configs

/-! ### When the post action returns -/

/-- It is known of each namespace `Preset` around the class whether it is in the same file. -/
def Cursor.PresetKnown (c : Cursor) : Prop :=
  ∀ s ∈ c.info.siblings, s.IsPreset → s.file ≠ none ∧ c.info.file ≠ none

/-- There is a namespace `Preset` in the same file. -/
def Cursor.PresetDefined (c : Cursor) : Prop :=
  ∃ s ∈ c.info.siblings, s.IsPreset ∧ s.file = c.info.file

/-- The fields to be configured, with their keys, in the order of the constructor's arguments. -/
def Posted.configured (p : Posted) (ctor : Cursor) : List (Key × String × Info) :=
  ctor.info.arguments.filterMap fun name =>
    (p.cursor.field name).toOption.bind fun field => p.ctx.bind fun ctx => ctx.keys field

/-- The first of the fields that have its keys: the one whose type is included. -/
def Posted.First (p : Posted) (ctor : Cursor) (field : Info) : Prop :=
  ∃ type fieldType, (p.configured ctor).find? (fun c => c.1 = type ∧ c.2.1 = fieldType)
    = some (type, fieldType, field)

/-- What the post action needs of its class: it has the namespace already, or there is a
    constructor, each of whose arguments is that of a field; the arguments of the annotation are
    texts; the class is in a file; and if there is something to be configured, the file has a name,
    and so has the file in which the type of each field that counts is declared. -/
def Posted.Fits (p : Posted) : Prop :=
  p.cursor.PresetKnown ∧ (p.cursor.PresetDefined ∨
    ∃ ctor, p.cursor.children.find? (fun c => c.info.kind = .constructor) = some ctor ∧
      (∀ name ∈ ctor.info.arguments, ∃ field, p.cursor.field name = .ok field ∧
        ∃ ctx, p.ctx = some ctx ∧ ctx.Binds field) ∧
      (∀ arg ∈ p.args, arg.IsStr) ∧
      ∃ name, p.cursor.info.file = some name ∧ ∀ field, p.First ctor field →
        name ≠ "" ∧ ∃ decl, field.declFile = some decl ∧ decl ≠ "")

theorem nameOf_eq_ok_iff {file : Option String} {name : String} :
    nameOf file = .ok name ↔ file = some name := by
  cases file with
  | none => exact ⟨fun h => (nomatch h), fun h => (nomatch h)⟩
  | some n => exact ⟨fun h => by cases h; rfl, fun h => by cases h; rfl⟩

theorem presetNss_eq_ok_iff {c : Cursor} {nss : List Sibling} :
    presetNss c = .ok nss ↔
      c.PresetKnown ∧ nss = c.info.siblings.filter fun s => s.IsPreset ∧ s.file = c.info.file := by
  rw [presetNss, filterM_eq_ok_iff (p := fun s => s.IsPreset ∧ s.file = c.info.file)]
  · refine and_congr_left' (forall₂_congr fun s _ => ?_)
    split_ifs with hs
    · rw [forall_prop_of_true hs]
      constructor
      · rintro ⟨b, h⟩
        obtain ⟨name, hname, hrest⟩ := bind_eq_ok_iff.mp h
        obtain ⟨own, hown, -⟩ := bind_eq_ok_iff.mp hrest
        rw [nameOf_eq_ok_iff] at hname hown
        rw [hname, hown]
        exact ⟨Option.some_ne_none _, Option.some_ne_none _⟩
      · rintro ⟨hfile, hown⟩
        obtain ⟨name, hname⟩ := Option.ne_none_iff_exists'.mp hfile
        obtain ⟨own, hown⟩ := Option.ne_none_iff_exists'.mp hown
        rw [hname, hown]
        exact ⟨_, rfl⟩
    · exact ⟨fun _ h => absurd h hs, fun _ => ⟨false, rfl⟩⟩
  · intro s _ b h
    split_ifs at h with hs
    · obtain ⟨name, hname, hrest⟩ := bind_eq_ok_iff.mp h
      obtain ⟨own, hown, heq⟩ := bind_eq_ok_iff.mp hrest
      rw [nameOf_eq_ok_iff] at hname hown
      cases heq
      simp [hs, hname, hown]
    · cases h
      simp [hs]

/-- What is configured for a page of the class can be told from the context. -/
theorem configured_of_mapM {p : Posted} {ctor : Cursor}
    {bound : List (String × Option ConfigEntry)}
    (h : ctor.info.arguments.mapM (fun name => p.cursor.field name >>= boundParam p.ctx)
      = .ok bound) :
    (bound.filterMap (·.2)).map ConfigEntry.keys = p.configured ctor := by
  rw [List.map_filterMap, Posted.configured]
  refine filterMap_of_mapM_eq_ok (fun name b hb => ?_) h
  obtain ⟨field, hfield, hbound⟩ := bind_eq_ok_iff.mp hb
  rw [hfield]
  cases hctx : p.ctx with
  | none =>
    rw [hctx] at hbound
    cases hbound
  | some ctx =>
    rw [hctx] at hbound
    exact boundParam_keys hbound

/-- The file can be opened, and the includes of all its pages can be made. -/
def Page.Includable (cursor : Cursor) (page : Page) : Prop :=
  ∃ name, cursor.info.file = some name ∧ ∀ config ∈ page.configs.items,
    name ≠ "" ∧ ∀ item ∈ config.2.items, ∃ prop, item.2.head? = some prop ∧
      ∃ decl, prop.cursor.declFile = some decl ∧ decl ≠ ""

/-- **The first field counts**: the one that a pair of keys was made for. -/
theorem forall_items_iff {entries : List ConfigEntry} {P : Info → Prop} {Q : Prop} :
    (∀ config ∈ (entries.foldl Configs.add .empty : Configs).items,
        Q ∧ ∀ item ∈ config.2.items, ∃ prop, item.2.head? = some prop ∧ P prop.cursor) ↔
      ∀ type fieldType field,
        (entries.map ConfigEntry.keys).find? (fun c => c.1 = type ∧ c.2.1 = fieldType)
          = some (type, fieldType, field) → Q ∧ P field := by
  have hfind : ∀ type fieldType,
      (entries.map ConfigEntry.keys).find? (fun c => c.1 = type ∧ c.2.1 = fieldType)
        = (entries.find? (·.HasKeys type fieldType)).map ConfigEntry.keys := by
    intro type fieldType
    rw [List.find?_map]
    rfl
  constructor
  · intro h type fieldType field hfirst
    rw [hfind, Option.map_eq_some_iff] at hfirst
    obtain ⟨e, he, hkeys⟩ := hfirst
    obtain ⟨props, hfields, hhead⟩ := exists_fields_of_find he
    obtain ⟨types, htypes, hprops⟩ := Option.bind_eq_some_iff.mp hfields
    obtain ⟨hq, hitems⟩ := h _ (Dict.mem_items_iff.mpr htypes)
    obtain ⟨prop, hprop, hp⟩ := hitems _ (Dict.mem_items_iff.mpr hprops)
    rw [hhead] at hprop
    cases hprop
    cases hkeys
    exact ⟨hq, hp⟩
  · rintro h ⟨type, types⟩ hconfig
    have htypes := Dict.mem_items_iff.mp hconfig
    have hfirst : ∀ fieldType props, types.get fieldType = some props →
        ∃ e : ConfigEntry, props.head? = some e.prop ∧ Q ∧ P e.prop.cursor := by
      intro fieldType props hprops
      have hfields : (entries.foldl Configs.add .empty : Configs).fields type fieldType
          = some props := Option.bind_eq_some_iff.mpr ⟨types, htypes, hprops⟩
      obtain ⟨e, he, hhead⟩ := find_of_fields hfields
      obtain ⟨rfl, rfl⟩ : e.HasKeys type fieldType := by simpa using List.find?_some he
      exact ⟨e, hhead, h _ _ _ (by rw [hfind, he]; rfl)⟩
    obtain ⟨fieldType, props, hprops⟩ := exists_get_of_get htypes
    obtain ⟨-, -, hq, -⟩ := hfirst fieldType props hprops
    refine ⟨hq, ?_⟩
    rintro ⟨fieldType, props⟩ hitem
    obtain ⟨e, he, -, hp⟩ := hfirst fieldType props (Dict.mem_items_iff.mp hitem)
    exact ⟨e.prop, he, hp⟩

theorem presetNss_pos_iff {c : Cursor} :
    0 < (c.info.siblings.filter fun s => s.IsPreset ∧ s.file = c.info.file).length ↔
      c.PresetDefined := by
  rw [List.length_pos_iff_exists_mem]
  simp [Cursor.PresetDefined]

theorem postPage_eq_none_iff {p : Posted} :
    postPage p.cursor p.args p.ctx = .ok none ↔ p.cursor.PresetKnown ∧ p.cursor.PresetDefined := by
  rw [postPage, bind_eq_ok_iff]
  simp only [presetNss_eq_ok_iff]
  constructor
  · rintro ⟨_, ⟨hknown, rfl⟩, h⟩
    split_ifs at h with hnss
    · exact ⟨hknown, presetNss_pos_iff.mp hnss⟩
    · obtain ⟨_, -, h⟩ := bind_eq_ok_iff.mp h
      obtain ⟨_, -, h⟩ := bind_eq_ok_iff.mp h
      obtain ⟨_, -, h⟩ := bind_eq_ok_iff.mp h
      cases h
  · rintro ⟨hknown, hdefined⟩
    exact ⟨_, ⟨hknown, rfl⟩, if_pos (presetNss_pos_iff.mpr hdefined)⟩

theorem postPage_eq_some_iff {p : Posted} {page : Page} :
    postPage p.cursor p.args p.ctx = .ok (some page) ↔
      p.cursor.PresetKnown ∧ ¬ p.cursor.PresetDefined ∧
        ∃ ctor, p.cursor.children.find? (fun c => c.info.kind = .constructor) = some ctor ∧
          ∃ bound, ctor.info.arguments.mapM (fun name => p.cursor.field name >>= boundParam p.ctx)
              = .ok bound ∧
            ∃ argDecls argImpls, makeArgDecls p.args = .ok argDecls ∧
              makeArgImpls p.args = .ok argImpls ∧
              page = ⟨["<utilities/singleton.hxx>"], p.cursor.info.spelling, bound.map (·.1),
                (bound.filterMap (·.2)).foldl Configs.add .empty, argDecls, argImpls⟩ := by
  rw [postPage, bind_eq_ok_iff]
  simp only [presetNss_eq_ok_iff]
  constructor
  · rintro ⟨_, ⟨hknown, rfl⟩, h⟩
    split_ifs at h with hnss
    · cases h
    obtain ⟨⟨params, configs⟩, hbind, h⟩ := bind_eq_ok_iff.mp h
    obtain ⟨argDecls, hdecls, h⟩ := bind_eq_ok_iff.mp h
    obtain ⟨argImpls, himpls, h⟩ := bind_eq_ok_iff.mp h
    cases h
    unfold bindFields at hbind
    split at hbind
    · cases hbind
    · obtain ⟨bound, hbound, heq⟩ := bind_eq_ok_iff.mp hbind
      cases heq
      exact ⟨hknown, presetNss_pos_iff.not.mp hnss, _, ‹_›, bound, hbound, argDecls, argImpls,
        hdecls, himpls, rfl⟩
  · rintro ⟨hknown, hdefined, ctor, hctor, bound, hbound, argDecls, argImpls, hdecls, himpls, rfl⟩
    refine ⟨_, ⟨hknown, rfl⟩, ?_⟩
    have hbind : bindFields p.cursor p.ctx = .ok (bound.map (·.1),
        (bound.filterMap (·.2)).foldl Configs.add .empty) := by
      rw [bindFields, hctor]
      exact bind_eq_ok_iff.mpr ⟨bound, hbound, rfl⟩
    rw [if_neg (presetNss_pos_iff.not.mpr hdefined), hbind, hdecls, himpls]
    rfl

/-- **The post action gets to its pages**, and each of them to its template, exactly if the class
    fits. -/
theorem postPage_fits_iff {p : Posted} :
    (∃ page, postPage p.cursor p.args p.ctx = .ok page ∧
      ∀ page', page = some page' → page'.Includable p.cursor) ↔ p.Fits := by
  have harg : ∀ name, (∃ bound, (p.cursor.field name >>= boundParam p.ctx) = .ok bound) ↔
      ∃ field, p.cursor.field name = .ok field ∧ ∃ ctx, p.ctx = some ctx ∧ ctx.Binds field := by
    intro name
    simp only [bind_eq_ok_iff, ← boundParam_ok_iff]
    exact ⟨fun ⟨bound, field, h, hbound⟩ => ⟨field, h, bound, hbound⟩,
      fun ⟨field, h, bound, hbound⟩ => ⟨bound, field, h, hbound⟩⟩
  simp only [Posted.Fits, ← harg, ← exists_mapM_eq_ok_iff]
  -- what is included can be told from the context
  have hincludable : ∀ {ctor : Cursor} {bound : List (String × Option ConfigEntry)} {page : Page},
      ctor.info.arguments.mapM (fun name => p.cursor.field name >>= boundParam p.ctx)
        = .ok bound →
      page.configs = (bound.filterMap (·.2)).foldl Configs.add .empty →
      (page.Includable p.cursor ↔ ∃ name, p.cursor.info.file = some name ∧
        ∀ field, p.First ctor field → name ≠ "" ∧
          ∃ decl, field.declFile = some decl ∧ decl ≠ "") := by
    intro ctor bound page hbound hconfigs
    refine exists_congr fun name => and_congr_right' ?_
    rw [hconfigs,
      forall_items_iff (P := fun field => ∃ decl, field.declFile = some decl ∧ decl ≠ ""),
      configured_of_mapM hbound]
    exact ⟨fun h field ⟨type, fieldType, hfirst⟩ => h type fieldType field hfirst,
      fun h type fieldType field hfirst => h field ⟨type, fieldType, hfirst⟩⟩
  constructor
  · rintro ⟨page, hpage, hinc⟩
    cases page with
    | none =>
      obtain ⟨hknown, hdefined⟩ := postPage_eq_none_iff.mp hpage
      exact ⟨hknown, .inl hdefined⟩
    | some page =>
      obtain ⟨hknown, -, ctor, hctor, bound, hbound, argDecls, argImpls, hdecls, -, rfl⟩ :=
        postPage_eq_some_iff.mp hpage
      exact ⟨hknown, .inr ⟨ctor, hctor, ⟨bound, hbound⟩, makeArgDecls_ok_iff.mp ⟨_, hdecls⟩,
        (hincludable hbound rfl).mp (hinc _ rfl)⟩⟩
  · rintro ⟨hknown, hfits⟩
    by_cases hdefined : p.cursor.PresetDefined
    · exact ⟨none, postPage_eq_none_iff.mpr ⟨hknown, hdefined⟩, fun _ h => (nomatch h)⟩
    · obtain ⟨ctor, hctor, ⟨bound, hbound⟩, hargs, hfirst⟩ := hfits.resolve_left hdefined
      obtain ⟨argDecls, hdecls⟩ := makeArgDecls_ok_iff.mpr hargs
      obtain ⟨argImpls, himpls⟩ := makeArgImpls_ok_iff.mpr hargs
      refine ⟨some _, postPage_eq_some_iff.mpr ⟨hknown, hdefined, ctor, hctor, bound, hbound,
        argDecls, argImpls, hdecls, himpls, rfl⟩, ?_⟩
      intro page' heq
      cases heq
      exact (hincludable hbound rfl).mpr hfirst

/-! ### What has to succeed outside -/

/-- A file with configurations can be looked through: each of its namespaces is in a file, and each
    variable of the first namespace `Preset` in it has two children, its type and its value. -/
def Unpackable (configFile : String) (tu : Cursor) : Prop :=
  (∀ child ∈ tu.children, child.info.kind = .namespaceDecl → child.info.file ≠ none) ∧
    ∀ ns, tu.children.find? (fun child => child.info.kind = .namespaceDecl ∧
        child.info.file = some configFile ∧ child.info.spelling = "Preset") = some ns →
      ∀ var ∈ ns.children, var.info.kind = .varDecl → var.children.length = 2

theorem configNss_eq_ok_iff {configFile : String} {tu : Cursor} {nss : List Cursor} :
    configNss configFile tu = .ok nss ↔
      (∀ child ∈ tu.children, child.info.kind = .namespaceDecl → child.info.file ≠ none) ∧
        nss = tu.children.filter fun child => child.info.kind = .namespaceDecl ∧
          child.info.file = some configFile ∧ child.info.spelling = "Preset" := by
  rw [configNss, filterM_eq_ok_iff (p := fun child => child.info.kind = .namespaceDecl ∧
    child.info.file = some configFile ∧ child.info.spelling = "Preset")]
  · refine and_congr_left' (forall₂_congr fun child _ => ?_)
    split_ifs with hkind
    · rw [forall_prop_of_true hkind, exists_bind_pure_iff]
      simp only [nameOf_eq_ok_iff]
      exact Option.ne_none_iff_exists'.symm
    · exact ⟨fun _ h => absurd h hkind, fun _ => ⟨false, rfl⟩⟩
  · intro child _ b h
    split_ifs at h with hkind
    · obtain ⟨name, hname, heq⟩ := bind_eq_ok_iff.mp h
      rw [nameOf_eq_ok_iff] at hname
      cases heq
      simp [hkind, hname]
    · cases h
      simp [hkind]

theorem checkConfig_eq_ok_iff {configFile : String} {tu : Cursor} :
    checkConfig configFile tu = .ok () ↔ Unpackable configFile tu := by
  have hvar : ∀ var : Cursor, (∃ u, unpackVar var = .ok u) ↔ var.children.length = 2 := by
    intro var
    rw [unpackVar]
    split_ifs with hlen
    · exact ⟨fun _ => hlen, fun _ => ⟨(), rfl⟩⟩
    · exact ⟨fun ⟨_, h⟩ => (nomatch h), fun h => absurd h hlen⟩
  rw [checkConfig, bind_eq_ok_iff, Unpackable]
  simp only [configNss_eq_ok_iff, ← List.head?_filter]
  generalize (tu.children.filter _) = nss
  constructor
  · rintro ⟨_, ⟨hfiles, rfl⟩, h⟩
    refine ⟨hfiles, fun ns hns var hmem hkind => ?_⟩
    obtain ⟨rest, rfl⟩ := List.head?_eq_some_iff.mp hns
    have hvars := exists_mapM_eq_ok_iff.mp (exists_bind_pure_iff.mp ⟨_, h⟩)
    exact (hvar var).mp (hvars var (by simpa using ⟨hmem, hkind⟩))
  · rintro ⟨hfiles, hvars⟩
    refine ⟨nss, ⟨hfiles, rfl⟩, ?_⟩
    cases nss with
    | nil => rfl
    | cons ns rest =>
      have hall : ∀ var ∈ ns.children.filter fun child => child.info.kind = .varDecl,
          ∃ u, unpackVar var = .ok u := by
        intro var hmem
        obtain ⟨hmem, hkind⟩ := List.mem_filter.mp hmem
        exact (hvar var).mpr (hvars ns rfl var hmem (by simpa using hkind))
      obtain ⟨us, hus⟩ := exists_mapM_eq_ok_iff.mpr hall
      exact bind_eq_ok_iff.mpr ⟨us, hus, rfl⟩

section Generate

variable {tools : Tools Env} {cursor : Cursor} {env env' : Env}

/-- The template can be rendered, and the file can be parsed and looked through if it is there. -/
def ConfigWritten (tools : Tools Env) (cursor : Cursor)
    (config : Key × Dict String (List ConfigProp)) (env : Env) : Prop :=
  (∀ page, configPage tools cursor config.2 = .ok page →
      ∃ rendered, tools.renderConfig page = .ok rendered) ∧
    (tools.fileExists (configFile config.1) env = true →
      ∃ tu, tools.createTu (configFile config.1) env = .ok tu ∧
        Unpackable (configFile config.1) tu)

/-- The templates of a page can be rendered, and the file of the class can be written to. -/
def Page.Written (tools : Tools Env) (cursor : Cursor) (page : Page) (env env' : Env) : Prop :=
  (∃ rendered name, tools.renderPreset page = .ok rendered ∧ cursor.info.file = some name ∧
      tools.append name rendered env = .ok env') ∧
    ∀ config ∈ page.configs.items, ConfigWritten tools cursor config env'

theorem fieldInclude_ok_iff (tools : Tools Env) {fields : List ConfigProp} :
    (∃ param, fieldInclude tools fields = .ok param) ↔
      ∃ prop, fields.head? = some prop ∧ ∃ decl, prop.cursor.declFile = some decl ∧ decl ≠ "" := by
  cases fields with
  | nil => exact ⟨fun ⟨_, h⟩ => (nomatch h), fun ⟨_, h, _⟩ => (nomatch h)⟩
  | cons field rest =>
    simp only [fieldInclude, bind_eq_ok_iff, nameOf_eq_ok_iff, List.head?_cons, Option.some.injEq,
      exists_eq_left']
    constructor
    · rintro ⟨param, decl, hdecl, hparam⟩
      exact ⟨decl, hdecl, (getIncludeParam_ok_iff _ _).mp ⟨param, hparam⟩⟩
    · rintro ⟨decl, hdecl, hne⟩
      obtain ⟨param, hparam⟩ := (getIncludeParam_ok_iff tools.isWord tools.cwd).mpr hne
      exact ⟨param, decl, hdecl, hparam⟩

theorem configPage_ok_iff {configItems : Dict String (List ConfigProp)} {name : String}
    (hfile : cursor.info.file = some name) :
    (∃ page, configPage tools cursor configItems = .ok page) ↔
      name ≠ "" ∧ ∀ item ∈ configItems.items, ∃ prop, item.2.head? = some prop ∧
        ∃ decl, prop.cursor.declFile = some decl ∧ decl ≠ "" := by
  simp only [← fieldInclude_ok_iff tools, ← exists_mapM_eq_ok_iff]
  rw [← getIncludeParam_ok_iff tools.isWord tools.cwd]
  constructor
  · rintro ⟨page, h⟩
    obtain ⟨name', hname, h⟩ := bind_eq_ok_iff.mp h
    rw [nameOf_eq_ok_iff, hfile] at hname
    cases hname
    obtain ⟨own, hown, h⟩ := bind_eq_ok_iff.mp h
    obtain ⟨includes, hincludes, -⟩ := bind_eq_ok_iff.mp h
    exact ⟨⟨own, hown⟩, includes, hincludes⟩
  · rintro ⟨⟨own, hown⟩, includes, hincludes⟩
    exact ⟨_, bind_eq_ok_iff.mpr ⟨name, nameOf_eq_ok_iff.mpr hfile,
      bind_eq_ok_iff.mpr ⟨own, hown, bind_eq_ok_iff.mpr ⟨includes, hincludes, rfl⟩⟩⟩⟩

/-- A round of the loop changes nothing. -/
theorem run_postConfig_iff {config : Key × Dict String (List ConfigProp)} :
    (postConfig tools cursor config).run env = (.returned (), env') ↔
      ((∃ page, configPage tools cursor config.2 = .ok page) ∧
        ConfigWritten tools cursor config env) ∧ env' = env := by
  rw [postConfig]
  constructor
  · intro hrun
    obtain ⟨page, _, hget, hrest⟩ := run_bind_returned_iff.mp hrun
    obtain ⟨hpage, rfl⟩ := run_ofExcept_returned_iff.mp hget
    obtain ⟨rendered, _, hrender, h⟩ := run_bind_returned_iff.mp hrest
    obtain ⟨hrendered, rfl⟩ := run_ofExcept_returned_iff.mp hrender
    rw [run_bind_returned (run_getState _)] at h
    have hwritten : ∀ page', configPage tools cursor config.2 = .ok page' →
        ∃ rendered, tools.renderConfig page' = .ok rendered := by
      intro page' hpage'
      rw [hpage] at hpage'
      cases hpage'
      exact ⟨rendered, hrendered⟩
    split_ifs at h with hexists
    · obtain ⟨tu, _, hparse, hlast⟩ := run_bind_returned_iff.mp h
      obtain ⟨htu, rfl⟩ := run_ofExcept_returned_iff.mp hparse
      obtain ⟨hcheck, rfl⟩ := run_ofExcept_returned_iff.mp hlast
      exact ⟨⟨⟨page, hpage⟩, hwritten, fun _ => ⟨tu, htu, checkConfig_eq_ok_iff.mp hcheck⟩⟩, rfl⟩
    · cases h
      exact ⟨⟨⟨page, hpage⟩, hwritten, fun h => absurd h hexists⟩, rfl⟩
  · rintro ⟨⟨⟨page, hpage⟩, hwritten, hparsed⟩, rfl⟩
    obtain ⟨rendered, hrendered⟩ := hwritten page hpage
    rw [run_bind_returned (run_ofExcept_returned_iff.mpr ⟨hpage, rfl⟩),
      run_bind_returned (run_ofExcept_returned_iff.mpr ⟨hrendered, rfl⟩),
      run_bind_returned (run_getState _)]
    split_ifs with hexists
    · obtain ⟨tu, htu, hcheck⟩ := hparsed hexists
      rw [run_bind_returned (run_ofExcept_returned_iff.mpr ⟨htu, rfl⟩)]
      exact run_ofExcept_returned_iff.mpr ⟨checkConfig_eq_ok_iff.mpr hcheck, rfl⟩
    · rfl

/-- **What is done with a page** succeeds exactly if its includes can be made, and everything
    outside succeeds. -/
theorem run_generate_iff {page : Page} :
    (generate tools cursor page).run env = (.returned (), env') ↔
      page.Includable cursor ∧ page.Written tools cursor env env' := by
  have hloop : ∀ {name : String}, cursor.info.file = some name → ∀ env₁,
      ((forEach page.configs.items (postConfig tools cursor)).run env₁ = (.returned (), env') ↔
        ((∀ config ∈ page.configs.items, name ≠ "" ∧ ∀ item ∈ config.2.items,
            ∃ prop, item.2.head? = some prop ∧
              ∃ decl, prop.cursor.declFile = some decl ∧ decl ≠ "") ∧
          ∀ config ∈ page.configs.items, ConfigWritten tools cursor config env₁) ∧
          env' = env₁) := by
    intro name hfile env₁
    rw [run_forEach_idle_iff fun _ _ _ => run_postConfig_iff]
    simp only [configPage_ok_iff hfile, forall₂_and]
  constructor
  · intro hrun
    obtain ⟨rendered, _, hrender, hrest⟩ := run_bind_returned_iff.mp hrun
    obtain ⟨hrendered, rfl⟩ := run_ofExcept_returned_iff.mp hrender
    obtain ⟨name, _, hget, hopen⟩ := run_bind_returned_iff.mp hrest
    obtain ⟨hname, rfl⟩ := run_ofExcept_returned_iff.mp hget
    obtain ⟨_, env₁, happend, hlast⟩ := run_bind_returned_iff.mp hopen
    have hfile := nameOf_eq_ok_iff.mp hname
    obtain ⟨⟨hincludes, hwritten⟩, rfl⟩ := (hloop hfile env₁).mp hlast
    exact ⟨⟨name, hfile, hincludes⟩,
      ⟨rendered, name, hrendered, hfile, run_updateState_returned_iff.mp happend⟩, hwritten⟩
  · rintro ⟨⟨name, hfile, hincludes⟩, ⟨rendered, name', hrendered, hfile', happend⟩, hwritten⟩
    rw [hfile] at hfile'
    cases hfile'
    rw [generate, run_bind_returned (run_ofExcept_returned_iff.mpr ⟨hrendered, rfl⟩),
      run_bind_returned (run_ofExcept_returned_iff.mpr ⟨nameOf_eq_ok_iff.mpr hfile, rfl⟩),
      run_bind_returned (run_updateState_returned_iff.mpr happend)]
    exact (hloop hfile env').mpr ⟨⟨hincludes, hwritten⟩, rfl⟩

end Generate

/-! ### One post action after another -/

section RunPosts

variable {tools : Tools Env} {posts : List Posted} {env env' : Env}

/-- The post actions, one after another. -/
def runPosts (tools : Tools Env) (posts : List Posted) : Comp PyErr Env Unit :=
  forEach posts fun p => post tools p.cursor p.args p.ctx

/-- The pages of post actions, with their classes. -/
def pages (posts : List Posted) : List (Cursor × Page) :=
  posts.filterMap fun p =>
    (postPage p.cursor p.args p.ctx).toOption.join.map fun page => (p.cursor, page)

/-- One page after another is rendered, and so on. -/
def Written (tools : Tools Env) : List (Cursor × Page) → Env → Env → Prop
  | [], env, env'                     => env' = env
  | (cursor, page) :: rest, env, env' =>
    ∃ env₁, page.Written tools cursor env env₁ ∧ Written tools rest env₁ env'

/-- **A post action returns** exactly if its class fits, and its page can be written. -/
theorem run_post_iff {p : Posted} :
    (post tools p.cursor p.args p.ctx).run env = (.returned (), env') ↔
      p.Fits ∧ Written tools (pages [p]) env env' := by
  rw [← postPage_fits_iff, post, pages, List.filterMap_cons, List.filterMap_nil]
  cases postPage p.cursor p.args p.ctx with
  | error err =>
    constructor
    · intro h
      cases h
    · rintro ⟨⟨page, h, -⟩, -⟩
      cases h
  | ok page =>
    cases page with
    | none =>
      have hnone : ((ofExcept (.ok none) : Comp PyErr Env (Option Page)) >>= fun page =>
          match page with
          | none => pure ()
          | some page => generate tools p.cursor page).run env = (.returned (), env) := rfl
      rw [hnone, returned_eq_iff]
      exact (and_iff_right ⟨none, rfl, fun _ h => (nomatch h)⟩).symm
    | some page =>
      show (generate tools p.cursor page).run env = _ ↔ _
      rw [run_generate_iff]
      constructor
      · rintro ⟨hinc, hwritten⟩
        refine ⟨⟨some page, rfl, ?_⟩, env', hwritten, rfl⟩
        intro page' heq
        cases heq
        exact hinc
      · rintro ⟨⟨page', heq, hinc⟩, env₁, hwritten, rfl⟩
        cases heq
        exact ⟨hinc page rfl, hwritten⟩

theorem written_append_iff {ps ps' : List (Cursor × Page)} :
    Written tools (ps ++ ps') env env' ↔
      ∃ env₁, Written tools ps env env₁ ∧ Written tools ps' env₁ env' := by
  induction ps generalizing env with
  | nil => exact ⟨fun h => ⟨env, rfl, h⟩, fun ⟨_, heq, h⟩ => heq ▸ h⟩
  | cons p ps ih =>
    constructor
    · rintro ⟨env₁, hpage, hrest⟩
      obtain ⟨env₂, hps, hps'⟩ := ih.mp hrest
      exact ⟨env₂, ⟨env₁, hpage, hps⟩, hps'⟩
    · rintro ⟨env₂, ⟨env₁, hpage, hps⟩, hps'⟩
      exact ⟨env₁, hpage, ih.mpr ⟨env₂, hps, hps'⟩⟩

/-- **The post actions raise nothing** exactly if their classes fit, and their pages can be
    written. -/
theorem run_runPosts_iff :
    (runPosts tools posts).run env = (.returned (), env') ↔
      (∀ p ∈ posts, p.Fits) ∧ Written tools (pages posts) env env' := by
  induction posts generalizing env with
  | nil =>
    rw [and_iff_right fun _ h => absurd h List.not_mem_nil]
    exact returned_eq_iff
  | cons p posts ih =>
    have hpages : pages ([p] ++ posts) = pages [p] ++ pages posts := List.filterMap_append
    rw [List.singleton_append] at hpages
    rw [runPosts, run_forEach_cons_iff, List.forall_mem_cons, hpages, written_append_iff]
    constructor
    · rintro ⟨env₁, hpost, hrest⟩
      obtain ⟨hfits, hwritten⟩ := run_post_iff.mp hpost
      obtain ⟨hall, hrest⟩ := ih.mp hrest
      exact ⟨⟨hfits, hall⟩, env₁, hwritten, hrest⟩
    · rintro ⟨⟨hfits, hall⟩, env₁, hwritten, hrest⟩
      exact ⟨env₁, run_post_iff.mpr ⟨hfits, hwritten⟩, ih.mpr ⟨hall, hrest⟩⟩

end RunPosts

end RtCharger.Scripts
