import RtCharger.Scripts.Annotations

namespace RtCharger.Scripts

open Effect

/-!
# The parameters of `#include`

`get_include_param`, with what it uses of `os.path` and the regular expression

    ^(?P<path>(?:\w+/)*)(?P<base>\w+)\.(?P<ext>\w+)

whose match is put in brackets.  Paths are those of POSIX, and a directory is the list of the names
on the way from the root.

* `relpath` — a path as seen from the working directory;
* `closed` — the match, closed with a bracket;
* `getIncludeParam_ok_iff` — nothing is raised but for the empty path.
-/

/-- The names on the way to a directory. -/
abbrev Dir : Type := List (List Char)

/-- The next name of a path; at the root `..` stays there. -/
def enter (dir : Dir) (name : List Char) : Dir :=
  if name = [] ∨ name = ['.'] then dir
  else if name = ['.', '.'] then dir.dropLast
  else dir ++ [name]

/-- `os.path.abspath`: where a path leads to. -/
def abspath (cwd : Dir) (path : List Char) : Dir :=
  (path.splitOn '/').foldl enter (if path.head? = some '/' then [] else cwd)

/-- The names on the way from one directory to another: up to what they have in common, and down. -/
def wayTo : Dir → Dir → Dir
  | start :: starts, name :: names =>
    if start = name then wayTo starts names
    else List.replicate (starts.length + 1) ['.', '.'] ++ name :: names
  | starts, names => List.replicate starts.length ['.', '.'] ++ names

/-- `os.path.relpath`. -/
def relpath (cwd : Dir) (path : List Char) : Except PyErr (List Char) :=
  if path = [] then .error .valueError
  else
    match wayTo cwd (abspath cwd path) with
    | []    => .ok ['.']
    | names => .ok (['/'].intercalate names)

section Match

variable (isWord : Char → Bool)

/-- What is left of a path, after `\w+/` has matched as often as it can, with `>` put behind the
    match; there is none without a word, a dot and an extension.  To have matched `\w+/` fewer times
    would not help: there is no dot in those names. -/
def closed : Dir → Option (List Char)
  | []            => none
  | name :: names =>
    match name.takeWhile isWord, name.dropWhile isWord with
    | [], _            => none
    | word, []         => if names = [] then none else (closed names).map (word ++ '/' :: ·)
    | word, '.' :: ext =>
      if ext.takeWhile isWord = [] then none
      else some (['/'].intercalate
        ((word ++ '.' :: ext.takeWhile isWord ++ '>' :: ext.dropWhile isWord) :: names))
    | _, _             => none

/-- `re.sub` of the source. -/
def bracketed (path : List Char) : List Char :=
  match closed isWord (path.splitOn '/') with
  | none      => path
  | some rest => '<' :: rest

/-- `get_include_param`. -/
def getIncludeParam (cwd : Dir) (path : String) : Except PyErr String := do
  let path ← relpath cwd path.toList
  if "rt-thread/".toList.isPrefixOf path then pure "<rtthread.h>"
  else pure (String.ofList (bracketed isWord path))

theorem relpath_ok_iff (cwd : Dir) {path : List Char} :
    (∃ rel, relpath cwd path = .ok rel) ↔ path ≠ [] := by
  rw [relpath]
  split_ifs with hpath
  · exact ⟨fun ⟨_, h⟩ => (nomatch h), fun h => absurd hpath h⟩
  · cases wayTo cwd (abspath cwd path) with
    | nil => exact ⟨fun _ => hpath, fun _ => ⟨_, rfl⟩⟩
    | cons name names => exact ⟨fun _ => hpath, fun _ => ⟨_, rfl⟩⟩

/-- **Only the empty path is refused**, whatever is to be included. -/
theorem getIncludeParam_ok_iff (cwd : Dir) {path : String} :
    (∃ param, getIncludeParam isWord cwd path = .ok param) ↔ path ≠ "" := by
  rw [Ne, ← String.toList_eq_nil_iff, ← Ne, ← relpath_ok_iff cwd]
  constructor
  · rintro ⟨param, h⟩
    obtain ⟨rel, hrel, -⟩ := bind_eq_ok_iff.mp h
    exact ⟨rel, hrel⟩
  · rintro ⟨rel, hrel⟩
    rw [getIncludeParam, hrel]
    show ∃ param, (if "rt-thread/".toList.isPrefixOf rel = true then pure "<rtthread.h>"
      else pure (String.ofList (bracketed isWord rel)) : Except PyErr String) = .ok param
    split_ifs
    · exact ⟨_, rfl⟩
    · exact ⟨_, rfl⟩

end Match

end RtCharger.Scripts
