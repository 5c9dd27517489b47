import Mathlib.Data.List.Basic

namespace LineBuffer

/-!
# A line that is edited in a buffer

A line with a cursor is what is before the cursor and what is behind it.  In memory it is the
beginning of a buffer, and a number for the cursor.

* `Zipper` — the line with its cursor, and its operations;
* `poke`, `move` — one cell is written, and `memmove`; `none` outside of the buffer;
* `open_gap`, `close_gap` — how the two insert a cell and take one out;
* `commonPrefix`, `prefix_foldl_commonPrefix` — what some lines begin with, all of them.
-/

variable {α : Type}

/-! ### The line with its cursor -/

/-- What is before the cursor, and what is behind it. -/
structure Zipper (α : Type) where
  before : List α
  after : List α
deriving DecidableEq, Repr

namespace Zipper

/-- The line. -/
def text (z : Zipper α) : List α := z.before ++ z.after

/-- A line with the cursor at its end. -/
def atEnd (l : List α) : Zipper α := ⟨l, []⟩

def insert (z : Zipper α) (c : α) : Zipper α := ⟨z.before ++ [c], z.after⟩

/-- Take out what is before the cursor. -/
def erase (z : Zipper α) : Zipper α := ⟨z.before.dropLast, z.after⟩

def left (z : Zipper α) : Zipper α :=
  ⟨z.before.dropLast, z.before.getLast?.toList ++ z.after⟩

def right (z : Zipper α) : Zipper α :=
  ⟨z.before ++ z.after.head?.toList, z.after.tail⟩

@[simp]
theorem text_mk (before after : List α) : (Zipper.mk before after).text = before ++ after := rfl

@[simp]
theorem text_atEnd (l : List α) : (atEnd l).text = l := List.append_nil l

/-- The cursor moves over the line and leaves it as it is. -/
@[simp]
theorem text_left (z : Zipper α) : z.left.text = z.text := by
  have hlast : z.before.dropLast ++ z.before.getLast?.toList = z.before := by
    rcases List.eq_nil_or_concat z.before with h | ⟨before, c, h⟩
    · rw [h]
      rfl
    · rw [h, List.concat_eq_append, List.dropLast_concat, List.getLast?_concat]
      rfl
  rw [left, text, ← List.append_assoc, hlast, text]

@[simp]
theorem text_right (z : Zipper α) : z.right.text = z.text := by
  have hfirst : z.after.head?.toList ++ z.after.tail = z.after := by
    cases z.after <;> rfl
  rw [right, text, List.append_assoc, hfirst, text]

theorem mem_text_insert {z : Zipper α} {c d : α} (h : d ∈ (z.insert c).text) :
    d = c ∨ d ∈ z.text := by
  rw [insert, text, List.append_assoc, List.mem_append, List.mem_append, List.mem_singleton] at h
  rw [text, List.mem_append]
  tauto

/-- What is left was there. -/
theorem text_erase_sublist (z : Zipper α) : z.erase.text.Sublist z.text :=
  (List.dropLast_sublist z.before).append_right z.after

end Zipper

/-! ### The buffer -/

/-- `buf[i] = c`. -/
def poke (buf : List α) (i : Nat) (c : α) : Option (List α) :=
  if i < buf.length then some (buf.set i c) else none

/-- `memmove(&buf[dst], &buf[src], n)`. -/
def move (buf : List α) (dst src n : Nat) : Option (List α) :=
  if dst + n ≤ buf.length ∧ src + n ≤ buf.length then
    some (buf.take dst ++ (buf.drop src).take n ++ buf.drop (dst + n))
  else none

/-- `memcpy(buf, src, src.length)`. -/
def overwrite (buf src : List α) : Option (List α) :=
  if src.length ≤ buf.length then some (src ++ buf.drop src.length) else none

variable {c : α}

/-- A cell behind the first ones is written. -/
theorem poke_append (before : List α) (d : α) (rest : List α) :
    poke (before ++ d :: rest) before.length c = some (before ++ c :: rest) := by
  rw [poke, if_pos (by simp), List.set_append_right before.length c (Nat.le_refl _), Nat.sub_self]
  rfl

/-- **A cell is inserted**: the ones from there on make room for it. -/
theorem open_gap (before after : List α) (d : α) (rest : List α) :
    ((move (before ++ after ++ d :: rest) (before.length + 1) before.length after.length).bind
        fun buf => poke buf before.length c)
      = some (before ++ c :: after ++ rest) := by
  have hsrc : ((before ++ after ++ d :: rest).drop before.length).take after.length = after := by
    rw [List.append_assoc, List.drop_left, List.take_left]
  have hrest : (before ++ after ++ d :: rest).drop (before.length + 1 + after.length) = rest := by
    rw [List.append_cons]
    exact List.drop_left' (by simp; omega)
  -- the first cell that was moved is still where it was, too
  obtain ⟨e, hfirst⟩ : ∃ e, (before ++ after ++ d :: rest).take (before.length + 1)
      = before ++ [e] := by
    cases after with
    | nil =>
      refine ⟨d, ?_⟩
      rw [List.append_nil, List.append_cons]
      exact List.take_left' (by simp)
    | cons e after =>
      refine ⟨e, ?_⟩
      rw [List.append_assoc, List.cons_append, List.append_cons]
      exact List.take_left' (by simp)
  rw [move, if_pos (by simp; omega), hsrc, hrest, hfirst, Option.bind_some]
  simpa using poke_append before e (after ++ rest)

/-- **A cell is taken out**: the ones behind it close the gap. -/
theorem close_gap (before after : List α) (d : α) (rest : List α) :
    ((move (before ++ d :: after ++ rest) before.length (before.length + 1) after.length).bind
        fun buf => poke buf (before.length + after.length) c)
      = some (before ++ after ++ c :: rest) := by
  have hfirst : (before ++ d :: after ++ rest).take before.length = before := by
    rw [List.append_assoc, List.take_left]
  have hsrc : ((before ++ d :: after ++ rest).drop (before.length + 1)).take after.length
      = after := by
    rw [List.append_assoc, List.cons_append, List.append_cons, List.drop_left' (by simp),
      List.take_left]
  -- the last cell that was moved is still where it was, too
  obtain ⟨e, hrest⟩ : ∃ e, (before ++ d :: after ++ rest).drop (before.length + after.length)
      = e :: rest := by
    rcases List.eq_nil_or_concat (d :: after) with h | ⟨init, e, h⟩
    · cases h
    · refine ⟨e, ?_⟩
      have hlen : init.length = after.length := by
        have := congrArg List.length h
        simpa using this.symm
      rw [h, List.concat_eq_append, ← List.append_assoc, List.append_assoc]
      exact List.drop_left' (by simp [hlen])
  rw [move, if_pos (by simp; omega), hfirst, hsrc, hrest, Option.bind_some, ← List.length_append,
    poke_append]

/-! ### What lines begin with -/

section CommonPrefix

variable [DecidableEq α]

/-- What both lines begin with. -/
def commonPrefix : List α → List α → List α
  | a :: s, b :: t => if a = b then a :: commonPrefix s t else []
  | _, _           => []

theorem prefix_commonPrefix {p : List α} : ∀ {s t : List α},
    p <+: commonPrefix s t ↔ p <+: s ∧ p <+: t
  | [], t          => by
    simp only [commonPrefix, List.prefix_nil]
    exact ⟨fun h => ⟨h, h ▸ List.nil_prefix⟩, fun h => h.1⟩
  | a :: s, []     => by
    simp only [commonPrefix, List.prefix_nil]
    exact ⟨fun h => ⟨h ▸ List.nil_prefix, h⟩, fun h => h.2⟩
  | a :: s, b :: t => by
    rw [commonPrefix]
    cases p with
    | nil => simp
    | cons c p =>
      split_ifs with hab
      · rw [List.cons_prefix_cons, List.cons_prefix_cons, List.cons_prefix_cons,
          prefix_commonPrefix, ← hab]
        tauto
      · simp only [List.prefix_nil, List.cons_prefix_cons]
        exact ⟨fun h => absurd h (List.cons_ne_nil c p),
          fun h => absurd (h.1.1.symm.trans h.2.1) hab⟩

/-- **The longest line with which all of them begin.** -/
theorem prefix_foldl_commonPrefix {p : List α} {lines : List (List α)} : ∀ {first : List α},
    p <+: lines.foldl commonPrefix first ↔ p <+: first ∧ ∀ line ∈ lines, p <+: line := by
  induction lines with
  | nil => simp
  | cons line lines ih =>
    intro first
    rw [List.foldl_cons, ih, prefix_commonPrefix, List.forall_mem_cons, and_assoc]

theorem commonPrefix_isPrefix (s t : List α) : commonPrefix s t <+: s :=
  (prefix_commonPrefix.mp List.prefix_rfl).1

/-- The beginning of a line has less in common with another one, by what it is shorter. -/
theorem length_commonPrefix_of_isPrefix : ∀ {p s : List α}, p <+: s → ∀ t : List α,
    (commonPrefix p t).length = min p.length (commonPrefix s t).length
  | [], _, _, _              => by simp [commonPrefix]
  | a :: p, [], h, _         => absurd (List.prefix_nil.mp h) (List.cons_ne_nil a p)
  | a :: p, b :: s, _, []    => by simp [commonPrefix]
  | a :: p, b :: s, h, c :: t => by
    rw [List.cons_prefix_cons] at h
    rw [commonPrefix, commonPrefix, ← h.1]
    split_ifs
    · rw [List.length_cons, List.length_cons, List.length_cons,
        length_commonPrefix_of_isPrefix h.2 t]
      omega
    · simp

end CommonPrefix

end LineBuffer
