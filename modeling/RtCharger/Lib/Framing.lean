import Mathlib.Data.List.Infix

namespace Framing

/-!
# Cutting a stream into frames

A reader takes the elements of a stream one at a time and ends a frame as soon as what it holds
meets the condition `ends`.

* `Open` — a list none of whose non-empty beginnings ends a frame;
* `IsFrame` — a list that ends a frame, and no earlier;
* `Framed` — a stream is some frames and an open rest;
* `Framed.unique` — there is at most one way to cut a stream;
* `isFrame_snoc`, `Open.snoc` — what one more element does;
* `framed_congr` — two conditions that cut every stream in the same way;
* `framed_marked` — texts that are each followed by a mark.
-/

variable {α : Type} {ends : List α → Prop}

/-- No non-empty beginning of `p` ends a frame. -/
def Open (ends : List α → Prop) (p : List α) : Prop := ∀ q, q <+: p → q ≠ [] → ¬ends q

/-- `f` ends a frame, and no shorter non-empty beginning of it does. -/
structure IsFrame (ends : List α → Prop) (f : List α) : Prop where
  ne_nil : f ≠ []
  last : ends f
  first : ∀ q, q <+: f → q ≠ [] → ends q → q = f

/-- The stream `s` is the frames `fs` and an unfinished rest. -/
structure Framed (ends : List α → Prop) (s : List α) (fs : List (List α)) (rest : List α) :
    Prop where
  cut : s = fs.flatten ++ rest
  frames : ∀ f ∈ fs, IsFrame ends f
  unfinished : Open ends rest

/-! ### One more element -/

/-- Nothing is open. -/
theorem open_nil : Open ends [] := by
  intro q hq hne
  exact absurd (List.prefix_nil.mp hq) hne

/-- An element that does not end the frame leaves it open. -/
theorem Open.snoc {p : List α} (hp : Open ends p) {a : α} (ha : ¬ends (p ++ [a])) :
    Open ends (p ++ [a]) := by
  intro q hq hne
  rcases List.prefix_concat_iff.mp hq with rfl | hq
  · exact ha
  · exact hp q hq hne

/-- An element that ends it makes a frame. -/
theorem isFrame_snoc {p : List α} (hp : Open ends p) {a : α} (ha : ends (p ++ [a])) :
    IsFrame ends (p ++ [a]) := by
  refine ⟨by simp, ha, fun q hq hne hends => ?_⟩
  rcases List.prefix_concat_iff.mp hq with rfl | hq
  · rfl
  · exact absurd hends (hp q hq hne)

/-! ### Two conditions -/

section Congr

variable {ends' : List α → Prop} (himp : ∀ p, ends' p → ends p)
    (hearly : ∀ p, p ≠ [] → ends p → ∃ q, q <+: p ∧ q ≠ [] ∧ ends' q)

include himp hearly

/-- A stronger condition that is met no later leaves the same lists open. -/
theorem open_congr (p : List α) : Open ends p ↔ Open ends' p := by
  constructor
  · intro h q hq hne hends
    exact h q hq hne (himp q hends)
  · intro h q hq hne hends
    obtain ⟨q', hq', hne', hends'⟩ := hearly q hne hends
    exact h q' (hq'.trans hq) hne' hends'

/-- And it ends the same frames. -/
theorem isFrame_congr (f : List α) : IsFrame ends f ↔ IsFrame ends' f := by
  constructor
  · intro h
    obtain ⟨q, hq, hne, hends⟩ := hearly f h.ne_nil h.last
    obtain rfl := h.first q hq hne (himp q hends)
    exact ⟨hne, hends, fun q' hq' hne' hends' => h.first q' hq' hne' (himp q' hends')⟩
  · intro h
    refine ⟨h.ne_nil, himp f h.last, fun q hq hne hends => ?_⟩
    obtain ⟨q', hq', hne', hends'⟩ := hearly q hne hends
    obtain rfl := h.first q' (hq'.trans hq) hne' hends'
    exact hq.eq_of_length_le hq'.length_le

/-- Streams are cut in the same way. -/
theorem framed_congr {s rest : List α} {fs : List (List α)} :
    Framed ends s fs rest ↔ Framed ends' s fs rest := by
  constructor
  · intro h
    exact ⟨h.cut, fun f hf => (isFrame_congr himp hearly f).mp (h.frames f hf),
      (open_congr himp hearly rest).mp h.unfinished⟩
  · intro h
    exact ⟨h.cut, fun f hf => (isFrame_congr himp hearly f).mpr (h.frames f hf),
      (open_congr himp hearly rest).mpr h.unfinished⟩

end Congr

/-! ### Frames that end in a mark -/

/-- Without the mark inside, a list is open. -/
theorem open_of_not_contains {mark p : List α} (h : ¬mark <:+: p) : Open (mark <:+ ·) p := by
  intro q hq _ hmark
  exact h (hmark.isInfix.trans hq.isInfix)

/-- A text followed by a mark that it does not contain is a frame, if the mark cannot overlap
    itself: here a mark of two different elements. -/
theorem isFrame_append_pair {a b : α} (hab : a ≠ b) {body : List α} (h : ¬[a, b] <:+: body) :
    IsFrame ([a, b] <:+ ·) (body ++ [a, b]) := by
  have hassoc : body ++ [a, b] = body ++ [a] ++ [b] := by simp
  have hopen : Open ([a, b] <:+ ·) (body ++ [a]) := by
    refine (open_of_not_contains h).snoc fun hmark => ?_
    have hlast := hmark.getLast (by simp)
    simp at hlast
    exact hab hlast.symm
  rw [hassoc]
  exact isFrame_snoc hopen (by simp)

/-! ### Cutting a stream -/

/-- One more frame in front. -/
theorem Framed.cons {f s rest : List α} {fs : List (List α)} (hf : IsFrame ends f)
    (h : Framed ends s fs rest) : Framed ends (f ++ s) (f :: fs) rest := by
  refine ⟨by rw [h.cut, List.flatten_cons, List.append_assoc], fun g hg => ?_, h.unfinished⟩
  rcases List.mem_cons.mp hg with rfl | hg
  · exact hf
  · exact h.frames g hg

/-- A stream that is cut, followed by more: the cutting goes on with the rest. -/
theorem Framed.append {s s' rest rest' : List α} {fs fs' : List (List α)}
    (h : Framed ends s fs rest) (h' : Framed ends (rest ++ s') fs' rest') :
    Framed ends (s ++ s') (fs ++ fs') rest' := by
  refine ⟨?_, fun f hf => ?_, h'.unfinished⟩
  · rw [h.cut, List.append_assoc, h'.cut, List.flatten_append, List.append_assoc]
  · rcases List.mem_append.mp hf with hf | hf
    · exact h.frames f hf
    · exact h'.frames f hf

/-- An open stream is no frame and a rest. -/
theorem framed_open {p : List α} (hp : Open ends p) : Framed ends p [] p :=
  ⟨rfl, fun _ hf => absurd hf List.not_mem_nil, hp⟩

/-- Streams with the same beginning have the same first frame. -/
theorem IsFrame.eq_of_append {f g s t : List α} (hf : IsFrame ends f) (hg : IsFrame ends g)
    (h : f ++ s = g ++ t) : f = g := by
  rcases List.append_eq_append_iff.mp h with ⟨m, rfl, -⟩ | ⟨m, rfl, -⟩
  · exact hg.first f (List.prefix_append ..) hf.ne_nil hf.last
  · exact (hf.first g (List.prefix_append ..) hg.ne_nil hg.last).symm

/-- An open stream does not begin with a frame. -/
theorem Open.ne_append {f s p : List α} (hp : Open ends p) (hf : IsFrame ends f) :
    p ≠ f ++ s := by
  rintro rfl
  exact hp f (List.prefix_append ..) hf.ne_nil hf.last

/-- **Uniqueness.**  There is at most one way to cut a stream. -/
theorem Framed.unique {s rest rest' : List α} {fs fs' : List (List α)}
    (h : Framed ends s fs rest) (h' : Framed ends s fs' rest') : fs = fs' ∧ rest = rest' := by
  induction fs generalizing s fs' with
  | nil =>
    have hs : s = rest := h.cut
    cases fs' with
    | nil => exact ⟨rfl, hs.symm.trans h'.cut⟩
    | cons g gs =>
      refine absurd h'.cut ?_
      rw [hs, List.flatten_cons, List.append_assoc]
      exact h.unfinished.ne_append (h'.frames g List.mem_cons_self)
  | cons f fs ih =>
    have hf := h.frames f List.mem_cons_self
    cases fs' with
    | nil =>
      refine absurd h.cut ?_
      rw [show s = rest' from h'.cut, List.flatten_cons, List.append_assoc]
      exact h'.unfinished.ne_append hf
    | cons g gs =>
      have hg := h'.frames g List.mem_cons_self
      have hcut : f ++ (fs.flatten ++ rest) = g ++ (gs.flatten ++ rest') := by
        rw [← List.append_assoc, ← List.append_assoc, ← List.flatten_cons, ← List.flatten_cons,
          ← h.cut, h'.cut]
      obtain rfl := hf.eq_of_append hg hcut
      have hrest := List.append_cancel_left hcut
      obtain ⟨rfl, rfl⟩ := ih
        ⟨rfl, fun x hx => h.frames x (List.mem_cons_of_mem _ hx), h.unfinished⟩
        ⟨hrest, fun x hx => h'.frames x (List.mem_cons_of_mem _ hx), h'.unfinished⟩
      exact ⟨rfl, rfl⟩

/-- **Marks.**  Texts without the mark, each followed by it, are the frames of the stream that
    they make. -/
theorem framed_marked {a b : α} (hab : a ≠ b) {bodies : List (List α)} {rest : List α}
    (hbodies : ∀ body ∈ bodies, ¬[a, b] <:+: body) (hrest : ¬[a, b] <:+: rest) :
    Framed ([a, b] <:+ ·) ((bodies.map (· ++ [a, b])).flatten ++ rest) (bodies.map (· ++ [a, b]))
      rest := by
  refine ⟨rfl, fun f hf => ?_, open_of_not_contains hrest⟩
  obtain ⟨body, hbody, rfl⟩ := List.mem_map.mp hf
  exact isFrame_append_pair hab (hbodies body hbody)

end Framing
