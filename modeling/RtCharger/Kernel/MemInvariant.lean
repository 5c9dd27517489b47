import Mathlib.Data.List.Chain
import RtCharger.Kernel.Mem

namespace RtCharger.Kernel.Mem

open ByteMemory

/-!
# What the functions of the heap keep

* `Inv` — the blocks cover the heap, no two free ones are neighbours, and `lfree` is the first
  of the free ones;
* `Inv.malloc`, `Inv.free`, `Inv.resize` — what each function makes of the blocks, and that it
  leaves alone what the used ones hold.
-/

/-- Where the first free block begins. -/
def firstFree (stop : Nat) : List Block → Nat
  | []      => stop
  | b :: bs => if b.used then firstFree stop bs else b.start

/-- No two neighbours are free. -/
def Coalesced (bs : List Block) : Prop := bs.IsChain fun b c => b.used = true ∨ c.used = true

/-- The used blocks. -/
def usedBlocks (bs : List Block) : List Block := bs.filter Block.used

/-- The memory holds the blocks, and `lfree` is the first free one. -/
structure Chained (h : Heap) (bs : List Block) : Prop where
  layout : Layout h.memory h.heapEnd bs
  lfree : h.lfree = firstFree h.heapEnd bs

structure Inv (h : Heap) (bs : List Block) : Prop extends Chained h bs where
  coalesced : Coalesced bs
  aligned : h.heapPtr % 4 = 0
  room : 12 ≤ h.memSizeAligned

/-- The heap is still the same, and so is what is in these blocks. -/
structure Keeps (bs : List Block) (h h' : Heap) : Prop where
  kept : Kept bs h.memory h'.memory
  heapPtr : h'.heapPtr = h.heapPtr
  size : h'.memSizeAligned = h.memSizeAligned

section FirstFree

variable {stop lo hi w : Nat} {b : Block} {bs pre post : List Block}

theorem firstFree_append : firstFree stop (pre ++ bs) = firstFree (firstFree stop bs) pre := by
  induction pre with
  | nil => rfl
  | cons b pre ih => simp only [List.cons_append, firstFree, ih]

theorem firstFree_cons_free (hb : b.used = false) : firstFree stop (b :: bs) = b.start := by
  simp [firstFree, hb]

theorem firstFree_cons_used (hb : b.used = true) :
    firstFree stop (b :: bs) = firstFree stop bs := by
  simp [firstFree, hb]

/-- Either all blocks are used, or one of them is the first free one, whatever comes behind. -/
theorem firstFree_cases (pre : List Block) :
    (∀ w, firstFree w pre = w) ∨ ∃ a ∈ pre, a.used = false ∧ ∀ w, firstFree w pre = a.start := by
  induction pre with
  | nil => exact .inl fun _ => rfl
  | cons b pre ih =>
    cases hb : b.used with
    | false => exact .inr ⟨b, List.mem_cons_self, hb, fun w => firstFree_cons_free hb⟩
    | true =>
      rcases ih with hall | ⟨a, ha, hfree, hsame⟩
      · exact .inl fun w => (firstFree_cons_used hb).trans (hall w)
      · exact .inr ⟨a, List.mem_cons_of_mem b ha, hfree,
          fun w => (firstFree_cons_used hb).trans (hsame w)⟩

/-- The blocks before the first free one are used. -/
theorem firstFree_split (ht : Tiles lo bs hi) :
    ∃ before behind, bs = before ++ behind ∧ (∀ b ∈ before, b.used = true) ∧
      Tiles (firstFree hi bs) behind hi := by
  induction bs generalizing lo with
  | nil => exact ⟨[], [], rfl, by simp, rfl⟩
  | cons b bs ih =>
    cases hb : b.used with
    | false =>
      rw [firstFree_cons_free hb]
      refine ⟨[], b :: bs, rfl, by simp, rfl, ht.2⟩
    | true =>
      obtain ⟨before, behind, rfl, hused, hrest⟩ := ih ht.2.2.2
      rw [firstFree_cons_used hb]
      exact ⟨b :: before, behind, rfl, List.forall_mem_cons.mpr ⟨hb, hused⟩, hrest⟩

theorem le_firstFree (ht : Tiles lo bs hi) : lo ≤ firstFree hi bs := by
  rcases firstFree_cases bs with hall | ⟨a, ha, -, hsame⟩
  · rw [hall]
    exact ht.le
  · rw [hsame]
    exact (ht.mem ha).1

/-- A free block more: it is the first one if it is before the one that was. -/
theorem firstFree_insert (hpre : ∀ a ∈ pre, a.start < b.start) (hpost : b.start < w)
    (hb : b.used = false) :
    (if b.start < firstFree w pre then b.start else firstFree w pre)
      = firstFree stop (pre ++ b :: post) := by
  rw [firstFree_append, firstFree_cons_free hb]
  rcases firstFree_cases pre with hall | ⟨a, ha, -, hsame⟩
  · rw [hall, hall, if_pos hpost]
  · have hlt := hpre a ha
    rw [hsame, hsame, if_neg (by omega)]

end FirstFree

/-! ### `plug_holes` -/

section Plug

variable {h : Heap} {x : Block} {pre post : List Block}

theorem Keeps.refl (bs : List Block) (h : Heap) : Keeps bs h h :=
  ⟨fun _ _ _ _ _ => rfl, rfl, rfl⟩

theorem Keeps.trans {bs : List Block} {h' h'' : Heap} (h₁ : Keeps bs h h') (h₂ : Keeps bs h' h'') :
    Keeps bs h h'' :=
  ⟨h₁.kept.trans h₂.kept, h₂.heapPtr.trans h₁.heapPtr, h₂.size.trans h₁.size⟩

theorem Keeps.mono {bs bs' : List Block} {h' : Heap} (h₁ : Keeps bs h h')
    (hsub : ∀ b ∈ bs', b ∈ bs) : Keeps bs' h h' :=
  ⟨h₁.kept.mono hsub, h₁.heapPtr, h₁.size⟩

theorem mem_usedBlocks {bs : List Block} : x ∈ usedBlocks bs ↔ x ∈ bs ∧ x.used = true :=
  List.mem_filter

theorem usedBlocks_append {bs cs : List Block} :
    usedBlocks (bs ++ cs) = usedBlocks bs ++ usedBlocks cs :=
  List.filter_append bs cs

theorem usedBlocks_cons_free {bs : List Block} (hx : x.used = false) :
    usedBlocks (x :: bs) = usedBlocks bs := by
  simp [usedBlocks, hx]

theorem usedBlocks_cons_used {bs : List Block} (hx : x.used = true) :
    usedBlocks (x :: bs) = x :: usedBlocks bs := by
  simp [usedBlocks, hx]

/-- The header tells whether the block is used. -/
theorem Layout.used_eq_zero {m : Memory} {stop : Nat} (hl : Layout m stop (pre ++ x :: post)) :
    (header m x.start).used = 0 ↔ x.used = false := by
  rw [hl.header_eq]
  cases hx : x.used <;> simp [Block.image, hx]

/-- A block is joined with the free one behind it. -/
theorem Chained.plugForward (hc : Chained h (pre ++ x :: post)) (hx : x.used = false)
    (hpost : Coalesced post) :
    ∃ x' post', Chained (plugForward h x.start) (pre ++ x' :: post') ∧ x'.start = x.start ∧
      x'.used = false ∧ Coalesced (x' :: post') ∧
      usedBlocks post' = usedBlocks post ∧ Keeps (pre ++ x :: post) h (plugForward h x.start) := by
  have hnext : (header h.memory x.start).next = x.next := by rw [hc.layout.header_eq]; rfl
  obtain ⟨lo, -, hstart, hroom, -, htpost⟩ := tiles_append.mp hc.layout.tiles
  cases post with
  | nil =>
    have hend : x.next = h.heapEnd := htpost
    have hsame : Mem.plugForward h x.start = h := by
      unfold Mem.plugForward
      rw [hnext, if_neg (by simp [hend])]
    rw [hsame]
    exact ⟨x, [], hc, rfl, hx, .singleton x, rfl, .refl _ h⟩
  | cons c post =>
    obtain ⟨hcstart, hcroom, -, htrest⟩ := htpost
    have hle := htrest.le
    have hc' : Layout h.memory h.heapEnd ((pre ++ [x]) ++ c :: post) := by
      rw [List.append_assoc]
      exact hc.layout
    cases hcused : c.used with
    | true =>
      have hsame : Mem.plugForward h x.start = h := by
        unfold Mem.plugForward
        rw [hnext, ← hcstart, if_neg]
        rw [hc'.used_eq_zero, hcused]
        simp
      rw [hsame]
      exact ⟨x, c :: post, hc, rfl, hx, List.isChain_cons_cons.mpr ⟨.inr hcused, hpost⟩, rfl,
        .refl _ h⟩
    | false =>
      -- `lfree` is not behind the first of the two
      have hlfree : h.lfree ≠ c.start := by
        rw [hc.lfree, firstFree_append, firstFree_cons_free hx]
        rcases firstFree_cases pre with hall | ⟨a, ha, -, hfirst⟩
        · rw [hall]
          omega
        · have hplace := (hc.layout.places.1 a ha)
          rw [hfirst]
          omega
      have hjoined : Mem.plugForward h x.start =
          { h with memory := joinBlocks h.memory x.start c.start } := by
        unfold Mem.plugForward
        rw [hnext, ← hcstart, if_pos ⟨by omega, hc'.used_eq_zero.mpr hcused, by omega⟩,
          if_neg hlfree]
      obtain ⟨hlayout, hkept⟩ := hc.layout.join
      rw [hjoined]
      obtain ⟨y, hy⟩ : ∃ y : Block, y = ⟨x.start, c.next, x.used⟩ := ⟨_, rfl⟩
      have hyused : y.used = false := hy ▸ hx
      have hystart : y.start = x.start := by rw [hy]
      rw [← hy] at hlayout
      refine ⟨y, post, ⟨hlayout, ?_⟩, hystart, hyused, ?_, ?_, hkept, rfl, rfl⟩
      · show h.lfree = firstFree h.heapEnd (pre ++ y :: post)
        rw [hc.lfree, firstFree_append, firstFree_append, firstFree_cons_free hx,
          firstFree_cons_free hyused, hystart]
      · obtain ⟨hhead, hrest⟩ := List.isChain_cons.mp hpost
        refine List.isChain_cons.mpr ⟨fun z hz => .inr ?_, hrest⟩
        simpa [hcused] using hhead z hz
      · rw [usedBlocks_cons_free hcused]

/-- A block is joined with the free one before it. -/
theorem Chained.plugBackward (hc : Chained h (pre ++ x :: post)) (hx : x.used = false)
    (hpre : Coalesced pre) (hpost : Coalesced (x :: post)) :
    ∃ bs', Chained (plugBackward h x.start) bs' ∧ Coalesced bs' ∧
      usedBlocks bs' = usedBlocks (pre ++ x :: post) ∧
      Keeps (pre ++ x :: post) h (plugBackward h x.start) := by
  have hprev : (header h.memory x.start).prev = lastStart 0 pre := by
    rw [hc.layout.header_eq]
    rfl
  rcases List.eq_nil_or_concat pre with rfl | ⟨pre, a, rfl⟩
  · -- the first block links back to itself
    have hstart : x.start = 0 := hc.layout.tiles.1
    have hsame : Mem.plugBackward h x.start = h := by
      unfold Mem.plugBackward
      rw [hprev, hstart, if_neg (by simp [lastStart])]
    rw [hsame]
    exact ⟨x :: post, hc, hpost, rfl, .refl _ h⟩
  · rw [List.concat_eq_append] at hpre hprev hc ⊢
    rw [lastStart_append] at hprev
    have hc' : Chained h (pre ++ a :: x :: post) := by
      rw [List.append_assoc] at hc
      exact hc
    have hlist : pre ++ [a] ++ x :: post = pre ++ a :: x :: post := List.append_assoc ..
    have hplace := (hc'.layout.places.2.1 x List.mem_cons_self).1
    have hroom := hc'.layout.places.2.2.1
    rw [hlist]
    cases ha : a.used with
    | true =>
      have hsame : Mem.plugBackward h x.start = h := by
        unfold Mem.plugBackward
        rw [hprev, if_neg]
        rw [show lastStart (lastStart 0 pre) [a] = a.start from rfl, hc'.layout.used_eq_zero, ha]
        simp
      rw [hsame]
      refine ⟨pre ++ a :: x :: post, hc', ?_, rfl, .refl _ h⟩
      rw [← hlist]
      refine List.isChain_append.mpr ⟨hpre, hpost, fun y hy z _ => .inl ?_⟩
      obtain rfl : a = y := by simpa using hy
      exact ha
    | false =>
      -- `lfree` is not behind the first of the two
      have hlfree : h.lfree ≠ x.start := by
        rw [hc'.lfree, firstFree_append, firstFree_cons_free ha]
        rcases firstFree_cases pre with hall | ⟨b, hb, -, hfirst⟩
        · rw [hall]
          omega
        · have hbefore := hc'.layout.places.1 b hb
          rw [hfirst]
          omega
      have hjoined : Mem.plugBackward h x.start =
          { h with memory := joinBlocks h.memory a.start x.start } := by
        unfold Mem.plugBackward
        rw [hprev, show lastStart (lastStart 0 pre) [a] = a.start from rfl,
          if_pos ⟨by omega, hc'.layout.used_eq_zero.mpr ha⟩, if_neg hlfree]
      obtain ⟨hlayout, hkept⟩ := hc'.layout.join
      rw [hjoined]
      obtain ⟨y, hy⟩ : ∃ y : Block, y = ⟨a.start, x.next, a.used⟩ := ⟨_, rfl⟩
      have hyused : y.used = false := hy ▸ ha
      have hystart : y.start = a.start := by rw [hy]
      rw [← hy] at hlayout
      refine ⟨pre ++ y :: post, ⟨hlayout, ?_⟩, ?_, ?_, hkept, rfl, rfl⟩
      · show h.lfree = firstFree h.heapEnd (pre ++ y :: post)
        rw [hc'.lfree, firstFree_append, firstFree_append, firstFree_cons_free ha,
          firstFree_cons_free hyused, hystart]
      · obtain ⟨hleft, -, hlast⟩ := List.isChain_append.mp hpre
        obtain ⟨hhead, hrest⟩ := List.isChain_cons.mp hpost
        refine List.isChain_append.mpr ⟨hleft, List.isChain_cons.mpr ⟨fun z hz => ?_, hrest⟩,
          fun z hz w hw => .inl ?_⟩
        · exact .inr (by simpa [hx] using hhead z hz)
        · simpa [ha] using hlast z hz a rfl
      · rw [usedBlocks_append, usedBlocks_append, usedBlocks_cons_free hyused,
          usedBlocks_cons_free ha, usedBlocks_cons_free hx]

/-- **`plug_holes`** joins the block with the free ones beside it. -/
theorem Chained.plugHoles (hc : Chained h (pre ++ x :: post)) (hx : x.used = false)
    (hpre : Coalesced pre) (hpost : Coalesced post) :
    ∃ h' bs', plugHoles h x.start = some h' ∧ Chained h' bs' ∧ Coalesced bs' ∧
      usedBlocks bs' = usedBlocks (pre ++ x :: post) ∧
      Keeps (usedBlocks (pre ++ x :: post)) h h' := by
  obtain ⟨x', post', hc₁, hstart, hx', hpost', hused, hkeeps₁⟩ := hc.plugForward hx hpost
  obtain ⟨bs', hc₂, hbs', hused', hkeeps₂⟩ := hc₁.plugBackward hx' hpre hpost'
  have husedx : usedBlocks (pre ++ x' :: post') = usedBlocks (pre ++ x :: post) := by
    rw [usedBlocks_append, usedBlocks_append, usedBlocks_cons_free hx, usedBlocks_cons_free hx',
      hused]
  have hplug : Mem.plugHoles h x.start
      = some (Mem.plugBackward (Mem.plugForward h x.start) x'.start) := by
    obtain ⟨-, -, hroom, hstop, -, -⟩ := hc.layout.places
    rw [hstart]
    exact if_pos ⟨by omega, hc.layout.used_eq_zero.mpr hx⟩
  refine ⟨_, bs', hplug, hc₂, hbs', hused'.trans husedx, ?_⟩
  refine (hkeeps₁.mono fun y hy => (mem_usedBlocks.mp hy).1).trans (hkeeps₂.mono fun y hy => ?_)
  rw [← husedx] at hy
  exact (mem_usedBlocks.mp hy).1

end Plug

/-! ### `rt_malloc` -/

theorem usub_eq {a b : Nat} (hle : b ≤ a) (ha : a < 2 ^ 32) : usub a b = a - b := by
  unfold usub
  omega

/-- A block that `rt_malloc` takes: a free one with room that begins early enough. -/
def Fits (h : Heap) (size : Nat) (b : Block) : Bool :=
  !b.used && decide (size ≤ b.next - (b.start + 12)) && decide (b.start < h.memSizeAligned - size)

section Loops

variable {h : Heap} {prev lo hi size fuel : Nat} {b : Block} {bs pre post : List Block}

/-- The blocks are not more than the loops have rounds. -/
theorem Tiles.length_le (ht : Tiles lo bs hi) : lo + 12 * bs.length ≤ hi := by
  induction bs generalizing lo with
  | nil => exact Nat.le_of_eq ht
  | cons b bs ih =>
    obtain ⟨hstart, hroom, -, hrest⟩ := ht
    have hle := ih hrest
    rw [List.length_cons]
    omega

/-- **The search** finds the first block that fits. -/
theorem findBlock_eq (hh : Headers h.memory prev bs) (ht : Tiles lo bs h.heapEnd)
    (hlt : h.heapEnd < 2 ^ 32) (hsize : size ≤ h.memSizeAligned) (hfuel : bs.length < fuel) :
    findBlock h size fuel lo = some ((bs.find? (Fits h size)).map Block.start) := by
  have hend : h.heapEnd = h.memSizeAligned + 12 := rfl
  have hbound : usub h.memSizeAligned size = h.memSizeAligned - size := usub_eq hsize (by omega)
  induction bs generalizing prev lo fuel with
  | nil =>
    obtain ⟨fuel, rfl⟩ := Nat.exists_eq_succ_of_ne_zero (Nat.ne_of_gt hfuel)
    have hlo : lo = h.heapEnd := ht
    rw [findBlock, if_neg (by omega)]
    rfl
  | cons b bs ih =>
    obtain ⟨fuel, rfl⟩ := Nat.exists_eq_succ_of_ne_zero (Nat.ne_of_gt (Nat.zero_lt_of_lt hfuel))
    have hmem := fun c hc => ht.mem (b := c) hc
    obtain ⟨rfl, hroom, -, hrest⟩ := ht
    have hle := hrest.le
    have hused : (header h.memory b.start).used = 0 ↔ b.used = false := by
      rw [hh.1]
      cases hb : b.used <;> simp [Block.image, hb]
    have hnext : (header h.memory b.start).next = b.next := by rw [hh.1]; rfl
    have hdata : usub b.next (b.start + 12) = b.next - (b.start + 12) :=
      usub_eq (by omega) (by omega)
    rw [findBlock, hbound]
    dsimp only
    rw [hnext, hdata]
    by_cases hstart : b.start < h.memSizeAligned - size
    · rw [if_pos hstart]
      by_cases hfits : Fits h size b = true
      · have hfit := hfits
        simp only [Fits, Bool.and_eq_true, Bool.not_eq_true', decide_eq_true_eq] at hfit
        rw [List.find?_cons_of_pos hfits, if_pos ⟨hused.mpr hfit.1.1, hfit.1.2⟩]
        rfl
      · rw [List.find?_cons_of_neg hfits, if_neg, ih hh.2 hrest (by simpa using hfuel)]
        rintro ⟨hfree, hlarge⟩
        exact hfits (by simp [Fits, hused.mp hfree, hlarge, hstart])
    · -- all the blocks behind begin too late as well
      rw [if_neg hstart, List.find?_eq_none.mpr fun c hc => ?_]
      · rfl
      · have hlate := (hmem c hc).1
        simp only [Fits, Bool.and_eq_true, decide_eq_true_eq, not_and]
        omega

/-- The next free block. -/
theorem nextFree_eq (hh : Headers h.memory prev bs) (ht : Tiles lo bs h.heapEnd)
    (hfuel : bs.length < fuel) : nextFree h fuel lo = some (firstFree h.heapEnd bs) := by
  induction bs generalizing prev lo fuel with
  | nil =>
    obtain ⟨fuel, rfl⟩ := Nat.exists_eq_succ_of_ne_zero (Nat.ne_of_gt hfuel)
    obtain rfl : lo = h.heapEnd := ht
    rw [nextFree, if_neg (by simp)]
    rfl
  | cons b bs ih =>
    obtain ⟨fuel, rfl⟩ := Nat.exists_eq_succ_of_ne_zero (Nat.ne_of_gt (Nat.zero_lt_of_lt hfuel))
    obtain ⟨rfl, hroom, -, hrest⟩ := ht
    have hle := hrest.le
    have hnext : (header h.memory b.start).next = b.next := by rw [hh.1]; rfl
    rw [nextFree, hnext]
    cases hb : b.used with
    | false =>
      rw [if_neg, firstFree_cons_free hb]
      rw [hh.1]
      simp [Block.image, hb]
    | true =>
      rw [if_pos, firstFree_cons_used hb, ih hh.2 hrest (by simpa using hfuel)]
      refine ⟨?_, by omega⟩
      rw [hh.1]
      simp [Block.image, hb]

end Loops

section Malloc

variable {h : Heap} {b : Block} {bs pre post : List Block} {size n : Nat}

/-- The bytes that `rt_malloc` looks for. -/
def mallocSize (size : Nat) : Nat := if rtAlign size < 12 then 12 else rtAlign size

/-- What `rt_malloc` does: it gives nothing, or the first block that fits, or as much of it as is
    needed. -/
inductive Malloc (h : Heap) (bs : List Block) (size : Nat) : Option Nat × Heap → Prop where
  | nothing : size = 0 ∨ h.memSizeAligned < rtAlign size ∨
      (∀ b ∈ bs, Fits h (mallocSize size) b = false) → Malloc h bs size (none, h)
  | block {pre post bs' : List Block} {b : Block} {next : Nat} {h' : Heap} :
      bs = pre ++ b :: post → b.used = false → Inv h' bs' →
      usedBlocks bs' = usedBlocks pre ++ ⟨b.start, next, true⟩ :: usedBlocks post →
      b.start + 12 + mallocSize size ≤ next → Keeps (usedBlocks bs) h h' → size ≠ 0 →
      rtAlign size ≤ h.memSizeAligned → Fits h (mallocSize size) b = true →
      Malloc h bs size (some (b.start + 12), h')

/-- The block is taken, and split if much of it is left. -/
theorem Inv.take (hinv : Inv h (pre ++ b :: post)) (hb : b.used = false) (hn : n % 4 = 0)
    (hpos : 12 ≤ n)
    (hroom : n ≤ b.next - (b.start + 12)) {memory : Memory}
    (hmemory : memory = if n + 24 ≤ usub b.next (b.start + 12) then
      splitBlock h b.start (b.start + 12 + n) else h.memory) :
    ∃ next rest, Layout (setMagic (setUsed memory b.start 1) b.start heapMagic) h.heapEnd
        (pre ++ ⟨b.start, next, true⟩ :: rest) ∧ Coalesced rest ∧
      usedBlocks rest = usedBlocks post ∧ b.start + 12 + n ≤ next ∧
      Kept (usedBlocks (pre ++ b :: post)) h.memory
        (setMagic (setUsed memory b.start 1) b.start heapMagic) := by
  have hlt := hinv.layout.lt
  obtain ⟨-, -, hplace, hstop, halign, -⟩ := hinv.layout.places
  obtain ⟨hhead, hcoal⟩ := List.isChain_cons.mp (List.isChain_append.mp hinv.coalesced).2.1
  have husub : usub b.next (b.start + 12) = b.next - (b.start + 12) :=
    usub_eq (by omega) (by omega)
  rw [husub] at hmemory
  have hother : ∀ x ∈ usedBlocks (pre ++ b :: post), x ∈ pre ∨ x ∈ post := by
    intro x hx
    obtain ⟨hmem, hused⟩ := mem_usedBlocks.mp hx
    rcases List.mem_append.mp hmem with hmem | hmem
    · exact .inl hmem
    · rcases List.mem_cons.mp hmem with rfl | hmem
      · rw [hb] at hused
        cases hused
      · exact .inr hmem
  split_ifs at hmemory with hlarge
  · -- what is left becomes a free block; the block behind is used, or the two would have been one
    obtain ⟨hsplit, hkept₁⟩ := hinv.layout.split (q := b.start + 12 + n) (by omega) (by omega)
      (by omega)
    obtain ⟨hmark, hkept₂⟩ := hsplit.mark true (v := 1) rfl
    subst hmemory
    refine ⟨_, _, hmark, ?_, usedBlocks_cons_free rfl, Nat.le_refl _, ?_⟩
    · refine List.isChain_cons.mpr ⟨fun y hy => .inr ?_, hcoal⟩
      simpa [hb] using hhead y hy
    · refine (hkept₁.mono fun x hx => ?_).trans (hkept₂.mono fun x hx => ?_)
      all_goals
        rcases hother x hx with hmem | hmem
        · exact List.mem_append_left _ hmem
        · simp [hmem]
  · obtain ⟨hmark, hkept⟩ := hinv.layout.mark true (v := 1) rfl
    subst hmemory
    exact ⟨b.next, post, hmark, hcoal, rfl, by omega,
      hkept.mono fun x hx => (mem_usedBlocks.mp hx).1⟩

theorem rtAlign_mod (size : Nat) : rtAlign size % 4 = 0 := by
  unfold rtAlign
  omega

theorem mallocSize_mod (size : Nat) : mallocSize size % 4 = 0 := by
  unfold mallocSize
  split_ifs
  · rfl
  · exact rtAlign_mod size

theorem le_mallocSize (size : Nat) : 12 ≤ mallocSize size := by
  unfold mallocSize
  split_ifs <;> omega

/-- `lfree` is the end, or a free block. -/
theorem Layout.firstFree_free {m : Memory} {stop : Nat} (hl : Layout m stop bs) :
    firstFree stop bs = stop ∨ (header m (firstFree stop bs)).used = 0 := by
  rcases firstFree_cases bs with hall | ⟨a, ha, hfree, hsame⟩
  · exact .inl (hall stop)
  · obtain ⟨before, behind, rfl⟩ := List.append_of_mem ha
    rw [hsame]
    exact .inr (hl.used_eq_zero.mpr hfree)

/-- **The search** finds the first block that fits, though it begins at `lfree` only. -/
theorem Inv.findBlock (hinv : Inv h bs) (hn : n ≤ h.memSizeAligned) :
    Mem.findBlock h n (h.memSizeAligned + 2) h.lfree
      = some ((bs.find? (Fits h n)).map Block.start) := by
  have hlt := hinv.layout.lt
  have hend : h.heapEnd = h.memSizeAligned + 12 := rfl
  have hle := hinv.layout.tiles.length_le
  obtain ⟨before, behind, rfl, hused, ht⟩ := firstFree_split hinv.layout.tiles
  rw [← hinv.lfree] at ht
  have hnone : before.find? (Fits h n) = none :=
    List.find?_eq_none.mpr fun b hb => by simp [Fits, hused b hb]
  rw [List.find?_append, hnone, Option.none_or]
  rw [List.length_append] at hle
  exact findBlock_eq (headers_append.mp hinv.layout.headers).2 ht (by omega) hn (by omega)

/-- **`lfree` after a block is taken**: the next free block is looked for if it was the first. -/
theorem Inv.nextFree (hinv : Inv h (pre ++ b :: post)) (hb : b.used = false) {m : Memory}
    {next : Nat} {rest : List Block}
    (hlayout : Layout m h.heapEnd (pre ++ ⟨b.start, next, true⟩ :: rest)) :
    (if b.start = h.lfree then
        Mem.nextFree { h with memory := m } (h.memSizeAligned + 2) b.start else some h.lfree)
      = some (firstFree h.heapEnd (pre ++ ⟨b.start, next, true⟩ :: rest)) := by
  have hend : h.heapEnd = h.memSizeAligned + 12 := rfl
  have hold : h.lfree = firstFree b.start pre := by
    rw [hinv.lfree, firstFree_append, firstFree_cons_free hb]
  obtain ⟨mid, htpre, htrest⟩ := tiles_append.mp hlayout.tiles
  have hlength := hlayout.tiles.length_le
  rw [List.length_append] at hlength
  rcases firstFree_cases pre with hall | ⟨a, ha, -, hsame⟩
  · rw [if_pos (hold.trans (hall _)).symm, firstFree_append, hall]
    have htail : Tiles b.start (⟨b.start, next, true⟩ :: rest) h.heapEnd := ⟨rfl, htrest.2⟩
    have hrounds : (⟨b.start, next, true⟩ :: rest : List Block).length < h.memSizeAligned + 2 := by
      omega
    exact nextFree_eq (h := { h with memory := m }) (headers_append.mp hlayout.headers).2 htail
      hrounds
  · -- a block before it is free and stays the first one
    have hbefore := hinv.layout.places.1 a ha
    rw [if_neg (by rw [hold, hsame]; omega), hold, hsame, firstFree_append, hsame]

/-- **`rt_malloc`** always returns. -/
theorem Inv.malloc (hinv : Inv h bs) (size : Nat) :
    ∃ r, rtMalloc h size = some r ∧ Malloc h bs size r := by
  have hend : h.heapEnd = h.memSizeAligned + 12 := rfl
  unfold rtMalloc
  by_cases hzero : size = 0
  · rw [if_pos hzero]
    exact ⟨_, rfl, .nothing (.inl hzero)⟩
  rw [if_neg hzero]
  by_cases hlarge : h.memSizeAligned < rtAlign size
  · dsimp only
    rw [if_pos hlarge]
    exact ⟨_, rfl, .nothing (.inr (.inl hlarge))⟩
  dsimp only
  have hlength : (if rtAlign size < 12 then 12 else rtAlign size) = mallocSize size := rfl
  rw [if_neg hlarge, hlength]
  have hsize : mallocSize size ≤ h.memSizeAligned := by
    have hroom := hinv.room
    unfold mallocSize
    split_ifs <;> omega
  rw [hinv.findBlock hsize, Option.bind_some]
  cases hfound : bs.find? (Fits h (mallocSize size)) with
  | none =>
    refine ⟨_, rfl, .nothing (.inr (.inr fun b hb => ?_))⟩
    simpa using List.find?_eq_none.mp hfound b hb
  | some b =>
    obtain ⟨hfits, pre, post, rfl, -⟩ := List.find?_eq_some_iff_append.mp hfound
    have hfit := hfits
    simp only [Fits, Bool.and_eq_true, Bool.not_eq_true', decide_eq_true_eq] at hfit
    obtain ⟨⟨hb, hroom⟩, -⟩ := hfit
    have hnext : (header h.memory b.start).next = b.next := by rw [hinv.layout.header_eq]; rfl
    obtain ⟨next, rest, hlayout, hcoal, hused, hplace, hkept⟩ :=
      hinv.take hb (mallocSize_mod size) (le_mallocSize size) hroom rfl
    obtain ⟨-, -, hstart, hstop, halign, -⟩ := hinv.layout.places
    rw [Option.map_some]
    dsimp only
    rw [hnext]
    obtain ⟨m, hm⟩ : ∃ m, m = setMagic (setUsed (if mallocSize size + 24 ≤
      usub b.next (b.start + 12) then splitBlock h b.start (b.start + 12 + mallocSize size)
      else h.memory) b.start 1) b.start heapMagic := ⟨_, rfl⟩
    rw [← hm] at hlayout hkept ⊢
    have hloop := hinv.nextFree hb hlayout
    obtain ⟨lfree, hlfree⟩ : ∃ lfree,
        lfree = firstFree h.heapEnd (pre ++ ⟨b.start, next, true⟩ :: rest) := ⟨_, rfl⟩
    rw [← hlfree] at hloop
    rw [hloop, Option.bind_some]
    have hassert : (lfree = h.heapEnd ∨ (header m lfree).used = 0) ∧
        b.start + 12 + mallocSize size ≤ h.heapEnd ∧ (h.heapPtr + b.start + 12) % 4 = 0 := by
      have haligned := hinv.aligned
      exact ⟨hlfree ▸ hlayout.firstFree_free, by omega, by omega⟩
    refine ⟨_, if_pos hassert, .block rfl hb ⟨⟨hlayout, hlfree⟩, ?_, hinv.aligned, hinv.room⟩ ?_
      hplace ⟨hkept, rfl, rfl⟩ hzero (Nat.le_of_not_lt hlarge) hfits⟩
    · obtain ⟨hpre, hpost, -⟩ := List.isChain_append.mp hinv.coalesced
      refine List.isChain_append.mpr ⟨hpre, List.isChain_cons.mpr ⟨fun _ _ => .inl rfl, hcoal⟩,
        fun x hx y hy => .inr ?_⟩
      obtain rfl : (⟨b.start, next, true⟩ : Block) = y := by simpa using hy
      rfl
    · rw [usedBlocks_append, usedBlocks_cons_used rfl, hused]

end Malloc

/-! ### `rt_free` and `rt_realloc` -/

section Free

variable {h : Heap} {b : Block} {bs pre post : List Block} {newsize : Nat}

/-- A used block becomes a free one, or a part of it does: `lfree` is set back if it was behind it,
    and `plug_holes` restores what the mark or the split left side by side. -/
theorem Inv.plug (hinv : Inv h (pre ++ b :: post)) {m : Memory} {front : List Block} {x : Block}
    (hlayout : Layout m h.heapEnd (front ++ x :: post)) (hx : x.used = false)
    (hlfree : h.lfree = firstFree (firstFree h.heapEnd post) front) (hfront : Coalesced front)
    (hkept : Kept (usedBlocks front ++ usedBlocks post) h.memory m) :
    ∃ h' bs', Mem.plugHoles { h with
        memory := m
        lfree := if x.start < h.lfree then x.start else h.lfree } x.start = some h' ∧
      Inv h' bs' ∧ usedBlocks bs' = usedBlocks front ++ usedBlocks post ∧
      Keeps (usedBlocks front ++ usedBlocks post) h h' := by
  obtain ⟨lfree, hset⟩ : ∃ lfree,
      lfree = if x.start < h.lfree then x.start else h.lfree := ⟨_, rfl⟩
  rw [← hset]
  have hchained : Chained { h with memory := m, lfree } (front ++ x :: post) := by
    refine ⟨hlayout, ?_⟩
    obtain ⟨lo, -, -, hroom, -, htpost⟩ := tiles_append.mp hlayout.tiles
    have hle := le_firstFree htpost
    show lfree = firstFree h.heapEnd (front ++ x :: post)
    rw [hset, hlfree]
    refine firstFree_insert (fun a ha => ?_) (by omega) hx
    have hbefore := hlayout.places.1 a ha
    omega
  obtain ⟨-, hcpost, -⟩ := List.isChain_append.mp hinv.coalesced
  obtain ⟨h', bs', hplug, hc', hcoal, hused, hkeeps⟩ :=
    hchained.plugHoles hx hfront (List.isChain_cons.mp hcpost).2
  rw [usedBlocks_append, usedBlocks_cons_free hx] at hused hkeeps
  have hmarked : Keeps (usedBlocks front ++ usedBlocks post) h { h with memory := m, lfree } :=
    ⟨hkept, rfl, rfl⟩
  refine ⟨h', bs', hplug, ⟨hc', hcoal, ?_, ?_⟩, hused, hmarked.trans hkeeps⟩
  · rw [hkeeps.heapPtr]
    exact hinv.aligned
  · rw [hkeeps.size]
    exact hinv.room

/-- **`rt_free`** of a used block: it is not among the used ones any more. -/
theorem Inv.free (hinv : Inv h (pre ++ b :: post)) (hb : b.used = true) :
    ∃ h' bs', rtFree h (some (b.start + 12)) = some h' ∧ Inv h' bs' ∧
      usedBlocks bs' = usedBlocks pre ++ usedBlocks post ∧
      Keeps (usedBlocks pre ++ usedBlocks post) h h' := by
  obtain ⟨-, -, hroom, hstop, halign, -⟩ := hinv.layout.places
  obtain ⟨hmark, hkept⟩ := hinv.layout.mark false (v := 0) rfl
  obtain ⟨m, hm⟩ : ∃ m, m = setMagic (setUsed h.memory b.start 0) b.start heapMagic := ⟨_, rfl⟩
  obtain ⟨x, hx⟩ : ∃ x : Block, x = { b with used := false } := ⟨_, rfl⟩
  have hfree : x.used = false := by rw [hx]
  have hstart : x.start = b.start := by rw [hx]
  rw [← hm, ← hx] at hmark
  rw [← hm] at hkept
  have hold : h.lfree = firstFree (firstFree h.heapEnd post) pre := by
    rw [hinv.lfree, firstFree_append, firstFree_cons_used hb]
  have hothers : Kept (usedBlocks pre ++ usedBlocks post) h.memory m := by
    refine hkept.mono fun y hy => ?_
    rcases List.mem_append.mp hy with hy | hy
    · exact List.mem_append_left _ (mem_usedBlocks.mp hy).1
    · exact List.mem_append_right pre (List.mem_cons_of_mem b (mem_usedBlocks.mp hy).1)
  obtain ⟨h', bs', hplug, hinv', hused, hkeeps⟩ :=
    hinv.plug hmark hfree hold (List.isChain_append.mp hinv.coalesced).1 hothers
  refine ⟨h', bs', ?_, hinv', hused, hkeeps⟩
  have haligned := hinv.aligned
  have hend : h.heapEnd = h.memSizeAligned + 12 := rfl
  unfold rtFree
  dsimp only
  rw [if_pos ⟨by omega, by omega, by omega⟩, Nat.add_sub_cancel, hinv.layout.header_eq,
    if_pos ⟨by simp [Block.image, hb], rfl⟩, ← hm, ← hstart]
  exact hplug

/-- **`rt_realloc` under the semaphore**: the block stays, and what is not needed of it may become
    a free block; or it has too few bytes, or hardly too many. -/
theorem Inv.resize (hinv : Inv h (pre ++ b :: post)) (hb : b.used = true)
    (hsize : newsize % 4 = 0) (hpos : 0 < newsize) :
    (∃ h' bs' next, resize h (b.start + 12) newsize = some (.inPlace h') ∧ Inv h' bs' ∧
      usedBlocks bs' = usedBlocks pre ++ ⟨b.start, next, true⟩ :: usedBlocks post ∧
      b.start + 12 + newsize ≤ next ∧ next ≤ b.next ∧ Keeps (usedBlocks bs') h h') ∨
    resize h (b.start + 12) newsize = some (.expand (b.next - (b.start + 12))) := by
  obtain ⟨-, -, hroom, hstop, halign, -⟩ := hinv.layout.places
  have hlt := hinv.layout.lt
  have hnext : (header h.memory b.start).next = b.next := by rw [hinv.layout.header_eq]; rfl
  have hdata : usub (usub b.next b.start) 12 = b.next - (b.start + 12) := by
    have hlength : usub b.next b.start = b.next - b.start := usub_eq (by omega) (by omega)
    rw [hlength, usub_eq (by omega) (by omega)]
    omega
  have hb' : (⟨b.start, b.next, true⟩ : Block) = b := by rw [← hb]
  unfold Mem.resize
  rw [if_neg (by omega), if_neg (by omega), Nat.add_sub_cancel]
  dsimp only
  rw [hnext, hdata]
  by_cases hsame : b.next - (b.start + 12) = newsize
  · left
    rw [if_pos hsame]
    refine ⟨h, _, b.next, rfl, hinv, ?_, by omega, Nat.le_refl _, .refl _ h⟩
    rw [usedBlocks_append, usedBlocks_cons_used hb, hb']
  rw [if_neg hsame]
  by_cases hlarge : newsize + 12 + 12 < b.next - (b.start + 12)
  · -- the block is split into `y`, which stays used, and `x`, which is freed
    left
    rw [if_pos hlarge]
    obtain ⟨q, hq⟩ : ∃ q, q = b.start + 12 + newsize := ⟨_, rfl⟩
    obtain ⟨hlayout, hkept⟩ := hinv.layout.split (q := q) (by omega) (by omega) (by omega)
    obtain ⟨x, hx⟩ : ∃ x : Block, x = ⟨q, b.next, false⟩ := ⟨_, rfl⟩
    have hfree : x.used = false := by rw [hx]
    have hstart : x.start = q := by rw [hx]
    obtain ⟨y, hy⟩ : ∃ y : Block, y = ⟨b.start, q, true⟩ := ⟨_, rfl⟩
    have hyused : y.used = true := by rw [hy]
    rw [← hq]
    rw [hb, ← hx, ← hy, ← List.singleton_append, ← List.append_assoc] at hlayout
    rw [hb, ← hy] at hkept
    have hold : h.lfree = firstFree (firstFree h.heapEnd post) (pre ++ [y]) := by
      rw [hinv.lfree, firstFree_append, firstFree_append, firstFree_cons_used hb,
        firstFree_cons_used hyused]
      rfl
    obtain ⟨hcpre, -, -⟩ := List.isChain_append.mp hinv.coalesced
    have hcoal : Coalesced (pre ++ [y]) := by
      refine List.isChain_append.mpr ⟨hcpre, .singleton y, fun z _ w hw => .inr ?_⟩
      obtain rfl : y = w := by simpa using hw
      exact hyused
    have hfront : usedBlocks (pre ++ [y]) ++ usedBlocks post
        = usedBlocks pre ++ y :: usedBlocks post := by
      rw [usedBlocks_append, usedBlocks_cons_used hyused, List.append_assoc]
      rfl
    have hothers : Kept (usedBlocks (pre ++ [y]) ++ usedBlocks post) h.memory
        (splitBlock h b.start q) := by
      rw [hfront]
      refine hkept.mono fun z hz => ?_
      rcases List.mem_append.mp hz with hz | hz
      · exact List.mem_append_left _ (mem_usedBlocks.mp hz).1
      · refine List.mem_append_right pre ?_
        rcases List.mem_cons.mp hz with rfl | hz
        · exact List.mem_cons_self
        · exact List.mem_cons_of_mem y (mem_usedBlocks.mp hz).1
    obtain ⟨h', bs', hplug, hinv', hused, hkeeps⟩ := hinv.plug hlayout hfree hold hcoal hothers
    rw [hfront] at hused hkeeps
    rw [hstart] at hplug
    rw [hplug]
    exact ⟨h', bs', q, rfl, hinv', hused.trans (by rw [hy]), by omega, by omega, hused ▸ hkeeps⟩
  · right
    rw [if_neg hlarge]

/-- A byte that is written leaves the headers elsewhere alone. -/
theorem header_update {m : Memory} {a q : Nat} {v : UInt8} (h : a < q ∨ q + 12 ≤ a) :
    header (Function.update m a v) q = header m q := by
  unfold header
  have hload : ∀ k n, k + n ≤ 12 → load (Function.update m a v) (q + k) n = load m (q + k) n :=
    fun k n hk => load_congr fun i hlo hhi => Function.update_of_ne (by omega) v m
  have hfirst := hload 0 2 (by omega)
  rw [Nat.add_zero] at hfirst
  rw [hfirst, hload 2 2 (by omega), hload 4 4 (by omega), hload 8 4 (by omega)]

/-- A byte of a block is written. -/
theorem Inv.write (hinv : Inv h (pre ++ b :: post)) {a : Nat} (hlo : b.start + 12 ≤ a)
    (hhi : a < b.next) (v : UInt8) :
    Inv { h with memory := Function.update h.memory a v } (pre ++ b :: post) := by
  obtain ⟨hpre, hpost, -, hstop, -⟩ := hinv.layout.places
  have hheaders : Headers (Function.update h.memory a v) 0 (pre ++ b :: post) := by
    refine hinv.layout.headers.frame fun c hc => header_update ?_
    rcases List.mem_append.mp hc with hc | hc
    · have hplace := hpre c hc
      omega
    · rcases List.mem_cons.mp hc with rfl | hc
      · exact .inr hlo
      · have hplace := hpost c hc
        omega
  have hlast : (header (Function.update h.memory a v) h.heapEnd).used = 1 := by
    rw [header_update (by omega)]
    exact hinv.layout.last
  exact ⟨⟨⟨hheaders, hinv.layout.tiles, hlast, hinv.layout.lt⟩, hinv.lfree⟩, hinv.coalesced,
    hinv.aligned, hinv.room⟩

end Free

end RtCharger.Kernel.Mem
