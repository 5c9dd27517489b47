import Mathlib.Data.List.Basic
import RtCharger.Lib.ByteMemory

namespace RtCharger.Kernel.Mem

open ByteMemory

/-!
# The kernel's heap

`mem.c`, the small memory management.  The heap is a memory of bytes; each block begins with a
header that links it with its neighbours, and `lfree` is the lowest block that is free.  A pointer
is its distance from `heap_ptr`, and `RT_NULL` is `none`.

* `rtMalloc`, `rtFree`, `rtRealloc` — the functions of the source;
* `Layout` — the headers in the memory are those of a list of blocks that cover the heap;
* `Layout.mark`, `Layout.split`, `Layout.join` — what the functions do to the headers, and which
  bytes they leave alone.
-/

/-! ### The functions of the source -/

/-- `HEAP_MAGIC`. -/
def heapMagic : Nat := 0x1ea0

/-- `struct heap_mem`. -/
structure HeapMem where
  magic : Nat
  used : Nat
  next : Nat
  prev : Nat
deriving DecidableEq, Repr

/-- The header at a place: two fields of two bytes and two of four. -/
def header (m : Memory) (p : Nat) : HeapMem :=
  ⟨load m p 2, load m (p + 2) 2, load m (p + 4) 4, load m (p + 8) 4⟩

def setMagic (m : Memory) (p v : Nat) : Memory := store m p 2 v

def setUsed (m : Memory) (p v : Nat) : Memory := store m (p + 2) 2 v

def setNext (m : Memory) (p v : Nat) : Memory := store m (p + 4) 4 v

def setPrev (m : Memory) (p v : Nat) : Memory := store m (p + 8) 4 v

/-- The variables of the heap, and its bytes. -/
structure Heap where
  heapPtr : Nat
  /-- The bytes from `heap_ptr` on. -/
  memory : Memory
  lfree : Nat
  memSizeAligned : Nat

/-- `heap_end`. -/
def Heap.heapEnd (h : Heap) : Nat := h.memSizeAligned + 12

/-- `RT_ALIGN` with `RT_ALIGN_SIZE`, which wraps around. -/
def rtAlign (size : Nat) : Nat := (size + 3) % 2 ^ 32 / 4 * 4

/-- The difference of two unsigned numbers. -/
def usub (a b : Nat) : Nat := (a + 2 ^ 32 - b) % 2 ^ 32

/-- `rt_system_heap_init`; `none` if there is no room. -/
def systemHeapInit (memory : Memory) (beginAddr endAddr : Nat) : Option Heap :=
  let beginAlign := rtAlign beginAddr
  let endAlign := endAddr / 4 * 4
  if 24 < endAlign ∧ beginAlign ≤ endAlign - 24 then
    let memSizeAligned := endAlign - beginAlign - 24
    let stop := memSizeAligned + 12
    let first := setUsed (setPrev (setNext (setMagic memory 0 heapMagic) 0 stop) 0 0) 0 0
    let memory := setPrev (setNext (setUsed (setMagic first stop heapMagic) stop 1) stop stop)
      stop stop
    some ⟨beginAlign, memory, 0, memSizeAligned⟩
  else none

/-- `q` becomes a part of the block before it. -/
def joinBlocks (m : Memory) (p q : Nat) : Memory :=
  let m := setNext m p (header m q).next
  setPrev m (header m q).next p

/-- The first half of `plug_holes`. -/
def plugForward (h : Heap) (mem : Nat) : Heap :=
  let nmem := (header h.memory mem).next
  if mem ≠ nmem ∧ (header h.memory nmem).used = 0 ∧ nmem ≠ h.heapEnd then
    { h with
      lfree := if h.lfree = nmem then mem else h.lfree
      memory := joinBlocks h.memory mem nmem }
  else h

/-- The second half. -/
def plugBackward (h : Heap) (mem : Nat) : Heap :=
  let pmem := (header h.memory mem).prev
  if pmem ≠ mem ∧ (header h.memory pmem).used = 0 then
    { h with
      lfree := if h.lfree = mem then pmem else h.lfree
      memory := joinBlocks h.memory pmem mem }
  else h

/-- `plug_holes`; `none` if an assertion fails. -/
def plugHoles (h : Heap) (mem : Nat) : Option Heap :=
  if mem < h.heapEnd ∧ (header h.memory mem).used = 0 then
    some (plugBackward (plugForward h mem) mem)
  else none

/-- What is left of a block from `ptr2` on becomes a block: what `rt_malloc` and `rt_realloc` do
    where they split one. -/
def splitBlock (h : Heap) (ptr ptr2 : Nat) : Memory :=
  let next := (header h.memory ptr).next
  let m := setUsed (setMagic h.memory ptr2 heapMagic) ptr2 0
  let m := setPrev (setNext m ptr2 next) ptr2 ptr
  let m := setNext m ptr ptr2
  if next ≠ h.heapEnd then setPrev m next ptr2 else m

/-- The `for` loop of `rt_malloc`: a free block with room, if there is one; `none` if the loop does
    not end within `fuel` rounds. -/
def findBlock (h : Heap) (size : Nat) : (fuel ptr : Nat) → Option (Option Nat)
  | 0, _          => none
  | fuel + 1, ptr =>
    if ptr < usub h.memSizeAligned size then
      let mem := header h.memory ptr
      if mem.used = 0 ∧ size ≤ usub mem.next (ptr + 12) then some (some ptr)
      else findBlock h size fuel mem.next
    else some none

/-- The `while` loop of `rt_malloc`: the next block that is free. -/
def nextFree (h : Heap) : (fuel ptr : Nat) → Option Nat
  | 0, _          => none
  | fuel + 1, ptr =>
    if (header h.memory ptr).used ≠ 0 ∧ ptr ≠ h.heapEnd then
      nextFree h fuel (header h.memory ptr).next
    else some ptr

/-- `rt_malloc`; `none` if an assertion fails or a loop does not end. -/
def rtMalloc (h : Heap) (size : Nat) : Option (Option Nat × Heap) :=
  if size = 0 then some (none, h)
  else
    let size := rtAlign size
    if h.memSizeAligned < size then some (none, h)
    else
      -- every data block is at least `MIN_SIZE_ALIGNED` long
      let size := if size < 12 then 12 else size
      let fuel := h.memSizeAligned + 2
      (findBlock h size fuel h.lfree).bind fun
        | none     => some (none, h)
        | some ptr =>
          let next := (header h.memory ptr).next
          let memory :=
            if size + 24 ≤ usub next (ptr + 12) then splitBlock h ptr (ptr + 12 + size)
            else h.memory
          let h := { h with memory := setMagic (setUsed memory ptr 1) ptr heapMagic }
          (if ptr = h.lfree then nextFree h fuel ptr else some h.lfree).bind fun lfree =>
            let h := { h with lfree }
            if (lfree = h.heapEnd ∨ (header h.memory lfree).used = 0) ∧
                ptr + 12 + size ≤ h.heapEnd ∧ (h.heapPtr + ptr + 12) % 4 = 0 then
              some (some (ptr + 12), h)
            else none

/-- `rt_free`; `none` if an assertion fails. -/
def rtFree (h : Heap) (rmem : Option Nat) : Option Heap :=
  match rmem with
  | none      => some h
  | some rmem =>
    -- the header of a lower address is before the heap
    if (h.heapPtr + rmem) % 4 = 0 ∧ 12 ≤ rmem ∧ rmem < h.heapEnd then
      let mem := rmem - 12
      if (header h.memory mem).used ≠ 0 ∧ (header h.memory mem).magic = heapMagic then
        plugHoles
          { h with
            memory := setMagic (setUsed h.memory mem 0) mem heapMagic
            lfree := if mem < h.lfree then mem else h.lfree } mem
      else none
    else none

/-- What `rt_realloc` finds out about the old block, and does with it, under the semaphore. -/
inductive Resized where
  /-- The block stays where it is. -/
  | inPlace (h : Heap)
  /-- Another one is needed; the old one has so many bytes. -/
  | expand (size : Nat)

/-- The part of `rt_realloc` between `rt_sem_take` and `rt_sem_release`. -/
def resize (h : Heap) (rmem newsize : Nat) : Option Resized :=
  if h.heapEnd ≤ rmem then some (.inPlace h)
  else if rmem < 12 then none
  else
    let ptr := rmem - 12
    let size := usub (usub (header h.memory ptr).next ptr) 12
    if size = newsize then some (.inPlace h)
    else if newsize + 12 + 12 < size then
      let mem2 := ptr + 12 + newsize
      (plugHoles
        { h with
          memory := splitBlock h ptr mem2
          lfree := if mem2 < h.lfree then mem2 else h.lfree } mem2).map .inPlace
    else some (.expand size)

/-- `rt_realloc`; the copy goes from block to block. -/
def rtRealloc (h : Heap) (rmem : Option Nat) (newsize : Nat) : Option (Option Nat × Heap) :=
  let newsize := rtAlign newsize
  if h.memSizeAligned < newsize then some (none, h)
  else if newsize = 0 then (rtFree h rmem).map fun h => (none, h)
  else
    match rmem with
    | none      => rtMalloc h newsize
    | some rmem =>
      (resize h rmem newsize).bind fun
        | .inPlace h   => some (some rmem, h)
        | .expand size => (rtMalloc h newsize).bind fun
          | (none, h)      => some (none, h)
          | (some nmem, h) =>
            let memory := copy h.memory nmem rmem (if size < newsize then size else newsize)
            (rtFree { h with memory } (some rmem)).map fun h => (some nmem, h)

/-! ### Headers -/

section Headers

variable {m m' : Memory} {p q v k a : Nat}

/-- Two headers do not overlap. -/
def Apart (p q : Nat) : Prop := p + 12 ≤ q ∨ q + 12 ≤ p

/-- A store outside of a header leaves it alone. -/
theorem header_store (h : p + k ≤ q ∨ q + 12 ≤ p) : header (store m p k v) q = header m q := by
  unfold header
  rw [load_store_apart (by omega), load_store_apart (by omega), load_store_apart (by omega),
    load_store_apart (by omega)]

theorem header_setMagic_apart (h : Apart p q) : header (setMagic m p v) q = header m q :=
  header_store (by unfold Apart at h; omega)

theorem header_setUsed_apart (h : Apart p q) : header (setUsed m p v) q = header m q :=
  header_store (by unfold Apart at h; omega)

theorem header_setNext_apart (h : Apart p q) : header (setNext m p v) q = header m q :=
  header_store (by unfold Apart at h; omega)

theorem header_setPrev_apart (h : Apart p q) : header (setPrev m p v) q = header m q :=
  header_store (by unfold Apart at h; omega)

theorem header_setMagic (hv : v < 2 ^ 16) :
    header (setMagic m p v) p = { header m p with magic := v } := by
  unfold header setMagic
  rw [load_store hv, load_store_apart (by omega), load_store_apart (by omega),
    load_store_apart (by omega)]

theorem header_setUsed (hv : v < 2 ^ 16) :
    header (setUsed m p v) p = { header m p with used := v } := by
  unfold header setUsed
  rw [load_store hv, load_store_apart (by omega), load_store_apart (by omega),
    load_store_apart (by omega)]

theorem header_setNext (hv : v < 2 ^ 32) :
    header (setNext m p v) p = { header m p with next := v } := by
  unfold header setNext
  rw [load_store hv, load_store_apart (by omega), load_store_apart (by omega),
    load_store_apart (by omega)]

theorem header_setPrev (hv : v < 2 ^ 32) :
    header (setPrev m p v) p = { header m p with prev := v } := by
  unfold header setPrev
  rw [load_store hv, load_store_apart (by omega), load_store_apart (by omega),
    load_store_apart (by omega)]

theorem setMagic_apply (h : a < p ∨ p + 12 ≤ a) : setMagic m p v a = m a :=
  store_apply (by omega)

theorem setUsed_apply (h : a < p ∨ p + 12 ≤ a) : setUsed m p v a = m a :=
  store_apply (by omega)

theorem setNext_apply (h : a < p ∨ p + 12 ≤ a) : setNext m p v a = m a :=
  store_apply (by omega)

theorem setPrev_apply (h : a < p ∨ p + 12 ≤ a) : setPrev m p v a = m a :=
  store_apply (by omega)

end Headers

/-! ### Blocks -/

/-- A block, with its header: from `start` to `next`. -/
structure Block where
  start : Nat
  next : Nat
  used : Bool
deriving DecidableEq, Repr

/-- The header of a block, with the block before it at `prev`. -/
def Block.image (prev : Nat) (b : Block) : HeapMem :=
  ⟨heapMagic, if b.used then 1 else 0, b.next, prev⟩

/-- The headers of these blocks are in the memory, and link them. -/
def Headers (m : Memory) : (prev : Nat) → List Block → Prop
  | _, []         => True
  | prev, b :: bs => header m b.start = b.image prev ∧ Headers m b.start bs

/-- The blocks cover the heap from `lo` to `hi`, each behind the other, and each has room for at
    least one word. -/
def Tiles : (lo : Nat) → List Block → (hi : Nat) → Prop
  | lo, [], hi      => lo = hi
  | lo, b :: bs, hi => b.start = lo ∧ b.start + 16 ≤ b.next ∧ b.next % 4 = 0 ∧ Tiles b.next bs hi

/-- Where the last block begins. -/
def lastStart : (prev : Nat) → List Block → Nat
  | prev, []   => prev
  | _, b :: bs => lastStart b.start bs

section Blocks

variable {m m' : Memory} {prev lo mid hi : Nat} {b c : Block} {bs cs : List Block}

theorem headers_append :
    Headers m prev (bs ++ cs) ↔ Headers m prev bs ∧ Headers m (lastStart prev bs) cs := by
  induction bs generalizing prev with
  | nil => simp [Headers, lastStart]
  | cons b bs ih => simp [Headers, lastStart, ih, and_assoc]

theorem lastStart_append : lastStart prev (bs ++ cs) = lastStart (lastStart prev bs) cs := by
  induction bs generalizing prev with
  | nil => rfl
  | cons b bs ih => exact ih

/-- Headers depend on their own bytes only. -/
theorem Headers.frame (h : Headers m prev bs)
    (hsame : ∀ b ∈ bs, header m' b.start = header m b.start) : Headers m' prev bs := by
  induction bs generalizing prev with
  | nil => trivial
  | cons b bs ih =>
    refine ⟨(hsame b List.mem_cons_self).trans h.1, ih h.2 fun c hc => ?_⟩
    exact hsame c (List.mem_cons_of_mem b hc)

theorem tiles_append : Tiles lo (bs ++ cs) hi ↔ ∃ mid, Tiles lo bs mid ∧ Tiles mid cs hi := by
  induction bs generalizing lo with
  | nil => simp [Tiles]
  | cons b bs ih => simp [Tiles, ih, and_assoc]

theorem Tiles.le (h : Tiles lo bs hi) : lo ≤ hi := by
  induction bs generalizing lo with
  | nil => exact Nat.le_of_eq h
  | cons b bs ih =>
    have hrest := ih h.2.2.2
    have hstart := h.1
    have hroom := h.2.1
    omega

/-- Where a block of the list lies. -/
theorem Tiles.mem (h : Tiles lo bs hi) (hb : b ∈ bs) :
    lo ≤ b.start ∧ b.start + 16 ≤ b.next ∧ b.next ≤ hi ∧ b.next % 4 = 0 := by
  induction bs generalizing lo with
  | nil => cases hb
  | cons c bs ih =>
    obtain ⟨hstart, hroom, halign, hrest⟩ := h
    rcases List.mem_cons.mp hb with rfl | hb
    · exact ⟨Nat.le_of_eq hstart.symm, hroom, hrest.le, halign⟩
    · obtain ⟨hlo, hmem⟩ := ih hrest hb
      exact ⟨by omega, hmem⟩

theorem Tiles.aligned (h : Tiles lo bs hi) (hlo : lo % 4 = 0) (hb : b ∈ bs) :
    b.start % 4 = 0 := by
  induction bs generalizing lo with
  | nil => cases hb
  | cons c bs ih =>
    rcases List.mem_cons.mp hb with rfl | hb
    · rw [h.1]
      exact hlo
    · exact ih h.2.2.2 h.2.2.1 hb

end Blocks

/-! ### What the memory holds -/

/-- The memory holds these blocks, up to the header at the end, which counts as used. -/
structure Layout (m : Memory) (stop : Nat) (bs : List Block) : Prop where
  headers : Headers m 0 bs
  tiles : Tiles 0 bs stop
  last : (header m stop).used = 1
  lt : stop + 12 < 2 ^ 32

/-- What is in these blocks did not change. -/
def Kept (bs : List Block) (m m' : Memory) : Prop :=
  ∀ b ∈ bs, ∀ a, b.start + 12 ≤ a → a < b.next → m' a = m a

section Layout

variable {m m' m'' : Memory} {stop : Nat} {b c : Block} {bs pre mid mid' post : List Block}

theorem Kept.trans (h : Kept bs m m') (h' : Kept bs m' m'') : Kept bs m m'' :=
  fun b hb a hlo hhi => (h' b hb a hlo hhi).trans (h b hb a hlo hhi)

theorem Kept.mono (h : Kept bs m m') {bs' : List Block} (hsub : ∀ b ∈ bs', b ∈ bs) :
    Kept bs' m m' :=
  fun b hb => h b (hsub b hb)

/-- The parts of the heap around some blocks. -/
theorem Layout.around (h : Layout m stop (pre ++ (mid ++ post))) :
    ∃ lo hi, Tiles 0 pre lo ∧ Tiles lo mid hi ∧ Tiles hi post stop ∧ Headers m 0 pre ∧
      Headers m (lastStart 0 pre) mid ∧ Headers m (lastStart (lastStart 0 pre) mid) post := by
  obtain ⟨lo, hpre, hright⟩ := tiles_append.mp h.tiles
  obtain ⟨hi, hmid, hpost⟩ := tiles_append.mp hright
  obtain ⟨hheadpre, hhead⟩ := headers_append.mp h.headers
  obtain ⟨hheadmid, hheadpost⟩ := headers_append.mp hhead
  exact ⟨lo, hi, hpre, hmid, hpost, hheadpre, hheadmid, hheadpost⟩

/-- **Some blocks are replaced by others** that cover the same part of the heap. -/
theorem Layout.replace (h : Layout m stop (pre ++ (mid ++ post)))
    (hpre : ∀ a ∈ pre, header m' a.start = header m a.start)
    (hmid : Headers m' (lastStart 0 pre) mid')
    (htiles : ∀ lo hi, Tiles lo mid hi → Tiles lo mid' hi)
    (hpost : Headers m' (lastStart (lastStart 0 pre) mid') post)
    (hstop : (header m' stop).used = (header m stop).used) :
    Layout m' stop (pre ++ (mid' ++ post)) := by
  obtain ⟨lo, hi, htpre, htmid, htpost, hhpre, -, -⟩ := h.around
  refine ⟨?_, ?_, hstop.trans h.last, h.lt⟩
  · rw [headers_append, headers_append]
    exact ⟨hhpre.frame hpre, hmid, hpost⟩
  · rw [tiles_append]
    exact ⟨lo, htpre, tiles_append.mpr ⟨hi, htiles lo hi htmid, htpost⟩⟩

/-- The header of a block. -/
theorem Layout.header_eq (h : Layout m stop (pre ++ b :: post)) :
    header m b.start = b.image (lastStart 0 pre) :=
  (headers_append.mp h.headers).2.1

/-- Where the blocks lie, seen from one of them. -/
theorem Layout.places (h : Layout m stop (pre ++ b :: post)) :
    (∀ a ∈ pre, a.start + 16 ≤ a.next ∧ a.next ≤ b.start) ∧
      (∀ a ∈ post, b.next ≤ a.start ∧ a.start + 16 ≤ a.next ∧ a.next ≤ stop) ∧
      b.start + 16 ≤ b.next ∧ b.next ≤ stop ∧ b.start % 4 = 0 ∧ b.next % 4 = 0 := by
  obtain ⟨lo, hpre, hstart, hroom, halign, hpost⟩ := tiles_append.mp h.tiles
  refine ⟨fun a ha => ?_, fun a ha => ?_, hroom, hpost.le, ?_, halign⟩
  · have ha := hpre.mem ha
    omega
  · have ha := hpost.mem ha
    omega
  · exact h.tiles.aligned (Nat.zero_mod 4) (List.mem_append_right pre List.mem_cons_self)

/-- The header of a block is not in what another one holds. -/
theorem Layout.safe (h : Layout m stop (pre ++ b :: post)) (hc : c ∈ pre ++ b :: post) :
    b.start ≤ c.start ∨ c.next ≤ b.start := by
  obtain ⟨hpre, hpost, hroom, -⟩ := h.places
  rcases List.mem_append.mp hc with hc | hc
  · exact .inr (hpre c hc).2
  · rcases List.mem_cons.mp hc with rfl | hc
    · exact .inl (Nat.le_refl _)
    · have hbehind := hpost c hc
      exact .inl (by omega)

/-- `used` and `magic` of a block are set. -/
theorem Layout.mark (h : Layout m stop (pre ++ b :: post)) (u : Bool) {v : Nat}
    (hv : v = if u then 1 else 0) :
    Layout (setMagic (setUsed m b.start v) b.start heapMagic) stop
        (pre ++ { b with used := u } :: post) ∧
      Kept (pre ++ b :: post) m (setMagic (setUsed m b.start v) b.start heapMagic) := by
  obtain ⟨hpre, hpost, hroom, hstop, -, -⟩ := h.places
  have hother : ∀ q, Apart b.start q →
      header (setMagic (setUsed m b.start v) b.start heapMagic) q = header m q := by
    intro q hq
    rw [header_setMagic_apart hq, header_setUsed_apart hq]
  have hself : header (setMagic (setUsed m b.start v) b.start heapMagic) b.start
      = ({ b with used := u } : Block).image (lastStart 0 pre) := by
    rw [header_setMagic (by decide), header_setUsed (by rw [hv]; split_ifs <;> decide),
      h.header_eq, hv]
    rfl
  have hrest := (headers_append.mp h.headers).2.2
  refine ⟨?_, fun x hx a hlo hhi => ?_⟩
  · have h' : Layout m stop (pre ++ ([b] ++ post)) := h
    show Layout _ stop (pre ++ ([{ b with used := u }] ++ post))
    refine h'.replace (fun a ha => hother _ ?_) ⟨hself, trivial⟩ (fun lo hi ht => ht)
      (hrest.frame fun a ha => hother _ ?_) (congrArg HeapMem.used (hother _ ?_))
    · have hbefore := hpre a ha
      exact .inr (by omega)
    · have hbehind := hpost a ha
      exact .inl (by omega)
    · exact .inl (by omega)
  · have hsafe := h.safe hx
    rw [setMagic_apply (by omega), setUsed_apply (by omega)]

/-- The first of the blocks behind gets another one before it. -/
theorem Headers.relink {prev next p : Nat} (h : Headers m prev post) (ht : Tiles next post stop)
    (hp : p < 2 ^ 32) :
    Headers (setPrev m next p) p post ∧
      (header (setPrev m next p) stop).used = (header m stop).used := by
  cases post with
  | nil =>
    obtain rfl : next = stop := ht
    exact ⟨trivial, by rw [header_setPrev hp]⟩
  | cons c post =>
    obtain ⟨rfl, hroom, -, hrest⟩ := ht
    have hle := hrest.le
    refine ⟨⟨?_, h.2.frame fun d hd => ?_⟩, ?_⟩
    · rw [header_setPrev hp, h.1]
      rfl
    · have hbehind := hrest.mem hd
      exact header_setPrev_apart (.inl (by omega))
    · rw [header_setPrev_apart (.inl (by omega))]

/-- **A block is split.** -/
theorem Layout.split {h : Heap} (hl : Layout h.memory h.heapEnd (pre ++ b :: post)) {q : Nat}
    (hlo : b.start + 16 ≤ q) (hhi : q + 16 ≤ b.next) (halign : q % 4 = 0) :
    Layout (splitBlock h b.start q) h.heapEnd
        (pre ++ ⟨b.start, q, b.used⟩ :: ⟨q, b.next, false⟩ :: post) ∧
      Kept (pre ++ ⟨b.start, q, b.used⟩ :: post) h.memory (splitBlock h b.start q) := by
  obtain ⟨hpre, hpost, hroom, hstop, -, hnext⟩ := hl.places
  have hlt := hl.lt
  have hhead := hl.header_eq
  obtain ⟨lo, -, -, -, -, htpost⟩ := tiles_append.mp hl.tiles
  have hhpost := (headers_append.mp hl.headers).2.2
  -- all but the link back of the block behind
  obtain ⟨m₁, hm₁⟩ : ∃ m₁, m₁ = setNext (setPrev (setNext (setUsed (setMagic h.memory q heapMagic)
    q 0) q b.next) q b.start) b.start q := ⟨_, rfl⟩
  have hother : ∀ x, Apart b.start x → Apart q x → header m₁ x = header h.memory x := by
    intro x hb hq
    rw [hm₁, header_setNext_apart hb, header_setPrev_apart hq, header_setNext_apart hq,
      header_setUsed_apart hq, header_setMagic_apart hq]
  have hbq : Apart q b.start := .inr (by omega)
  have hself : header m₁ b.start = (⟨b.start, q, b.used⟩ : Block).image (lastStart 0 pre) := by
    rw [hm₁, header_setNext (by omega), header_setPrev_apart hbq, header_setNext_apart hbq,
      header_setUsed_apart hbq, header_setMagic_apart hbq, hhead]
    rfl
  have hnew : header m₁ q = (⟨q, b.next, false⟩ : Block).image b.start := by
    rw [hm₁, header_setNext_apart (.inl (by omega)), header_setPrev (by omega),
      header_setNext (by omega), header_setUsed (by decide), header_setMagic (by decide)]
    rfl
  have hmem : splitBlock h b.start q
      = if b.next ≠ h.heapEnd then setPrev m₁ b.next q else m₁ := by
    unfold splitBlock
    rw [hm₁, hhead]
    rfl
  have hhpost₁ : Headers m₁ b.start post := hhpost.frame fun a ha => by
    have hbehind := hpost a ha
    exact hother _ (.inl (by omega)) (.inl (by omega))
  have hpre₁ : ∀ a ∈ pre, header m₁ a.start = header h.memory a.start := fun a ha => by
    have hbefore := hpre a ha
    exact hother _ (.inr (by omega)) (.inr (by omega))
  -- the link back
  have hrest : (∀ x, x + 12 ≤ b.next → header (splitBlock h b.start q) x = header m₁ x) ∧
      (∀ a, a < b.next ∨ b.next + 12 ≤ a → splitBlock h b.start q a = m₁ a) ∧
      Headers (splitBlock h b.start q) q post ∧
      (header (splitBlock h b.start q) h.heapEnd).used = (header m₁ h.heapEnd).used := by
    rw [hmem]
    split_ifs with hend
    · obtain ⟨hback, hused⟩ := hhpost₁.relink htpost (p := q) (by omega)
      exact ⟨fun x hx => header_setPrev_apart (.inr hx), fun a ha => setPrev_apply ha, hback, hused⟩
    · refine ⟨fun _ _ => rfl, fun _ _ => rfl, ?_, rfl⟩
      cases post with
      | nil => trivial
      | cons c post =>
        have hbehind := hpost c List.mem_cons_self
        omega
  obtain ⟨hbefore, hbytes, hback, hused⟩ := hrest
  refine ⟨?_, fun x hx a hlo' hhi' => ?_⟩
  · have hl' : Layout h.memory h.heapEnd (pre ++ ([b] ++ post)) := hl
    show Layout _ _ (pre ++ ([⟨b.start, q, b.used⟩, ⟨q, b.next, false⟩] ++ post))
    refine hl'.replace (fun a ha => ?_) ⟨?_, ?_, trivial⟩ (fun lo hi ht => ?_) hback ?_
    · have hplace := hpre a ha
      rw [hbefore _ (by omega), hother _ (.inr (by omega)) (.inr (by omega))]
    · have hplace : b.start + 12 ≤ b.next := by omega
      rw [hbefore b.start hplace, hself]
    · have hplace : q + 12 ≤ b.next := by omega
      rw [hbefore q hplace, hnew]
    · exact ⟨ht.1, hlo, halign, rfl, hhi, ht.2.2.1, ht.2.2.2⟩
    · rw [hused, hother _ (.inl (by omega)) (.inl (by omega))]
  · have hplace : (b.start ≤ x.start ∨ x.next ≤ b.start) ∧ (q ≤ x.start ∨ x.next ≤ q) ∧
        (b.next ≤ x.start ∨ x.next ≤ b.next) := by
      rcases List.mem_append.mp hx with hx | hx
      · have hplace := hpre x hx
        omega
      · rcases List.mem_cons.mp hx with rfl | hx
        · exact ⟨.inl (Nat.le_refl _), .inr (Nat.le_refl _), .inr (by show q ≤ b.next; omega)⟩
        · have hplace := hpost x hx
          omega
    obtain ⟨hb, hq, hn⟩ := hplace
    rw [hbytes a (by omega), hm₁, setNext_apply (by omega), setPrev_apply (by omega),
      setNext_apply (by omega), setUsed_apply (by omega), setMagic_apply (by omega)]

/-- **Two blocks are joined.** -/
theorem Layout.join (h : Layout m stop (pre ++ b :: c :: post)) :
    Layout (joinBlocks m b.start c.start) stop (pre ++ ⟨b.start, c.next, b.used⟩ :: post) ∧
      Kept (pre ++ b :: c :: post) m (joinBlocks m b.start c.start) := by
  have hc : Layout m stop ((pre ++ [b]) ++ c :: post) := by
    rw [List.append_assoc]
    exact h
  obtain ⟨hpre, hpost, hroom, -, -, -⟩ := h.places
  obtain ⟨-, hpostc, hroomc, hstop, -, halign⟩ := hc.places
  have hlt := h.lt
  obtain ⟨lo, -, hstart, -, -, hstartc, -, -, htpost⟩ := tiles_append.mp h.tiles
  have hheadc := hc.header_eq
  have hhpost := (headers_append.mp h.headers).2.2.2
  have hbc : Apart b.start c.start := .inl (by omega)
  have hmem : joinBlocks m b.start c.start
      = setPrev (setNext m b.start c.next) c.next b.start := by
    unfold joinBlocks
    dsimp only
    rw [header_setNext_apart hbc, hheadc]
    rfl
  have hhpost₁ : Headers (setNext m b.start c.next) c.start post := hhpost.frame fun a ha => by
    have hbehind := hpostc a ha
    exact header_setNext_apart (.inl (by omega))
  obtain ⟨hback, hused⟩ := hhpost₁.relink htpost (p := b.start) (by omega)
  rw [hmem]
  refine ⟨?_, fun x hx a hlo hhi => ?_⟩
  · have h' : Layout m stop (pre ++ ([b, c] ++ post)) := h
    show Layout _ _ (pre ++ ([⟨b.start, c.next, b.used⟩] ++ post))
    refine h'.replace (fun a ha => ?_) ⟨?_, trivial⟩ (fun lo hi ht => ?_) hback ?_
    · have hplace := hpre a ha
      rw [header_setPrev_apart (.inr (by omega)), header_setNext_apart (.inr (by omega))]
    · have hself : Apart c.next b.start := .inr (by omega)
      show header _ b.start = _
      rw [header_setPrev_apart hself, header_setNext (by omega), h.header_eq]
      rfl
    · obtain ⟨hlo, -, -, -, -, halign, hhi⟩ := ht
      exact ⟨hlo, by show b.start + 16 ≤ c.next; omega, halign, hhi⟩
    · rw [hused, header_setNext_apart (.inl (by omega))]
  · have hsafe := h.safe hx
    have hn : c.next ≤ x.start ∨ x.next ≤ c.next := by
      rcases List.mem_append.mp hx with hx | hx
      · have hplace := hpre x hx
        omega
      · rcases List.mem_cons.mp hx with rfl | hx
        · omega
        · rcases List.mem_cons.mp hx with rfl | hx
          · omega
          · have hplace := hpostc x hx
            omega
    rw [setPrev_apply (by omega), setNext_apply (by omega)]

end Layout

end RtCharger.Kernel.Mem
