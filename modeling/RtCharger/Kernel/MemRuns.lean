import RtCharger.Lib.StepSystem
import RtCharger.Kernel.MemInvariant

namespace RtCharger.Kernel.Mem

open ByteMemory StepSystem

/-!
# The heap in use

Threads allocate, free and resize blocks and write to the blocks they have, in any order.  What
`mem.c` does between `rt_sem_take` and `rt_sem_release` is one step, and so is the store of a byte.

* `State`, `step` — the heap, and the blocks that were handed out and not given back;
* `blocks_apart` — these do not overlap, and no assertion of `mem.c` fails;
* `contents_kept` — what a block holds stays until its owner changes it;
* `malloc_iff` — `rt_malloc` finds a block whenever there is a gap for one;
* `all_freed` — when everything is given back, the heap is as it was at the start;
* `realloc_kept` — `rt_realloc` is made of these steps, and the new block holds what the old one
  did.
-/

/-- The heap, and the blocks in use: where they are, and how many bytes were asked for. -/
structure State where
  heap : Heap
  live : List (Nat × Nat)

inductive Action where
  | malloc (size : Nat)
  | free (rmem : Nat)
  /-- `rt_realloc` of a block, under the semaphore; the size is aligned. -/
  | resize (rmem newsize : Nat)
  /-- A byte is written. -/
  | store (a : Nat) (v : UInt8)
deriving DecidableEq

/-- One step; `none` if an assertion fails or a loop does not end. -/
def step (s : State) : Action → Option State
  | .malloc size         => (rtMalloc s.heap size).map fun
    | (none, heap)      => { s with heap }
    | (some rmem, heap) => { s with heap, live := (rmem, size) :: s.live }
  | .free rmem           => (rtFree s.heap (some rmem)).map fun heap =>
    { s with heap, live := s.live.filter (·.1 ≠ rmem) }
  | .resize rmem newsize => (resize s.heap rmem newsize).map fun
    | .inPlace heap     =>
      { s with
        heap
        live := s.live.map fun e => if e.1 = rmem then (rmem, newsize) else e }
    | .expand _         => s
  | .store a v           =>
    some { s with heap := { s.heap with memory := Function.update s.heap.memory a v } }

/-- What a program may do: it frees and resizes blocks that it has, writes to these only, and does
    not ask for a size that `RT_ALIGN` takes to zero. -/
def Valid (s : State) : Action → Prop
  | .malloc size         => size + 3 < 2 ^ 32
  | .free rmem           => ∃ e ∈ s.live, e.1 = rmem
  | .resize rmem newsize => (∃ e ∈ s.live, e.1 = rmem) ∧ newsize % 4 = 0 ∧ 0 < newsize
  | .store a _           => ∃ e ∈ s.live, e.1 ≤ a ∧ a < e.1 + e.2

instance (s : State) : (a : Action) → Decidable (Valid s a)
  | .malloc size         => inferInstanceAs (Decidable (size + 3 < 2 ^ 32))
  | .free rmem           => inferInstanceAs (Decidable (∃ e ∈ s.live, e.1 = rmem))
  | .resize rmem newsize =>
    inferInstanceAs (Decidable ((∃ e ∈ s.live, e.1 = rmem) ∧ newsize % 4 = 0 ∧ 0 < newsize))
  | .store a _           =>
    inferInstanceAs (Decidable (∃ e ∈ s.live, e.1 ≤ a ∧ a < e.1 + e.2))

/-- The heap is where it was, and of the same size. -/
def SameHeap (h h' : Heap) : Prop :=
  h'.heapPtr = h.heapPtr ∧ h'.memSizeAligned = h.memSizeAligned

/-- The used blocks are those that were handed out. -/
structure Owned (s : State) (bs : List Block) : Prop where
  inv : Inv s.heap bs
  live : ∀ e ∈ s.live, ∃ b ∈ usedBlocks bs, e.1 = b.start + 12 ∧ e.1 + e.2 ≤ b.next
  held : ∀ b ∈ usedBlocks bs, ∃ e ∈ s.live, e.1 = b.start + 12
  nodup : (s.live.map Prod.fst).Nodup

section Steps

variable {s s' : State} {bs pre post : List Block} {b : Block} {e : Nat × Nat}

/-- The heap as it is set up: one free block. -/
theorem inv_init {memory : Memory} {beginAddr endAddr : Nat} {h : Heap}
    (hinit : systemHeapInit memory beginAddr endAddr = some h) (hend : endAddr < 2 ^ 32)
    (hroom : 12 ≤ h.memSizeAligned) : Inv h [⟨0, h.heapEnd, false⟩] := by
  unfold systemHeapInit at hinit
  dsimp only at hinit
  rw [Option.ite_none_right_eq_some] at hinit
  obtain ⟨⟨hlarge, hbefore⟩, hinit⟩ := hinit
  have halign := rtAlign_mod beginAddr
  obtain rfl := Option.some.inj hinit
  obtain ⟨stop, hstop⟩ : ∃ stop, stop = endAddr / 4 * 4 - rtAlign beginAddr - 24 + 12 := ⟨_, rfl⟩
  dsimp only at hroom
  have hapart : Apart stop 0 := .inr (by omega)
  have hheader : header (setPrev (setNext (setUsed (setMagic (setUsed (setPrev (setNext
      (setMagic memory 0 heapMagic) 0 stop) 0 0) 0 0) stop heapMagic) stop 1) stop stop)
      stop stop) 0 = (⟨0, stop, false⟩ : Block).image 0 := by
    rw [header_setPrev_apart hapart, header_setNext_apart hapart, header_setUsed_apart hapart,
      header_setMagic_apart hapart, header_setUsed (by decide), header_setPrev (by decide),
      header_setNext (by omega), header_setMagic (by decide)]
    rfl
  have hlast : (header (setPrev (setNext (setUsed (setMagic (setUsed (setPrev (setNext
      (setMagic memory 0 heapMagic) 0 stop) 0 0) 0 0) stop heapMagic) stop 1) stop stop)
      stop stop) stop).used = 1 := by
    rw [header_setPrev (by omega), header_setNext (by omega), header_setUsed (by decide)]
  have hlayout : Layout _ stop [⟨0, stop, false⟩] :=
    ⟨⟨hheader, trivial⟩, ⟨rfl, by show 0 + 16 ≤ stop; omega, by show stop % 4 = 0; omega, rfl⟩,
      hlast, by omega⟩
  rw [hstop] at hlayout
  exact ⟨⟨hlayout, rfl⟩, .singleton _, halign, hroom⟩

/-- A used block, seen as a place in the list. -/
theorem Owned.split (h : Owned s bs) (he : e ∈ s.live) :
    ∃ pre b post, bs = pre ++ b :: post ∧ b.used = true ∧ e.1 = b.start + 12 ∧
      e.1 + e.2 ≤ b.next := by
  obtain ⟨b, hb, hstart, hnext⟩ := h.live e he
  obtain ⟨hmem, hused⟩ := mem_usedBlocks.mp hb
  obtain ⟨pre, post, rfl⟩ := List.append_of_mem hmem
  exact ⟨pre, b, post, rfl, hused, hstart, hnext⟩

/-- A block of the list is not the one at another place. -/
theorem start_ne (h : Inv s.heap (pre ++ b :: post)) {c : Block} (hc : c ∈ pre ++ post) :
    c.start ≠ b.start := by
  obtain ⟨hpre, hpost, hroom, -⟩ := h.layout.places
  rcases List.mem_append.mp hc with hc | hc
  · have hplace := hpre c hc
    omega
  · have hplace := hpost c hc
    omega

/-- What `rt_malloc` does to what is in use. -/
theorem Owned.malloc (h : Owned s bs) {size : Nat} (hsize : size + 3 < 2 ^ 32) :
    ∃ r s' bs', rtMalloc s.heap size = some (r, s'.heap) ∧ step s (.malloc size) = some s' ∧
      Owned s' bs' ∧ (∀ c ∈ usedBlocks bs, c ∈ usedBlocks bs') ∧
      Keeps (usedBlocks bs) s.heap s'.heap ∧ (r = none → s' = s) ∧
      ∀ q, r = some q → s'.live = (q, size) :: s.live := by
  obtain ⟨r, hr, hmalloc⟩ := h.inv.malloc size
  have hstep : step s (.malloc size) = (rtMalloc s.heap size).map fun
    | (none, heap)      => { s with heap }
    | (some rmem, heap) => { s with heap, live := (rmem, size) :: s.live } := rfl
  rw [hr] at hstep
  cases hmalloc with
  | nothing _ => exact ⟨none, s, bs, hr, hstep, h, fun _ hc => hc, .refl _ _, fun _ => rfl, nofun⟩
  | @block pre post bs' b next h' hbs hb hinv hused hroom hkeeps hpos hlarge hfits =>
    subst hbs
    have hused₀ : usedBlocks (pre ++ b :: post) = usedBlocks pre ++ usedBlocks post := by
      rw [usedBlocks_append, usedBlocks_cons_free hb]
    have hlen : size ≤ mallocSize size := by
      unfold mallocSize rtAlign
      split_ifs <;> omega
    refine ⟨_, _, bs', hr, hstep, ⟨hinv, fun e he => ?_, fun c hc => ?_, ?_⟩, fun c hc => ?_,
      hkeeps, nofun, fun q hq => by rw [← Option.some.inj hq]⟩
    · -- the new block, or one that was in use
      rw [hused]
      rcases List.mem_cons.mp he with rfl | he
      · refine ⟨⟨b.start, next, true⟩, by simp, rfl, ?_⟩
        show b.start + 12 + size ≤ next
        omega
      · obtain ⟨c, hc, hplace⟩ := h.live e he
        refine ⟨c, ?_, hplace⟩
        rw [hused₀, List.mem_append] at hc
        rw [List.mem_append]
        exact hc.imp_right (List.mem_cons_of_mem _)
    · rw [hused, List.mem_append, List.mem_cons] at hc
      rcases hc with hc | rfl | hc
      · obtain ⟨e, he, hplace⟩ := h.held c (by rw [hused₀]; exact List.mem_append_left _ hc)
        exact ⟨e, List.mem_cons_of_mem _ he, hplace⟩
      · exact ⟨_, List.mem_cons_self, rfl⟩
      · obtain ⟨e, he, hplace⟩ := h.held c (by rw [hused₀]; exact List.mem_append_right _ hc)
        exact ⟨e, List.mem_cons_of_mem _ he, hplace⟩
    · -- the block was free, so that nobody had it
      rw [List.map_cons, List.nodup_cons]
      refine ⟨fun hmem => ?_, h.nodup⟩
      obtain ⟨e, he, hsame⟩ := List.mem_map.mp hmem
      obtain ⟨c, hc, hplace, -⟩ := h.live e he
      rw [hused₀, ← usedBlocks_append] at hc
      exact start_ne h.inv (mem_usedBlocks.mp hc).1 (by omega)
    · rw [hused₀, List.mem_append] at hc
      rw [hused, List.mem_append]
      exact hc.imp_right (List.mem_cons_of_mem _)

/-- What the used blocks hold, a block in use holds. -/
theorem Owned.kept (h : Owned s bs) {cs : List Block} {h' : Heap} (hkeeps : Keeps cs s.heap h')
    (he : e ∈ s.live) (hcs : ∀ b ∈ usedBlocks bs, e.1 = b.start + 12 → b ∈ cs) {a : Nat}
    (hlo : e.1 ≤ a) (hhi : a < e.1 + e.2) : h'.memory a = s.heap.memory a := by
  obtain ⟨b, hb, hstart, hnext⟩ := h.live e he
  exact hkeeps.kept b (hcs b hb hstart) a (by omega) (by omega)

/-- What `rt_free` does to what is in use. -/
theorem Owned.free (h : Owned s bs) (he : e ∈ s.live) :
    ∃ s' bs', step s (.free e.1) = some s' ∧ Owned s' bs' ∧
      s'.live = s.live.filter (·.1 ≠ e.1) ∧ SameHeap s.heap s'.heap ∧
      ∀ d ∈ s'.live, ∀ a, d.1 ≤ a → a < d.1 + d.2 → s'.heap.memory a = s.heap.memory a := by
  obtain ⟨pre, b, post, rfl, hb, hstart, -⟩ := h.split he
  obtain ⟨h', bs', hfree, hinv, hused, hkeeps⟩ := h.inv.free hb
  have hused₀ : usedBlocks (pre ++ b :: post) = usedBlocks pre ++ b :: usedBlocks post := by
    rw [usedBlocks_append, usedBlocks_cons_used hb]
  have hother : ∀ c ∈ usedBlocks (pre ++ b :: post), c.start ≠ b.start →
      c ∈ usedBlocks pre ++ usedBlocks post := by
    intro c hc hne
    rw [hused₀, List.mem_append, List.mem_cons] at hc
    rw [List.mem_append]
    exact hc.imp_right fun hc => hc.resolve_left fun heq => hne (heq ▸ rfl)
  have hlive : ∀ d ∈ s.live.filter (·.1 ≠ e.1), d ∈ s.live ∧ d.1 ≠ e.1 := fun d hd => by
    simpa using List.mem_filter.mp hd
  have hstep : step s (.free e.1)
      = some { s with heap := h', live := s.live.filter (·.1 ≠ e.1) } := by
    show (rtFree s.heap (some e.1)).map _ = _
    rw [hstart, hfree]
    rfl
  refine ⟨_, bs', hstep, ⟨hinv, fun d hd => ?_, fun c hc => ?_, ?_⟩, rfl,
    ⟨hkeeps.heapPtr, hkeeps.size⟩, fun d hd a hlo hhi => ?_⟩
  · obtain ⟨hd, hne⟩ := hlive d hd
    obtain ⟨c, hc, hplace, hroom⟩ := h.live d hd
    refine ⟨c, ?_, hplace, hroom⟩
    rw [hused]
    exact hother c hc (by omega)
  · rw [hused] at hc
    have hmem : c ∈ usedBlocks (pre ++ b :: post) := by
      rw [hused₀, List.mem_append, List.mem_cons]
      exact (List.mem_append.mp hc).imp_right .inr
    obtain ⟨d, hd, hplace⟩ := h.held c hmem
    refine ⟨d, List.mem_filter.mpr ⟨hd, ?_⟩, hplace⟩
    rw [← usedBlocks_append] at hc
    have hne := start_ne h.inv (mem_usedBlocks.mp hc).1
    simp only [ne_eq, decide_eq_true_eq]
    omega
  · exact h.nodup.sublist (List.filter_sublist.map _)
  · obtain ⟨hd, hne⟩ := hlive d hd
    refine h.kept hkeeps hd (fun c hc hplace => ?_) hlo hhi
    exact hother c hc (by omega)

/-- What `rt_realloc` does to what is in use, under the semaphore. -/
theorem Owned.resize (h : Owned s bs) (he : e ∈ s.live) {newsize : Nat}
    (hsize : newsize % 4 = 0) (hpos : 0 < newsize) :
    (∃ h' s' bs', Mem.resize s.heap e.1 newsize = some (.inPlace h') ∧
      step s (.resize e.1 newsize) = some s' ∧ s'.heap = h' ∧ Owned s' bs' ∧
      SameHeap s.heap h' ∧
      (∀ d, d ∈ s'.live ↔ d = (e.1, newsize) ∨ d ∈ s.live ∧ d.1 ≠ e.1) ∧
      ∀ d ∈ s.live, ∀ a, d.1 ≤ a → a < d.1 + d.2 → (d.1 = e.1 → a < e.1 + newsize) →
        s'.heap.memory a = s.heap.memory a) ∨
    ∃ b ∈ usedBlocks bs, e.1 = b.start + 12 ∧ e.1 + e.2 ≤ b.next ∧
      Mem.resize s.heap e.1 newsize = some (.expand (b.next - e.1)) ∧
      step s (.resize e.1 newsize) = some s := by
  obtain ⟨pre, b, post, rfl, hb, hstart, hroom⟩ := h.split he
  have hused₀ : usedBlocks (pre ++ b :: post) = usedBlocks pre ++ b :: usedBlocks post := by
    rw [usedBlocks_append, usedBlocks_cons_used hb]
  have hstep : step s (.resize e.1 newsize) = (Mem.resize s.heap e.1 newsize).map fun
    | .inPlace heap     =>
      { s with
        heap
        live := s.live.map fun d => if d.1 = e.1 then (e.1, newsize) else d }
    | .expand _         => s := rfl
  rcases h.inv.resize hb hsize hpos with
    ⟨h', bs', next, hresize, hinv, hused, hplace, hle, hkeeps⟩ | hresize
  · left
    rw [← hstart] at hresize
    rw [hresize] at hstep
    have hself : (⟨b.start, next, true⟩ : Block) ∈ usedBlocks bs' := by rw [hused]; simp
    have hother : ∀ c ∈ usedBlocks (pre ++ b :: post), c.start ≠ b.start → c ∈ usedBlocks bs' := by
      intro c hc hne
      rw [hused₀, List.mem_append, List.mem_cons] at hc
      rw [hused, List.mem_append, List.mem_cons]
      exact hc.imp_right fun hc => .inr (hc.resolve_left fun heq => hne (heq ▸ rfl))
    refine ⟨h', _, bs', hresize, hstep, rfl, ⟨hinv, fun d hd => ?_, fun c hc => ?_, ?_⟩,
      ⟨hkeeps.heapPtr, hkeeps.size⟩, fun d => ?_, fun d hd a hlo hhi hwithin => ?_⟩
    · obtain ⟨d', hd', rfl⟩ := List.mem_map.mp hd
      -- the block of `e` is as large as it needs, the others stay as they are
      split_ifs with heq
      · exact ⟨_, hself, hstart, by show e.1 + newsize ≤ next; omega⟩
      · obtain ⟨c, hc, hcstart, hcroom⟩ := h.live d' hd'
        exact ⟨c, hother c hc (by omega), hcstart, hcroom⟩
    · rw [hused, List.mem_append, List.mem_cons] at hc
      have hkeep : ∀ d ∈ s.live, d.1 = c.start + 12 →
          ∃ d' ∈ s.live.map fun d => if d.1 = e.1 then (e.1, newsize) else d,
            d'.1 = c.start + 12 := by
        intro d hd hdc
        refine ⟨_, List.mem_map_of_mem hd, ?_⟩
        split_ifs with heq
        · exact heq.symm.trans hdc
        · exact hdc
      rcases hc with hc | rfl | hc
      · obtain ⟨d, hd, hdc⟩ := h.held c (by rw [hused₀]; exact List.mem_append_left _ hc)
        exact hkeep d hd hdc
      · exact hkeep e he hstart
      · obtain ⟨d, hd, hdc⟩ := h.held c (by rw [hused₀]; simp [hc])
        exact hkeep d hd hdc
    · -- no block moves
      have hsame : (s.live.map fun d => if d.1 = e.1 then (e.1, newsize) else d).map Prod.fst
          = s.live.map Prod.fst := by
        rw [List.map_map]
        refine List.map_congr_left fun d _ => ?_
        by_cases heq : d.1 = e.1 <;> simp [heq]
      show (List.map Prod.fst (s.live.map _)).Nodup
      rw [hsame]
      exact h.nodup
    · rw [List.mem_map]
      constructor
      · rintro ⟨d', hd', rfl⟩
        split_ifs with heq
        · exact .inl rfl
        · exact .inr ⟨hd', heq⟩
      · rintro (rfl | ⟨hd, hne⟩)
        · exact ⟨e, he, if_pos rfl⟩
        · exact ⟨d, hd, if_neg hne⟩
    · obtain ⟨c, hc, hcstart, hcroom⟩ := h.live d hd
      by_cases heq : d.1 = e.1
      · have hin := hwithin heq
        exact hkeeps.kept _ hself a (by show b.start + 12 ≤ a; omega) (by show a < next; omega)
      · exact hkeeps.kept c (hother c hc (by omega)) a (by omega) (by omega)
  · -- there is no room: `rt_realloc` goes on without the semaphore
    right
    rw [← hstart] at hresize
    rw [hresize] at hstep
    exact ⟨b, by rw [hused₀]; simp, hstart, hroom, hresize, hstep⟩

/-- What a store does to what is in use. -/
theorem Owned.store (h : Owned s bs) (he : e ∈ s.live) {a : Nat} (hlo : e.1 ≤ a)
    (hhi : a < e.1 + e.2) (v : UInt8) :
    Owned { s with heap := { s.heap with memory := Function.update s.heap.memory a v } } bs := by
  obtain ⟨pre, b, post, rfl, -, hstart, hroom⟩ := h.split he
  exact ⟨h.inv.write (by omega) (by omega) v, h.live, h.held, h.nodup⟩

/-- The action leaves this block to itself. -/
def Leaves (e : Nat × Nat) : Action → Prop
  | .malloc _      => True
  | .free rmem     => rmem ≠ e.1
  | .resize rmem _ => rmem ≠ e.1
  | .store a _     => a < e.1 ∨ e.1 + e.2 ≤ a

/-- **Every step** that a program may do is possible, and keeps the other blocks as they are. -/
theorem Owned.step (h : Owned s bs) {a : Action} (hvalid : Valid s a) :
    ∃ s' bs', Mem.step s a = some s' ∧ Owned s' bs' ∧ SameHeap s.heap s'.heap ∧
      ∀ e ∈ s.live, Leaves e a → e ∈ s'.live ∧
        ∀ i, e.1 ≤ i → i < e.1 + e.2 → s'.heap.memory i = s.heap.memory i := by
  cases a with
  | malloc size =>
    obtain ⟨r, s', bs', -, hstep, howned, -, hkeeps, hnone, hsome⟩ := h.malloc hvalid
    refine ⟨s', bs', hstep, howned, ⟨hkeeps.heapPtr, hkeeps.size⟩, fun e he _ => ⟨?_, ?_⟩⟩
    · cases r with
      | none => exact hnone rfl ▸ he
      | some q =>
        rw [hsome q rfl]
        exact List.mem_cons_of_mem _ he
    · exact fun i => h.kept hkeeps he fun _ hb _ => hb
  | free rmem =>
    obtain ⟨e, he, rfl⟩ := hvalid
    obtain ⟨s', bs', hstep, howned, hlive, hsame, hkept⟩ := h.free he
    refine ⟨s', bs', hstep, howned, hsame, fun d hd hleaves => ?_⟩
    have hd' : d ∈ s'.live := by
      rw [hlive]
      exact List.mem_filter.mpr ⟨hd, by simpa using Ne.symm hleaves⟩
    exact ⟨hd', fun i => hkept d hd' i⟩
  | resize rmem newsize =>
    obtain ⟨⟨e, he, rfl⟩, hsize, hpos⟩ := hvalid
    rcases h.resize he hsize hpos with
      ⟨h', s', bs', -, hstep, hheap, howned, hsame, hlive, hkept⟩ | ⟨b, -, -, -, -, hstep⟩
    · refine ⟨s', bs', hstep, howned, hheap ▸ hsame, fun d hd hleaves => ?_⟩
      have hd' : d ∈ s'.live := (hlive d).mpr (.inr ⟨hd, Ne.symm hleaves⟩)
      refine ⟨hd', fun i hlo hhi => hkept d hd i hlo hhi fun heq => ?_⟩
      exact absurd heq.symm hleaves
    · exact ⟨s, bs, hstep, h, ⟨rfl, rfl⟩, fun d hd _ => ⟨hd, fun _ _ _ => rfl⟩⟩
  | store a v =>
    obtain ⟨e, he, hlo, hhi⟩ := hvalid
    refine ⟨_, bs, rfl, h.store he hlo hhi v, ⟨rfl, rfl⟩, fun d hd hleaves => ⟨hd, ?_⟩⟩
    intro i hilo hihi
    have hne : i ≠ a := by
      have : a < d.1 ∨ d.1 + d.2 ≤ a := hleaves
      omega
    exact Function.update_of_ne hne v s.heap.memory

/-! ### Every run -/

/-- The heap as `rt_system_heap_init` leaves it, with room for at least one block. -/
structure Booted (beginAddr endAddr : Nat) (memory : Memory) (h : Heap) : Prop where
  init : systemHeapInit memory beginAddr endAddr = some h
  addr : endAddr < 2 ^ 32
  room : 12 ≤ h.memSizeAligned

variable {beginAddr endAddr : Nat} {memory : Memory} {h₀ : Heap} {as : List Action}

/-- Every run keeps the invariant. -/
theorem owned_of_runs (hboot : Booted beginAddr endAddr memory h₀)
    (hruns : Runs step Valid ⟨h₀, []⟩ as s) : ∃ bs, Owned s bs ∧ SameHeap h₀ s.heap := by
  have hinit : Owned ⟨h₀, []⟩ [⟨0, h₀.heapEnd, false⟩] :=
    ⟨inv_init hboot.init hboot.addr hboot.room, by simp, by simp [usedBlocks], List.nodup_nil⟩
  refine hruns.invariant (fun s => ∃ bs, Owned s bs ∧ SameHeap h₀ s.heap) ?_
    ⟨_, hinit, rfl, rfl⟩
  rintro s a s' ⟨bs, howned, hptr, hsize⟩ hvalid hstep
  obtain ⟨s'', bs', hstep', howned', ⟨hptr', hsize'⟩, -⟩ := howned.step hvalid
  obtain rfl := Option.some.inj (hstep.symm.trans hstep')
  exact ⟨bs', howned', hptr'.trans hptr, hsize'.trans hsize⟩

/-- Used blocks lie apart. -/
theorem Owned.apart (h : Owned s bs) {d : Nat × Nat} (hd : d ∈ s.live) (he : e ∈ s.live)
    (hne : d.1 ≠ e.1) : d.1 + d.2 + 12 ≤ e.1 ∨ e.1 + e.2 + 12 ≤ d.1 := by
  obtain ⟨pre, b, post, rfl, -, hstart, hroom⟩ := h.split hd
  obtain ⟨c, hc, hcstart, hcroom⟩ := h.live e he
  obtain ⟨hpre, hpost, hlen, -⟩ := h.inv.layout.places
  rcases List.mem_append.mp (mem_usedBlocks.mp hc).1 with hc | hc
  · have hplace := hpre c hc
    omega
  · rcases List.mem_cons.mp hc with rfl | hc
    · omega
    · have hplace := hpost c hc
      omega

/-- **The blocks in use do not overlap**, nor the headers; each is aligned, lies within the heap
    and is at least as long as was asked for, and whatever a program may do next is done: no
    assertion of `mem.c` fails, and no loop runs for ever. -/
theorem blocks_apart (hboot : Booted beginAddr endAddr memory h₀)
    (hruns : Runs step Valid ⟨h₀, []⟩ as s) :
    (∀ e ∈ s.live, (s.heap.heapPtr + e.1) % 4 = 0 ∧ 12 ≤ e.1 ∧ e.1 + e.2 ≤ s.heap.heapEnd) ∧
      s.live.Pairwise (fun d e => d.1 + d.2 + 12 ≤ e.1 ∨ e.1 + e.2 + 12 ≤ d.1) ∧
      ∀ a, Valid s a → (step s a).isSome = true := by
  obtain ⟨bs, howned, -⟩ := owned_of_runs hboot hruns
  refine ⟨fun e he => ?_, ?_, fun a hvalid => ?_⟩
  · obtain ⟨pre, b, post, rfl, -, hstart, hroom⟩ := howned.split he
    obtain ⟨-, -, -, hstop, halign, -⟩ := howned.inv.layout.places
    have haligned := howned.inv.aligned
    exact ⟨by omega, by omega, by omega⟩
  · have hpair : s.live.Pairwise fun d e => d.1 ≠ e.1 := List.pairwise_map.mp howned.nodup
    exact hpair.imp_of_mem fun hd he hne => howned.apart hd he hne
  · obtain ⟨s', -, hstep, -⟩ := howned.step hvalid
    rw [hstep]
    rfl

/-- A heap of 224 bytes, with its two headers. -/
def exampleHeap : Heap :=
  (systemHeapInit (fun _ => 0) 0x20001000 0x200010e0).get (by decide)

theorem exampleHeap_booted : Booted 0x20001000 0x200010e0 (fun _ => 0) exampleHeap :=
  ⟨(Option.some_get _).symm, by decide, by decide⟩

/-- Two blocks, and bytes in the second of them. -/
def exampleState : State :=
  (checkedRun step Valid ⟨exampleHeap, []⟩
    [.malloc 10, .malloc 30, .store 36 7, .store 39 8]).get (by decide +kernel)

theorem blocks_apart_example : exampleState.live = [(36, 30), (12, 10)] ∧
    ∀ a, Valid exampleState a → (step exampleState a).isSome = true :=
  ⟨by decide +kernel,
    (blocks_apart exampleHeap_booted (runs_checked_get (by decide +kernel))).2.2⟩

/-- **What a block holds stays** until its owner writes to it, frees it or resizes it, whatever the
    others do meanwhile. -/
theorem contents_kept (hboot : Booted beginAddr endAddr memory h₀)
    (hruns : Runs step Valid ⟨h₀, []⟩ as s) (he : e ∈ s.live) {bs : List Action}
    (hruns' : Runs step (fun s a => Valid s a ∧ Leaves e a) s bs s') :
    e ∈ s'.live ∧ ∀ i, e.1 ≤ i → i < e.1 + e.2 → s'.heap.memory i = s.heap.memory i := by
  obtain ⟨cs, howned, -⟩ := owned_of_runs hboot hruns
  have hkept := hruns'.invariant (fun s' => (∃ cs, Owned s' cs) ∧ e ∈ s'.live ∧
    ∀ i, e.1 ≤ i → i < e.1 + e.2 → s'.heap.memory i = s.heap.memory i) ?_
    ⟨⟨cs, howned⟩, he, fun _ _ _ => rfl⟩
  · exact hkept.2
  · rintro s₁ a s₂ ⟨⟨cs₁, howned₁⟩, he₁, hbytes⟩ ⟨hvalid, hleaves⟩ hstep
    obtain ⟨s'', cs₂, hstep', howned₂, -, hkept⟩ := howned₁.step hvalid
    obtain rfl := Option.some.inj (hstep.symm.trans hstep')
    obtain ⟨he₂, hsame⟩ := hkept e he₁ hleaves
    exact ⟨⟨cs₂, howned₂⟩, he₂, fun i hlo hhi => (hsame i hlo hhi).trans (hbytes i hlo hhi)⟩

instance (e : Nat × Nat) : (a : Action) → Decidable (Leaves e a)
  | .malloc _      => isTrue trivial
  | .free rmem     => inferInstanceAs (Decidable (rmem ≠ e.1))
  | .resize rmem _ => inferInstanceAs (Decidable (rmem ≠ e.1))
  | .store a _     => inferInstanceAs (Decidable (a < e.1 ∨ e.1 + e.2 ≤ a))

/-- The block before is resized and freed, and another one is taken. -/
def exampleLater : State :=
  (checkedRun step (fun s a => Valid s a ∧ Leaves (36, 30) a) exampleState
    [.resize 12 4, .free 12, .malloc 8, .store 12 1]).get (by decide +kernel)

theorem contents_kept_example : (36, 30) ∈ exampleLater.live ∧
    ∀ i, 36 ≤ i → i < 36 + 30 → exampleLater.heap.memory i = exampleState.heap.memory i :=
  contents_kept exampleHeap_booted (runs_checked_get (by decide +kernel))
    (show (36, 30) ∈ exampleState.live by decide +kernel) (runs_checked_get (by decide +kernel))

/-- Every place in the heap is in a block. -/
theorem Tiles.find {lo hi p : Nat} (ht : Tiles lo bs hi) (hlo : lo ≤ p) (hhi : p < hi) :
    ∃ pre b post, bs = pre ++ b :: post ∧ b.start ≤ p ∧ p < b.next := by
  induction bs generalizing lo with
  | nil =>
    have hnone : lo = hi := ht
    omega
  | cons b bs ih =>
    obtain ⟨hstart, -, -, hrest⟩ := ht
    by_cases hp : p < b.next
    · exact ⟨[], b, bs, rfl, by omega, hp⟩
    · obtain ⟨pre, c, post, rfl, hplace⟩ := ih hrest (by omega)
      exact ⟨b :: pre, c, post, rfl, hplace⟩

/-- The end of a block in use, with what it has beyond the bytes that were asked for. -/
def blockEnd (s : State) (e : Nat × Nat) : Nat := (header s.heap.memory (e.1 - 12)).next

theorem Owned.blockEnd_eq (h : Owned s bs) (hb : b ∈ usedBlocks bs) (hstart : e.1 = b.start + 12) :
    blockEnd s e = b.next := by
  obtain ⟨pre, post, rfl⟩ := List.append_of_mem (mem_usedBlocks.mp hb).1
  rw [blockEnd, hstart, Nat.add_sub_cancel, h.inv.layout.header_eq]
  rfl

/-- **`rt_malloc` finds a block whenever there is a gap for it**: a stretch of the heap with room
    for the header and the bytes that no block in use reaches into, and that does not end where the
    heap does.  Free blocks are never split up among neighbours. -/
theorem malloc_iff (hboot : Booted beginAddr endAddr memory h₀)
    (hruns : Runs step Valid ⟨h₀, []⟩ as s) (size : Nat) :
    (∃ p h', rtMalloc s.heap size = some (some p, h')) ↔
      size ≠ 0 ∧ rtAlign size ≤ s.heap.memSizeAligned ∧
        ∃ p, p + mallocSize size < s.heap.memSizeAligned ∧
          ∀ e ∈ s.live, p + 12 + mallocSize size ≤ e.1 - 12 ∨ blockEnd s e ≤ p := by
  obtain ⟨bs, howned, -⟩ := owned_of_runs hboot hruns
  have hend : s.heap.heapEnd = s.heap.memSizeAligned + 12 := rfl
  obtain ⟨r, hr, hmalloc⟩ := howned.inv.malloc size
  constructor
  · rintro ⟨p, h', hp⟩
    obtain rfl := Option.some.inj (hr.symm.trans hp)
    cases hmalloc with
    | @block pre post bs' b next h' hbs hb hinv hused hroom hkeeps hpos hlarge hfits =>
      subst hbs
      simp only [Fits, Bool.and_eq_true, decide_eq_true_eq] at hfits
      obtain ⟨hpre, hpost, hlen, -⟩ := howned.inv.layout.places
      refine ⟨hpos, hlarge, b.start, by omega, fun e he => ?_⟩
      obtain ⟨c, hc, hstart, -⟩ := howned.live e he
      rw [howned.blockEnd_eq hc hstart]
      obtain ⟨hc, hcused⟩ := mem_usedBlocks.mp hc
      rcases List.mem_append.mp hc with hc | hc
      · exact .inr (hpre c hc).2
      · rcases List.mem_cons.mp hc with rfl | hc
        · rw [hb] at hcused
          cases hcused
        · have hplace := hpost c hc
          exact .inl (by omega)
  · rintro ⟨hpos, hlarge, p, hroom, hgap⟩
    -- the block that the gap begins in is free, and reaches as far as the gap
    obtain ⟨pre, b, post, rfl, hstart, hp⟩ := howned.inv.layout.tiles.find (Nat.zero_le p)
      (by omega)
    obtain ⟨-, hpost, hlen, hstop, -⟩ := howned.inv.layout.places
    have hgap' : ∀ c ∈ pre ++ b :: post, c.used = true →
        p + 12 + mallocSize size ≤ c.start ∨ c.next ≤ p := by
      intro c hc hused
      have hmem := mem_usedBlocks.mpr ⟨hc, hused⟩
      obtain ⟨e, he, hplace⟩ := howned.held c hmem
      have hfar := hgap e he
      rw [howned.blockEnd_eq hmem hplace] at hfar
      omega
    have hb : b.used = false := by
      by_contra hused
      have hfar := hgap' b (by simp) (by simpa using hused)
      omega
    have hreach : p + 12 + mallocSize size ≤ b.next := by
      obtain ⟨lo, -, -, -, -, htpost⟩ := tiles_append.mp howned.inv.layout.tiles
      cases post with
      | nil =>
        have hlast : b.next = s.heap.heapEnd := htpost
        omega
      | cons c post =>
        have hcused : c.used = true := by
          have hchain := (List.isChain_append.mp howned.inv.coalesced).2.1
          simpa [hb] using (List.isChain_cons.mp hchain).1 c rfl
        have hcstart := htpost.1
        have hplace := hpost c List.mem_cons_self
        have hfar := hgap' c (by simp) hcused
        omega
    have hfits : Fits s.heap (mallocSize size) b = true := by
      simp only [Fits, hb, Bool.not_false, Bool.true_and, Bool.and_eq_true, decide_eq_true_eq]
      omega
    cases hmalloc with
    | nothing hnone =>
      rcases hnone with hzero | hmuch | hall
      · exact absurd hzero hpos
      · exact absurd hlarge (Nat.not_le_of_lt hmuch)
      · rw [hall b (by simp)] at hfits
        cases hfits
    | block => exact ⟨_, _, hr⟩

theorem malloc_iff_example : ∃ p h', rtMalloc exampleState.heap 40 = some (some p, h') :=
  (malloc_iff exampleHeap_booted (runs_checked_get (by decide +kernel)) 40).mpr
    ⟨by decide, by decide +kernel, 68, by decide +kernel, by decide +kernel⟩

/-- **When everything is given back** the heap is one free block again, as at the start, whatever
    the order in which the blocks were taken, resized and given back. -/
theorem all_freed (hboot : Booted beginAddr endAddr memory h₀)
    (hruns : Runs step Valid ⟨h₀, []⟩ as s) (hlive : s.live = []) :
    header s.heap.memory 0 = header h₀.memory 0 ∧ s.heap.lfree = h₀.lfree ∧
      SameHeap h₀ s.heap := by
  obtain ⟨bs, howned, hsame⟩ := owned_of_runs hboot hruns
  have hinit := inv_init hboot.init hboot.addr hboot.room
  have hend : s.heap.heapEnd = h₀.heapEnd := by rw [Heap.heapEnd, Heap.heapEnd, hsame.2]
  have hfree : ∀ b ∈ bs, b.used = false := by
    intro b hb
    by_contra hused
    obtain ⟨e, he, -⟩ := howned.held b (mem_usedBlocks.mpr ⟨hb, by simpa using hused⟩)
    rw [hlive] at he
    cases he
  have hbs : bs = [⟨0, h₀.heapEnd, false⟩] := by
    have htiles := howned.inv.layout.tiles
    have hcoal := howned.inv.coalesced
    match bs, htiles, hcoal, hfree with
    | [], htiles, _, _ =>
      have hzero : 0 = s.heap.memSizeAligned + 12 := htiles
      omega
    | [b], ⟨hstart, _, _, hnext⟩, _, hfree =>
      have hb := hfree b List.mem_cons_self
      have hnext : b.next = s.heap.heapEnd := hnext
      rw [← hend, ← hnext, ← hb, ← hstart]
    | b :: c :: _, _, hcoal, hfree =>
      have hsome := (List.isChain_cons_cons.mp hcoal).1
      rw [hfree b (by simp), hfree c (by simp)] at hsome
      simp at hsome
  subst hbs
  refine ⟨?_, ?_, hsame⟩
  · exact howned.inv.layout.headers.1.trans hinit.layout.headers.1.symm
  · rw [howned.inv.lfree, hinit.lfree]
    rfl

/-- The blocks are given back. -/
def exampleEnd : State :=
  (checkedRun step Valid ⟨exampleHeap, []⟩
    [.malloc 10, .malloc 30, .malloc 20, .free 12, .free 80, .free 36]).get (by decide +kernel)

theorem all_freed_example : header exampleEnd.heap.memory 0 = header exampleHeap.memory 0 ∧
    exampleEnd.heap.lfree = exampleHeap.lfree ∧ SameHeap exampleHeap exampleEnd.heap :=
  all_freed exampleHeap_booted (runs_checked_get (by decide +kernel)) (by decide +kernel)

/-! ### `rt_realloc` -/

/-- The copy of `rt_realloc`, byte by byte. -/
theorem copy_runs (he : e ∈ s.live) {dst src n : Nat} (hlo : e.1 ≤ dst)
    (hhi : dst + n ≤ e.1 + e.2) :
    ∃ as, Runs step Valid s as
      { s with heap := { s.heap with memory := copy s.heap.memory dst src n } } := by
  induction n generalizing s dst src with
  | zero => exact ⟨[], .nil⟩
  | succ n ih =>
    have hvalid : Valid s (.store dst (s.heap.memory src)) := ⟨e, he, hlo, by omega⟩
    obtain ⟨t, ht⟩ : ∃ t, step s (.store dst (s.heap.memory src)) = some t := ⟨_, rfl⟩
    have he' : e ∈ t.live := by
      obtain rfl := Option.some.inj ht
      exact he
    obtain ⟨as, hrest⟩ : ∃ as, Runs step Valid t as
        { t with heap := { t.heap with memory := copy t.heap.memory (dst + 1) (src + 1) n } } :=
      ih he' (by omega) (by omega)
    have hall := (Runs.single hvalid ht).append hrest
    obtain rfl := Option.some.inj ht
    exact ⟨_, hall⟩

/-- The blocks in a state that a run led to. -/
theorem Owned.run (h : Owned s bs) (hruns : Runs Mem.step Valid s as s') : ∃ bs', Owned s' bs' := by
  refine hruns.invariant (fun s => ∃ bs, Owned s bs) ?_ ⟨bs, h⟩
  rintro s a s' ⟨bs, howned⟩ hvalid hstep
  obtain ⟨s'', bs', hstep', howned', -⟩ := howned.step hvalid
  obtain rfl := Option.some.inj (hstep.symm.trans hstep')
  exact ⟨bs', howned'⟩

/-- The bytes of a block, in another state. -/
def Unchanged (s s' : State) (e : Nat × Nat) : Prop :=
  e ∈ s'.live ∧ ∀ i, e.1 ≤ i → i < e.1 + e.2 → s'.heap.memory i = s.heap.memory i

/-- Two runs of bytes of this length, from `q` and from `p`, have no byte in common. -/
def NoOverlap (q p length : Nat) : Prop := q + length ≤ p ∨ p + length ≤ q

/-- What `rt_realloc` leads to: nothing changed and it gives nothing, or it gives a block that
    begins with what the old one held.  Then the old block is given back, the others are as they
    were, and if bytes were copied they were copied to a place apart from where they were. -/
def Moved (s s' : State) (e : Nat × Nat) (newsize : Nat) : Option Nat → Prop
  | none   => s' = s
  | some q => (∀ d, d ∈ s'.live ↔ d = (q, newsize) ∨ d ∈ s.live ∧ d.1 ≠ e.1) ∧
    (∀ i, i < e.2 → i < newsize → s'.heap.memory (q + i) = s.heap.memory (e.1 + i)) ∧
    (∀ d ∈ s.live, d.1 ≠ e.1 → Unchanged s s' d) ∧
    ∀ size, Mem.resize s.heap e.1 newsize = some (.expand size) →
      NoOverlap q e.1 (if size < newsize then size else newsize)

/-- The old block is given up for a new one: the bytes are copied, and it is freed. -/
theorem Owned.move (h : Owned s bs) (he : e ∈ s.live) (hb : b ∈ usedBlocks bs)
    (hstart : e.1 = b.start + 12) (hroom : e.1 + e.2 ≤ b.next) {size newsize q : Nat}
    (hsize : size = b.next - e.1)
    (hresize : Mem.resize s.heap e.1 newsize = some (.expand size))
    {s₁ : State} {bs₁ : List Block} (h₁ : Owned s₁ bs₁)
    (hblocks : ∀ c ∈ usedBlocks bs, c ∈ usedBlocks bs₁)
    (hkeeps : Keeps (usedBlocks bs) s.heap s₁.heap)
    (hlive : s₁.live = (q, newsize) :: s.live) :
    ∃ h' as s', rtFree { s₁.heap with
        memory := copy s₁.heap.memory q e.1 (if size < newsize then size else newsize) }
        (some e.1) = some h' ∧
      Runs Mem.step Valid s₁ as s' ∧ s'.heap = h' ∧ Moved s s' e newsize (some q) := by
  have hnew : (q, newsize) ∈ s₁.live := by rw [hlive]; exact List.mem_cons_self
  have hold : ∀ d ∈ s.live, d ∈ s₁.live := fun d hd => by
    rw [hlive]
    exact List.mem_cons_of_mem _ hd
  have hne : ∀ d ∈ s.live, d.1 ≠ q := by
    intro d hd heq
    have hnodup := h₁.nodup
    rw [hlive, List.map_cons, List.nodup_cons] at hnodup
    exact hnodup.1 (List.mem_map.mpr ⟨d, hd, heq⟩)
  obtain ⟨k, hk⟩ : ∃ k, k = if size < newsize then size else newsize := ⟨_, rfl⟩
  have hksize : k ≤ size ∧ k ≤ newsize ∧ (e.2 ≤ k ∨ newsize ≤ k) := by
    rw [hk]
    split_ifs <;> omega
  -- the new block is not in what the old one has, bytes that nobody asked for included
  have hfar : q + k ≤ e.1 ∨ e.1 + k ≤ q := by
    obtain ⟨c, hc, hcstart, hcroom⟩ := h₁.live _ hnew
    obtain ⟨pre, post, hbs⟩ := List.append_of_mem (mem_usedBlocks.mp (hblocks b hb)).1
    have hplaces := h₁.inv
    rw [hbs] at hplaces
    obtain ⟨hpre, hpost, hlen, -⟩ := hplaces.layout.places
    have hcmem := (mem_usedBlocks.mp hc).1
    have hqe := hne e he
    rw [hbs] at hcmem
    rcases List.mem_append.mp hcmem with hcmem | hcmem
    · have hplace := hpre c hcmem
      omega
    · rcases List.mem_cons.mp hcmem with rfl | hcmem
      · omega
      · have hplace := hpost c hcmem
        omega
  obtain ⟨as₁, hcopy⟩ : ∃ as, Runs Mem.step Valid s₁ as { s₁ with heap :=
      { s₁.heap with memory := copy s₁.heap.memory q e.1 k } } :=
    copy_runs hnew (Nat.le_refl q) (show q + k ≤ q + newsize by omega)
  obtain ⟨s₂, hs₂⟩ : ∃ s₂ : State, s₂ = { s₁ with heap :=
    { s₁.heap with memory := copy s₁.heap.memory q e.1 k } } := ⟨_, rfl⟩
  rw [← hs₂] at hcopy
  obtain ⟨bs₂, h₂⟩ := h₁.run hcopy
  have he₂ : e ∈ s₂.live := by rw [hs₂]; exact hold e he
  obtain ⟨s₃, bs₃, hstep, -, hlive₃, -, hkept⟩ := h₂.free he₂
  have hfree : ∃ h', rtFree s₂.heap (some e.1) = some h' ∧ s₃.heap = h' := by
    obtain ⟨h', hh', heq⟩ := Option.map_eq_some_iff.mp hstep
    exact ⟨h', hh', by rw [← heq]⟩
  obtain ⟨h', hfree, hheap⟩ := hfree
  have hmem₂ : s₂.heap.memory = copy s₁.heap.memory q e.1 k := by rw [hs₂]
  have hq₃ : (q, newsize) ∈ s₃.live := by
    rw [hlive₃, hs₂]
    exact List.mem_filter.mpr ⟨hnew, by simpa using Ne.symm (hne e he)⟩
  have hcopied : ∀ size', Mem.resize s.heap e.1 newsize = some (.expand size') →
      NoOverlap q e.1 (if size' < newsize then size' else newsize) := by
    intro size' hsize'
    cases hresize.symm.trans hsize'
    rw [← hk]
    exact hfar
  refine ⟨h', as₁ ++ [.free e.1], s₃, ?_, ?_, hheap, fun d => ?_, fun i hi hi' => ?_,
    fun d hd hde => ?_, hcopied⟩
  · rw [← hk]
    rw [hs₂] at hfree
    exact hfree
  · exact hcopy.snoc ⟨e, he₂, rfl⟩ hstep
  · -- the new block is none of those that were there
    rw [hlive₃, List.mem_filter, hs₂]
    show d ∈ s₁.live ∧ decide (d.1 ≠ e.1) = true ↔ _
    rw [hlive, List.mem_cons, decide_eq_true_eq]
    constructor
    · rintro ⟨rfl | hd, hde⟩
      · exact .inl rfl
      · exact .inr ⟨hd, hde⟩
    · rintro (rfl | ⟨hd, hde⟩)
      · exact ⟨.inl rfl, Ne.symm (hne e he)⟩
      · exact ⟨.inr hd, hde⟩
  · rw [hkept _ hq₃ (q + i) (Nat.le_add_right q i) (by show q + i < q + newsize; omega), hmem₂,
      copy_add (by omega) (by omega)]
    exact h.kept hkeeps he (fun _ hc _ => hc) (Nat.le_add_right e.1 i) (by omega)
  · have hd₃ : d ∈ s₃.live := by
      rw [hlive₃, hs₂]
      exact List.mem_filter.mpr ⟨hold d hd, by simpa using hde⟩
    refine ⟨hd₃, fun i hlo hhi => ?_⟩
    have hapart : d.1 + d.2 + 12 ≤ q ∨ q + newsize + 12 ≤ d.1 :=
      h₁.apart (hold d hd) hnew (hne d hd)
    rw [hkept d hd₃ i hlo hhi, hmem₂, copy_apply (by omega)]
    exact h.kept hkeeps hd (fun _ hc _ => hc) hlo hhi

/-- **`rt_realloc`** of a block in use is a run of these steps, with steps of others possible
    between them: it gives nothing and changes nothing, or gives a block of the size asked for that
    begins with what the old one held; the old one is not in use any more, and a copy goes from
    one place to another that has no byte of it. -/
theorem realloc_kept (hboot : Booted beginAddr endAddr memory h₀)
    (hruns : Runs step Valid ⟨h₀, []⟩ as s) (he : e ∈ s.live) {size : Nat}
    (hsize : size + 3 < 2 ^ 32) (hpos : 0 < size) :
    ∃ r h' bs s', rtRealloc s.heap (some e.1) size = some (r, h') ∧ Runs step Valid s bs s' ∧
      s'.heap = h' ∧ size ≤ rtAlign size ∧ Moved s s' e (rtAlign size) r := by
  obtain ⟨bs, howned, -⟩ := owned_of_runs hboot hruns
  have hlen : size ≤ rtAlign size := by
    unfold rtAlign
    omega
  have hmod := rtAlign_mod size
  unfold rtRealloc
  dsimp only
  by_cases hlarge : s.heap.memSizeAligned < rtAlign size
  · rw [if_pos hlarge]
    exact ⟨none, _, [], s, rfl, .nil, rfl, hlen, rfl⟩
  rw [if_neg hlarge, if_neg (by omega)]
  rcases howned.resize he hmod (by omega) with
    ⟨h', s', bs', hresize, hstep, hheap, -, -, hlive, hkept⟩ |
      ⟨b, hb, hstart, hroom, hresize, -⟩
  · rw [hresize]
    have hvalid : Valid s (.resize e.1 (rtAlign size)) := ⟨⟨e, he, rfl⟩, hmod, by omega⟩
    refine ⟨some e.1, h', _, s', rfl, .single hvalid hstep, hheap, hlen, hlive, fun i hi hi' => ?_,
      fun d hd hne => ⟨(hlive d).mpr (.inr ⟨hd, hne⟩), fun i hlo hhi => ?_⟩, ?_⟩
    · exact hkept e he (e.1 + i) (by omega) (by omega) fun _ => by omega
    · exact hkept d hd i hlo hhi fun heq => absurd heq hne
    · intro size' hsize'
      cases hresize.symm.trans hsize'
  · rw [hresize]
    have hsmall : rtAlign size + 3 < 2 ^ 32 := by
      have hlt := howned.inv.layout.lt
      have hend : s.heap.heapEnd = s.heap.memSizeAligned + 12 := rfl
      omega
    obtain ⟨r, s₁, bs₁, hmalloc, hstep, h₁, hblocks, hkeeps, hnone, hsome⟩ := howned.malloc hsmall
    rw [Option.bind_some]
    dsimp only
    rw [hmalloc, Option.bind_some]
    cases r with
    | none =>
      have hsame := hnone rfl
      exact ⟨none, _, [], s, rfl, .nil, by rw [hsame], hlen, rfl⟩
    | some q =>
      obtain ⟨h', as', s', hfree, hrest, hheap, hmoved⟩ :=
        howned.move he hb hstart hroom rfl hresize h₁ hblocks hkeeps (hsome q rfl)
      dsimp only
      rw [hfree]
      have hvalid : Valid s (.malloc (rtAlign size)) := hsmall
      exact ⟨some q, h', _, s', rfl, (Runs.single hvalid hstep).append hrest, hheap, hlen, hmoved⟩

theorem realloc_kept_example : ∃ r h' bs s',
    rtRealloc exampleState.heap (some 36) 50 = some (r, h') ∧ Runs step Valid exampleState bs s' ∧
      s'.heap = h' ∧ 50 ≤ rtAlign 50 ∧ Moved exampleState s' (36, 30) (rtAlign 50) r :=
  realloc_kept exampleHeap_booted (runs_checked_get (by decide +kernel))
    (show (36, 30) ∈ exampleState.live by decide +kernel) (by decide) (by decide)

end Steps

end RtCharger.Kernel.Mem
