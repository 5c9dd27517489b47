import RtCharger.Os.Observables

namespace RtCharger.Os.Observables

open StepSystem

/-!
# What subscribers have been told last

A subscriber that assigns to the observable that notifies it starts another loop over the
subscribers, which ends before the outer one goes on.  `operator++` then tells the rest of them
what is stored by now, but `operator=` tells them its own parameter.

* `Fresh` — no loop of `operator=` tells a value that is no longer stored;
* `Inv` — every subscriber has been told what is stored, or is about to be called;
* `observers_told` — every run whose notifications are fresh, and what one that is not leaves;
* `told_of_layered` — subscribers that never lead back to the observable that notifies them.
-/

variable {Obs σ T : Type} [DecidableEq Obs] [DecidableEq T] {s s' : State Obs σ T}
  {a : Act Obs σ T} {inc : T → T}

/-- A loop of `operator=` that is about to call a subscriber finds its parameter stored. -/
def State.upToDate (s : State Obs σ T) : Bool :=
  match s.control with
  | .loop o (.newVal v) _ (_ :: _) :: _ => s.value o = v
  | _                                   => true

/-- The condition on a step. -/
def Fresh (s : State Obs σ T) : Act Obs σ T → Prop
  | .next => s.upToDate = true
  | _     => True

instance (s : State Obs σ T) : ∀ a, Decidable (Fresh s a)
  | .next          => inferInstanceAs (Decidable (s.upToDate = true))
  | .subscribe _ _ => inferInstanceAs (Decidable True)
  | .call _ _      => inferInstanceAs (Decidable True)
  | .other _       => inferInstanceAs (Decidable True)

/-- Every subscriber has been told. -/
def AllTold (s : State Obs σ T) : Prop := ∀ o i, i < (s.onChanged o).length → Told s o i

/-! ### Fresh notifications -/

/-- Every subscriber has been told what is stored, or is about to be called. -/
def Inv (s : State Obs σ T) : Prop :=
  ∀ o i, i < (s.onChanged o).length → Told s o i ∨ Awaited s.control o i

omit [DecidableEq Obs] [DecidableEq T] in
/-- Nobody is about to be called when an operation has returned. -/
theorem Inv.allTold (h : Inv s) (hret : s.control = []) : AllTold s := by
  intro o i hi
  rcases h o i hi with htold | hawait
  · exact htold
  · rw [hret] at hawait
    exact absurd hawait (awaited_nil o i)

omit [DecidableEq Obs] in
/-- A fresh notification tells what is stored. -/
theorem read_of_fresh {o : Obs} {arg : Arg T} {i : Nat} {cb : T → Body Obs σ T}
    {cbs : List (T → Body Obs σ T)} {c : List (Task Obs σ T)}
    (hc : s.control = .loop o arg i (cb :: cbs) :: c) (hfresh : Fresh s .next) :
    arg.read (s.value o) = s.value o := by
  cases arg with
  | value => rfl
  | newVal v =>
    have hv : s.upToDate = true := hfresh
    rw [State.upToDate, hc] at hv
    exact (of_decide_eq_true hv).symm

omit [DecidableEq T] in
/-- Who was there before a subscription. -/
theorem lt_of_subscribe {o o' : Obs} {cb : T → Body Obs σ T} {i : Nat}
    (hi : i < ((s.subscribe o cb).onChanged o').length)
    (hold : (o', i) ≠ (o, (s.onChanged o).length)) : i < (s.onChanged o').length := by
  by_cases ho : o' = o
  · subst ho
    have hlt : i < (s.onChanged o' ++ [cb]).length := by simpa [State.subscribe] using hi
    have hne : i ≠ (s.onChanged o').length := fun heq => hold (by rw [heq])
    rw [List.length_append, List.length_singleton] at hlt
    omega
  · simpa [State.subscribe, ho] using hi

omit [DecidableEq T] in
theorem Inv.subscribe (hinv : Inv s) (hret : s.control = []) (o : Obs) (cb : T → Body Obs σ T) :
    Inv (s.subscribe o cb) := by
  intro o' i hi
  refine Or.inl ?_
  by_cases hnew : (o', i) = (o, (s.onChanged o).length)
  · -- the new one has seen no change
    obtain ⟨rfl, rfl⟩ := Prod.mk.inj hnew
    exact Or.inr (Function.update_self _ _ _)
  · have hsince : (s.subscribe o cb).since (o', i) = s.since (o', i) :=
      Function.update_of_ne hnew _ _
    rw [Told, hsince]
    exact hinv.allTold hret o' i (lt_of_subscribe hi hnew)

omit [DecidableEq T] in
/-- All subscribers of an observable that changes are going to be called. -/
theorem Inv.change (hinv : Inv s) (o : Obs) (v : T) (arg : Arg T) {c : List (Task Obs σ T)}
    (hc : ∀ o i, Awaited c o i ↔ Awaited s.control o i) :
    Inv { s.change o v with control := .loop o arg 0 (s.onChanged o) :: c } := by
  intro o' i hi
  by_cases ho : o' = o
  · subst ho
    refine Or.inr ((awaited_loop _ _ _ _ _ _ _).mpr (Or.inl ⟨rfl, Nat.zero_le i, ?_⟩))
    rw [Nat.zero_add]
    exact hi
  · rcases hinv o' i hi with htold | hawait
    · refine Or.inl ?_
      simpa [Told, State.change, ho] using htold
    · exact Or.inr ((awaited_loop _ _ _ _ _ _ _).mpr (Or.inr ((hc o' i).mpr hawait)))

omit [DecidableEq T] in
/-- A subscriber that is called with what is stored has been told. -/
theorem Inv.call (hinv : Inv s) {o : Obs} {arg : Arg T} {i : Nat} {cb : T → Body Obs σ T}
    {cbs : List (T → Body Obs σ T)} {c : List (Task Obs σ T)}
    (hc : s.control = .loop o arg i (cb :: cbs) :: c) (b : Body Obs σ T) :
    Inv { s.hear o i (s.value o) with control := .body b :: .loop o arg (i + 1) cbs :: c } := by
  intro o' j hj
  by_cases hself : (o', j) = (o, i)
  · obtain ⟨rfl, rfl⟩ := Prod.mk.inj hself
    refine Or.inl (Or.inl ?_)
    simp [State.hear]
  · rcases hinv o' j hj with htold | hawait
    · refine Or.inl ?_
      simpa [Told, State.hear, hself] using htold
    · rw [hc] at hawait
      exact Or.inr (((awaited_called o arg i cb cbs c b o' j).mp hawait).resolve_left hself)

/-- **One step** whose notification is fresh. -/
theorem Stepped.inv (h : Stepped s a s') (hinv : Inv s) (hfresh : Fresh s a) : Inv s' := by
  cases h with
  | @subscribe o cb hret => exact hinv.subscribe hret o cb
  | moves hc =>
    intro o i hi
    rcases hinv o i hi with htold | hawait
    · exact Or.inl htold
    · exact Or.inr ((hc o i).mpr hawait)
  | @changes _ o v arg c hc => exact hinv.change o v arg hc
  | notifies hc =>
    rw [read_of_fresh hc hfresh]
    exact hinv.call hc _

/-! ### Notifications that are not -/

/-- Who is to be called has seen a change since it came. -/
structure Dated (s : State Obs σ T) : Prop where
  since_le : ∀ o i, i < (s.onChanged o).length → s.since (o, i) ≤ s.changes o
  awaited : ∀ o i, Awaited s.control o i →
    i < (s.onChanged o).length ∧ s.since (o, i) < s.changes o

/-- The `i`-th subscriber of `o` was told something else than what is stored, and will not be
    called. -/
structure Lost (s : State Obs σ T) (o : Obs) (i : Nat) : Prop where
  registered : i < (s.onChanged o).length
  heard : (s.heard (o, i)).getLast? ≠ some (s.value o)
  since : s.since (o, i) < s.changes o
  awaited : ¬ Awaited s.control o i

omit [DecidableEq T] in
theorem changes_le_change (s : State Obs σ T) (o : Obs) (v : T) (o' : Obs) :
    s.changes o' ≤ (s.change o v).changes o' := by
  by_cases ho : o' = o
  · subst ho
    simp [State.change]
  · simp [State.change, ho]

omit [DecidableEq T] in
theorem length_le_subscribe (s : State Obs σ T) (o : Obs) (cb : T → Body Obs σ T) (o' : Obs) :
    (s.onChanged o').length ≤ ((s.subscribe o cb).onChanged o').length := by
  by_cases ho : o' = o
  · subst ho
    simp [State.subscribe]
  · simp [State.subscribe, ho]

omit [DecidableEq T] in
theorem Stepped.dated (h : Stepped s a s') (hs : Dated s) : Dated s' := by
  cases h with
  | @subscribe o cb hret =>
    refine ⟨?_, fun o' i hi => absurd hi (by rw [State.subscribe, hret]; exact awaited_nil o' i)⟩
    intro o' i hi
    show Function.update s.since _ _ (o', i) ≤ s.changes o'
    by_cases hnew : (o', i) = (o, (s.onChanged o).length)
    · obtain ⟨rfl, rfl⟩ := Prod.mk.inj hnew
      exact Nat.le_of_eq (Function.update_self _ _ _)
    · rw [Function.update_of_ne hnew]
      exact hs.since_le o' i (lt_of_subscribe hi hnew)
  | moves hc => exact ⟨hs.since_le, fun o i hi => hs.awaited o i ((hc o i).mp hi)⟩
  | @changes _ o v arg c hc =>
    have hmono : ∀ o', s.changes o' ≤ (s.change o v).changes o' := changes_le_change s o v
    refine ⟨fun o' i hi => Nat.le_trans (hs.since_le o' i hi) (hmono o'), ?_⟩
    intro o' i hi
    rcases (awaited_loop _ _ _ _ _ _ _).mp hi with ⟨rfl, _, hlt⟩ | hrest
    · rw [Nat.zero_add] at hlt
      refine ⟨hlt, Nat.lt_of_le_of_lt (hs.since_le o i hlt) ?_⟩
      simp [State.change]
    · obtain ⟨hlt, hsince⟩ := hs.awaited o' i ((hc o' i).mp hrest)
      exact ⟨hlt, Nat.lt_of_lt_of_le hsince (hmono o')⟩
  | @notifies o arg i cb cbs c hc =>
    refine ⟨hs.since_le, fun o' j hj => hs.awaited o' j ?_⟩
    rw [hc]
    exact (awaited_called o arg i cb cbs c _ o' j).mpr (Or.inr hj)

omit [DecidableEq T] in
theorem Stepped.changes_le (h : Stepped s a s') (o : Obs) : s.changes o ≤ s'.changes o := by
  cases h with
  | subscribe _ => exact Nat.le_refl _
  | moves _ => exact Nat.le_refl _
  | @changes _ o' v _ _ _ => exact changes_le_change s o' v o
  | notifies _ => exact Nat.le_refl _

omit [DecidableEq T] in
/-- Only a change of the observable helps. -/
theorem Stepped.lost {o : Obs} {i : Nat} (h : Stepped s a s') (hlost : Lost s o i)
    (hsame : s'.changes o = s.changes o) : Lost s' o i := by
  cases h with
  | @subscribe o' cb hret =>
    have hne : (o, i) ≠ (o', (s.onChanged o').length) := by
      intro heq
      obtain ⟨rfl, rfl⟩ := Prod.mk.inj heq
      exact absurd hlost.registered (Nat.lt_irrefl _)
    refine ⟨?_, hlost.heard, ?_, hlost.awaited⟩
    · exact Nat.lt_of_lt_of_le hlost.registered (length_le_subscribe s o' cb o)
    · show Function.update s.since _ _ (o, i) < s.changes o
      rw [Function.update_of_ne hne]
      exact hlost.since
  | moves hc =>
    exact ⟨hlost.registered, hlost.heard, hlost.since, fun hi => hlost.awaited ((hc o i).mp hi)⟩
  | @changes _ o' v arg c hc =>
    -- it is another observable that changes
    have hne : o ≠ o' := by
      rintro rfl
      simp [State.change] at hsame
    refine ⟨hlost.registered, ?_, ?_, ?_⟩
    · simpa [State.change, hne] using hlost.heard
    · simpa [State.change, hne] using hlost.since
    · rw [awaited_loop]
      rintro (⟨ho, _⟩ | hrest)
      · exact hne ho.symm
      · exact hlost.awaited ((hc o i).mp hrest)
  | @notifies o' arg j cb cbs c hc =>
    have hnot := hlost.awaited
    rw [hc, awaited_called o' arg j cb cbs c (cb (arg.read (s.value o'))), not_or] at hnot
    obtain ⟨hne, hrest⟩ := hnot
    refine ⟨hlost.registered, ?_, hlost.since, hrest⟩
    simpa [State.hear, hne] using hlost.heard

/-! ### Every run -/

theorem runs_inv {value : Obs → T} {rest : σ} {as : List (Act Obs σ T)}
    (h : Runs (step inc) Fresh (initial value rest) as s) : Inv s :=
  h.invariant Inv (fun _ _ _ hinv hfresh hstep => (step_stepped hstep).inv hinv hfresh)
    fun _ _ hi => absurd hi (Nat.not_lt_zero _)

theorem runs_dated {value : Obs → T} {rest : σ} {ok : State Obs σ T → Act Obs σ T → Prop}
    {as : List (Act Obs σ T)} (h : Runs (step inc) ok (initial value rest) as s) : Dated s :=
  h.invariant Dated (fun _ _ _ hs _ hstep => (step_stepped hstep).dated hs)
    ⟨fun _ _ _ => Nat.le_refl _, fun _ _ hi => absurd hi (awaited_nil _ _)⟩

/-- A lost subscriber stays lost until the observable changes. -/
theorem runs_lost {o : Obs} {i : Nat} {as : List (Act Obs σ T)}
    (h : Runs (step inc) anyAction s as s') (hlost : Lost s o i) :
    s.changes o ≤ s'.changes o ∧ (s'.changes o = s.changes o → Lost s' o i) := by
  induction h with
  | nil => exact ⟨Nat.le_refl _, fun _ => hlost⟩
  | snoc _ _ hstep ih =>
    have hstepped := step_stepped hstep
    have hle := hstepped.changes_le o
    refine ⟨Nat.le_trans ih.1 hle, fun hsame => ?_⟩
    exact hstepped.lost (ih.2 (by omega)) (by omega)

/-- The next step tells the `i`-th subscriber of `o` what is no longer stored, and no other loop
    is about to call it. -/
def Stale (s : State Obs σ T) (o : Obs) (i : Nat) : Prop :=
  ∃ v cb cbs c, s.control = .loop o (.newVal v) i (cb :: cbs) :: c ∧ s.value o ≠ v ∧
    ¬ Awaited c o i

/-- A stale notification loses its subscriber. -/
theorem lost_of_stale {o : Obs} {i : Nat} (hs : Dated s) (hstale : Stale s o i)
    (h : step inc s .next = some s') : Lost s' o i := by
  obtain ⟨v, cb, cbs, c, hc, hv, hnot⟩ := hstale
  have hawait : Awaited s.control o i := by
    rw [hc]
    exact (awaited_called o (.newVal v) i cb cbs c (cb v) o i).mpr (Or.inl rfl)
  obtain ⟨hlt, hsince⟩ := hs.awaited o i hawait
  have hnext : some { s.hear o i v with control := .body (cb v) :: .loop o (.newVal v) (i + 1) cbs :: c }
      = some s' := by
    rw [← h, step, next, hc]
    rfl
  obtain rfl := Option.some.inj hnext
  refine ⟨hlt, ?_, hsince, ?_⟩
  · simpa [State.hear] using Ne.symm hv
  · rw [awaited_body, awaited_loop]
    rintro (⟨_, hle, _⟩ | hrest)
    · exact absurd hle (Nat.not_succ_le_self i)
    · exact hnot hrest

/-- **Subscribers have been told what is stored** when an operation returns, in every run in
    which each notification by `operator=` finds its parameter still stored; and in any run a
    notification that does not leaves its subscriber with another value, until the observable
    changes again or an outer loop calls the subscriber. -/
theorem observers_told (inc : T → T) (value : Obs → T) (rest : σ) :
    (∀ as s, Runs (step inc) Fresh (initial value rest) as s → s.control = [] → AllTold s) ∧
      ∀ as s, Runs (step inc) anyAction (initial value rest) as s → ∀ o i, Stale s o i →
        ∀ s₁, step inc s .next = some s₁ → ∀ as' s₂, Runs (step inc) anyAction s₁ as' s₂ →
          s₂.changes o = s₁.changes o → ¬ Told s₂ o i := by
  constructor
  · exact fun as s h hret => (runs_inv h).allTold hret
  · intro as s h o i hstale s₁ hstep as' s₂ hruns hsame
    have hlost := (runs_lost hruns (lost_of_stale (runs_dated h) hstale hstep)).2 hsame
    rintro (htold | hsince)
    · exact hlost.heard htold
    · exact absurd hsince (Nat.ne_of_lt hlost.since)

/-! ### Subscribers that do not lead back

A relay assigns to the pin that drives it, and the pin to its own state (`relay.cxx`,
`output_pin.cxx`): what a subscriber works on is always further down. -/

/-- The subscriber operates on observables of a rank below `n` only. -/
def Body.Below (rank : Obs → Nat) (n : Nat) : Body Obs σ T → Prop
  | .done       => True
  | .other _ k  => ∀ r, (k r).Below rank n
  | .read _ k   => ∀ v, (k v).Below rank n
  | .call o _ k => rank o < n ∧ ∀ v, (k v).Below rank n

/-- The subscriber operates only on observables below the one that notifies it. -/
def Descends (rank : Obs → Nat) (o : Obs) (cb : T → Body Obs σ T) : Prop :=
  ∀ v, (cb v).Below rank (rank o)

/-- Only such subscribers come. -/
def Layered (rank : Obs → Nat) (_ : State Obs σ T) : Act Obs σ T → Prop
  | .subscribe o cb => Descends rank o cb
  | _               => True

/-- The task works below the observable of a loop that waits for it. -/
def Task.Under (rank : Obs → Nat) : Task Obs σ T → Task Obs σ T → Prop
  | .body b, .loop o _ _ _       => b.Below rank (rank o)
  | .loop o' _ _ _, .loop o _ _ _ => rank o' < rank o
  | _, .body _                   => True

/-- A loop tells what is stored, to subscribers that descend. -/
def Task.Ready (rank : Obs → Nat) (value : Obs → T) : Task Obs σ T → Prop
  | .body _           => True
  | .loop o arg _ cbs => arg.read (value o) = value o ∧ ∀ cb ∈ cbs, Descends rank o cb

/-- No operation under way can change what a loop is telling. -/
structure Descending (rank : Obs → Nat) (s : State Obs σ T) : Prop where
  subscribers : ∀ o, ∀ cb ∈ s.onChanged o, Descends rank o cb
  under : s.control.Pairwise (Task.Under rank)
  ready : ∀ t ∈ s.control, t.Ready rank s.value

omit [DecidableEq Obs] [DecidableEq T] in
theorem Body.Below.mono {rank : Obs → Nat} {n m : Nat} (hle : n ≤ m) {b : Body Obs σ T}
    (h : b.Below rank n) : b.Below rank m := by
  induction b with
  | done => trivial
  | other f k ih => exact fun r => ih r (h r)
  | read o k ih => exact fun v => ih v (h v)
  | call o op k ih => exact ⟨Nat.lt_of_lt_of_le h.1 hle, fun v => ih v (h.2 v)⟩

omit [DecidableEq Obs] [DecidableEq T] in
/-- A subscriber goes on to a part of what it was going to do. -/
theorem Descending.body {rank : Obs → Nat} (h : Descending rank s) {b b' : Body Obs σ T}
    {c : List (Task Obs σ T)} (hc : s.control = .body b :: c)
    (hsub : ∀ n, b.Below rank n → b'.Below rank n) (rest : σ) :
    Descending rank { s with rest := rest, control := .body b' :: c } := by
  obtain ⟨hsubs, hunder, hready⟩ := h
  rw [hc] at hunder hready
  obtain ⟨habove, htail⟩ := List.pairwise_cons.mp hunder
  refine ⟨hsubs, List.pairwise_cons.mpr ⟨?_, htail⟩, ?_⟩
  · intro t ht
    cases t with
    | body _ => trivial
    | loop o _ _ _ => exact hsub _ (habove _ ht)
  · intro t ht
    rcases List.mem_cons.mp ht with rfl | hmem
    · trivial
    · exact hready t (List.mem_cons_of_mem _ hmem)

omit [DecidableEq Obs] [DecidableEq T] in
/-- The task on top is finished. -/
theorem Descending.pop {rank : Obs → Nat} (h : Descending rank s) {t : Task Obs σ T}
    {c : List (Task Obs σ T)} (hc : s.control = t :: c) :
    Descending rank { s with control := c } := by
  obtain ⟨hsubs, hunder, hready⟩ := h
  rw [hc] at hunder hready
  exact ⟨hsubs, (List.pairwise_cons.mp hunder).2, fun t ht => hready t (List.mem_cons_of_mem _ ht)⟩

/-- An operation whose observable is below all loops that wait. -/
theorem Descending.enter {rank : Obs → Nat} {o : Obs} (inc : T → T) (op : Op T)
    {k : T → List (Task Obs σ T)} (h : ∀ r, Descending rank { s with control := k r })
    (hbelow : ∀ r o' arg i cbs, Task.loop o' arg i cbs ∈ k r → rank o < rank o') :
    Descending rank (enter inc s o op k) := by
  have hchange : ∀ r v (arg : Arg T), arg.read v = v → Descending rank
      { s.change o v with control := .loop o arg 0 (s.onChanged o) :: k r } := by
    intro r v arg harg
    obtain ⟨hsubs, hunder, hready⟩ := h r
    refine ⟨hsubs, List.pairwise_cons.mpr ⟨?_, hunder⟩, ?_⟩
    · intro t ht
      cases t with
      | body _ => trivial
      | loop o' arg' i cbs => exact hbelow r o' arg' i cbs ht
    · intro t ht
      rcases List.mem_cons.mp ht with rfl | hmem
      · refine ⟨?_, hsubs o⟩
        simpa [State.change] using harg
      · cases t with
        | body _ => trivial
        | loop o' arg' i cbs =>
          -- the loops that wait are further up, so what they tell is still stored
          have hne : o' ≠ o := by
            rintro rfl
            exact absurd (hbelow r o' arg' i cbs hmem) (Nat.lt_irrefl _)
          simpa [Task.Ready, State.change, hne] using hready _ hmem
  cases op with
  | assign newVal =>
    unfold Observables.enter operatorAssign
    dsimp only
    split_ifs
    · exact h newVal
    · exact hchange newVal newVal (.newVal newVal) rfl
  | increment => exact hchange _ _ .value rfl

omit [DecidableEq T] in
/-- A loop calls a subscriber, which works below the loop and below all that wait. -/
theorem Descending.call {rank : Obs → Nat} (h : Descending rank s) {o : Obs} {arg : Arg T}
    {i : Nat} {cb : T → Body Obs σ T} {cbs : List (T → Body Obs σ T)} {c : List (Task Obs σ T)}
    {v : T} (hc : s.control = .loop o arg i (cb :: cbs) :: c) :
    Descending rank
      { s.hear o i v with control := .body (cb v) :: .loop o arg (i + 1) cbs :: c } := by
  obtain ⟨hsubs, hunder, hready⟩ := h
  rw [hc] at hunder hready
  obtain ⟨habove, htail⟩ := List.pairwise_cons.mp hunder
  obtain ⟨hread, hcbs⟩ := hready _ List.mem_cons_self
  have hbody := hcbs cb List.mem_cons_self v
  refine ⟨hsubs, List.pairwise_cons.mpr ⟨?_, List.pairwise_cons.mpr ⟨?_, htail⟩⟩, ?_⟩
  · intro t ht
    cases t with
    | body _ => trivial
    | loop o' _ _ _ =>
      rcases List.mem_cons.mp ht with heq | hmem
      · cases heq
        exact hbody
      · exact hbody.mono (Nat.le_of_lt (habove _ hmem))
  · intro t ht
    have hloop := habove t ht
    cases t with
    | body _ => trivial
    | loop _ _ _ _ => exact hloop
  · intro t ht
    rcases List.mem_cons.mp ht with rfl | hmem
    · trivial
    · rcases List.mem_cons.mp hmem with rfl | hold
      · exact ⟨hread, fun cb' hcb' => hcbs cb' (List.mem_cons_of_mem _ hcb')⟩
      · exact hready t (List.mem_cons_of_mem _ hold)

/-- **One step** of subscribers that descend. -/
theorem next_descending {rank : Obs → Nat} (h : Descending rank s) (hnext : next inc s = some s') :
    Descending rank s' := by
  unfold next at hnext
  split at hnext
  · cases hnext
  · rename_i c hc
    obtain rfl := Option.some.inj hnext
    exact h.pop hc
  · rename_i f k c hc
    obtain rfl := Option.some.inj hnext
    exact h.body hc (fun n hb => hb s.rest) (f s.rest)
  · rename_i o k c hc
    obtain rfl := Option.some.inj hnext
    exact h.body hc (fun n hb => hb (s.value o)) s.rest
  · rename_i o op k c hc
    obtain rfl := Option.some.inj hnext
    refine Descending.enter inc op (fun r => h.body hc (fun n hb => hb.2 r) s.rest) ?_
    intro r o' arg i cbs hmem
    -- the subscriber descends from every loop that waits for it
    rcases List.mem_cons.mp hmem with heq | htail
    · cases heq
    · have hunder := h.under
      rw [hc] at hunder
      exact ((List.pairwise_cons.mp hunder).1 _ htail).1
  · rename_i o arg j c hc
    obtain rfl := Option.some.inj hnext
    exact h.pop hc
  · rename_i o arg i cb cbs c hc
    obtain rfl := Option.some.inj hnext
    exact h.call hc

theorem step_descending {rank : Obs → Nat} (h : Descending rank s) (hlayer : Layered rank s a)
    (hstep : step inc s a = some s') : Descending rank s' := by
  cases a with
  | subscribe o cb =>
    obtain ⟨hc, rfl⟩ := State.outermost_eq_some hstep
    refine ⟨?_, h.under, h.ready⟩
    intro o' cb' hmem
    by_cases ho : o' = o
    · subst ho
      have hmem' : cb' ∈ s.onChanged o' ++ [cb] := by simpa [State.subscribe] using hmem
      rcases List.mem_append.mp hmem' with hold | hnew
      · exact h.subscribers o' cb' hold
      · rw [List.mem_singleton.mp hnew]
        exact hlayer
    · exact h.subscribers o' cb' (by simpa [State.subscribe, ho] using hmem)
  | call o op =>
    obtain ⟨hc, rfl⟩ := State.outermost_eq_some hstep
    refine Descending.enter inc op (fun _ => ⟨h.subscribers, .nil, nofun⟩) ?_
    exact fun _ _ _ _ _ hmem => absurd hmem List.not_mem_nil
  | next => exact next_descending h hstep
  | other f =>
    obtain ⟨_, rfl⟩ := State.outermost_eq_some hstep
    exact ⟨h.subscribers, h.under, h.ready⟩

omit [DecidableEq Obs] in
/-- Every notification is fresh then. -/
theorem Descending.fresh {rank : Obs → Nat} (h : Descending rank s) (a : Act Obs σ T) :
    Fresh s a := by
  cases a with
  | next =>
    unfold Fresh State.upToDate
    dsimp only
    split
    · rename_i o v i cb cbs c hc
      have hready := h.ready (.loop o (.newVal v) i (cb :: cbs)) (by rw [hc]; exact List.mem_cons_self)
      exact decide_eq_true hready.1.symm
    · rfl
  | _ => trivial

/-- **Subscribers that do not lead back** are always told what is stored. -/
theorem told_of_layered {rank : Obs → Nat} {value : Obs → T} {rest : σ}
    {as : List (Act Obs σ T)} (h : Runs (step inc) (Layered rank) (initial value rest) as s)
    (hret : s.control = []) : AllTold s := by
  have hboth : Descending rank s ∧ Inv s := by
    refine h.invariant (fun s => Descending rank s ∧ Inv s) ?_ ?_
    · intro s a s' hs hlayer hstep
      exact ⟨step_descending hs.1 hlayer hstep,
        (step_stepped hstep).inv hs.2 (hs.1.fresh a)⟩
    · exact ⟨⟨fun _ => nofun, .nil, nofun⟩, fun _ _ hi => absurd hi (Nat.not_lt_zero _)⟩
  exact hboth.2.allTold hret

/-- A subscriber that keeps the observable at ten or below. -/
def limit (v : Nat) : Body Unit Unit Nat :=
  if 10 < v then .call () (.assign 10) fun _ => .done else .done

/-- A subscriber that does nothing. -/
def observe (_ : Nat) : Body Unit Unit Nat := .done

/-- The subscriber that limits the value comes last. -/
def limitLast : List (Act Unit Unit Nat) :=
  [.subscribe () observe, .subscribe () limit, .call () (.assign 20)] ++ List.replicate 11 .next

theorem observers_told_limit_last :
    ∃ s, Runs (step Nat.succ) Fresh (initial (fun _ => 0) ()) limitLast s ∧ s.control = [] ∧
      s.heard ((), 0) = [20, 10] ∧ AllTold s :=
  ⟨_, runs_checked_get (by decide), by rfl, by decide,
    (observers_told Nat.succ (fun _ => 0) ()).1 limitLast _ (runs_checked_get (by decide))
      (by rfl)⟩

/-- The subscriber that limits the value comes first. -/
def limitFirst : List (Act Unit Unit Nat) :=
  [.subscribe () limit, .subscribe () observe, .call () (.assign 20)] ++ List.replicate 11 .next

/-- The other one is told 10 and then 20, and 10 is stored. -/
theorem told_stale :
    ∃ s, Runs (step Nat.succ) anyAction (initial (fun _ => 0) ()) limitFirst s ∧ s.control = [] ∧
      s.value () = 10 ∧ s.heard ((), 1) = [10, 20] ∧ ¬ AllTold s := by
  refine ⟨_, runs_get (by decide), by rfl, by decide, by decide, ?_⟩
  intro htold
  exact absurd (htold () 1 (by decide)) (by unfold Told; decide)

end RtCharger.Os.Observables
