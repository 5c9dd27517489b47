import RtCharger.Lib.Effect

namespace Effect

/-!
# Pre- and postconditions

`Triple P c Q E`: started in a state that satisfies `P`, the computation `c` gives control back
to its caller, by a return with `Q` or by a throw with `E`.

* `triple_…`, `Triple.bind` — one rule for each construct;
* `Triple.inScope` — a body and a destructor that never throws;
* `Triple.inScope_terminated` — a destructor that throws ends the program, whichever way the
  body ends.
-/

variable {ε σ α β : Type}

/-- From every state with `P`, `c` returns with `Q` or throws with `E`. -/
def Triple (P : σ → Prop) (c : Comp ε σ α) (Q : α → σ → Prop) (E : ε → σ → Prop) : Prop :=
  ∀ s, P s → (∃ a s', c.run s = (.returned a, s') ∧ Q a s') ∨
    (∃ e s', c.run s = (.threw e, s') ∧ E e s')

variable {P P' : σ → Prop} {Q : α → σ → Prop} {Q' : β → σ → Prop} {E : ε → σ → Prop}
  {c : Comp ε σ α}

theorem triple_pure {a : α} (h : ∀ s, P s → Q a s) : Triple P (pure a : Comp ε σ α) Q E := by
  intro s hs
  exact Or.inl ⟨a, s, run_pure a s, h s hs⟩

theorem triple_raise {e : ε} (h : ∀ s, P s → E e s) : Triple P (raise e : Comp ε σ α) Q E := by
  intro s hs
  exact Or.inr ⟨e, s, run_raise e s, h s hs⟩

theorem triple_modifyState {f : σ → σ} {Q : Unit → σ → Prop} (h : ∀ s, P s → Q () (f s)) :
    Triple P (modifyState f : Comp ε σ Unit) Q E := by
  intro s hs
  exact Or.inl ⟨(), f s, run_modifyState f s, h s hs⟩

theorem triple_getState {Q : σ → σ → Prop} (h : ∀ s, P s → Q s s) :
    Triple P (getState : Comp ε σ σ) Q E := by
  intro s hs
  exact Or.inl ⟨s, s, run_getState s, h s hs⟩

/-- The precondition may say more. -/
theorem Triple.pre (h : Triple P c Q E) (hP : ∀ s, P' s → P s) : Triple P' c Q E :=
  fun s hs => h s (hP s hs)

/-- The postconditions may say less. -/
theorem Triple.post {R : α → σ → Prop} {E' : ε → σ → Prop} (h : Triple P c Q E)
    (hQ : ∀ a s, Q a s → R a s) (hE : ∀ e s, E e s → E' e s) : Triple P c R E' := by
  intro s hs
  rcases h s hs with ⟨a, s', hrun, hret⟩ | ⟨e, s', hrun, hthrow⟩
  · exact Or.inl ⟨a, s', hrun, hQ a s' hret⟩
  · exact Or.inr ⟨e, s', hrun, hE e s' hthrow⟩

/-- A part of the precondition that is not about the state is a hypothesis. -/
theorem triple_and {p : Prop} (h : p → Triple P c Q E) : Triple (fun s => p ∧ P s) c Q E :=
  fun s hs => h hs.1 s hs.2

/-- **Sequencing.** -/
theorem Triple.bind {f : α → Comp ε σ β} (h : Triple P c Q E)
    (hf : ∀ a, Triple (Q a) (f a) Q' E) : Triple P (c >>= f) Q' E := by
  intro s hs
  rcases h s hs with ⟨a, s', hrun, hQ⟩ | ⟨e, s', hrun, hE⟩
  · rw [run_bind_returned hrun]
    exact hf a s' hQ
  · rw [run_bind_threw hrun]
    exact Or.inr ⟨e, s', rfl, hE⟩

/-- A computation that does not throw. -/
def NeverThrows (P : σ → Prop) (c : Comp ε σ Unit) (P' : σ → Prop) : Prop :=
  ∀ s, P s → ∃ s', c.run s = (.returned (), s') ∧ P' s'

/-- **Destruction.**  When the destructor does not throw, the object is destroyed however the
    body ends. -/
theorem Triple.inScope {dtor : Comp ε σ Unit} {R : α → σ → Prop} {E' : ε → σ → Prop}
    (h : Triple P c Q E) (hreturned : ∀ a, NeverThrows (Q a) dtor (R a))
    (hthrew : ∀ e, NeverThrows (E e) dtor (E' e)) : Triple P (inScope dtor c) R E' := by
  intro s hs
  rcases h s hs with ⟨a, s', hrun, hQ⟩ | ⟨e, s', hrun, hE⟩
  · obtain ⟨s'', hdtor, hR⟩ := hreturned a s' hQ
    have hc : c s = (.returned a, s') := hrun
    have hd : dtor s' = (.returned (), s'') := hdtor
    refine Or.inl ⟨a, s'', ?_, hR⟩
    simp only [Comp.run, Effect.inScope, hc, hd]
  · obtain ⟨s'', hdtor, hE'⟩ := hthrew e s' hE
    have hc : c s = (.threw e, s') := hrun
    have hd : dtor s' = (.returned (), s'') := hdtor
    refine Or.inr ⟨e, s'', ?_, hE'⟩
    simp only [Comp.run, Effect.inScope, hc, hd]

/-- **Termination.**  When the destructor throws, the program ends however the body ends. -/
theorem Triple.inScope_terminated {dtor : Comp ε σ Unit} {s : σ} (h : Triple P c Q E)
    (hdtor : ∀ s', ∃ e s'', dtor.run s' = (.threw e, s'')) (hs : P s) :
    ((Effect.inScope dtor c).run s).1 = .terminated := by
  rcases h s hs with ⟨a, s', hrun, _⟩ | ⟨e, s', hrun, _⟩
  · obtain ⟨e', s'', hthrow⟩ := hdtor s'
    have hc : c s = (.returned a, s') := hrun
    have hd : dtor s' = (.threw e', s'') := hthrow
    simp only [Comp.run, Effect.inScope, hc, hd]
  · obtain ⟨e', s'', hthrow⟩ := hdtor s'
    have hc : c s = (.threw e, s') := hrun
    have hd : dtor s' = (.threw e', s'') := hthrow
    simp only [Comp.run, Effect.inScope, hc, hd]

/-- A body that hands its object over when it returns, with a destructor that never throws. -/
theorem Triple.onUnwind {dtor : Comp ε σ Unit} {E' : ε → σ → Prop} (h : Triple P c Q E)
    (hthrew : ∀ e, NeverThrows (E e) dtor (E' e)) : Triple P (onUnwind dtor c) Q E' := by
  intro s hs
  rcases h s hs with ⟨a, s', hrun, hQ⟩ | ⟨e, s', hrun, hE⟩
  · have hc : c s = (.returned a, s') := hrun
    refine Or.inl ⟨a, s', ?_, hQ⟩
    simp only [Comp.run, Effect.onUnwind, hc]
  · obtain ⟨s'', hdtor, hE'⟩ := hthrew e s' hE
    have hc : c s = (.threw e, s') := hrun
    have hd : dtor s' = (.returned (), s'') := hdtor
    refine Or.inr ⟨e, s'', ?_, hE'⟩
    simp only [Comp.run, Effect.onUnwind, hc, hd]

/-- A body that always throws, with a destructor that throws too. -/
theorem Triple.onUnwind_terminated {dtor : Comp ε σ Unit} {s : σ}
    (h : Triple P c (fun _ _ => False) E) (hdtor : ∀ s', ∃ e s'', dtor.run s' = (.threw e, s''))
    (hs : P s) : ((Effect.onUnwind dtor c).run s).1 = .terminated := by
  rcases h s hs with ⟨_, _, _, hfalse⟩ | ⟨e, s', hrun, _⟩
  · exact hfalse.elim
  · obtain ⟨e', s'', hthrow⟩ := hdtor s'
    have hc : c s = (.threw e, s') := hrun
    have hd : dtor s' = (.threw e', s'') := hthrow
    simp only [Comp.run, Effect.onUnwind, hc, hd]

end Effect
