/-!
# Programs that drive a device

A program changes a state and ends with a value or an error, or, as `none`, not within its fuel. `Leaves` says that every
run that ends leaves a trace with a property, `Triple` what the state is before and after such a run.
-/

namespace Ferro

abbrev Traced (σ ε α : Type) := ExceptT ε (StateT σ Option) α

/-- Which traces lead from a state to a state. -/
structure Tracing (σ τ : Type) where
  Leads : σ → List τ → σ → Prop
  nil (s : σ) : Leads s [] s
  append {s s' s'' : σ} {l l' : List τ} : Leads s l s' → Leads s' l' s'' → Leads s (l ++ l') s''

namespace Traced

variable {σ τ ε α β : Type} {F : Tracing σ τ}

/-- The result and the state behind it. -/
def runs (x : Traced σ ε α) (s : σ) : Option (Except ε α × σ) := StateT.run (ExceptT.run x) s

/-- A step that does not fail. -/
def step (f : σ → α × σ) : Traced σ ε α := ExceptT.mk fun s => some (.ok (f s).1, (f s).2)

/-- The result as a value. -/
def attempt (x : Traced σ ε α) : Traced σ ε (Except ε α) := ExceptT.mk fun s => (x.runs s).map fun p => (.ok p.1, p.2)

/-- The end of the fuel. -/
def stuck : Traced σ ε α := ExceptT.mk fun _ => none

theorem runs_step (f : σ → α × σ) (s : σ) : (step f : Traced σ ε α).runs s = some (.ok (f s).1, (f s).2) := rfl

theorem runs_attempt (x : Traced σ ε α) (s : σ) :
    x.attempt.runs s = (x.runs s).map fun p => (.ok p.1, p.2) := rfl

theorem runs_bind (x : Traced σ ε α) (f : α → Traced σ ε β) (s : σ) : (x >>= f).runs s =
    match x.runs s with
    | some (.ok a, s') => (f a).runs s'
    | some (.error e, s') => some (.error e, s')
    | none => none := by
  change StateT.run (StateT.bind (ExceptT.run x) _) s = _
  simp only [runs, StateT.run, StateT.bind]
  cases ExceptT.run x s with
  | none => rfl
  | some p =>
      obtain ⟨r, s'⟩ := p
      cases r <;> rfl

theorem runs_bind_ok {x : Traced σ ε α} {f : α → Traced σ ε β} {s s' : σ} {b : β}
    (h : (x >>= f).runs s = some (.ok b, s')) :
    ∃ a s₁, x.runs s = some (.ok a, s₁) ∧ (f a).runs s₁ = some (.ok b, s') := by
  rw [runs_bind] at h
  split at h
  · next a s₁ hx => exact ⟨a, s₁, hx, h⟩
  · cases h
  · cases h

/-! ## Traces -/

/-- Every run of the program that ends leaves a trace with the property. -/
def Leaves (F : Tracing σ τ) (x : Traced σ ε α) (P : Except ε α → List τ → Prop) : Prop :=
  ∀ ⦃s r s'⦄, x.runs s = some (r, s') → ∃ l, F.Leads s l s' ∧ P r l

variable {x : Traced σ ε α} {P Q : Except ε α → List τ → Prop} {R : Except ε β → List τ → Prop} {f : α → Traced σ ε β}

theorem Leaves.mono (h : Leaves F x P) (hPQ : ∀ r l, P r l → Q r l) : Leaves F x Q := by
  intro s r s' hrun
  obtain ⟨l, hl, hP⟩ := h hrun
  exact ⟨l, hl, hPQ r l hP⟩

theorem Leaves.pure {a : α} (h : P (.ok a) []) : Leaves F (Pure.pure a) P := by
  intro s r s' hrun
  cases hrun
  exact ⟨[], F.nil s, h⟩

theorem Leaves.throw {e : ε} (h : P (.error e) []) : Leaves F (MonadExcept.throw e) P := by
  intro s r s' hrun
  cases hrun
  exact ⟨[], F.nil s, h⟩

theorem Leaves.stuck : Leaves F (Traced.stuck : Traced σ ε α) P := by
  intro s r s' hrun
  cases hrun

/-- A program and what follows it: an error ends both, and a value leads into the second. -/
theorem Leaves.bind (hx : Leaves F x P) (herr : ∀ e l, P (.error e) l → R (.error e) l)
    (hf : ∀ a l, P (.ok a) l → Leaves F (f a) fun r l' => R r (l ++ l')) : Leaves F (x >>= f) R := by
  intro s r s' hrun
  rw [runs_bind] at hrun
  split at hrun
  · next a s₁ hrun₁ =>
    obtain ⟨l, hl, hP⟩ := hx hrun₁
    obtain ⟨l', hl', hR⟩ := hf a l hP hrun
    exact ⟨l ++ l', F.append hl hl', hR⟩
  · next e s₁ hrun₁ =>
    cases hrun
    obtain ⟨l, hl, hP⟩ := hx hrun₁
    exact ⟨l, hl, herr e l hP⟩
  · cases hrun

/-- A program that does not fail, and what follows it. -/
theorem Leaves.seq {P : α → List τ → Prop} (hx : Leaves F x fun r l => ∃ a, r = .ok a ∧ P a l)
    (hf : ∀ a l, P a l → Leaves F (f a) fun r l' => R r (l ++ l')) : Leaves F (x >>= f) R := by
  refine hx.bind (fun e l h => ?_) fun a l h => ?_
  · obtain ⟨_, hr, -⟩ := h
    cases hr
  · obtain ⟨a', hr, hP⟩ := h
    cases hr
    exact hf a l hP

theorem Leaves.ite {c : Prop} [Decidable c] {y : Traced σ ε α} (hx : c → Leaves F x P) (hy : ¬ c → Leaves F y P) :
    Leaves F (if c then x else y) P := by
  split
  · exact hx ‹_›
  · exact hy ‹_›

/-! ## Pre- and postconditions -/

/-- Every run that ends leads from a state with the first property to a result and a state with the second. -/
def Triple (I : σ → Prop) (x : Traced σ ε α) (J : Except ε α → σ → Prop) : Prop :=
  ∀ ⦃s r s'⦄, I s → x.runs s = some (r, s') → J r s'

variable {I I' : σ → Prop} {J : Except ε α → σ → Prop} {K : Except ε β → σ → Prop}

theorem Triple.pure {a : α} (h : ∀ s, I s → J (.ok a) s) : Triple I (Pure.pure a) J := by
  intro s r s' hs hrun
  cases hrun
  exact h s hs

theorem Triple.throw {e : ε} (h : ∀ s, I s → J (.error e) s) : Triple I (MonadExcept.throw e) J := by
  intro s r s' hs hrun
  cases hrun
  exact h s hs

theorem Triple.bind (hx : Triple I x J) (herr : ∀ e s, J (.error e) s → K (.error e) s)
    (hf : ∀ a, Triple (J (.ok a)) (f a) K) : Triple I (x >>= f) K := by
  intro s r s' hs hrun
  rw [runs_bind] at hrun
  split at hrun
  · next a s₁ hrun₁ => exact hf a (hx hs hrun₁) hrun
  · next e s₁ hrun₁ =>
    cases hrun
    exact herr e s' (hx hs hrun₁)
  · cases hrun

/-- A failure goes on like a value. -/
theorem Triple.attempt (hx : Triple I x J) {f : Except ε α → Traced σ ε β} (hf : ∀ r, Triple (J r) (f r) K) :
    Triple I (x.attempt >>= f) K := by
  intro s r s' hs hrun
  rw [runs_bind, runs_attempt] at hrun
  cases hx₁ : x.runs s with
  | none => simp [hx₁] at hrun
  | some p =>
      rw [hx₁] at hrun
      exact hf p.1 (hx hs hx₁) hrun

/-- A property of the state that a program keeps whether it fails or not. -/
theorem Triple.keeps_bind (hx : Triple I x fun _ => I) (hf : ∀ a, Triple I (f a) fun _ => I) :
    Triple I (x >>= f) fun _ => I :=
  hx.bind (fun _ _ h => h) hf

theorem Triple.mono (hx : Triple I x J) (hI : ∀ s, I' s → I s) {J' : Except ε α → σ → Prop}
    (hJ : ∀ r s, J r s → J' r s) : Triple I' x J' :=
  fun s r s' hs hrun => hJ r s' (hx (hI s hs) hrun)

end Traced

end Ferro
