import Ferro.Base.Traced

/-!
# Programs under a monitor

A monitor follows the operations in the trace of a program and gives up at one that is not allowed. The rules carry where
it is through a program.
-/

namespace Ferro

/-- The state moves on with each operation of the trace, or not at all with one that is not allowed. -/
structure Monitor (σ τ β : Type) where
  step : σ → τ → Option σ
  start : σ
  trace : β → List τ

namespace Monitor

variable {σ τ β ε α γ : Type} (M : Monitor σ τ β)

def run (l : List τ) : Option σ := l.foldlM M.step M.start

/-- Every operation so far was allowed, and the property holds now. -/
def Watched (P : σ → β → Prop) (b : β) : Prop := ∃ s, M.run (M.trace b) = some s ∧ P s b

def After (Q : α → σ → β → Prop) (E : σ → β → Prop) : Except ε α → β → Prop
  | .ok a => M.Watched (Q a)
  | .error _ => M.Watched E

/-- From one property a run of the program that ends leads to another, or to the last one with an error. -/
def Guards (P : σ → β → Prop) (x : Traced β ε α) (Q : α → σ → β → Prop) (E : σ → β → Prop) : Prop :=
  Traced.Triple (M.Watched P) x (M.After Q E)

variable {M} {P P' E : σ → β → Prop} {Q : α → σ → β → Prop} {R : γ → σ → β → Prop} {x y : Traced β ε α}

theorem run_concat {l : List τ} {s : σ} (t : τ) (h : M.run l = some s) : M.run (l ++ [t]) = M.step s t := by
  rw [run] at h
  rw [run, List.foldlM_append, h]
  exact bind_pure (M.step s t)

theorem Guards.pure {a : α} (h : ∀ s b, P s b → Q a s b) : M.Guards P (Pure.pure a : Traced β ε α) Q E :=
  Traced.Triple.pure fun b hb => by
    obtain ⟨s, hrun, hs⟩ := hb
    exact ⟨s, hrun, h s b hs⟩

theorem Guards.throw {e : ε} (h : ∀ s b, P s b → E s b) : M.Guards P (MonadExcept.throw e : Traced β ε α) Q E :=
  Traced.Triple.throw fun b hb => by
    obtain ⟨s, hrun, hs⟩ := hb
    exact ⟨s, hrun, h s b hs⟩

theorem Guards.stuck : M.Guards P (Traced.stuck : Traced β ε α) Q E := by
  intro b r b' _ hrun
  cases hrun

/-- Not reached. -/
theorem Guards.of_not (h : ∀ s b, ¬ P s b) : M.Guards P x Q E := by
  rintro b r b' ⟨s, -, hs⟩
  exact absurd hs (h s b)

theorem Guards.of_exists {ι : Sort _} {P : ι → σ → β → Prop} (h : ∀ i, M.Guards (P i) x Q E) :
    M.Guards (fun s b => ∃ i, P i s b) x Q E := by
  rintro b r b' ⟨s, hrun, i, hs⟩
  exact h i ⟨s, hrun, hs⟩

theorem Guards.bind {f : α → Traced β ε γ} (hx : M.Guards P x Q E) (hf : ∀ a, M.Guards (Q a) (f a) R E) :
    M.Guards P (x >>= f) R E :=
  Traced.Triple.bind hx (fun _ _ h => h) hf

theorem Guards.ite {c : Prop} [Decidable c] (hx : c → M.Guards P x Q E) (hy : ¬ c → M.Guards P y Q E) :
    M.Guards P (if c then x else y) Q E := by
  split
  · exact hx ‹_›
  · exact hy ‹_›

theorem Guards.mono {Q' : α → σ → β → Prop} {E' : σ → β → Prop} (hx : M.Guards P x Q E) (hP : ∀ s b, P' s b → P s b)
    (hQ : ∀ a s b, Q a s b → Q' a s b) (hE : ∀ s b, E s b → E' s b) : M.Guards P' x Q' E' := by
  refine Traced.Triple.mono hx (fun b hb => ?_) fun r b hb => ?_
  · obtain ⟨s, hrun, hs⟩ := hb
    exact ⟨s, hrun, hP s b hs⟩
  · cases r with
    | ok a =>
        obtain ⟨s, hrun, hs⟩ := hb
        exact ⟨s, hrun, hQ a s b hs⟩
    | error e =>
        obtain ⟨s, hrun, hs⟩ := hb
        exact ⟨s, hrun, hE s b hs⟩

/-- One operation. -/
theorem Guards.step {g : β → α × β} (op : β → τ) (htrace : ∀ b, M.trace (g b).2 = M.trace b ++ [op b])
    (h : ∀ s b, P s b → ∃ s', M.step s (op b) = some s' ∧ Q (g b).1 s' (g b).2) :
    M.Guards P (Traced.step g : Traced β ε α) Q E := by
  rintro b r b' ⟨s, hrun, hs⟩ hstep
  rw [Traced.runs_step] at hstep
  cases hstep
  obtain ⟨s', hs', hQ⟩ := h s b hs
  exact ⟨s', by rw [htrace, run_concat _ hrun, hs'], hQ⟩

end Monitor

end Ferro
