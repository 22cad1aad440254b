import Mathlib.Data.List.Infix

/-!
# Machines that read symbol by symbol

A machine emits outputs with each symbol that it reads. Two machines agree on a stream if after every prefix of it both
have emitted the same; with that the outputs come with the same symbols, not only in the same order.
-/

namespace Ferro

/-- A machine with states `σ` that reads `β` and emits `κ`. -/
structure Transducer (σ β κ : Type) where
  step : σ → β → List κ × σ

namespace Transducer

variable {σ τ β κ : Type}

/-- What is emitted for a stream, and the state behind it. -/
def run (t : Transducer σ β κ) : σ → List β → List κ × σ
  | s, [] => ([], s)
  | s, b :: bs => ((t.step s b).1 ++ (t.run (t.step s b).2 bs).1, (t.run (t.step s b).2 bs).2)

variable {t : Transducer σ β κ} {u : Transducer τ β κ}

@[simp] theorem run_nil (s : σ) : t.run s [] = ([], s) := rfl

theorem run_cons (s : σ) (b : β) (bs : List β) :
    t.run s (b :: bs) = ((t.step s b).1 ++ (t.run (t.step s b).2 bs).1, (t.run (t.step s b).2 bs).2) := rfl

/-- What every step keeps, a run keeps; and what every step emits in such states, a run emits. -/
theorem run_induct {I : σ → Prop} {P : κ → Prop} (hI : ∀ s b, I s → I (t.step s b).2)
    (hP : ∀ s b, I s → ∀ k ∈ (t.step s b).1, P k) {s : σ} (h : I s) (bs : List β) :
    I (t.run s bs).2 ∧ ∀ k ∈ (t.run s bs).1, P k := by
  induction bs generalizing s with
  | nil => simp [h]
  | cons b bs ih =>
      obtain ⟨hrest, hout⟩ := ih (hI s b h)
      refine ⟨hrest, fun k hk => ?_⟩
      rcases List.mem_append.mp hk with hk | hk
      · exact hP s b h k hk
      · exact hout k hk

/-- After every prefix of the stream both have emitted the same. -/
def Agree (t : Transducer σ β κ) (u : Transducer τ β κ) (s : σ) (s' : τ) (bs : List β) : Prop :=
  ∀ p, p <+: bs → (t.run s p).1 = (u.run s' p).1

theorem agree_nil (s : σ) (s' : τ) : Agree t u s s' [] := by
  intro p hp
  simp [List.prefix_nil.mp hp]

theorem agree_cons {s : σ} {s' : τ} {b : β} {bs : List β} :
    Agree t u s s' (b :: bs) ↔
      (t.step s b).1 = (u.step s' b).1 ∧ Agree t u (t.step s b).2 (u.step s' b).2 bs := by
  constructor
  · intro h
    have hstep : (t.step s b).1 = (u.step s' b).1 := by simpa [run_cons] using h [b] (by simp)
    refine ⟨hstep, fun p hp => ?_⟩
    have hp := h (b :: p) (List.cons_prefix_cons.mpr ⟨rfl, hp⟩)
    simpa [run_cons, hstep] using hp
  · rintro ⟨hstep, h⟩ p hp
    cases p with
    | nil => rfl
    | cons c p =>
        obtain ⟨rfl, hp'⟩ := List.cons_prefix_cons.mp hp
        simp [run_cons, hstep, h p hp']

/-- Each symbol of the stream meets `P`, with the state before it and the rest behind it. -/
def Along (t : Transducer σ β κ) (P : σ → β → List β → Prop) (s : σ) (bs : List β) : Prop :=
  ∀ p b rest, bs = p ++ b :: rest → P (t.run s p).2 b rest

theorem along_nil {P : σ → β → List β → Prop} (s : σ) : t.Along P s [] := by
  intro p b rest h
  simp at h

theorem along_cons {P : σ → β → List β → Prop} {s : σ} {b : β} {bs : List β} :
    t.Along P s (b :: bs) ↔ P s b bs ∧ t.Along P (t.step s b).2 bs := by
  constructor
  · intro h
    refine ⟨h [] b bs rfl, fun p c rest he => ?_⟩
    simpa [run_cons] using h (b :: p) c rest (by rw [he]; rfl)
  · rintro ⟨hb, h⟩ p c rest he
    cases p with
    | nil => cases he; exact hb
    | cons d p =>
        obtain ⟨rfl, rfl⟩ := List.cons.inj he
        simpa [run_cons] using h p c rest rfl

/-! ## Machines that leave outputs out

`t` goes through the states of `u` and emits at each symbol a part of what `u` emits. -/

section Part

variable {u : Transducer σ β κ} (hstate : ∀ s b, (t.step s b).2 = (u.step s b).2)
  (hsub : ∀ s b, (t.step s b).1.Sublist (u.step s b).1)

include hstate hsub

theorem run_sublist (s : σ) (bs : List β) : (t.run s bs).1.Sublist (u.run s bs).1 := by
  induction bs generalizing s with
  | nil => exact List.Sublist.refl _
  | cons b bs ih =>
      rw [run_cons, run_cons, hstate]
      exact (hsub s b).append (ih _)

/-- Nothing is missing in all iff nothing is missing at any symbol. -/
theorem run_eq_iff_along {s : σ} {bs : List β} :
    (t.run s bs).1 = (u.run s bs).1 ↔ u.Along (fun s b _ => (t.step s b).1 = (u.step s b).1) s bs := by
  induction bs generalizing s with
  | nil => simp [along_nil]
  | cons b bs ih =>
      rw [along_cons, ← ih, run_cons, run_cons, hstate]
      constructor
      · intro h
        have hlen := congrArg List.length h
        have hb := (hsub s b).length_le
        have hbs := (run_sublist hstate hsub (u.step s b).2 bs).length_le
        simp only [List.length_append] at hlen
        exact ⟨(hsub s b).eq_of_length (by omega), (run_sublist hstate hsub _ bs).eq_of_length (by omega)⟩
      · rintro ⟨hb, hbs⟩
        rw [hb, hbs]

end Part

end Transducer

end Ferro
