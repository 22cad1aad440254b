import Ferro.Base.Chain
import Mathlib.Data.Finset.Card
import Mathlib.Data.List.Chain

/-!
# Walks along links

A loop that looks at one cell after another. At each cell it returns, or it goes on to the cell that the link leads
to; a link can also end the walk. Links are arbitrary: they can lead anywhere and come back.
-/

namespace Ferro

open Relation

/-- A loop over linked cells with a state `σ` and a result `ρ`. -/
structure Walk (α σ ρ : Type) where
  visit : α → σ → ρ ⊕ σ
  next : α → Option α
  finish : α → σ → ρ

/-- From `a` on, the links lead only to cells that meet `P`, and never back. -/
def Straight {α : Type} (link : α → Option α) (P : α → Prop) (a : α) : Prop :=
  ∀ c, ReflTransGen (fun x y => link x = some y) a c → P c ∧ ¬ TransGen (fun x y => link x = some y) c c

theorem Chain.straight {α : Type} {link : α → Option α} {P : α → Prop} {a : α} {l : List α} (h : Chain link a l)
    (hP : ∀ c ∈ l, P c) : Straight link P a := by
  intro c hc
  have hmem := h.mem_of_reach hc
  exact ⟨hP c hmem, h.not_transGen hmem⟩

/-- The cell that `i` links lead to. -/
def follow {α : Type} (next : α → Option α) : Nat → α → Option α
  | 0, a => some a
  | i + 1, a => (next a).bind (follow next i)

namespace Walk

variable {α σ ρ : Type} (w : Walk α σ ρ)

/-- The cells that at most `fuel` iterations visit, and the result, if the walk returns in them. -/
def run : (fuel : Nat) → α → σ → List α × Option ρ
  | 0, _, _ => ([], none)
  | fuel + 1, a, st =>
    match w.visit a st with
    | .inl r => ([a], some r)
    | .inr st =>
      match w.next a with
      | none => ([a], some (w.finish a st))
      | some b => (a :: (run fuel b st).1, (run fuel b st).2)

variable {w}

/-- One iteration: the walk returns at the cell, ends with it, or goes on. -/
theorem run_cases (fuel : Nat) (a : α) (st : σ) :
    (∃ r, w.visit a st = .inl r ∧ w.run (fuel + 1) a st = ([a], some r)) ∨
      (∃ st', w.visit a st = .inr st' ∧ w.next a = none ∧ w.run (fuel + 1) a st = ([a], some (w.finish a st'))) ∨
      ∃ st' b, w.visit a st = .inr st' ∧ w.next a = some b ∧
        w.run (fuel + 1) a st = (a :: (w.run fuel b st').1, (w.run fuel b st').2) := by
  rw [run]
  cases hv : w.visit a st with
  | inl r => exact .inl ⟨r, rfl, rfl⟩
  | inr st' =>
      cases hn : w.next a with
      | none => exact .inr (.inl ⟨st', rfl, rfl, rfl⟩)
      | some b => exact .inr (.inr ⟨st', b, rfl, rfl, rfl⟩)

/-- A function with fuel that does in each call what an iteration of the walk does computes its result. -/
theorem eq_getD_run {f : Nat → α → σ → ρ} {stuck : ρ} (h0 : ∀ a st, f 0 a st = stuck)
    (hs : ∀ fuel a st, f (fuel + 1) a st = match w.visit a st with
      | .inl r => r
      | .inr st' => match w.next a with
        | none => w.finish a st'
        | some b => f fuel b st')
    (fuel : Nat) (a : α) (st : σ) : f fuel a st = (w.run fuel a st).2.getD stuck := by
  induction fuel generalizing a st with
  | zero => exact h0 a st
  | succ fuel ih =>
      rw [hs]
      rcases w.run_cases fuel a st with ⟨r, hv, hr⟩ | ⟨st', hv, hn, hr⟩ | ⟨st', b, hv, hn, hr⟩
      · rw [hr, hv]; rfl
      · rw [hr, hv, hn]; rfl
      · rw [hr, hv, hn]; exact ih b st'

/-- What every return meets, the result meets. -/
theorem run_eq_some {Q : ρ → Prop} (hl : ∀ a st r, w.visit a st = .inl r → Q r) (hend : ∀ a st, Q (w.finish a st))
    {fuel : Nat} {a : α} {st : σ} {r : ρ} (h : (w.run fuel a st).2 = some r) : Q r := by
  induction fuel generalizing a st with
  | zero => cases h
  | succ fuel ih =>
      rcases w.run_cases fuel a st with ⟨r', hv, hr⟩ | ⟨st', hv, hn, hr⟩ | ⟨st', b, hv, hn, hr⟩
      · rw [hr] at h; cases h; exact hl _ _ _ hv
      · rw [hr] at h; cases h; exact hend _ _
      · rw [hr] at h; exact ih h

theorem getD_run_ne_iff {stuck : ρ} (hl : ∀ a st r, w.visit a st = .inl r → r ≠ stuck)
    (hend : ∀ a st, w.finish a st ≠ stuck) (fuel : Nat) (a : α) (st : σ) :
    (w.run fuel a st).2.getD stuck ≠ stuck ↔ (w.run fuel a st).2.isSome := by
  cases h : (w.run fuel a st).2 with
  | none => simp
  | some r => simpa using run_eq_some hl hend h

/-! ## Walks that return at certain cells

Whether the walk returns at a cell does not depend on the state. -/

section Stops

variable {stops : α → Bool}

/-- The link out of a cell, which is not taken where the walk returns. -/
def link (w : Walk α σ ρ) (stops : α → Bool) (a : α) : Option α := if stops a then none else w.next a

variable (hs : ∀ a st, (w.visit a st).isLeft = stops a)

include hs

theorem link_of_inl {a : α} {st : σ} {r : ρ} (h : w.visit a st = .inl r) : w.link stops a = none := by
  have : stops a = true := by rw [← hs a st, h]; rfl
  rw [link, if_pos this]

theorem link_of_inr {a : α} {st st' : σ} (h : w.visit a st = .inr st') : w.link stops a = w.next a := by
  have : stops a = false := by rw [← hs a st, h]; rfl
  rw [link, this]
  rfl

theorem reach_of_mem_run {fuel : Nat} {a c : α} {st : σ} (hc : c ∈ (w.run fuel a st).1) :
    ReflTransGen (fun x y => w.link stops x = some y) a c := by
  induction fuel generalizing a st with
  | zero => cases hc
  | succ fuel ih =>
      rcases w.run_cases fuel a st with ⟨r, _, hr⟩ | ⟨st', _, _, hr⟩ | ⟨st', b, hv, hn, hr⟩
      · rw [hr, List.mem_singleton] at hc
        rw [hc]
      · rw [hr, List.mem_singleton] at hc
        rw [hc]
      · rw [hr, List.mem_cons] at hc
        rcases hc with rfl | hc
        · exact .refl
        · exact .head ((link_of_inr hs hv).trans hn) (ih hc)

theorem chain_of_run {fuel : Nat} {a : α} {st : σ} (h : (w.run fuel a st).2.isSome) :
    Chain (w.link stops) a (w.run fuel a st).1 := by
  induction fuel generalizing a st with
  | zero => cases h
  | succ fuel ih =>
      rcases w.run_cases fuel a st with ⟨r, hv, hr⟩ | ⟨st', hv, hn, hr⟩ | ⟨st', b, hv, hn, hr⟩
      · rw [hr]
        exact .last (link_of_inl hs hv)
      · rw [hr]
        exact .last ((link_of_inr hs hv).trans hn)
      · rw [hr] at h ⊢
        exact .cons ((link_of_inr hs hv).trans hn) (ih h)

theorem isChain_run (fuel : Nat) (a : α) (st : σ) :
    List.IsChain (fun x y => w.link stops x = some y) (w.run fuel a st).1 ∧ ∀ c ∈ (w.run fuel a st).1.head?, c = a := by
  induction fuel generalizing a st with
  | zero => exact ⟨.nil, by rintro c ⟨⟩⟩
  | succ fuel ih =>
      rcases w.run_cases fuel a st with ⟨r, hv, hr⟩ | ⟨st', hv, hn, hr⟩ | ⟨st', b, hv, hn, hr⟩
      · rw [hr]; simp
      · rw [hr]; simp
      · rw [hr]
        refine ⟨List.isChain_cons.mpr ⟨?_, (ih b st').1⟩, by simp⟩
        intro c hc
        rw [(ih b st').2 c hc]
        exact (link_of_inr hs hv).trans hn

omit hs in
theorem length_run_of_none {fuel : Nat} {a : α} {st : σ} (h : (w.run fuel a st).2 = none) :
    (w.run fuel a st).1.length = fuel := by
  induction fuel generalizing a st with
  | zero => rfl
  | succ fuel ih =>
      rcases w.run_cases fuel a st with ⟨r, hv, hr⟩ | ⟨st', hv, hn, hr⟩ | ⟨st', b, hv, hn, hr⟩
      · rw [hr] at h; cases h
      · rw [hr] at h; cases h
      · rw [hr] at h ⊢
        rw [List.length_cons, ih h]

/-- Without a way back no cell is visited twice. -/
theorem nodup_run {P : α → Prop} {a : α} (ha : Straight (w.link stops) P a) (fuel : Nat) (st : σ) :
    (w.run fuel a st).1.Nodup := by
  have hpath : (w.run fuel a st).1.IsChain (TransGen fun x y => w.link stops x = some y) :=
    (isChain_run hs fuel a st).1.imp fun _ _ h => .single h
  refine hpath.pairwise.imp_of_mem fun {x y} hx _ hxy heq => ?_
  rw [← heq] at hxy
  exact (ha x (reach_of_mem_run hs hx)).2 hxy

/-- The walk goes to one more cell than there are targets of links, unless it comes back. -/
theorem isSome_run {P : α → Prop} {a : α} (ha : Straight (w.link stops) P a) {targets : Finset α}
    (ht : ∀ x y, w.next x = some y → y ∈ targets) {fuel : Nat} (hfuel : targets.card + 1 < fuel) (st : σ) :
    (w.run fuel a st).2.isSome := by
  classical
  by_contra hnone
  rw [Option.not_isSome_iff_eq_none] at hnone
  have hlen := length_run_of_none hnone
  have hpath := (isChain_run hs fuel a st).1
  have hnodup := nodup_run hs ha fuel st
  cases hrun : (w.run fuel a st).1 with
  | nil => rw [hrun, List.length_nil] at hlen; omega
  | cons x l =>
      rw [hrun] at hlen hpath hnodup
      have hsub : l.toFinset ⊆ targets := by
        intro y hy
        obtain ⟨i, hi, rfl⟩ := List.getElem_of_mem (List.mem_toFinset.mp hy)
        have hlink := hpath.getElem i (by rw [List.length_cons]; omega)
        rw [List.getElem_cons_succ, link] at hlink
        split at hlink
        · cases hlink
        · exact ht _ _ hlink
      have hcard := Finset.card_le_card hsub
      rw [List.toFinset_card_of_nodup (List.nodup_cons.mp hnodup).2] at hcard
      rw [List.length_cons] at hlen
      omega

/-- The walk returns, having visited only cells that meet `P`, exactly when the links out of its start are straight. -/
theorem returns_iff {targets : Finset α} (ht : ∀ x y, w.next x = some y → y ∈ targets) {fuel : Nat}
    (hfuel : targets.card + 1 < fuel) {P : α → Prop} (a : α) (st : σ) :
    ((w.run fuel a st).2.isSome ∧ ∀ c ∈ (w.run fuel a st).1, P c) ↔ Straight (w.link stops) P a := by
  constructor
  · rintro ⟨hr, hP⟩
    exact (chain_of_run hs hr).straight hP
  · intro h
    exact ⟨isSome_run hs h ht hfuel st, fun c hc => (h c (reach_of_mem_run hs hc)).1⟩

omit hs in
theorem eq_of_reach {a c : α} (h : w.link stops a = none)
    (hc : ReflTransGen (fun x y => w.link stops x = some y) a c) : c = a := by
  rcases hc.cases_head with rfl | ⟨b, hb, _⟩
  · rfl
  · rw [h] at hb; cases hb

/-- A walk that returns does so at the reachable cell that stops it. -/
theorem run_of_stop {fuel : Nat} {a c : α} {st : σ} {r : ρ} (h : (w.run fuel a st).2.isSome)
    (hc : ReflTransGen (fun x y => w.link stops x = some y) a c) (hr : ∀ st, w.visit c st = .inl r) :
    (w.run fuel a st).2 = some r := by
  induction fuel generalizing a st with
  | zero => cases h
  | succ fuel ih =>
      rcases w.run_cases fuel a st with ⟨r', hv, he⟩ | ⟨st', hv, hn, he⟩ | ⟨st', b, hv, hn, he⟩
      · cases eq_of_reach (link_of_inl hs hv) hc
        rw [hr st] at hv
        cases hv
        rw [he]
      · cases eq_of_reach ((link_of_inr hs hv).trans hn) hc
        rw [hr st] at hv
        cases hv
      · rw [he] at h ⊢
        refine ih h ?_
        rcases hc.cases_head with rfl | ⟨b', hb', hc⟩
        · rw [hr st] at hv
          cases hv
        · rw [(link_of_inr hs hv).trans hn] at hb'
          cases hb'
          exact hc

/-- A result comes from a reachable cell. -/
theorem exists_of_run {fuel : Nat} {a : α} {st : σ} {r : ρ} (h : (w.run fuel a st).2 = some r) :
    ∃ c st', ReflTransGen (fun x y => w.link stops x = some y) a c ∧
      (w.visit c st' = .inl r ∨ w.finish c st' = r) := by
  induction fuel generalizing a st with
  | zero => cases h
  | succ fuel ih =>
      rcases w.run_cases fuel a st with ⟨r', hv, he⟩ | ⟨st', hv, hn, he⟩ | ⟨st', b, hv, hn, he⟩
      · rw [he] at h; cases h; exact ⟨a, st, .refl, .inl hv⟩
      · rw [he] at h; cases h; exact ⟨a, st', .refl, .inr rfl⟩
      · rw [he] at h
        obtain ⟨c, st'', hc, hcr⟩ := ih h
        exact ⟨c, st'', .head ((link_of_inr hs hv).trans hn) hc, hcr⟩

end Stops

/-! ## Walks with a budget

Every visit adds `k` to the size of the state, and the walk returns when the size reaches `budget`. -/

section Budget

variable (size : σ → Nat) {k budget : Nat}

theorem mem_run_budget (hk : 0 < k) (hl : ∀ a st r, w.visit a st = .inl r → budget ≤ size st + k)
    (hr : ∀ a st st', w.visit a st = .inr st' → size st' = size st + k ∧ size st' < budget) (fuel : Nat) (a : α) (st : σ)
    (hst : size st < budget) (hfuel : budget ≤ size st + fuel) :
    (w.run fuel a st).2.isSome ∧
      ∀ c, c ∈ (w.run fuel a st).1 ↔ ∃ i, size st + i * k < budget ∧ follow w.next i a = some c := by
  induction fuel generalizing a st with
  | zero => omega
  | succ fuel ih =>
      rcases w.run_cases fuel a st with ⟨r, hv, he⟩ | ⟨st', hv, hn, he⟩ | ⟨st', b, hv, hn, he⟩
      · have hle := hl a st r hv
        rw [he]
        refine ⟨rfl, fun c => ?_⟩
        rw [List.mem_singleton]
        constructor
        · rintro rfl
          exact ⟨0, by omega, rfl⟩
        · rintro ⟨i, hi, hc⟩
          cases i with
          | zero => cases hc; rfl
          | succ i => rw [Nat.succ_mul] at hi; omega
      · rw [he]
        refine ⟨rfl, fun c => ?_⟩
        rw [List.mem_singleton]
        constructor
        · rintro rfl
          exact ⟨0, by omega, rfl⟩
        · rintro ⟨i, hi, hc⟩
          cases i with
          | zero => cases hc; rfl
          | succ i => rw [follow, hn] at hc; cases hc
      · obtain ⟨hsize, hlt⟩ := hr a st st' hv
        obtain ⟨hret, hmem⟩ := ih b st' hlt (by omega)
        rw [he]
        refine ⟨hret, fun c => ?_⟩
        rw [List.mem_cons, hmem c]
        constructor
        · rintro (rfl | ⟨i, hi, hc⟩)
          · exact ⟨0, by omega, rfl⟩
          · refine ⟨i + 1, by rw [Nat.succ_mul]; omega, ?_⟩
            rw [follow, hn]
            exact hc
        · rintro ⟨i, hi, hc⟩
          cases i with
          | zero => cases hc; exact .inl rfl
          | succ i =>
              rw [follow, hn] at hc
              rw [Nat.succ_mul] at hi
              exact .inr ⟨i, by omega, hc⟩

end Budget

end Walk

end Ferro
