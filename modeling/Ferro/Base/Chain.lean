import Mathlib.Data.List.Nodup
import Mathlib.Logic.Relation

/-!
# Chains in a successor table

`next` maps a cell to its successor, or to `none` at an end. `Chain next a l` says that following `next` from
`a` visits exactly the cells of `l` and then ends. Such a walk is determined by its start and never repeats.
-/

namespace Ferro

variable {α : Type} {next next' : α → Option α}

/-- Following `next` from `a` visits the cells of the list in order and then ends. -/
inductive Chain (next : α → Option α) : α → List α → Prop where
  | last {a} (h : next a = none) : Chain next a [a]
  | cons {a b l} (h : next a = some b) (t : Chain next b l) : Chain next a (a :: l)

namespace Chain

theorem eq_cons {a l} (h : Chain next a l) : ∃ t, l = a :: t := by
  cases h with
  | last _ => exact ⟨[], rfl⟩
  | cons _ _ => exact ⟨_, rfl⟩

theorem ne_nil {a l} (h : Chain next a l) : l ≠ [] := by
  obtain ⟨t, rfl⟩ := h.eq_cons
  exact List.cons_ne_nil _ _

theorem length_pos {a l} (h : Chain next a l) : 0 < l.length := List.length_pos_iff.mpr h.ne_nil

theorem head_mem {a l} (h : Chain next a l) : a ∈ l := by
  obtain ⟨t, rfl⟩ := h.eq_cons
  exact List.mem_cons_self

theorem unique {a l l'} (h : Chain next a l) (h' : Chain next a l') : l = l' := by
  induction h generalizing l' with
  | last hn =>
      cases h' with
      | last _ => rfl
      | cons hs _ => rw [hn] at hs; cases hs
  | cons hs _ ih =>
      cases h' with
      | last hn => rw [hs] at hn; cases hn
      | cons hs' t' => rw [hs] at hs'; cases hs'; rw [ih t']

/-- From every cell of a chain, the rest of the chain is a chain. -/
theorem suffix {a l x} (h : Chain next a l) (hx : x ∈ l) : ∃ l', Chain next x l' ∧ l' <:+ l := by
  induction h with
  | last hn => rw [List.mem_singleton] at hx; subst hx; exact ⟨_, .last hn, List.suffix_rfl⟩
  | cons hs t ih =>
      rcases List.mem_cons.mp hx with rfl | hx
      · exact ⟨_, .cons hs t, List.suffix_rfl⟩
      · obtain ⟨l', hl', hsuf⟩ := ih hx
        exact ⟨l', hl', hsuf.trans (List.suffix_cons _ _)⟩

theorem nodup {a l} (h : Chain next a l) : l.Nodup := by
  induction h with
  | last _ => exact List.nodup_singleton _
  | @cons a b l hs t ih =>
      refine List.nodup_cons.mpr ⟨fun ha => ?_, ih⟩
      -- the walk from `a` is unique, so it cannot be a proper part of itself
      obtain ⟨l', hl', hsuf⟩ := t.suffix ha
      have := hl'.unique (.cons hs t)
      subst this
      exact absurd hsuf.length_le (by simp)

theorem congr {a l} (h : Chain next a l) (he : ∀ x ∈ l, next' x = next x) : Chain next' a l := by
  induction h with
  | last hn => exact .last (by rw [he _ (by simp)]; exact hn)
  | cons hs _ ih =>
      exact .cons (by rw [he _ (by simp)]; exact hs) (ih fun x hx => he x (List.mem_cons_of_mem _ hx))

theorem next_mem {a l x y} (h : Chain next a l) (hx : x ∈ l) (hy : next x = some y) : y ∈ l := by
  induction h with
  | last hn => rw [List.mem_singleton] at hx; subst hx; rw [hn] at hy; cases hy
  | cons hs t ih =>
      rcases List.mem_cons.mp hx with rfl | hx
      · rw [hs] at hy; cases hy; exact List.mem_cons_of_mem _ t.head_mem
      · exact List.mem_cons_of_mem _ (ih hx)

theorem next_getLast {a l} (h : Chain next a l) : next (l.getLast h.ne_nil) = none := by
  induction h with
  | last hn => exact hn
  | cons _ t ih => rw [List.getLast_cons t.ne_nil]; exact ih

/-- Linking the end of a chain to a second chain. -/
theorem append {a b l m} (h : Chain next a l) (he : ∀ x ∈ l.dropLast, next' x = next x)
    (hb : next' (l.getLast h.ne_nil) = some b) (hm : Chain next' b m) : Chain next' a (l ++ m) := by
  induction h with
  | last _ => exact .cons hb hm
  | cons hs t ih =>
      rw [List.dropLast_cons_of_ne_nil t.ne_nil] at he
      refine .cons (by rw [he _ List.mem_cons_self]; exact hs)
        (ih (fun x hx => he x (List.mem_cons_of_mem _ hx)) ?_)
      rwa [List.getLast_cons t.ne_nil] at hb

/-- Ending a chain at its `n`-th cell. -/
theorem take {a l n} (h : Chain next a l) (hn : n < l.length) (he : ∀ x ∈ l.take n, next' x = next x)
    (hz : next' l[n] = none) : Chain next' a (l.take (n + 1)) := by
  induction h generalizing n with
  | last _ =>
      simp only [List.length_singleton, Nat.lt_one_iff] at hn
      subst hn
      exact .last hz
  | cons hs t ih =>
      cases n with
      | zero => exact .last hz
      | succ n =>
          rw [List.take_succ_cons]
          refine .cons (by rw [he _ (by simp)]; exact hs) (ih (Nat.lt_of_succ_lt_succ hn) ?_ hz)
          intro x hx
          exact he x (by rw [List.take_succ_cons]; exact List.mem_cons_of_mem _ hx)

theorem next_getElem {a l i} (h : Chain next a l) (hi : i + 1 < l.length) : next l[i] = some l[i + 1] := by
  induction h generalizing i with
  | last _ => simp at hi
  | @cons a b l hs t ih =>
      cases i with
      | zero =>
          obtain ⟨m, rfl⟩ := t.eq_cons
          exact hs
      | succ i => exact ih (Nat.lt_of_succ_lt_succ hi)

/-- A link leads to every cell but the first. -/
theorem exists_next {a l x} (h : Chain next a l) (hx : x ∈ l.tail) : ∃ y, next y = some x := by
  induction h with
  | last _ => cases hx
  | cons hs t ih =>
      obtain ⟨m, rfl⟩ := t.eq_cons
      rcases List.mem_cons.mp hx with rfl | hx
      · exact ⟨_, hs⟩
      · exact ih hx

/-- A cell of a chain is reached along the links before it. -/
theorem reach_getElem {P : α → Prop} {a l i} (h : Chain next a l) (hP : ∀ y ∈ l, P y) (hi : i < l.length)
    (he : ∀ x ∈ l.take i, next' x = next x) :
    Relation.ReflTransGen (fun y z => next' y = some z ∧ P z) a l[i] := by
  induction h generalizing i with
  | last _ =>
      simp only [List.length_singleton, Nat.lt_one_iff] at hi
      subst hi
      exact .refl
  | cons hs t ih =>
      have ht := fun y hy => hP y (List.mem_cons_of_mem _ hy)
      cases i with
      | zero => exact .refl
      | succ i =>
          have he' := fun x hx => he x (by rw [List.take_succ_cons]; exact List.mem_cons_of_mem _ hx)
          refine .head ⟨?_, ht _ t.head_mem⟩ (ih ht (Nat.lt_of_succ_lt_succ hi) he')
          rw [he _ (by simp)]
          exact hs

/-- The cells reachable from the start are those of the chain. -/
theorem reach_iff {P : α → Prop} {a l x} (h : Chain next a l) (hP : ∀ y ∈ l, P y) :
    Relation.ReflTransGen (fun y z => next y = some z ∧ P z) a x ↔ x ∈ l := by
  constructor
  · intro hr
    induction hr with
    | refl => exact h.head_mem
    | tail _ hs ih => exact h.next_mem ih hs.1
  · intro hx
    obtain ⟨i, hi, rfl⟩ := List.getElem_of_mem hx
    exact h.reach_getElem hP hi fun _ _ => rfl

theorem mem_of_reach {a l c} (h : Chain next a l) (hr : Relation.ReflTransGen (fun x y => next x = some y) a c) :
    c ∈ l := by
  induction hr with
  | refl => exact h.head_mem
  | tail _ hs ih => exact h.next_mem ih hs

/-- No link of a chain leads back. -/
theorem not_transGen {a l c} (h : Chain next a l) (hc : c ∈ l) :
    ¬ Relation.TransGen (fun x y => next x = some y) c c := by
  intro hcyc
  obtain ⟨b, hb, hbc⟩ := Relation.TransGen.head'_iff.mp hcyc
  obtain ⟨l', hl', _⟩ := h.suffix hc
  have hnodup := hl'.nodup
  cases hl' with
  | last hn => rw [hb] at hn; cases hn
  | cons hs t =>
      rw [hb] at hs
      cases hs
      exact (List.nodup_cons.mp hnodup).1 (t.mem_of_reach hbc)

end Chain

/-- A walk to a point outside a set that no step leaves is outside of it all the way. -/
theorem transGen_outside {r s : α → α → Prop} {S : α → Prop} {a b : α} (hclosed : ∀ x y, r x y → S x → S y)
    (hstep : ∀ x y, ¬ S x → r x y → s x y) (hr : Relation.TransGen r a b) (hb : ¬ S b) :
    ¬ S a ∧ Relation.TransGen s a b := by
  induction hr using Relation.TransGen.head_induction_on with
  | single h =>
      have ha := fun hS => hb (hclosed _ _ h hS)
      exact ⟨ha, .single (hstep _ _ ha h)⟩
  | head h _ ih =>
      have ha := fun hS => ih.1 (hclosed _ _ h hS)
      exact ⟨ha, .head (hstep _ _ ha h) ih.2⟩

end Ferro
