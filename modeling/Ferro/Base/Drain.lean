import Mathlib.Data.Finset.Card
import Mathlib.Data.Finset.Filter

/-!
# Walks that clear the links behind them

A loop follows links from cell to cell and clears the link of each cell that it leaves. It needs no memory of where it
was: a cell that it comes back to has no link any more, and there are fewer links after each step.
-/

namespace Ferro

/-- The cells of a walk along links, up to where the links end or lead back into the walk. The cells in `seen` were
visited before. -/
inductive Tour {α : Type} (next : α → Option α) : (seen : List α) → Option α → List α → Prop where
  | stop {seen} : Tour next seen none []
  | back {seen a} (h : a ∈ seen) : Tour next seen (some a) []
  | visit {seen a l} (h : a ∉ seen) (t : Tour next (a :: seen) (next a) l) : Tour next seen (some a) (a :: l)

namespace Tour

variable {α : Type} {next next' : α → Option α} {seen l l' : List α} {cur : Option α}

theorem unique (h : Tour next seen cur l) (h' : Tour next seen cur l') : l = l' := by
  induction h generalizing l' with
  | stop => cases h'; rfl
  | back h =>
      cases h' with
      | back _ => rfl
      | visit hn _ => exact absurd h hn
  | visit hn _ ih =>
      cases h' with
      | back h => exact absurd h hn
      | visit _ t' => rw [ih t']

theorem congr (h : Tour next seen cur l) (he : ∀ a ∈ l, next' a = next a) : Tour next' seen cur l := by
  induction h with
  | stop => exact .stop
  | back h => exact .back h
  | visit hn _ ih =>
      refine .visit hn ?_
      rw [he _ List.mem_cons_self]
      exact ih fun a ha => he a (List.mem_cons_of_mem _ ha)

theorem exists_of_finite {cells : Finset α} (hnext : ∀ a b, next a = some b → b ∈ cells) (hcur : ∀ a ∈ cur, a ∈ cells) :
    ∃ l, Tour next seen cur l := by
  classical
  induction hn : (cells.filter (· ∉ seen)).card using Nat.strong_induction_on generalizing seen cur with
  | _ n ih =>
      cases cur with
      | none => exact ⟨[], .stop⟩
      | some a =>
          by_cases ha : a ∈ seen
          · exact ⟨[], .back ha⟩
          · have hsub : cells.filter (· ∉ a :: seen) ⊂ cells.filter (· ∉ seen) := by
              refine Finset.ssubset_iff_of_subset (fun b hb => ?_) |>.mpr ⟨a, ?_, by simp⟩
              · simp only [Finset.mem_filter, List.mem_cons, not_or] at hb ⊢
                exact ⟨hb.1, hb.2.2⟩
              · exact Finset.mem_filter.mpr ⟨hcur a rfl, ha⟩
            obtain ⟨l, hl⟩ := ih _ (hn ▸ Finset.card_lt_card hsub) (hnext a) rfl
            exact ⟨a :: l, .visit ha hl⟩

end Tour

/-- A table of links in a state: clearing the link of a cell can clear other links, and sets none. -/
structure Drain (σ α : Type) where
  link : σ → α → Option α
  clear : σ → α → σ
  link_clear_self (s a) : link (clear s a) a = none
  link_clear (s a b) : link (clear s a) b = none ∨ link (clear s a) b = link s b

namespace Drain

variable {σ α : Type} (D : Drain σ α)

/-- The state behind the loop, if it ends in fewer than `fuel` iterations. -/
def run : (fuel : Nat) → σ → Option α → Option σ
  | 0, _, _ => none
  | _ + 1, s, none => some s
  | fuel + 1, s, some a => run fuel (D.clear s a) (D.link s a)

variable {D} {s s' s₀ : σ} {cur : Option α} {seen l : List α}

/-! ## The loop ends -/

/-- The cells that still have a link. -/
def linked (D : Drain σ α) (cells : Finset α) (s : σ) : Finset α := cells.filter fun a => (D.link s a).isSome

theorem card_linked_clear {cells : Finset α} {a : α} (ha : a ∈ cells) (hlink : (D.link s a).isSome) :
    (D.linked cells (D.clear s a)).card < (D.linked cells s).card := by
  refine Finset.card_lt_card ((Finset.ssubset_iff_of_subset fun b hb => ?_).mpr ⟨a, ?_, ?_⟩)
  · obtain ⟨hb, hsome⟩ := Finset.mem_filter.mp hb
    refine Finset.mem_filter.mpr ⟨hb, ?_⟩
    rcases D.link_clear s a b with h | h
    · rw [h] at hsome
      cases hsome
    · rwa [← h]
  · exact Finset.mem_filter.mpr ⟨ha, hlink⟩
  · simp [linked, D.link_clear_self]

theorem isSome_run {cells : Finset α} (hnext : ∀ s a b, D.link s a = some b → b ∈ cells) {fuel : Nat}
    (hfuel : (D.linked cells s).card + 2 ≤ fuel) (hcur : ∀ a ∈ cur, a ∈ cells) : (D.run fuel s cur).isSome := by
  induction fuel generalizing s cur with
  | zero => omega
  | succ fuel ih =>
      cases cur with
      | none => rfl
      | some a =>
          rw [run]
          cases hlink : D.link s a with
          | none =>
              obtain ⟨fuel, rfl⟩ : ∃ k, fuel = k + 1 := ⟨fuel - 1, by omega⟩
              rfl
          | some b =>
              have hlt := card_linked_clear (D := D) (s := s) (hcur a rfl) (by rw [hlink]; rfl)
              refine ih (by omega) fun c hc => ?_
              cases hc
              exact hnext s a b hlink

/-- One iteration for each cell that a link can lead to is enough, and two more. -/
theorem isSome_run_of_card {cells : Finset α} (hnext : ∀ s a b, D.link s a = some b → b ∈ cells) {fuel : Nat}
    (hfuel : cells.card + 2 ≤ fuel) (hcur : ∀ a ∈ cur, a ∈ cells) : (D.run fuel s cur).isSome := by
  have hle : (D.linked cells s).card ≤ cells.card := Finset.card_filter_le _ _
  exact isSome_run hnext (by omega) hcur

/-! ## What the loop clears -/

/-- Clearing the link of a cell in `P` leaves those of the other cells in `P`. -/
def Separate (D : Drain σ α) (P : α → Prop) : Prop :=
  ∀ s a b, P a → P b → b ≠ a → D.link (D.clear s a) b = D.link s b

/-- The cells in `seen` have no link, and the others in `P` have the one that they had at first. -/
structure Cleared (D : Drain σ α) (P : α → Prop) (s₀ : σ) (seen : List α) (s : σ) : Prop where
  gone (a) : a ∈ seen → D.link s a = none
  kept (a) : P a → a ∉ seen → D.link s a = D.link s₀ a

variable {P : α → Prop}

theorem Cleared.clear (hsep : D.Separate P) (h : D.Cleared P s₀ seen s) {a : α} (ha : P a) :
    D.Cleared P s₀ (a :: seen) (D.clear s a) := by
  refine ⟨fun b hb => ?_, fun b hPb hb => ?_⟩
  · rcases List.mem_cons.mp hb with rfl | hb
    · exact D.link_clear_self s b
    · exact (D.link_clear s a b).elim id fun he => he.trans (h.gone b hb)
  · rw [List.mem_cons, not_or] at hb
    rw [hsep s a b ha hPb hb.1, h.kept b hPb hb.2]

/-- The cells cleared are those of the walk along the links as they were at first. The last one is cleared twice if the
walk comes back to it. -/
theorem Separate.exists_foldl (hsep : D.Separate P) (t : Tour (D.link s₀) seen cur l) {fuel : Nat}
    (h : D.run fuel s cur = some s') (hc : D.Cleared P s₀ seen s) (hl : ∀ a ∈ l, P a) :
    ∃ m : List α, s' = m.foldl D.clear s ∧ (∀ a ∈ l, a ∈ m) ∧ ∀ a ∈ m, a ∈ seen ∨ a ∈ l := by
  induction t generalizing fuel s with
  | stop =>
      cases fuel with
      | zero => cases h
      | succ fuel =>
          cases h
          exact ⟨[], rfl, by simp, by simp⟩
  | @back seen a ha =>
      cases fuel with
      | zero => cases h
      | succ fuel =>
          rw [run, hc.gone a ha] at h
          cases fuel with
          | zero => cases h
          | succ fuel =>
              cases h
              exact ⟨[a], rfl, by simp, fun b hb => Or.inl (by rwa [List.mem_singleton.mp hb])⟩
  | @visit seen a l ha t ih =>
      cases fuel with
      | zero => cases h
      | succ fuel =>
          have hPa : P a := hl a List.mem_cons_self
          rw [run, hc.kept a hPa ha] at h
          obtain ⟨m, hm, hlm, hsub⟩ := ih h (hc.clear hsep hPa) fun b hb => hl b (List.mem_cons_of_mem _ hb)
          refine ⟨a :: m, hm, fun b hb => ?_, fun b hb => ?_⟩
          · exact List.mem_cons.mpr ((List.mem_cons.mp hb).imp_right (hlm b))
          · rcases List.mem_cons.mp hb with rfl | hb
            · exact Or.inr List.mem_cons_self
            · rcases hsub b hb with hb | hb
              · exact (List.mem_cons.mp hb).elim (fun he => Or.inr (he ▸ List.mem_cons_self)) Or.inl
              · exact Or.inr (List.mem_cons_of_mem _ hb)

end Drain

end Ferro
