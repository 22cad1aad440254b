import Mathlib.Order.CompletePartialOrder
import Mathlib.Order.Interval.Set.Disjoint

/-!
# Tilings

A list of pieces, each with a start and an end, that lie one behind the other without gaps.
-/

namespace Ferro

variable {α β : Type} [LinearOrder β] (lo hi : α → β)

/-- The pieces cover everything from `a` to `b`, in order. -/
def Tiles : β → List α → β → Prop
  | a, [], b => a = b
  | a, x :: l, b => lo x = a ∧ lo x < hi x ∧ Tiles (hi x) l b

namespace Tiles

variable {lo hi} {a b c p : β} {l m : List α}

theorem append (h : Tiles lo hi a l b) (h' : Tiles lo hi b m c) : Tiles lo hi a (l ++ m) c := by
  induction l generalizing a with
  | nil => cases h; exact h'
  | cons x l ih => exact ⟨h.1, h.2.1, ih h.2.2⟩

theorem le (h : Tiles lo hi a l b) : a ≤ b := by
  induction l generalizing a with
  | nil => exact le_of_eq h
  | cons x l ih => exact h.1 ▸ (h.2.1.trans_le (ih h.2.2)).le

theorem lt_of_mem (h : Tiles lo hi a l b) {x : α} (hx : x ∈ l) : a ≤ lo x ∧ lo x < hi x := by
  induction l generalizing a with
  | nil => cases hx
  | cons y l ih =>
      cases hx with
      | head => exact ⟨h.1.ge, h.2.1⟩
      | tail _ hx =>
          obtain ⟨hle, hlt⟩ := ih h.2.2 hx
          exact ⟨h.1 ▸ (h.2.1.trans_le hle).le, hlt⟩

theorem pairwise (h : Tiles lo hi a l b) : l.Pairwise fun x y => hi x ≤ lo y := by
  induction l generalizing a with
  | nil => exact .nil
  | cons x l ih => exact .cons (fun y hy => (h.2.2.lt_of_mem hy).1) (ih h.2.2)

theorem sorted (h : Tiles lo hi a l b) : l.Pairwise fun x y => lo x < lo y :=
  h.pairwise.imp_of_mem fun hx _ hle => (h.lt_of_mem hx).2.trans_le hle

theorem disjoint (h : Tiles lo hi a l b) :
    l.Pairwise fun x y => Disjoint (Set.Ico (lo x) (hi x)) (Set.Ico (lo y) (hi y)) :=
  h.pairwise.imp fun hle => Set.Ico_disjoint_Ico.mpr ((min_le_left _ _).trans (hle.trans (le_max_right _ _)))

theorem cover (h : Tiles lo hi a l b) : (∃ x ∈ l, p ∈ Set.Ico (lo x) (hi x)) ↔ p ∈ Set.Ico a b := by
  induction l generalizing a with
  | nil => cases h; simp
  | cons x l ih =>
      have hx := h.2.1
      have hb := h.2.2.le
      simp only [List.mem_cons, exists_eq_or_imp]
      rw [ih h.2.2]
      simp only [Set.mem_Ico, ← h.1]
      constructor
      · rintro (hp | hp)
        · exact ⟨hp.1, hp.2.trans_le hb⟩
        · exact ⟨hx.le.trans hp.1, hp.2⟩
      · intro hp
        cases lt_or_ge p (hi x) with
        | inl hlt => exact Or.inl ⟨hp.1, hlt⟩
        | inr hge => exact Or.inr ⟨hge, hp.2⟩

end Tiles

end Ferro
