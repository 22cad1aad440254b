import Mathlib.Data.List.Basic

/-!
# Words joined by a separator

A separator in the text stands between two words, so that cutting there gives two texts of whole words.
-/

namespace Ferro

namespace Separated

variable {α : Type}

def join (sep : α) (words : List (List α)) : List α := [sep].intercalate words

variable {sep : α} {words ws : List (List α)} {w : List α} {cut : Nat}

@[simp] theorem join_nil : join sep [] = [] := rfl

@[simp] theorem join_singleton (w : List α) : join sep [w] = w := List.intercalate_singleton

theorem join_cons (w : List α) (h : ws ≠ []) : join sep (w :: ws) = w ++ sep :: join sep ws := by
  rw [join, List.intercalate_cons_of_ne_nil h, List.append_assoc, List.singleton_append]
  rfl

theorem split_at_sep (hw : ∀ w ∈ words, sep ∉ w) (h : (join sep words)[cut]? = some sep) :
    ∃ pre post, words = pre ++ post ∧ pre ≠ [] ∧ post ≠ [] ∧ (join sep words).take cut = join sep pre ∧
      (join sep words).drop (cut + 1) = join sep post := by
  induction words generalizing cut with
  | nil => cases h
  | cons w ws ih =>
      have hhead : sep ∉ w := hw w List.mem_cons_self
      by_cases hws : ws = []
      · rw [hws, join_singleton] at h
        exact absurd (List.mem_of_getElem? h) hhead
      rw [join_cons w hws] at h ⊢
      rcases Nat.lt_trichotomy cut w.length with hlt | rfl | hgt
      · rw [List.getElem?_append_left hlt] at h
        exact absurd (List.mem_of_getElem? h) hhead
      · refine ⟨[w], ws, rfl, List.cons_ne_nil _ _, hws, ?_, ?_⟩
        · rw [List.take_left, join_singleton]
        · rw [List.drop_append, List.drop_eq_nil_of_le (Nat.le_succ _), Nat.add_sub_cancel_left]
          rfl
      · obtain ⟨k, rfl⟩ : ∃ k, cut = w.length + (k + 1) := ⟨cut - w.length - 1, by omega⟩
        rw [List.getElem?_append_right (by omega), Nat.add_sub_cancel_left, List.getElem?_cons_succ] at h
        obtain ⟨pre, post, rfl, hpre, hpost, htake, hdrop⟩ := ih (fun w hw' => hw w (List.mem_cons_of_mem _ hw')) h
        refine ⟨w :: pre, post, rfl, List.cons_ne_nil _ _, hpost, ?_, ?_⟩
        · rw [List.take_length_add_append, List.take_succ_cons, htake, join_cons w hpre]
        · rw [Nat.add_assoc, List.drop_length_add_append, List.drop_succ_cons, hdrop]

/-- Behind the first word there is a separator, or nothing. -/
theorem getElem?_length_head (h : w.length < (join sep (w :: ws)).length) :
    (join sep (w :: ws))[w.length]? = some sep := by
  by_cases hws : ws = []
  · rw [hws, join_singleton] at h
    exact absurd h (Nat.lt_irrefl _)
  · rw [join_cons w hws, List.getElem?_append_right (Nat.le_refl _), Nat.sub_self]
    rfl

theorem length_head_le (sep : α) (w : List α) (ws : List (List α)) : w.length ≤ (join sep (w :: ws)).length := by
  by_cases hws : ws = []
  · exact Nat.le_of_eq (by rw [hws, join_singleton])
  · rw [join_cons w hws, List.length_append]
    exact Nat.le_add_right _ _

theorem getElem?_head {i : Nat} (hi : i < w.length) : (join sep (w :: ws))[i]? = w[i]? := by
  by_cases hws : ws = []
  · rw [hws, join_singleton]
  · rw [join_cons w hws, List.getElem?_append_left hi]

end Separated

end Ferro
