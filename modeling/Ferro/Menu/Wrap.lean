import Ferro.Base.Separated
import Ferro.Menu.Screens

/-!
# The lines of a description (`draw_menu`)

A line ends at the last space that fits, and the space is left out.
-/

namespace Ferro

namespace Menu

open Separated

variable {n fuel : Nat} {text : List Char} {words : List (List Char)} {c : Char} {i : Nat}

theorem rfind_eq_some (h : rfind c text = some i) : text[i]? = some c ∧ i < text.length := by
  obtain ⟨j, hj, rfl⟩ := Option.map_eq_some_iff.mp h
  obtain ⟨hlt, hc, -⟩ := List.findIdx?_eq_some_iff_getElem.mp hj
  rw [List.length_reverse] at hlt
  rw [List.getElem_reverse, beq_iff_eq] at hc
  have hi : text.length - 1 - j < text.length := by omega
  exact ⟨by rw [List.getElem?_eq_getElem hi, hc], hi⟩

theorem rfind_eq_none (h : rfind c text = none) : c ∉ text := by
  have hnone := List.findIdx?_eq_none_iff.mp (Option.map_eq_none_iff.mp h)
  intro hc
  have := hnone c (List.mem_reverse.mpr hc)
  simp at this

/-- Words that a line can hold. -/
structure Fit (n : Nat) (words : List (List Char)) : Prop where
  ne_nil : ∀ w ∈ words, w ≠ []
  no_space : ∀ w ∈ words, ' ' ∉ w
  length_le : ∀ w ∈ words, w.length ≤ n

theorem Fit.right {pre post : List (List Char)} (h : Fit n (pre ++ post)) : Fit n post where
  ne_nil w hw := h.ne_nil w (List.mem_append_right _ hw)
  no_space w hw := h.no_space w (List.mem_append_right _ hw)
  length_le w hw := h.length_le w (List.mem_append_right _ hw)

/-- A text that is too long is cut at a space, within the line and not at its start. -/
theorem cut_eq (h : Fit n words) (hlong : n < (join ' ' words).length) :
    (join ' ' words)[(rfind ' ' ((join ' ' words).take n)).getD n]? = some ' ' ∧
      (rfind ' ' ((join ' ' words).take n)).getD n ≤ n ∧ (rfind ' ' ((join ' ' words).take n)).getD n ≠ 0 := by
  cases words with
  | nil => exact absurd hlong (Nat.not_lt_zero _)
  | cons w ws =>
      have hne : w.length ≠ 0 := fun h0 => h.ne_nil w List.mem_cons_self (List.length_eq_zero_iff.mp h0)
      have hle : w.length ≤ n := h.length_le w List.mem_cons_self
      have hspace : (join ' ' (w :: ws))[w.length]? = some ' ' := getElem?_length_head (Nat.lt_of_le_of_lt hle hlong)
      have hat (i : Nat) (hi : (join ' ' (w :: ws))[i]? = some ' ') : i ≠ 0 := by
        rintro rfl
        rw [getElem?_head (Nat.pos_of_ne_zero hne)] at hi
        exact h.no_space w List.mem_cons_self (List.mem_of_getElem? hi)
      cases hfind : rfind ' ' ((join ' ' (w :: ws)).take n) with
      | some i =>
          obtain ⟨hi, hlt⟩ := rfind_eq_some hfind
          have hlt : i < n := by
            rw [List.length_take] at hlt
            omega
          rw [List.getElem?_take_of_lt hlt] at hi
          exact ⟨hi, Nat.le_of_lt hlt, hat i hi⟩
      | none =>
          have hend : w.length = n := by
            refine Nat.le_antisymm hle (Nat.le_of_not_lt fun hlt => rfind_eq_none hfind ?_)
            exact List.mem_of_getElem? (by rw [List.getElem?_take_of_lt hlt, hspace])
          rw [Option.getD_none, ← hend]
          exact ⟨hspace, Nat.le_refl _, hne⟩

theorem wrapLoop_words (h : Fit n words) (hfuel : (join ' ' words).length ≤ fuel) :
    ∃ groups : List (List (List Char)), groups.flatten = words ∧
      wrapLoop n fuel (join ' ' words) = groups.map (join ' ') ∧ ∀ g ∈ groups, (join ' ' g).length ≤ n := by
  induction fuel generalizing words with
  | zero =>
      cases words with
      | nil => exact ⟨[], rfl, rfl, nofun⟩
      | cons w ws =>
          have hpos := List.length_pos_iff.mpr (h.ne_nil w List.mem_cons_self)
          have hle := length_head_le ' ' w ws
          omega
  | succ fuel ih =>
      rw [wrapLoop]
      by_cases hempty : (join ' ' words).length = 0
      · rw [if_pos hempty]
        cases words with
        | nil => exact ⟨[], rfl, rfl, nofun⟩
        | cons w ws =>
            have hpos := List.length_pos_iff.mpr (h.ne_nil w List.mem_cons_self)
            have hle := length_head_le ' ' w ws
            omega
      rw [if_neg hempty]
      dsimp only
      by_cases hlong : n < (join ' ' words).length
      · -- the line ends at a space
        obtain ⟨hspace, hle, hne⟩ := cut_eq h hlong
        rw [Nat.min_eq_left (Nat.le_of_lt hlong), if_pos hlong, if_neg hne]
        generalize (rfind ' ' ((join ' ' words).take n)).getD n = cut at hspace hle
        obtain ⟨pre, post, rfl, -, -, htake, hdrop⟩ := split_at_sep h.no_space hspace
        have hrest : (join ' ' post).length ≤ fuel := by
          rw [← hdrop, List.length_drop]
          omega
        obtain ⟨groups, hgroups, hlines, hlen⟩ := ih h.right hrest
        refine ⟨pre :: groups, by rw [List.flatten_cons, hgroups], ?_, ?_⟩
        · rw [htake, hdrop, hlines, List.map_cons]
        · rintro g (_ | ⟨_, hg⟩)
          · rw [← htake, List.length_take]
            omega
          · exact hlen g hg
      · -- the rest of the text
        rw [Nat.min_eq_right (Nat.le_of_not_lt hlong), if_neg (Nat.lt_irrefl _), if_neg hempty, List.take_length,
          List.drop_eq_nil_of_le (Nat.le_succ _)]
        have hnil : wrapLoop n fuel [] = [] := by
          cases fuel <;> rfl
        refine ⟨[words], by simp, by rw [hnil, List.map_singleton], fun g hg => ?_⟩
        rw [List.mem_singleton.mp hg]
        omega

/-- Every word is on one line, whole and in order, and no line is longer than `n`, for words that fit. -/
theorem wrap_words (h : Fit n words) :
    ∃ groups : List (List (List Char)), groups.flatten = words ∧
      wrap n (join ' ' words) = groups.map (join ' ') ∧ ∀ line ∈ wrap n (join ' ' words), line.length ≤ n := by
  obtain ⟨groups, hgroups, hlines, hlen⟩ := wrapLoop_words h (Nat.le_refl _)
  refine ⟨groups, hgroups, hlines, fun line hline => ?_⟩
  rw [wrap, hlines] at hline
  obtain ⟨g, hg, rfl⟩ := List.mem_map.mp hline
  exact hlen g hg

/-- The first description, in lines of up to 28 characters. -/
theorem wrap_words_first : ∃ groups : List (List (List Char)),
    descriptionLines (items.get ⟨0, by decide⟩).description = groups.map (join ' ') ∧
      groups.flatten = ["MOUNT".toList, "THE".toList, "SD".toList, "CARD,".toList, "LOAD".toList, "SAVED".toList,
        "VARIABLES,".toList, "LIST".toList, "WHAT'S".toList, "ON".toList, "IT".toList] := by
  have hfit : Fit 28 ["MOUNT".toList, "THE".toList, "SD".toList, "CARD,".toList, "LOAD".toList, "SAVED".toList,
      "VARIABLES,".toList, "LIST".toList, "WHAT'S".toList, "ON".toList, "IT".toList] :=
    ⟨by decide, by decide, by decide⟩
  obtain ⟨groups, hgroups, hlines, -⟩ := wrap_words hfit
  exact ⟨groups, hlines, hgroups⟩

end Menu

end Ferro
