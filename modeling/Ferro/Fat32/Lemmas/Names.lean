import Ferro.Fat32.WellFormed

/-!
# Short names

A name that `to_8_3` makes starts with the first character of its component, which is not a dot.
-/

namespace Ferro

theorem toAsciiUppercase_toNat (b : UInt8) :
    (toAsciiUppercase b).toNat = if 97 ≤ b.toNat ∧ b.toNat ≤ 122 then b.toNat - 32 else b.toNat := by
  unfold toAsciiUppercase
  have h1 : (0x61 ≤ b ∧ b ≤ 0x7A) ↔ (97 ≤ b.toNat ∧ b.toNat ≤ 122) := by
    rw [UInt8.le_iff_toNat_le, UInt8.le_iff_toNat_le]; rfl
  simp only [h1]
  split
  · rename_i h
    rw [UInt8.toNat_sub_of_le]
    · rfl
    · rw [UInt8.le_iff_toNat_le]
      simp
      omega
  · rfl

/-- The part before the first dot has no dot. -/
theorem dot_notMem_splitDot (component : List UInt8) : (0x2E : UInt8) ∉ (splitDot component).1 := by
  intro hmem
  unfold splitDot at hmem
  cases hdot : component.findIdx? (· == 0x2E) with
  | some dot =>
      rw [hdot] at hmem
      obtain ⟨i, hi, he⟩ := List.getElem_of_mem hmem
      rw [List.length_take] at hi
      rw [List.getElem_take] at he
      obtain ⟨_, _, hbefore⟩ := List.findIdx?_eq_some_iff_getElem.mp hdot
      exact hbefore i (by omega) (beq_iff_eq.mpr he)
  | none =>
      rw [hdot] at hmem
      have := List.findIdx?_eq_none_iff.mp hdot _ hmem
      cases this

theorem to83_first {component : List UInt8} {name : Name} (h : to83 component = some name) :
    ∃ x ∈ (splitDot component).1, name.nth 0 = toAsciiUppercase x := by
  unfold to83 at h
  generalize splitDot component = parts at h ⊢
  obtain ⟨base, ext⟩ := parts
  dsimp only at h ⊢
  split at h
  · cases h
  · rename_i hsome
    cases h
    cases base with
    | nil => simp at hsome
    | cons x base =>
        refine ⟨x, List.mem_cons_self, ?_⟩
        rw [Arr.nth_put_of_not_mem _ _ (Or.inl (by decide)), Arr.nth_put _ _ (by decide)]
        simp

theorem to83_notMem_dotNames {component : List UInt8} {name : Name} (h : to83 component = some name) :
    name ∉ dotNames := by
  intro hmem
  have hdot : name.nth 0 = 0x2E := by
    simp only [dotNames, List.mem_cons, List.not_mem_nil, or_false] at hmem
    rcases hmem with rfl | rfl <;> rfl
  obtain ⟨x, hx, hfirst⟩ := to83_first h
  have hup := toAsciiUppercase_toNat x
  rw [← hfirst, hdot] at hup
  have hval : x.toNat = (0x2E : UInt8).toNat := by
    change 46 = _ at hup
    change x.toNat = 46
    split at hup <;> omega
  rw [UInt8.toNat_inj.mp hval] at hx
  exact dot_notMem_splitDot component hx

end Ferro
