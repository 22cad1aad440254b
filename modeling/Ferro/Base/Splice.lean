import Ferro.Base.Arr

/-!
# Overwriting part of a list

`splice z l p d` is `l` with `d` written over it from position `p` on, longer than `l` where `d` ends behind it. A gap
between the end of `l` and `p` is filled with `z`.
-/

namespace Ferro

variable {α : Type} {z : α} {l d : List α} {p : Nat}

def splice (z : α) (l : List α) (p : Nat) (d : List α) : List α :=
  l.take p ++ List.replicate (p - l.length) z ++ d ++ l.drop (p + d.length)

@[simp] theorem length_splice (z : α) (l : List α) (p : Nat) (d : List α) :
    (splice z l p d).length = max l.length (p + d.length) := by
  simp [splice]; omega

theorem getElem?_splice (z : α) (l : List α) (p : Nat) (d : List α) (i : Nat) :
    (splice z l p d)[i]? =
      if i < p then (if i < l.length then l[i]? else some z) else if i < p + d.length then d[i - p]? else l[i]? := by
  have hgap : (l.take p ++ List.replicate (p - l.length) z).length = p := by simp; omega
  by_cases hp : i < p
  · rw [splice, List.append_assoc, List.getElem?_append_left (by omega), if_pos hp]
    by_cases hl : i < l.length
    · rw [List.getElem?_append_left (by simp; omega), List.getElem?_take, if_pos hp, if_pos hl]
    · rw [List.getElem?_append_right (by simp; omega), if_neg hl, List.getElem?_replicate, if_pos (by simp; omega)]
  · rw [if_neg hp]
    by_cases hd : i < p + d.length
    · rw [splice, List.append_assoc, List.getElem?_append_right (by omega), hgap,
        List.getElem?_append_left (by omega), if_pos hd]
    · rw [splice, List.append_assoc, List.getElem?_append_right (by omega), hgap,
        List.getElem?_append_right (by omega), if_neg hd, List.getElem?_drop]
      congr 1
      omega

theorem splice_zero_of_le (h : l.length ≤ d.length) : splice z l 0 d = d := by
  rw [splice, List.take_zero, Nat.zero_sub, List.replicate_zero, Nat.zero_add, List.drop_eq_nil_of_le h]
  simp

/-- The first elements of an array whose other elements are `z`, after an overwrite. -/
theorem Arr.slice_put_eq_splice [Inhabited α] {n len : Nat} {a : Arr α n} (hlen : len ≤ n)
    (hz : ∀ i < n, len ≤ i → a.nth i = z) (h : p + d.length ≤ n) :
    (a.put p d).slice 0 (max len (p + d.length)) = splice z (a.slice 0 len) p d := by
  have hmax : max len (p + d.length) ≤ n := Nat.max_le.mpr ⟨hlen, h⟩
  have hl : (a.slice 0 len).length = len := a.length_slice (by omega)
  apply List.ext_getElem?
  intro i
  rw [getElem?_slice _ (by omega), getElem?_splice, hl, Nat.zero_add]
  by_cases hi : i < max len (p + d.length)
  · rw [if_pos hi, getElem?_slice _ (by omega), Nat.zero_add]
    by_cases hp : i < p
    · rw [nth_put_of_not_mem _ _ (Or.inl hp), if_pos hp]
      by_cases hil : i < len
      · rw [if_pos hil, if_pos hil]
      · rw [if_neg hil, hz i (by omega) (by omega)]
    · rw [if_neg hp]
      by_cases hd : i < p + d.length
      · rw [if_pos hd, nth_put_of_mem _ _ (by omega) (by omega) (by omega), List.getElem?_eq_getElem]
      · rw [if_neg hd, nth_put_of_not_mem _ _ (Or.inr (by omega)), if_pos (by omega)]
  · rw [if_neg hi, if_neg (by omega), if_neg (by omega), getElem?_slice _ (by omega), if_neg (by omega)]

end Ferro
