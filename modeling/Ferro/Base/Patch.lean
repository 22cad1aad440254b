import Ferro.Base.Arr
import Mathlib.Data.List.GetD

/-!
# Patches

A patch is a list of values for consecutive positions of a function on `Nat`. Patches that do not meet can be applied
in any order: each position has the value of the patch that covers it, or its old value.
-/

namespace Ferro

/-- Values for the positions from `start` on. -/
structure Patch (α : Type) where
  start : Nat
  values : List α

namespace Patch

variable {α : Type} {f g : Nat → α} {p q : Patch α} {ps qs : List (Patch α)} {r n : Nat}

def Covers (p : Patch α) (r : Nat) : Prop := p.start ≤ r ∧ r < p.start + p.values.length

instance (p : Patch α) (r : Nat) : Decidable (p.Covers r) := inferInstanceAs (Decidable (_ ∧ _))

/-- No position is covered by both. -/
def Apart (p q : Patch α) : Prop := ∀ r, p.Covers r → ¬ q.Covers r

def apply (f : Nat → α) (p : Patch α) : Nat → α := fun r =>
  if p.start ≤ r then p.values.getD (r - p.start) (f r) else f r

def applyAll (f : Nat → α) (ps : List (Patch α)) : Nat → α := ps.foldl apply f

@[simp] theorem applyAll_nil : applyAll f [] = f := rfl

@[simp] theorem applyAll_cons : applyAll f (p :: ps) = applyAll (apply f p) ps := rfl

theorem applyAll_append : applyAll f (ps ++ qs) = applyAll (applyAll f ps) qs := List.foldl_append

theorem apply_of_not_covers (h : ¬ p.Covers r) : apply f p r = f r := by
  unfold apply
  split
  case isTrue hle =>
    have hlen : p.values.length ≤ r - p.start := by simp only [Covers] at h; omega
    rw [List.getD_eq_default _ _ hlen]
  case isFalse => rfl

theorem apply_of_covers (h : p.Covers r) (d : α) : apply f p r = p.values.getD (r - p.start) d := by
  have hlt : r - p.start < p.values.length := by simp only [Covers] at h; omega
  rw [apply, if_pos h.1, List.getD_eq_getElem _ _ hlt, List.getD_eq_getElem _ _ hlt]

/-- A patch decides a position or leaves it as it is. -/
theorem apply_congr_at (h : f r = g r) : apply f p r = apply g p r := by
  unfold apply
  rw [h]

theorem applyAll_congr_at (h : f r = g r) : applyAll f ps r = applyAll g ps r := by
  induction ps generalizing f g with
  | nil => exact h
  | cons p ps ih => exact ih (apply_congr_at h)

theorem applyAll_of_not_covers (h : ∀ p ∈ ps, ¬ p.Covers r) : applyAll f ps r = f r := by
  induction ps generalizing f with
  | nil => rfl
  | cons p ps ih =>
      rw [applyAll_cons, ih fun q hq => h q (List.mem_cons_of_mem _ hq)]
      exact apply_of_not_covers (h p List.mem_cons_self)

/-- What a covered position held before does not matter. -/
theorem applyAll_of_covers (hp : p ∈ ps) (hr : p.Covers r) : applyAll f ps r = applyAll g ps r := by
  induction ps generalizing f g with
  | nil => cases hp
  | cons q ps ih =>
      rcases List.mem_cons.mp hp with rfl | hp
      · rw [applyAll_cons, applyAll_cons]
        apply applyAll_congr_at
        rw [apply_of_covers hr (f r), apply_of_covers hr (f r)]
      · exact ih hp

theorem applyAll_of_mem (hd : ps.Pairwise Apart) (hp : p ∈ ps) (hr : p.Covers r) (d : α) :
    applyAll f ps r = p.values.getD (r - p.start) d := by
  induction ps generalizing f with
  | nil => cases hp
  | cons q ps ih =>
      obtain ⟨hq, hd⟩ := List.pairwise_cons.mp hd
      rcases List.mem_cons.mp hp with rfl | hp
      · rw [applyAll_cons, applyAll_of_not_covers fun q' hq' => hq q' hq' r hr]
        exact apply_of_covers hr d
      · exact ih hd hp

end Patch

/-! ## Words -/

/-- The little-endian number in the `len` bytes from `r` on. -/
def wordAt (f : Nat → UInt8) (r len : Nat) : Nat := leNat ((List.range len).map fun i => f (r + i))

variable {f g : Nat → UInt8} {r len : Nat}

theorem wordAt_congr (h : ∀ i < len, f (r + i) = g (r + i)) : wordAt f r len = wordAt g r len := by
  rw [wordAt, wordAt, List.map_congr_left fun i hi => h i (List.mem_range.mp hi)]

theorem wordAt_lt : wordAt f r len < 256 ^ len := by
  have h := leNat_lt ((List.range len).map fun i => f (r + i))
  rwa [List.length_map, List.length_range] at h

/-- The word in a position that holds the bytes of a number. -/
theorem wordAt_leBytes {n : Nat} (h : ∀ i < len, f (r + i) = (leBytes len n).getD i 0) :
    wordAt f r len = n % 256 ^ len := by
  have hmap : (List.range len).map (fun i => f (r + i)) = leBytes len n := by
    apply List.ext_getElem (by simp)
    intro i hi _
    have hi : i < len := by simpa using hi
    rw [List.getElem_map, List.getElem_range, h i hi, List.getD_eq_getElem _ _ (by simpa using hi)]
  rw [wordAt, hmap, leNat_leBytes]

end Ferro
