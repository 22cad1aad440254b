import Mathlib.Data.List.Basic
import Mathlib.Algebra.Order.Ring.Nat

/-!
# Pictures

A picture has a colour for each column and row. It is filled region by region: fills of one colour are one fill of all
their regions, whatever the order. Stored row by row, two points of a picture do not share an element.
-/

namespace Ferro

namespace Raster

/-- By column and row. -/
abbrev Picture (α : Type) := Nat → Nat → α

abbrev Region := Nat → Nat → Bool

variable {α ι : Type}

/-- Columns from `x0` and rows from `y0`, up to and without `x1` and `y1`. -/
def box (x0 x1 y0 y1 : Nat) : Region := fun x y => decide (x0 ≤ x ∧ x < x1 ∧ y0 ≤ y ∧ y < y1)

def fill (r : Region) (c : α) (p : Picture α) : Picture α := fun x y => if r x y then c else p x y

/-- The rows of a `w` by `h` picture move up by `n`, and `c` comes in from below. -/
def scroll (w h n : Nat) (c : α) (p : Picture α) : Picture α := fun x y =>
  if x < w ∧ y < h then if y + n < h then p x (y + n) else c else p x y

@[simp] theorem box_iff {x0 x1 y0 y1 x y : Nat} : box x0 x1 y0 y1 x y = true ↔ x0 ≤ x ∧ x < x1 ∧ y0 ≤ y ∧ y < y1 :=
  decide_eq_true_iff

/-- Fills of one colour, one after the other. -/
theorem foldl_fill (r : ι → Region) (c : α) (l : List ι) (p : Picture α) :
    l.foldl (fun p i => fill (r i) c p) p = fill (fun x y => l.any fun i => r i x y) c p := by
  induction l generalizing p with
  | nil => funext x y; simp [fill]
  | cons i l ih =>
      funext x y
      rw [List.foldl_cons, ih]
      by_cases hi : r i x y = true
      · simp [fill, hi]
      · simp [fill, hi]

theorem fill_congr {r r' : Region} (h : ∀ x y, r x y = true ↔ r' x y = true) (c : α) (p : Picture α) :
    fill r c p = fill r' c p := by
  funext x y
  exact if_congr (h x y) rfl rfl

/-- Two fills of one colour are one. -/
theorem fill_fill (r r' : Region) (c : α) (p : Picture α) :
    fill r' c (fill r c p) = fill (fun x y => r x y || r' x y) c p := by
  funext x y
  by_cases hr : r' x y = true
  · simp [fill, hr]
  · simp [fill, hr]

/-! ## Row by row -/

variable {pitch depth x x' y y' : Nat}

/-- A point of a row ends before the next row. -/
theorem rowMajor_lt (hx : x * depth + depth ≤ pitch) (hy : y < y') :
    y * pitch + x * depth + depth ≤ y' * pitch := by
  have hle : (y + 1) * pitch ≤ y' * pitch := Nat.mul_le_mul_right pitch hy
  rw [Nat.succ_mul] at hle
  omega

theorem rowMajor_disjoint (hx : x * depth + depth ≤ pitch) (hx' : x' * depth + depth ≤ pitch)
    (h : ¬ (x = x' ∧ y = y')) :
    y * pitch + x * depth + depth ≤ y' * pitch + x' * depth ∨
      y' * pitch + x' * depth + depth ≤ y * pitch + x * depth := by
  rcases Nat.lt_trichotomy y y' with hy | rfl | hy
  · have := rowMajor_lt hx hy
    exact .inl (by omega)
  · rcases Nat.lt_or_gt_of_ne fun hxx => h ⟨hxx, rfl⟩ with hlt | hlt
    · have hle : (x + 1) * depth ≤ x' * depth := Nat.mul_le_mul_right depth hlt
      rw [Nat.succ_mul] at hle
      exact .inl (by omega)
    · have hle : (x' + 1) * depth ≤ x * depth := Nat.mul_le_mul_right depth hlt
      rw [Nat.succ_mul] at hle
      exact .inr (by omega)
  · have := rowMajor_lt hx' hy
    exact .inr (by omega)

end Raster

end Ferro
