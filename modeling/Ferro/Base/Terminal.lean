import Ferro.Base.Raster
import Mathlib.Data.Nat.Init

/-!
# Text terminals

A terminal keeps a grid of cells over a picture. A character that is typed into a cell is drawn over what the cell
shows already: the strokes of a cell are kept, the last one first. At the end of the last row the grid scrolls. The
picture under the cells scrolls by the height of a cell, and need not be a whole number of cells high.
-/

namespace Ferro

open Raster

/-- The screen, the cells, and the shape of each character by column and row of a cell. -/
structure Terminal (κ : Type) where
  cellW : Nat
  cellH : Nat
  width : Nat
  height : Nat
  shape : κ → Region
  cellW_pos : 0 < cellW
  cellH_pos : 0 < cellH
  fits_width : cellW ≤ width
  fits_height : cellH ≤ height

/-- What a terminal shows, and where it types. -/
structure Page (κ α : Type) where
  under : Picture α
  /-- The strokes, by column and row of the grid. -/
  ink : Nat → Nat → List (κ × α)
  col : Nat
  row : Nat

namespace Page

variable {κ α : Type}

def carriageReturn (p : Page κ α) : Page κ α := { p with col := 0 }

def backspace (p : Page κ α) : Page κ α := { p with col := p.col - 1 }

/-- Draws over what the cell of the cursor shows. -/
def stroke (k : κ) (fg : α) (p : Page κ α) : Page κ α :=
  { p with
    ink := fun col row => if col = p.col ∧ row = p.row then (k, fg) :: p.ink col row else p.ink col row
    col := p.col + 1 }

end Page

namespace Terminal

variable {κ α : Type} (t : Terminal κ)

def cols : Nat := t.width / t.cellW

def rows : Nat := t.height / t.cellH

def render (p : Page κ α) : Picture α := fun x y =>
  if x / t.cellW < t.cols ∧ y / t.cellH < t.rows then
    ((p.ink (x / t.cellW) (y / t.cellH)).find? fun k => t.shape k.1 (x % t.cellW) (y % t.cellH)).elim
      (p.under x y) Prod.snd
  else
    p.under x y

/-- The cursor is in a row, and in a column or behind the last one. -/
structure OnPage (p : Page κ α) : Prop where
  col : p.col ≤ t.cols
  row : p.row < t.rows

/-! ## Operations -/

def linefeed (bg : α) (p : Page κ α) : Page κ α :=
  if p.row + 1 < t.rows then
    { p with row := p.row + 1 }
  else
    { p with
      under := scroll t.width t.height t.cellH bg p.under
      ink := fun col row => if row + 1 < t.rows then p.ink col (row + 1) else [] }

def newline (bg : α) (p : Page κ α) : Page κ α := (t.linefeed bg p).carriageReturn

/-- Behind the last column a character starts a new line. -/
def wrap (bg : α) (p : Page κ α) : Page κ α := if p.col < t.cols then p else t.newline bg p

def put (k : κ) (fg bg : α) (p : Page κ α) : Page κ α := (t.wrap bg p).stroke k fg

def clear (bg : α) (p : Page κ α) : Page κ α :=
  ⟨fill (box 0 t.width 0 t.height) bg p.under, fun _ _ => [], 0, 0⟩

def moveTo (col row : Nat) (p : Page κ α) : Page κ α :=
  if col < t.cols ∧ row < t.rows then { p with col, row } else p

/-! ## The grid -/

variable {t} {p : Page κ α} {bg fg : α} {k : κ}

theorem cols_pos (t : Terminal κ) : 0 < t.cols := Nat.div_pos t.fits_width t.cellW_pos

/-- A point of a cell is on the screen. -/
theorem lt_of_div_lt {n c x : Nat} (hc : 0 < c) (h : x / c < n / c) : x < n := by
  have hlt : x < n / c * c := (Nat.div_lt_iff_lt_mul hc).mp h
  exact Nat.lt_of_lt_of_le hlt (Nat.div_mul_le_self n c)

theorem OnPage.carriageReturn (h : t.OnPage p) : t.OnPage p.carriageReturn := ⟨Nat.zero_le _, h.row⟩

theorem OnPage.backspace (h : t.OnPage p) : t.OnPage p.backspace := ⟨(Nat.sub_le _ _).trans h.col, h.row⟩

theorem OnPage.newline (h : t.OnPage p) : t.OnPage (t.newline bg p) := by
  rw [Terminal.newline, linefeed]
  split
  · next hrow => exact ⟨Nat.zero_le _, hrow⟩
  · exact ⟨Nat.zero_le _, h.row⟩

theorem newline_col : (t.newline bg p).col = 0 := rfl

theorem OnPage.stroke (h : t.OnPage p) (hcol : p.col < t.cols) : t.OnPage (p.stroke k fg) := ⟨hcol, h.row⟩

theorem OnPage.put (h : t.OnPage p) : t.OnPage (t.put k fg bg p) := by
  rw [Terminal.put, wrap]
  split
  · next hcol => exact h.stroke hcol
  · exact h.newline.stroke t.cols_pos

theorem OnPage.moveTo (h : t.OnPage p) (col row : Nat) : t.OnPage (t.moveTo col row p) := by
  rw [Terminal.moveTo]
  split
  · next hin => exact ⟨Nat.le_of_lt hin.1, hin.2⟩
  · exact h

/-! ## What the operations draw -/

/-- The character in a cell. -/
def cell (t : Terminal κ) (col row : Nat) (k : κ) : Region := fun x y =>
  decide (x / t.cellW = col ∧ y / t.cellH = row) && t.shape k (x % t.cellW) (y % t.cellH)

@[simp] theorem render_carriageReturn : t.render p.carriageReturn = t.render p := rfl

@[simp] theorem render_backspace : t.render p.backspace = t.render p := rfl

@[simp] theorem render_moveTo (col row : Nat) : t.render (t.moveTo col row p) = t.render p := by
  rw [moveTo]
  split <;> rfl

theorem render_stroke (h : t.OnPage p) (hcol : p.col < t.cols) :
    t.render (p.stroke k fg) = fill (t.cell p.col p.row k) fg (t.render p) := by
  funext x y
  rw [render, fill, render, cell]
  by_cases hcell : x / t.cellW = p.col ∧ y / t.cellH = p.row
  · simp only [hcell, hcol, h.row, decide_true, Bool.true_and, if_true, Page.stroke, List.find?_cons, and_self]
    by_cases hlit : t.shape k (x % t.cellW) (y % t.cellH) = true
    · rw [hlit, if_pos rfl]
      rfl
    · rw [if_neg hlit, Bool.eq_false_iff.mpr hlit]
  · simp only [hcell, decide_false, Bool.false_and, Bool.false_eq_true, if_false, Page.stroke]

/-- At the end of the last row the screen scrolls by a cell. -/
theorem render_linefeed : t.render (t.linefeed bg p) =
    if p.row + 1 < t.rows then t.render p else scroll t.width t.height t.cellH bg (t.render p) := by
  rw [linefeed]
  split
  · rfl
  funext x y
  have hpos := t.cellH_pos
  have hdown : (y + t.cellH) / t.cellH = y / t.cellH + 1 := Nat.add_div_right y hpos
  -- above the strip a cell shows what the one below it did; in the strip and below the grid there is no ink
  have hink (hy : ¬ y / t.cellH + 1 < t.rows) : t.render { p with
      under := scroll t.width t.height t.cellH bg p.under
      ink := fun col row => if row + 1 < t.rows then p.ink col (row + 1) else [] } x y =
        scroll t.width t.height t.cellH bg p.under x y := by
    simp only [render, if_neg hy, List.find?_nil, Option.elim_none, ite_self]
  have hlow (hy : ¬ y / t.cellH + 1 < t.rows) : t.render p x (y + t.cellH) = p.under x (y + t.cellH) := by
    rw [render, hdown, if_neg fun h => hy h.2]
  by_cases hy : y / t.cellH + 1 < t.rows
  · have hH : y + t.cellH < t.height := lt_of_div_lt hpos (by rw [hdown]; exact hy)
    have hyH : y < t.height := by omega
    by_cases hx : x / t.cellW < t.cols
    · have hW : x < t.width := lt_of_div_lt t.cellW_pos hx
      simp only [render, scroll, hdown, Nat.add_mod_right, hx, hy, hH, hW, hyH, and_self, if_true, Nat.lt_of_succ_lt hy]
    · simp only [render, scroll, hdown, hx, hH, false_and, if_false, if_true]
  · rw [hink hy, scroll, scroll, hlow hy]
    by_cases hin : x < t.width ∧ y < t.height
    · rw [if_pos hin, if_pos hin]
    · rw [if_neg hin, if_neg hin, render, if_neg]
      rintro ⟨hx, hy'⟩
      exact hin ⟨lt_of_div_lt t.cellW_pos hx, lt_of_div_lt hpos hy'⟩

theorem render_newline : t.render (t.newline bg p) =
    if p.row + 1 < t.rows then t.render p else scroll t.width t.height t.cellH bg (t.render p) := by
  rw [newline, render_carriageReturn, render_linefeed]

theorem render_clear : t.render (t.clear bg p) = fill (box 0 t.width 0 t.height) bg (t.render p) := by
  funext x y
  have hclear : t.render (t.clear bg p) x y = fill (box 0 t.width 0 t.height) bg p.under x y := by
    simp only [render, clear, List.find?_nil, Option.elim_none, ite_self]
  rw [hclear, fill, fill]
  by_cases hin : box 0 t.width 0 t.height x y = true
  · rw [if_pos hin, if_pos hin]
  · rw [if_neg hin, if_neg hin, render, if_neg]
    rintro ⟨hx, hy⟩
    exact hin (box_iff.mpr ⟨Nat.zero_le _, lt_of_div_lt t.cellW_pos hx, Nat.zero_le _, lt_of_div_lt t.cellH_pos hy⟩)

end Terminal

end Ferro
