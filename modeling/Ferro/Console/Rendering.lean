import Ferro.Base.Terminal
import Ferro.Console.Cursor
import Ferro.Display.Runs

/-!
# The console on the screen

What the console draws, pixel by pixel, is a text terminal: a grid of cells of 12 by 20 pixels over what was on the
screen before. A character does not clear its cell, so that characters can be struck over others.
-/

namespace Ferro

namespace Console

open Raster Display WriteBack

/-! ## The terminal -/

/-- A pixel of the font is two by two on the screen. -/
def lit (c : Char) : Region := fun dx dy =>
  decide (dx / 2 < 5) && decide (dy / 2 < 7) && ((glyph c).nth (dy / 2)).toNat.testBit (4 - dx / 2)

def Framebuffer.terminal (fb : Console.Framebuffer) (h : fb.Fits) : Terminal Char where
  cellW := 12
  cellH := 20
  width := fb.width.toNat
  height := fb.height.toNat
  shape := lit
  cellW_pos := by decide
  cellH_pos := by decide
  fits_width := h.width
  fits_height := h.height

/-- The colours of an attribute: of the text, and behind it. -/
def colours (attr : UInt64) : UInt32 × UInt32 :=
  (palette.getD (attr.toNat % 16) 0, palette.getD (attr.toNat / 16 % 8) 0)

abbrev Paper := Page Char UInt32

/-- A page, and the attribute that is typed with. -/
structure Typist where
  page : Paper
  attr : UInt64

/-- A unit of a string. What is not printable and not one of the three controls leaves the page as it is. -/
def Typist.unit (t : Terminal Char) (s : Typist) (c : UInt16) : Typist :=
  if c = 0x0D then
    { s with page := s.page.carriageReturn }
  else if c = 0x0A then
    { s with page := t.newline (colours s.attr).2 s.page }
  else if c = 0x08 then
    { s with page := s.page.backspace }
  else if 0x20 ≤ c ∧ c ≤ 0x7E then
    { s with page := t.put (Char.ofNat c.toNat) (colours s.attr).1 (colours s.attr).2 s.page }
  else
    s

def Typist.call (t : Terminal Char) (s : Typist) : Call → Typist
  | .outputString none => s
  | .outputString (some string) => (string.takeWhile (· ≠ 0)).foldl (Typist.unit t) s
  | .setCursorPosition column row => { s with page := t.moveTo (column.toNat % 2 ^ 32) (row.toNat % 2 ^ 32) s.page }
  | .setAttribute attr => { s with attr }
  | .reset => { s with page := t.clear (colours s.attr).2 s.page }
  | .clearScreen => { s with page := t.clear (colours s.attr).2 s.page }

/-- A screen that shows `p`, with the cursor in the first cell. -/
def Typist.start (p : Picture UInt32) : Typist := ⟨⟨p, fun _ _ => [], 0, 0⟩, 0x07⟩

/-! ## What the console draws -/

/-- The calls of the framebuffer. -/
def Effect.commands : Effect → List Command
  | .glyph x y c scale fg => [.drawChar x y (Char.ofNat c.toNat) scale fg]
  | .scrollUp rowsPx bg => [.scrollUp rowsPx bg]
  | .clear bg => [.clear bg]
  | .flush => [.flush]
  | .putc _ => []

def commands (es : List Effect) : List Command := es.flatMap Effect.commands

@[simp] theorem commands_nil : commands [] = [] := rfl

@[simp] theorem commands_append (es es' : List Effect) : commands (es ++ es') = commands es ++ commands es' :=
  List.flatMap_append

@[simp] theorem commands_mirror (scr : Screen) (b : UInt8) : commands (mirror scr b) = [] := by
  rcases mirror_eq scr b with h | h <;> rw [h] <;> rfl

/-- The console and the terminal have the same cursor on the same grid. -/
structure Follows (fb : Console.Framebuffer) (scr : Screen) (s : Typist) : Prop where
  onGrid : OnGrid fb scr
  col : s.page.col = scr.cursorCol.toUInt32.toNat
  row : s.page.row = scr.cursorRow.toUInt32.toNat
  attr : s.attr = scr.attr

theorem fgBg_eq (scr : Screen) : fgBg scr = colours scr.attr := by
  have hfg : (scr.attr &&& 0x0F).toNat = scr.attr.toNat % 16 := by
    rw [UInt64.toNat_and]
    exact Nat.and_two_pow_sub_one_eq_mod _ 4
  have hbg : (scr.attr >>> 4 &&& 0x07).toNat = scr.attr.toNat / 16 % 8 := by
    rw [UInt64.toNat_and, UInt64.toNat_shiftRight, Nat.shiftRight_eq_div_pow]
    exact Nat.and_two_pow_sub_one_eq_mod _ 3
  rw [fgBg, colours, hfg, hbg, Nat.min_eq_left (by omega), Nat.min_eq_left (by omega)]

variable {fb : Display.Framebuffer} {scr : Screen} {s : Typist} {x y : UInt32} {col row : Nat}

/-- One pixel of a character, in a cell of the screen. -/
theorem box_pixel (hx : x.toNat + 12 ≤ fb.width.toNat) (hy : y.toNat + 20 ≤ fb.height.toNat) {i j : Nat} (hi : i < 7)
    (hj : j < 5) (x' y' : Nat) :
    fb.box (x + UInt32.ofNat j * glyphScale) (y + UInt32.ofNat i * glyphScale) glyphScale glyphScale x' y' = true ↔
      (x.toNat + j * 2 ≤ x' ∧ x' < x.toNat + j * 2 + 2) ∧ y.toNat + i * 2 ≤ y' ∧ y' < y.toNat + i * 2 + 2 := by
  have hw := fb.width.toNat_lt
  have hh := fb.height.toNat_lt
  have hscale : glyphScale.toNat = 2 := rfl
  have hend {z : UInt32} {k : Nat} (hz : z.toNat + 12 < 2 ^ 32) (hk : k < 7) (hz' : z.toNat + k * 2 + 2 < 2 ^ 32) :
      (z + UInt32.ofNat k * glyphScale + glyphScale).toNat = z.toNat + k * 2 + 2 := by
    rw [UInt32.toNat_add, toNat_pixel (by omega), hscale, Nat.mod_eq_of_lt hz']
  rw [Display.Framebuffer.box, box_iff, Display.Framebuffer.toNat_min, Display.Framebuffer.toNat_min,
    toNat_pixel (by omega), toNat_pixel (by omega), hend (by omega) (by omega) (by omega),
    hend (by omega) hi (by omega)]
  omega

section Fits

variable (hfits : fb.toFramebuffer.Fits)

include hfits

/-- A character is drawn into its cell. -/
theorem paintChar_cell (hcol : col < fb.cols) (hrow : row < fb.rows) (hx : x.toNat = col * 12) (hy : y.toNat = row * 20)
    (c : Char) (fg : UInt32) (p : Picture UInt32) :
    fb.paintChar x y c glyphScale fg p = fill ((fb.terminal hfits).cell col row c) fg p := by
  have hwidth : x.toNat + 12 ≤ fb.width.toNat := by
    rw [Framebuffer.cols] at hcol
    omega
  have hheight : y.toNat + 20 ≤ fb.height.toNat := by
    rw [Framebuffer.rows] at hrow
    omega
  refine fill_congr (fun x' y' => ?_) fg p
  simp only [List.any_eq_true, drawChar, List.mem_flatMap, List.mem_map, List.mem_filter, List.mem_range,
    Terminal.cell, Framebuffer.terminal, lit, Bool.and_eq_true, decide_eq_true_eq]
  constructor
  · rintro ⟨r, ⟨i, hi, j, ⟨hj, hbit⟩, rfl⟩, hbox⟩
    obtain ⟨hx', hy'⟩ := (box_pixel hwidth hheight hi hj x' y').mp hbox
    rw [hx] at hx'
    rw [hy] at hy'
    obtain ⟨hcx, hdx⟩ : x' / 12 = col ∧ x' % 12 / 2 = j := by clear hy' hbit hbox; omega
    obtain ⟨hcy, hdy⟩ : y' / 20 = row ∧ y' % 20 / 2 = i := by clear hx' hbit hbox; omega
    rw [hdx, hdy]
    exact ⟨decide_eq_true_iff.mpr ⟨hcx, hcy⟩, ⟨hj, hi⟩, hbit⟩
  · rintro ⟨hcell, ⟨hj, hi⟩, hbit⟩
    refine ⟨_, ⟨_, hi, _, ⟨hj, hbit⟩, rfl⟩, (box_pixel hwidth hheight hi hj x' y').mpr ?_⟩
    have hcell := decide_eq_true_iff.mp hcell
    rw [hx, hy, ← hcell.1, ← hcell.2]
    clear hcell hbit
    omega

/-- The calls of the framebuffer turn one page into the other. -/
def Renders (es : List Effect) (p p' : Paper) : Prop :=
  (commands es).foldl fb.paint ((fb.terminal hfits).render p) = (fb.terminal hfits).render p'

theorem Renders.nil (p : Paper) : Renders hfits [] p p := rfl

variable {hfits} in
theorem Renders.append {es es' : List Effect} {p p' p'' : Paper} (h : Renders hfits es p p')
    (h' : Renders hfits es' p' p'') : Renders hfits (es ++ es') p p'' := by
  rw [Renders, commands_append, List.foldl_append, h, h']

variable {hfits} in
/-- The copy for the UART is not on the screen. -/
theorem Renders.mirror {es : List Effect} {p p' : Paper} (h : Renders hfits es p p') (scr : Screen) (b : UInt8) :
    Renders hfits (es ++ mirror scr b) p p' := by
  rw [Renders, commands_append, commands_mirror, List.append_nil, h]

theorem Follows.onPage (h : Follows fb.toFramebuffer scr s) : (fb.terminal hfits).OnPage s.page := by
  refine ⟨?_, ?_⟩
  · rw [h.col]; exact h.onGrid.col
  · rw [h.row]; exact h.onGrid.row

/-! ## Units -/

omit hfits in
theorem newline_row {fb : Console.Framebuffer} (hfb : fb.Fits) (h : OnGrid fb scr) :
    (newline scr).2.cursorRow.toUInt32.toNat =
      if scr.cursorRow.toUInt32.toNat + 1 < fb.rows then scr.cursorRow.toUInt32.toNat + 1
      else scr.cursorRow.toUInt32.toNat := by
  have hrow := h.row
  obtain rfl := h.same
  rw [newline]
  by_cases hlast : scr.cursorRow.toUInt32.toNat + 1 < scr.fb.rows
  · have hlt : ¬ (scr.cursorRow + 1).toUInt32 ≥ (gridSize scr.fb).2 := by
      rw [ge_iff_le, UInt32.le_iff_toNat_le, h.row_succ, gridSize_snd]
      omega
    simp only [hlt, if_false, if_pos hlast, h.row_succ]
  · have hge : (scr.cursorRow + 1).toUInt32 ≥ (gridSize scr.fb).2 := by
      rw [ge_iff_le, UInt32.le_iff_toNat_le, h.row_succ, gridSize_snd]
      omega
    simp only [hge, if_true, if_neg hlast, last_row hfb]
    omega

omit hfits in
theorem newline_attr (scr : Screen) : (newline scr).2.attr = scr.attr := by
  rw [newline]
  split <;> rfl

theorem Follows.newline (h : Follows fb.toFramebuffer scr s) :
    Renders hfits (newline scr).1 s.page ((fb.terminal hfits).newline (colours s.attr).2 s.page) ∧
      Follows fb.toFramebuffer (Console.newline scr).2
        { s with page := (fb.terminal hfits).newline (colours s.attr).2 s.page } := by
  have hrow := h.onGrid.row
  obtain ⟨hdrawn, hgrid, hcol⟩ := newline_spec hfits h.onGrid
  have hrows : (fb.terminal hfits).rows = fb.rows := rfl
  refine ⟨?_, hgrid, ?_, ?_, ?_⟩
  · rw [Renders, Terminal.render_newline, hdrawn, h.row, hrows, fgBg_eq, h.attr]
    by_cases hlast : scr.cursorRow.toUInt32.toNat + 1 = fb.rows
    · rw [if_pos hlast, if_neg (by omega)]
      rfl
    · rw [if_neg hlast, if_pos (by omega)]
      rfl
  · rw [Terminal.newline_col, hcol]
    rfl
  · rw [newline_row hfits h.onGrid, Terminal.newline, Terminal.linefeed, h.row, hrows]
    split <;> rfl
  · rw [newline_attr]
    exact h.attr

/-- In front of a character both are in a column of the grid. -/
theorem Follows.wrap (h : Follows fb.toFramebuffer scr s) :
    Renders hfits (wrap scr).1 s.page ((fb.terminal hfits).wrap (colours s.attr).2 s.page) ∧
      Follows fb.toFramebuffer (Console.wrap scr).2
        { s with page := (fb.terminal hfits).wrap (colours s.attr).2 s.page } := by
  have hfull : scr.cursorCol.toUInt32 ≥ (gridSize scr.fb).1 ↔ ¬ s.page.col < (fb.terminal hfits).cols := by
    rw [ge_iff_le, UInt32.le_iff_toNat_le, gridSize_fst, h.onGrid.same, h.col]
    exact Nat.not_lt.symm
  rw [Console.wrap, Terminal.wrap]
  by_cases hin : s.page.col < (fb.terminal hfits).cols
  · rw [if_neg (mt hfull.mp (not_not_intro hin)), if_pos hin]
    exact ⟨Renders.nil hfits _, h⟩
  · rw [if_pos (hfull.mpr hin), if_neg hin]
    exact h.newline hfits

theorem Follows.putChar (h : Follows fb.toFramebuffer scr s) (c : UInt8) :
    let page := (fb.terminal hfits).put (Char.ofNat c.toNat) (colours s.attr).1 (colours s.attr).2 s.page
    Renders hfits (putChar c scr).1 s.page page ∧
      Follows fb.toFramebuffer (Console.putChar c scr).2 { s with page } := by
  intro page
  obtain ⟨hbroken, hfollows⟩ := h.wrap hfits
  obtain ⟨-, hgrid, hcol⟩ := wrap_spec hfits h.onGrid
  have hput : Console.putChar c scr = ((Console.wrap scr).1 ++
      [.glyph ((Console.wrap scr).2.cursorCol.toUInt32 * cellW) ((Console.wrap scr).2.cursorRow.toUInt32 * cellH) c
        glyphScale (fgBg (Console.wrap scr).2).1],
      { (Console.wrap scr).2 with cursorCol := (Console.wrap scr).2.cursorCol + 1 }) := rfl
  have hwidth : (Console.wrap scr).2.cursorCol.toUInt32.toNat * 12 + 12 ≤ fb.width.toNat := by
    rw [Framebuffer.cols] at hcol
    omega
  have hheight : (Console.wrap scr).2.cursorRow.toUInt32.toNat * 20 + 20 ≤ fb.height.toNat := by
    have := hgrid.row
    rw [Framebuffer.rows] at this
    omega
  have hx := mul_cell (n := cellW) rfl hwidth fb.width.toNat_lt
  have hy := mul_cell (n := cellH) rfl hheight fb.height.toNat_lt
  have honPage := hfollows.onPage hfits
  obtain ⟨-, hc, hr, hattr⟩ := hfollows
  have hpage : page = ((fb.terminal hfits).wrap (colours s.attr).2 s.page).stroke (Char.ofNat c.toNat)
    (colours s.attr).1 := rfl
  refine ⟨?_, (putChar_spec hfits h.onGrid c).1, ?_, ?_, ?_⟩
  · rw [hput]
    refine hbroken.append ?_
    rw [Renders, hpage, Terminal.render_stroke honPage (by rw [hc]; exact hcol), hc, hr, fgBg_eq, ← hattr]
    exact paintChar_cell hfits hcol hgrid.row hx hy _ _ _
  · have hlt := fb.cols_lt
    have hone : (1 : Int32).toUInt32.toNat = 1 := rfl
    rw [hput, Int32.toUInt32_add, UInt32.toNat_add, hone, ← hc, Nat.mod_eq_of_lt (by omega)]
    rfl
  · rw [hput]
    exact hr
  · rw [hput]
    exact hattr

omit hfits in
/-- A backspace. -/
theorem Follows.backspace (h : Follows fb.toFramebuffer scr s) :
    Follows fb.toFramebuffer (if 0 < scr.cursorCol then { scr with cursorCol := scr.cursorCol - 1 } else scr)
      { s with page := s.page.backspace } := by
  have hgrid := h.onGrid.back
  have hcol := h.onGrid.col
  have hlt := fb.cols_lt
  have hpos : 0 < scr.cursorCol ↔ 0 < scr.cursorCol.toUInt32.toNat := by
    rw [Int32.lt_iff_toInt_lt, toInt_eq (x := scr.cursorCol) (by omega)]
    simp
  by_cases hzero : 0 < scr.cursorCol
  · rw [if_pos hzero] at hgrid ⊢
    refine ⟨hgrid, ?_, h.row, h.attr⟩
    have hone : (1 : UInt32) ≤ scr.cursorCol.toUInt32 := UInt32.le_iff_toNat_le.mpr (hpos.mp hzero)
    rw [Int32.toUInt32_sub]
    exact (congrArg (· - 1) h.col).trans (UInt32.toNat_sub_of_le _ _ hone).symm
  · rw [if_neg hzero]
    refine ⟨h.onGrid, ?_, h.row, h.attr⟩
    have hcol0 : scr.cursorCol.toUInt32.toNat = 0 := by
      have := mt hpos.mpr hzero
      omega
    show s.page.col - 1 = _
    rw [h.col, hcol0]

/-- One unit of a string. -/
theorem Follows.unit (h : Follows fb.toFramebuffer scr s) (c : UInt16) :
    Renders hfits (putUnit scr c).1 s.page (s.unit (fb.terminal hfits) c).page ∧
      Follows fb.toFramebuffer (putUnit scr c).2 (s.unit (fb.terminal hfits) c) := by
  rw [Typist.unit, putUnit]
  by_cases hcr : c = 0x0D
  · rw [if_pos hcr, if_pos hcr]
    exact ⟨(Renders.nil hfits _).mirror scr _, ⟨h.onGrid.same, Nat.zero_le _, h.onGrid.row⟩, rfl, h.row, h.attr⟩
  rw [if_neg hcr, if_neg hcr]
  by_cases hlf : c = 0x0A
  · obtain ⟨hdrawn, hfollows⟩ := h.newline hfits
    rw [if_pos hlf, if_pos hlf]
    exact ⟨hdrawn.mirror scr _, hfollows⟩
  rw [if_neg hlf, if_neg hlf]
  by_cases hbs : c = 0x08
  · rw [if_pos hbs, if_pos hbs]
    exact ⟨Renders.nil hfits _, h.backspace⟩
  rw [if_neg hbs, if_neg hbs]
  by_cases hchar : 0x20 ≤ c ∧ c ≤ 0x7E
  · have hbyte : c.toUInt8.toNat = c.toNat := by
      have hle := UInt16.le_iff_toNat_le.mp hchar.2
      have h7e : (0x7E : UInt16).toNat = 0x7E := rfl
      rw [UInt16.toNat_toUInt8]
      omega
    obtain ⟨hdrawn, hfollows⟩ := h.putChar hfits c.toUInt8
    rw [hbyte] at hdrawn hfollows
    rw [if_pos hchar, if_pos hchar]
    exact ⟨hdrawn.mirror scr _, hfollows⟩
  · rw [if_neg hchar, if_neg hchar]
    exact ⟨Renders.nil hfits _, h⟩

/-! ## Calls -/

theorem Follows.units (h : Follows fb.toFramebuffer scr s) (string : List UInt16) :
    Renders hfits (units.run scr string).1 s.page (string.foldl (Typist.unit (fb.terminal hfits)) s).page ∧
      Follows fb.toFramebuffer (Console.units.run scr string).2 (string.foldl (Typist.unit (fb.terminal hfits)) s) := by
  induction string generalizing scr s with
  | nil => exact ⟨Renders.nil hfits _, h⟩
  | cons c string ih =>
      obtain ⟨hunit, hnext⟩ := h.unit hfits c
      obtain ⟨hrest, hlast⟩ := ih hnext
      exact ⟨hunit.append hrest, hlast⟩

omit hfits in
theorem Follows.syncMode (h : Follows fb.toFramebuffer scr s) : Follows fb.toFramebuffer (syncMode scr) s :=
  ⟨h.onGrid.syncMode, h.col, h.row, h.attr⟩

theorem Follows.clear (h : Follows fb.toFramebuffer scr s) :
    Renders hfits [.clear (fgBg scr).2, .flush] s.page ((fb.terminal hfits).clear (colours s.attr).2 s.page) ∧
      Follows fb.toFramebuffer { scr with cursorCol := 0, cursorRow := 0 }
        { s with page := (fb.terminal hfits).clear (colours s.attr).2 s.page } := by
  refine ⟨?_, h.onGrid.home hfits, rfl, rfl, h.attr⟩
  rw [Renders, Terminal.render_clear, fgBg_eq, h.attr]
  rfl

theorem Follows.moveTo (h : Follows fb.toFramebuffer scr s) (column row : UInt64) :
    Renders hfits (setCursorPosition scr column row).2.1 s.page
        ((fb.terminal hfits).moveTo (column.toNat % 2 ^ 32) (row.toNat % 2 ^ 32) s.page) ∧
      Follows fb.toFramebuffer (setCursorPosition scr column row).2.2
        { s with page := (fb.terminal hfits).moveTo (column.toNat % 2 ^ 32) (row.toNat % 2 ^ 32) s.page } := by
  have hout : (column.toUInt32 ≥ (gridSize scr.fb).1 ∨ row.toUInt32 ≥ (gridSize scr.fb).2) ↔
      ¬ (column.toNat % 2 ^ 32 < (fb.terminal hfits).cols ∧ row.toNat % 2 ^ 32 < (fb.terminal hfits).rows) := by
    simp only [ge_iff_le, UInt32.le_iff_toNat_le, gridSize_fst, gridSize_snd, h.onGrid.same, UInt64.toNat_toUInt32]
    rw [not_and_or, Nat.not_lt, Nat.not_lt]
    rfl
  have hgrid := (call_spec hfits h.onGrid (.setCursorPosition column row)).onGrid
  rw [setCursorPosition, Terminal.moveTo]
  simp only [call, setCursorPosition] at hgrid
  by_cases hin : column.toNat % 2 ^ 32 < (fb.terminal hfits).cols ∧ row.toNat % 2 ^ 32 < (fb.terminal hfits).rows
  · rw [if_neg (mt hout.mp (not_not_intro hin))] at hgrid ⊢
    rw [if_pos hin]
    exact ⟨Renders.nil hfits _, hgrid, (UInt64.toNat_toUInt32 _).symm, (UInt64.toNat_toUInt32 _).symm, h.attr⟩
  · rw [if_pos (hout.mpr hin), if_neg hin]
    exact ⟨Renders.nil hfits _, h⟩

/-- One call. -/
theorem Follows.call (h : Follows fb.toFramebuffer scr s) (c : Call) :
    Renders hfits (call scr c).2.1 s.page (s.call (fb.terminal hfits) c).page ∧
      Follows fb.toFramebuffer (Console.call scr c).2.2 (s.call (fb.terminal hfits) c) := by
  cases c with
  | outputString string =>
      cases string with
      | none => exact ⟨Renders.nil hfits _, h⟩
      | some string =>
          obtain ⟨hdrawn, hfollows⟩ := h.units hfits (string.takeWhile (· ≠ 0))
          refine ⟨hdrawn.append ?_, hfollows.syncMode⟩
          exact Renders.nil hfits _
  | setCursorPosition column row => exact h.moveTo hfits column row
  | setAttribute attr =>
      refine ⟨Renders.nil hfits _, Follows.syncMode ?_⟩
      exact ⟨⟨h.onGrid.same, h.onGrid.col, h.onGrid.row⟩, h.col, h.row, rfl⟩
  | reset => exact ⟨(h.clear hfits).1, (h.clear hfits).2.syncMode⟩
  | clearScreen => exact ⟨(h.clear hfits).1, (h.clear hfits).2.syncMode⟩

theorem Follows.calls (h : Follows fb.toFramebuffer scr s) (cs : List Call) :
    Renders hfits (calls.run scr cs).1 s.page (cs.foldl (Typist.call (fb.terminal hfits)) s).page ∧
      Follows fb.toFramebuffer (Console.calls.run scr cs).2 (cs.foldl (Typist.call (fb.terminal hfits)) s) := by
  induction cs generalizing scr s with
  | nil => exact ⟨Renders.nil hfits _, h⟩
  | cons c cs ih =>
      obtain ⟨hcall, hnext⟩ := h.call hfits c
      obtain ⟨hrest, hlast⟩ := ih hnext
      exact ⟨hcall.append hrest, hlast⟩

theorem Follows.start (before : Screen) (uart : Bool) (p : Picture UInt32) :
    Follows fb.toFramebuffer (init before fb.toFramebuffer uart) (.start p) :=
  ⟨OnGrid.init hfits before uart, rfl, rfl, rfl⟩

omit hfits in
theorem flushed_append {cs cs' : List Command} (h : Display.Framebuffer.Flushed cs)
    (h' : Display.Framebuffer.Flushed cs') : Display.Framebuffer.Flushed (cs ++ cs') := by
  rcases h' with rfl | h'
  · rwa [List.append_nil]
  · exact .inr (by rw [List.getLast?_append, h', Option.some_or])

omit hfits in
/-- A call that draws ends with a flush. -/
theorem flushed_calls (scr : Screen) (cs : List Call) : Display.Framebuffer.Flushed (commands (calls.run scr cs).1) := by
  induction cs generalizing scr with
  | nil => exact .inl rfl
  | cons c cs ih =>
      rw [Transducer.run_cons, commands_append]
      refine flushed_append ?_ (ih _)
      cases c with
      | outputString string =>
          cases string with
          | none => exact .inl rfl
          | some string =>
              simp only [calls, call, outputString, commands_append]
              exact .inr (by rw [List.getLast?_append]; rfl)
      | setCursorPosition column row =>
          refine .inl ?_
          simp only [calls, call, setCursorPosition]
          split <;> rfl
      | setAttribute attr => exact .inl rfl
      | reset => exact .inr rfl
      | clearScreen => exact .inr rfl

theorem render_start (line : Nat) (m : Memory) :
    (fb.terminal hfits).render (Typist.start (fb.view line m)).page = fb.view line m := by
  funext x y
  simp only [Terminal.render, Typist.start, List.find?_nil, Option.elim_none, ite_self]

/-- From `init` on, after any calls, the CPU and the GPU both read the page of the terminal that the calls type, over what
was on the screen; the cursor is the terminal's, and the calls write nothing outside of the framebuffer. -/
theorem console_renders {line : Nat} {m m' : Memory} (hok : fb.Ok) (hline : 0 < line) (hm : Coherent line m)
    (hshown : fb.Shown line m) (before : Screen) (uart : Bool) (cs : List Call)
    (hrun : fb.Run line m (commands (calls.run (init before fb.toFramebuffer uart) cs).1) m') :
    let s := cs.foldl (Typist.call (fb.terminal hfits)) (.start (fb.view line m))
    let scr := (calls.run (init before fb.toFramebuffer uart) cs).2
    fb.view line m' = (fb.terminal hfits).render s.page ∧ fb.scanout m' = (fb.terminal hfits).render s.page ∧
      (scr.cursorCol.toInt = s.page.col ∧ scr.cursorRow.toInt = s.page.row) ∧
      ∀ a, fb.Outside a → m'.visible line a = m.visible line a := by
  intro s scr
  obtain ⟨-, hview, hout⟩ := hrun.draws hok hm
  obtain ⟨hrenders, hfollows⟩ := (Follows.start hfits before uart (fb.view line m)).calls hfits cs
  rw [Renders, render_start hfits line m] at hrenders
  have hpicture : fb.view line m' = (fb.terminal hfits).render s.page := hview.trans hrenders
  obtain ⟨hcol, hrow⟩ := hfollows.onGrid.signed
  refine ⟨hpicture, ?_, ⟨?_, ?_⟩, hout⟩
  · rw [(hrun.shown_of_flushed hok hline hm hshown (flushed_calls _ cs)).scanout hok, hpicture]
  · rw [hcol, hfollows.col]
  · rw [hrow, hfollows.row]

end Fits

/-- An underscore that is struck over an A: both are on the screen. -/
theorem console_renders_overstrike :
    let fb : Display.Framebuffer := ⟨⟨24, 40⟩, 0x1000, 96, 32⟩
    let cs : List Call := [.outputString (some [0x41, 0x08, 0x5F, 0])]
    let blank : Screen := ⟨⟨0, 0⟩, false, 5, 5, 0, ⟨0, 0, 0⟩⟩
    let m' := (commands (calls.run (init blank fb.toFramebuffer true) cs).1).foldl (fb.run 64)
      ⟨fun _ => 0, fun _ => none⟩
    fb.scanout m' 2 0 = 0x00A0A0A0 ∧ fb.scanout m' 0 12 = 0x00A0A0A0 := by
  intro fb cs blank m'
  have hrun := Display.Framebuffer.Run.still fb 64 ⟨fun _ => 0, fun _ => none⟩
    (commands (calls.run (init blank fb.toFramebuffer true) cs).1)
  have h := (console_renders ⟨by decide, by decide⟩ ⟨rfl, by decide⟩ (by decide) (fun _ _ h => by cases h)
    (fun _ _ _ => shown_of_no_line rfl) blank true cs hrun).2.1
  rw [h]
  exact ⟨by decide, by decide⟩

end Console

end Ferro
