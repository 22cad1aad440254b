import Ferro.Console.Output

/-!
# The cursor

The cursor's column and row are signed and compared as unsigned numbers. `OnGrid` keeps both small enough for the two
readings to agree; each unit of a string and each call keeps it.
-/

namespace Ferro

namespace Console

/-! ## The grid -/

def Framebuffer.cols (fb : Framebuffer) : Nat := fb.width.toNat / 12

def Framebuffer.rows (fb : Framebuffer) : Nat := fb.height.toNat / 20

/-- The framebuffer has room for a cell. -/
structure Framebuffer.Fits (fb : Framebuffer) : Prop where
  width : 12 ≤ fb.width.toNat
  height : 20 ≤ fb.height.toNat

/-- The numbers that the comparisons see. -/
structure OnGrid (fb : Framebuffer) (scr : Screen) : Prop where
  same : scr.fb = fb
  col : scr.cursorCol.toUInt32.toNat ≤ fb.cols
  row : scr.cursorRow.toUInt32.toNat < fb.rows

theorem gridSize_fst (fb : Framebuffer) : (gridSize fb).1.toNat = fb.cols := UInt32.toNat_div _ _

theorem gridSize_snd (fb : Framebuffer) : (gridSize fb).2.toNat = fb.rows := UInt32.toNat_div _ _

theorem Framebuffer.cols_lt (fb : Framebuffer) : fb.cols < 2 ^ 29 := by
  have := fb.width.toNat_lt
  rw [cols]
  omega

theorem Framebuffer.rows_lt (fb : Framebuffer) : fb.rows < 2 ^ 29 := by
  have := fb.height.toNat_lt
  rw [rows]
  omega

/-- A number below 2^31 is the same read as signed. -/
theorem toInt_eq {x : Int32} (h : x.toUInt32.toNat < 2 ^ 31) : x.toInt = x.toUInt32.toNat := by
  rw [← Int32.toNat_toBitVec] at h ⊢
  rw [← Int32.toInt_toBitVec]
  exact BitVec.toInt_eq_toNat_of_lt (by omega)

/-! ## Line breaks -/

variable {fb : Framebuffer} {scr : Screen}

theorem OnGrid.row_succ (h : OnGrid fb scr) :
    (scr.cursorRow + 1).toUInt32.toNat = scr.cursorRow.toUInt32.toNat + 1 := by
  have hrow := h.row
  have hlt := fb.rows_lt
  have hone : (1 : Int32).toUInt32.toNat = 1 := rfl
  rw [Int32.toUInt32_add, UInt32.toNat_add, hone]
  exact Nat.mod_eq_of_lt (by omega)

/-- The last row, as a row of the cursor. -/
theorem last_row (hfb : fb.Fits) : ((gridSize fb).2.toInt32 - 1).toUInt32.toNat = fb.rows - 1 := by
  have hpos : 1 ≤ fb.rows := by
    have := hfb.height
    rw [Framebuffer.rows]
    omega
  rw [Int32.toUInt32_sub, UInt32.toUInt32_toInt32, UInt32.toNat_sub_of_le, gridSize_snd]
  · rfl
  · rw [UInt32.le_iff_toNat_le, gridSize_snd]
    exact hpos

/-- A line break scrolls on the last row, and only there. -/
theorem newline_spec (hfb : fb.Fits) (h : OnGrid fb scr) :
    (newline scr).1 = (if scr.cursorRow.toUInt32.toNat + 1 = fb.rows then [.scrollUp cellH (fgBg scr).2] else []) ∧
      OnGrid fb (newline scr).2 ∧ (newline scr).2.cursorCol = 0 := by
  have hrow := h.row
  obtain rfl := h.same
  rw [newline]
  by_cases hlast : scr.cursorRow.toUInt32.toNat + 1 = scr.fb.rows
  · have hge : (scr.cursorRow + 1).toUInt32 ≥ (gridSize scr.fb).2 := by
      rw [ge_iff_le, UInt32.le_iff_toNat_le, h.row_succ, gridSize_snd]
      omega
    simp only [hge, if_true, if_pos hlast]
    refine ⟨trivial, ⟨rfl, Nat.zero_le _, ?_⟩, trivial⟩
    rw [last_row hfb]
    omega
  · have hlt : ¬ (scr.cursorRow + 1).toUInt32 ≥ (gridSize scr.fb).2 := by
      rw [ge_iff_le, UInt32.le_iff_toNat_le, h.row_succ, gridSize_snd]
      omega
    simp only [hlt, if_false, if_neg hlast]
    refine ⟨trivial, ⟨rfl, Nat.zero_le _, ?_⟩, trivial⟩
    rw [h.row_succ]
    omega

/-- In front of a character the cursor is moved to a column of the grid. -/
theorem wrap_spec (hfb : fb.Fits) (h : OnGrid fb scr) :
    (wrap scr).1 = (if scr.cursorCol.toUInt32.toNat = fb.cols then (newline scr).1 else []) ∧
      OnGrid fb (wrap scr).2 ∧ (wrap scr).2.cursorCol.toUInt32.toNat < fb.cols := by
  have hcol := h.col
  have hpos : 0 < fb.cols := by
    have := hfb.width
    rw [Framebuffer.cols]
    omega
  obtain rfl := h.same
  rw [wrap]
  by_cases hfull : scr.cursorCol.toUInt32.toNat = scr.fb.cols
  · have hge : scr.cursorCol.toUInt32 ≥ (gridSize scr.fb).1 := by
      rw [ge_iff_le, UInt32.le_iff_toNat_le, gridSize_fst]
      omega
    obtain ⟨-, hgrid, hzero⟩ := newline_spec hfb h
    rw [if_pos hge, if_pos hfull]
    refine ⟨rfl, hgrid, ?_⟩
    rw [hzero]
    exact hpos
  · have hlt : ¬ scr.cursorCol.toUInt32 ≥ (gridSize scr.fb).1 := by
      rw [ge_iff_le, UInt32.le_iff_toNat_le, gridSize_fst]
      omega
    rw [if_neg hlt, if_neg hfull]
    exact ⟨rfl, h, by dsimp only; omega⟩

/-! ## Characters -/

/-- A glyph fills nothing outside its cell, which is one of the grid. -/
def Effect.Inside (fb : Framebuffer) : Effect → Prop
  | .glyph x y _ scale _ =>
    (∃ col row, col < fb.cols ∧ row < fb.rows ∧ x.toNat = col * 12 ∧ y.toNat = row * 20) ∧
      ∀ rows, ∀ r ∈ drawChar rows x y scale,
        x.toNat ≤ r.x0.toNat ∧ r.x0.toNat + r.w.toNat ≤ fb.width.toNat ∧
          y.toNat ≤ r.y0.toNat ∧ r.y0.toNat + r.h.toNat ≤ fb.height.toNat
  | .scrollUp _ _ => True
  | .clear _ => True
  | .flush => True
  | .putc _ => True

/-- The unit ends the line: a line feed, or a character behind the last column. -/
def LineBreak (scr : Screen) (c : UInt16) : Prop :=
  c = 0x0A ∨ ((0x20 ≤ c ∧ c ≤ 0x7E) ∧ scr.cursorCol.toUInt32.toNat = scr.fb.cols)

instance (scr : Screen) (c : UInt16) : Decidable (LineBreak scr c) := by
  unfold LineBreak; infer_instance

def Effect.isScroll : Effect → Bool
  | .scrollUp _ _ => true
  | .glyph _ _ _ _ _ => false
  | .clear _ => false
  | .flush => false
  | .putc _ => false

theorem mul_cell {a n : UInt32} {k m : Nat} (hn : n.toNat = k) (h : a.toNat * k + k ≤ m) (hm : m < 2 ^ 32) :
    (a * n).toNat = a.toNat * k := by
  rw [UInt32.toNat_mul, hn]
  exact Nat.mod_eq_of_lt (by omega)

theorem toNat_pixel {x : UInt32} {j : Nat} (h : x.toNat + j * 2 < 2 ^ 32) :
    (x + UInt32.ofNat j * glyphScale).toNat = x.toNat + j * 2 := by
  have hscale : glyphScale.toNat = 2 := rfl
  rw [UInt32.toNat_add, UInt32.toNat_mul, UInt32.toNat_ofNat', hscale]
  omega

theorem drawChar_inside {x y : UInt32} (hx : x.toNat + 12 ≤ fb.width.toNat) (hy : y.toNat + 20 ≤ fb.height.toNat)
    (rows : Bytes 7) {r : Rect} (hr : r ∈ drawChar rows x y glyphScale) :
    x.toNat ≤ r.x0.toNat ∧ r.x0.toNat + r.w.toNat ≤ fb.width.toNat ∧
      y.toNat ≤ r.y0.toNat ∧ r.y0.toNat + r.h.toNat ≤ fb.height.toNat := by
  have hw := fb.width.toNat_lt
  have hh := fb.height.toNat_lt
  have hscale : glyphScale.toNat = 2 := rfl
  simp only [drawChar, List.mem_flatMap, List.mem_map, List.mem_filter, List.mem_range] at hr
  obtain ⟨i, hi, j, ⟨hj, -⟩, rfl⟩ := hr
  simp only [toNat_pixel (x := x) (j := j) (by omega), toNat_pixel (x := y) (j := i) (by omega), hscale]
  omega

theorem glyph_inside (hcol : scr.cursorCol.toUInt32.toNat < fb.cols) (hrow : scr.cursorRow.toUInt32.toNat < fb.rows)
    (c : UInt8) (fg : UInt32) :
    (Effect.glyph (scr.cursorCol.toUInt32 * cellW) (scr.cursorRow.toUInt32 * cellH) c glyphScale fg).Inside fb := by
  have hwidth : scr.cursorCol.toUInt32.toNat * 12 + 12 ≤ fb.width.toNat := by
    rw [Framebuffer.cols] at hcol
    omega
  have hheight : scr.cursorRow.toUInt32.toNat * 20 + 20 ≤ fb.height.toNat := by
    rw [Framebuffer.rows] at hrow
    omega
  have hx := mul_cell (n := cellW) rfl hwidth fb.width.toNat_lt
  have hy := mul_cell (n := cellH) rfl hheight fb.height.toNat_lt
  exact ⟨⟨_, _, hcol, hrow, hx, hy⟩, fun rows r hr => drawChar_inside (hx ▸ hwidth) (hy ▸ hheight) rows hr⟩

/-- What one unit of a string does to a cursor on the grid. -/
structure UnitSpec (fb : Framebuffer) (scr : Screen) (c : UInt16) : Prop where
  onGrid : OnGrid fb (putUnit scr c).2
  inside : ∀ e ∈ (putUnit scr c).1, e.Inside fb
  scrolls : (putUnit scr c).1.countP Effect.isScroll =
    if LineBreak scr c ∧ scr.cursorRow.toUInt32.toNat + 1 = fb.rows then 1 else 0

theorem mirror_eq (scr : Screen) (b : UInt8) : mirror scr b = [] ∨ mirror scr b = [.putc b] := by
  rw [mirror]
  split
  · exact .inr rfl
  · exact .inl rfl

theorem newline_inside (hfb : fb.Fits) (h : OnGrid fb scr) : ∀ e ∈ (newline scr).1, e.Inside fb := by
  rw [(newline_spec hfb h).1]
  split <;> simp [Effect.Inside]

theorem newline_scrolls (hfb : fb.Fits) (h : OnGrid fb scr) : (newline scr).1.countP Effect.isScroll =
    if scr.cursorRow.toUInt32.toNat + 1 = fb.rows then 1 else 0 := by
  rw [(newline_spec hfb h).1]
  split <;> rfl

/-- A backspace. -/
theorem OnGrid.back (h : OnGrid fb scr) :
    OnGrid fb (if 0 < scr.cursorCol then { scr with cursorCol := scr.cursorCol - 1 } else scr) := by
  have hcol := h.col
  have hlt := fb.cols_lt
  split
  · rename_i hpos
    have hpos : 0 < scr.cursorCol.toUInt32.toNat := by
      rw [Int32.lt_iff_toInt_lt, toInt_eq (x := scr.cursorCol) (by omega)] at hpos
      simpa using hpos
    have hone : (1 : UInt32) ≤ scr.cursorCol.toUInt32 := by
      rw [UInt32.le_iff_toNat_le]
      exact hpos
    refine ⟨h.same, ?_, h.row⟩
    have hsub : (scr.cursorCol - 1).toUInt32.toNat = scr.cursorCol.toUInt32.toNat - 1 := by
      rw [Int32.toUInt32_sub]
      exact UInt32.toNat_sub_of_le _ _ hone
    dsimp only
    omega
  · exact h

theorem putChar_spec (hfb : fb.Fits) (h : OnGrid fb scr) (c : UInt8) :
    OnGrid fb (putChar c scr).2 ∧ (∀ e ∈ (putChar c scr).1, e.Inside fb) ∧
      (putChar c scr).1.countP Effect.isScroll =
        if scr.cursorCol.toUInt32.toNat = fb.cols ∧ scr.cursorRow.toUInt32.toNat + 1 = fb.rows then 1 else 0 := by
  obtain ⟨hdrawn, hgrid, hcol⟩ := wrap_spec hfb h
  have hlt := fb.cols_lt
  rw [putChar]
  refine ⟨⟨hgrid.same, ?_, hgrid.row⟩, ?_, ?_⟩
  · have hone : (1 : Int32).toUInt32.toNat = 1 := rfl
    rw [Int32.toUInt32_add, UInt32.toNat_add, hone]
    omega
  · intro e he
    rcases List.mem_append.mp he with he | he
    · rw [hdrawn] at he
      split at he
      · exact newline_inside hfb h e he
      · cases he
    · rw [List.mem_singleton.mp he]
      exact glyph_inside hcol hgrid.row c _
  · rw [List.countP_append, hdrawn]
    by_cases hfull : scr.cursorCol.toUInt32.toNat = fb.cols
    · simp [hfull, newline_scrolls hfb h, Effect.isScroll]
    · simp [hfull, Effect.isScroll]

theorem mirror_inside (scr : Screen) (b : UInt8) : ∀ e ∈ mirror scr b, e.Inside fb := by
  rcases mirror_eq scr b with h | h <;> simp [h, Effect.Inside]

theorem mirror_scrolls (scr : Screen) (b : UInt8) : (mirror scr b).countP Effect.isScroll = 0 := by
  rcases mirror_eq scr b with h | h <;> simp [h, Effect.isScroll]

theorem inside_append {es es' : List Effect} (h : ∀ e ∈ es, e.Inside fb) (h' : ∀ e ∈ es', e.Inside fb) :
    ∀ e ∈ es ++ es', e.Inside fb := by
  intro e he
  exact (List.mem_append.mp he).elim (h e) (h' e)

theorem putUnit_spec (hfb : fb.Fits) (h : OnGrid fb scr) (c : UInt16) : UnitSpec fb scr c := by
  have hsame := h.same
  by_cases hcr : c = 0x0D
  · subst hcr
    refine ⟨⟨hsame, Nat.zero_le _, h.row⟩, mirror_inside scr _, ?_⟩
    simp [putUnit, mirror_scrolls, LineBreak]
  by_cases hlf : c = 0x0A
  · subst hlf
    obtain ⟨-, hgrid, -⟩ := newline_spec hfb h
    refine ⟨hgrid, inside_append (newline_inside hfb h) (mirror_inside scr _), ?_⟩
    simp [putUnit, mirror_scrolls, newline_scrolls hfb h, LineBreak]
  by_cases hbs : c = 0x08
  · subst hbs
    refine ⟨h.back, by simp [putUnit], ?_⟩
    simp [putUnit, LineBreak]
  by_cases hchar : 0x20 ≤ c ∧ c ≤ 0x7E
  · obtain ⟨hgrid, hinside, hscrolls⟩ := putChar_spec hfb h c.toUInt8
    have hput : putUnit scr c = ((putChar c.toUInt8 scr).1 ++ mirror scr c.toUInt8, (putChar c.toUInt8 scr).2) := by
      simp [putUnit, hcr, hlf, hbs, hchar]
    constructor
    · rw [hput]; exact hgrid
    · rw [hput]; exact inside_append hinside (mirror_inside scr _)
    · rw [hput, List.countP_append, hscrolls, mirror_scrolls]
      simp [LineBreak, hlf, hchar, hsame]
  · have hput : putUnit scr c = ([], scr) := by
      simp only [putUnit, hcr, hlf, hbs, hchar, if_false]
    constructor
    · rw [hput]; exact h
    · rw [hput]; simp
    · rw [hput]
      simp [LineBreak, hlf, hchar]

/-! ## Calls -/

/-- The cursor that an application reads is the console's. -/
structure Published (scr : Screen) : Prop where
  column : scr.outMode.cursorColumn = scr.cursorCol
  row : scr.outMode.cursorRow = scr.cursorRow

theorem published_syncMode (scr : Screen) : Published (syncMode scr) := ⟨rfl, rfl⟩

theorem OnGrid.syncMode (h : OnGrid fb scr) : OnGrid fb (syncMode scr) := ⟨h.same, h.col, h.row⟩

theorem OnGrid.home (hfb : fb.Fits) (h : OnGrid fb scr) : OnGrid fb { scr with cursorCol := 0, cursorRow := 0 } := by
  refine ⟨h.same, Nat.zero_le _, ?_⟩
  have := hfb.height
  show 0 < fb.height.toNat / 20
  omega

theorem units_spec (hfb : fb.Fits) (h : OnGrid fb scr) (string : List UInt16) :
    OnGrid fb (units.run scr string).2 ∧ ∀ e ∈ (units.run scr string).1, e.Inside fb := by
  refine Transducer.run_induct (I := OnGrid fb) (P := Effect.Inside fb) ?_ ?_ h string
  · exact fun _ c h => (putUnit_spec hfb h c).onGrid
  · exact fun _ c h => (putUnit_spec hfb h c).inside

/-- What a call does to a cursor on the grid. -/
structure CallSpec (fb : Framebuffer) (scr : Screen) (c : Call) : Prop where
  onGrid : OnGrid fb (call scr c).2.2
  inside : ∀ e ∈ (call scr c).2.1, e.Inside fb
  /-- The calls that put nothing out do not scroll. -/
  still : (∀ string, c ≠ .outputString string) → (call scr c).2.1.countP Effect.isScroll = 0
  published : (call scr c).1 = .success → Published (call scr c).2.2

theorem call_spec (hfb : fb.Fits) (h : OnGrid fb scr) (c : Call) : CallSpec fb scr c := by
  cases c with
  | outputString string =>
      cases string with
      | none => exact ⟨h, by simp [call, outputString], fun hc => absurd rfl (hc _), fun hs => by cases hs⟩
      | some string =>
          obtain ⟨hgrid, hinside⟩ := units_spec hfb h (string.takeWhile (· ≠ 0))
          refine ⟨hgrid.syncMode, inside_append hinside ?_, fun hc => absurd rfl (hc _), fun _ => published_syncMode _⟩
          simp [Effect.Inside]
  | setCursorPosition column row =>
      have hcall : call scr (.setCursorPosition column row) = setCursorPosition scr column row := rfl
      by_cases hout : column.toUInt32 ≥ (gridSize scr.fb).1 ∨ row.toUInt32 ≥ (gridSize scr.fb).2
      · rw [setCursorPosition, if_pos hout] at hcall
        exact ⟨by rw [hcall]; exact h, by simp [hcall], by simp [hcall], by simp [hcall]⟩
      · rw [setCursorPosition, if_neg hout] at hcall
        simp only [not_or, ge_iff_le, UInt32.le_iff_toNat_le, gridSize_fst, gridSize_snd, h.same] at hout
        refine ⟨?_, by simp [hcall], by simp [hcall], fun _ => by rw [hcall]; exact published_syncMode _⟩
        rw [hcall]
        refine OnGrid.syncMode ⟨h.same, ?_, ?_⟩
        · simp only [UInt32.toUInt32_toInt32]; omega
        · simp only [UInt32.toUInt32_toInt32]; omega
  | setAttribute attr =>
      refine ⟨OnGrid.syncMode ⟨h.same, h.col, h.row⟩, ?_, fun _ => rfl, fun _ => published_syncMode _⟩
      simp [call, setAttribute]
  | reset =>
      refine ⟨(h.home hfb).syncMode, ?_, fun _ => rfl, fun _ => published_syncMode _⟩
      simp [call, textReset, clearScreen, Effect.Inside]
  | clearScreen =>
      refine ⟨(h.home hfb).syncMode, ?_, fun _ => rfl, fun _ => published_syncMode _⟩
      simp [call, clearScreen, Effect.Inside]

theorem OnGrid.init (hfb : fb.Fits) (before : Screen) (uart : Bool) : OnGrid fb (init before fb uart) := by
  refine ⟨rfl, Nat.zero_le _, ?_⟩
  have := hfb.height
  show 0 < fb.height.toNat / 20
  omega

theorem calls_spec (hfb : fb.Fits) (h : OnGrid fb scr) (cs : List Call) :
    OnGrid fb (calls.run scr cs).2 ∧ ∀ e ∈ (calls.run scr cs).1, e.Inside fb := by
  refine Transducer.run_induct (I := OnGrid fb) (P := Effect.Inside fb) ?_ ?_ h cs
  · exact fun _ c h => (call_spec hfb h c).onGrid
  · exact fun _ c h => (call_spec hfb h c).inside

/-- The cursor as the source reads it: signed. -/
theorem OnGrid.signed (h : OnGrid fb scr) :
    scr.cursorCol.toInt = scr.cursorCol.toUInt32.toNat ∧ scr.cursorRow.toInt = scr.cursorRow.toUInt32.toNat := by
  have hcol := h.col
  have hrow := h.row
  have hc := fb.cols_lt
  have hr := fb.rows_lt
  exact ⟨toInt_eq (by omega), toInt_eq (by omega)⟩

/-! ## Runs -/

/-- A state behind `init`, some calls, and some units of the string that is put out next. -/
def reached (before : Screen) (fb : Framebuffer) (uart : Bool) (cs : List Call) (string : List UInt16) : Screen :=
  (units.run (calls.run (init before fb uart) cs).2 string).2

end Console

end Ferro
