import Ferro.Base.Raster
import Ferro.Display.Framebuffer
import Ferro.Usb.Received

/-!
# What the calls draw

The bytes of a framebuffer are a picture. Every call fills regions of it, or scrolls it; none writes outside of the
framebuffer, whatever its arguments.
-/

namespace Ferro

namespace Display

open Raster WriteBack

/-- Four bytes a pixel, and rows that hold the width. -/
structure Framebuffer.Ok (fb : Framebuffer) : Prop where
  bpp : fb.bpp = 32
  pitch : 4 * fb.width.toNat ≤ fb.pitch.toNat

namespace Framebuffer

variable (fb : Framebuffer) (line : Nat)

/-- Where a pixel is. -/
def addr (x y : Nat) : Nat := fb.ptr + (y * fb.pitch.toNat + x * 4)

/-- The picture that the CPU reads. Off the screen it is black. -/
def view (m : Memory) : Picture UInt32 := fun x y =>
  if x < fb.width.toNat ∧ y < fb.height.toNat then UInt32.ofNat (leNat (m.load line (fb.addr x y) 4)) else 0

def Outside (a : Nat) : Prop := a < fb.ptr ∨ fb.ptr + fb.size ≤ a

/-- The part of a rectangle that is on the screen. -/
def box (x0 y0 w h : UInt32) : Region :=
  Raster.box x0.toNat (min (x0 + w) fb.width).toNat y0.toNat (min (y0 + h) fb.height).toNat

def pixel (x y : UInt32) : Region := fun x' y' =>
  decide (x' = x.toNat ∧ y' = y.toNat ∧ x < fb.width ∧ y < fb.height)

/-- `draw_char` on the picture. -/
def paintChar (x y : UInt32) (c : Char) (scale fg : UInt32) : Picture UInt32 → Picture UInt32 :=
  fill (fun x' y' => (Console.drawChar (glyph c) x y scale).any fun r => fb.box r.x0 r.y0 r.w r.h x' y') fg

/-- A call on the picture. -/
def paint (p : Picture UInt32) : Command → Picture UInt32
  | .putPixel x y color => fill (fb.pixel x y) color p
  | .fillRect x0 y0 w h color => fill (fb.box x0 y0 w h) color p
  | .clear color => fill (Raster.box 0 fb.width.toNat 0 fb.height.toNat) color p
  | .scrollUp rowsPx bg => scroll fb.width.toNat fb.height.toNat rowsPx.toNat bg p
  | .drawRectOutline x y w h thickness color =>
    fill (fb.box (x + saturatingSub w thickness) y thickness h) color <|
      fill (fb.box x y thickness h) color <|
        fill (fb.box x (y + saturatingSub h thickness) w thickness) color <| fill (fb.box x y w thickness) color p
  | .drawChar x y c scale fg => fb.paintChar x y c scale fg p
  | .drawText x y text scale fg =>
    text.zipIdx.foldl (fun p (c, i) =>
      fb.paintChar (x + UInt32.ofNat i * ((Console.glyphWidth + 1) * scale)) y c scale fg p) p
  | .flush => p

/-- What an operation on memory draws, with nothing written outside of the framebuffer. -/
structure Draws (g : Picture UInt32 → Picture UInt32) (f : Memory → Memory) : Prop where
  coherent : ∀ m, Coherent line m → Coherent line (f m)
  picture : ∀ m, Coherent line m → fb.view line (f m) = g (fb.view line m)
  outside : ∀ m, Coherent line m → ∀ a, fb.Outside a → (f m).visible line a = m.visible line a

variable {fb line} {f f' : Memory → Memory} {g g' : Picture UInt32 → Picture UInt32} {m m' : Memory}

theorem Draws.id : fb.Draws line (fun p => p) (fun m => m) := ⟨fun _ h => h, fun _ _ => rfl, fun _ _ _ _ => rfl⟩

theorem Draws.comp (h : fb.Draws line g f) (h' : fb.Draws line g' f') :
    fb.Draws line (fun p => g' (g p)) (fun m => f' (f m)) where
  coherent m hm := h'.coherent _ (h.coherent m hm)
  picture m hm := by rw [h'.picture _ (h.coherent m hm), h.picture m hm]
  outside m hm a ha := by rw [h'.outside _ (h.coherent m hm) a ha, h.outside m hm a ha]

theorem Draws.foldl {ι : Type} {f : Memory → ι → Memory} {g : Picture UInt32 → ι → Picture UInt32}
    (h : ∀ i, fb.Draws line (fun p => g p i) (fun m => f m i)) (l : List ι) :
    fb.Draws line (fun p => l.foldl g p) (fun m => l.foldl f m) := by
  induction l with
  | nil => exact Draws.id
  | cons i l ih => exact (h i).comp ih

/-! ## Pixels -/

section Ok

variable (hok : fb.Ok)

include hok

theorem Ok.column {x : Nat} (hx : x < fb.width.toNat) : x * 4 + 4 ≤ fb.pitch.toNat := by
  have := hok.pitch
  omega

/-- A pixel is in the framebuffer. -/
theorem Ok.addr_lt {x y : Nat} (hx : x < fb.width.toNat) (hy : y < fb.height.toNat) :
    fb.addr x y + 4 ≤ fb.ptr + fb.size := by
  have hrow := rowMajor_lt (hok.column hx) hy
  rw [addr, size, Nat.mul_comm fb.pitch.toNat]
  omega

theorem putPixel_draws (x y color : UInt32) :
    fb.Draws line (fill (fb.pixel x y) color) (fun m => fb.putPixel line m x y color) := by
  by_cases hout : x ≥ fb.width ∨ y ≥ fb.height
  · simp only [putPixel, if_pos hout]
    refine ⟨fun _ h => h, fun m _ => ?_, fun _ _ _ _ => rfl⟩
    funext x' y'
    have hno : fb.pixel x y x' y' ≠ true := by
      rintro h
      obtain ⟨-, -, hx, hy⟩ := decide_eq_true_iff.mp h
      exact hout.elim (UInt32.not_le.mpr hx) (UInt32.not_le.mpr hy)
    rw [fill, if_neg hno]
  obtain ⟨hx, hy⟩ := not_or.mp hout
  have hx := UInt32.not_le.mp hx
  have hy := UInt32.not_le.mp hy
  have haddr : fb.ptr + (y.toNat * fb.pitch.toNat + x.toNat * (fb.bpp.toNat / 8)) = fb.addr x.toNat y.toNat := by
    rw [hok.bpp]
    rfl
  simp only [putPixel, if_neg hout, haddr]
  refine ⟨fun m hm => hm.storeAll _ _, fun m _ => ?_, fun m _ a ha => ?_⟩
  · funext x' y'
    rw [view, fill]
    by_cases hin : x' < fb.width.toNat ∧ y' < fb.height.toNat
    · rw [if_pos hin]
      by_cases hsame : x' = x.toNat ∧ y' = y.toNat
      · have hload : (m.storeAll line (fb.addr x' y') (leBytes 4 color.toNat)).load line (fb.addr x' y')
            (leBytes 4 color.toNat).length = leBytes 4 color.toNat := load_storeAll
        rw [length_leBytes] at hload
        have hp : fb.pixel x y x' y' = true := decide_eq_true_iff.mpr ⟨hsame.1, hsame.2, hx, hy⟩
        rw [if_pos hp, ← hsame.1, ← hsame.2, hload, leNat_leBytes,
          Nat.mod_eq_of_lt (by have := color.toNat_lt; omega), UInt32.ofNat_toNat]
      · have hp : fb.pixel x y x' y' ≠ true := fun h =>
          hsame ⟨(decide_eq_true_iff.mp h).1, (decide_eq_true_iff.mp h).2.1⟩
        have hdisj := rowMajor_disjoint (hok.column hin.1) (hok.column (UInt32.lt_iff_toNat_lt.mp hx)) hsame
        rw [if_neg hp, view, if_pos hin, load_storeAll_outside]
        rw [length_leBytes, addr, addr]
        omega
    · have hp : fb.pixel x y x' y' ≠ true := by
        intro h
        obtain ⟨rfl, rfl, -, -⟩ := decide_eq_true_iff.mp h
        exact hin ⟨UInt32.lt_iff_toNat_lt.mp hx, UInt32.lt_iff_toNat_lt.mp hy⟩
      rw [if_neg hin, if_neg hp, view, if_neg hin]
  · have hlt := hok.addr_lt (UInt32.lt_iff_toNat_lt.mp hx) (UInt32.lt_iff_toNat_lt.mp hy)
    refine visible_storeAll_outside ?_
    rw [length_leBytes]
    rcases ha with ha | ha
    · exact .inl (by rw [addr]; omega)
    · exact .inr (by omega)

end Ok

/-! ## Rectangles -/

theorem mem_range {a b x : UInt32} : x ∈ range a b ↔ a.toNat ≤ x.toNat ∧ x.toNat < b.toNat := by
  have ha := a.toNat_lt
  have hb := b.toNat_lt
  have hadd {i : Nat} (hi : i < b.toNat - a.toNat) : (a + UInt32.ofNat i).toNat = a.toNat + i := by
    rw [UInt32.toNat_add, UInt32.toNat_ofNat']
    omega
  simp only [range, List.mem_map, List.mem_range]
  constructor
  · rintro ⟨i, hi, rfl⟩
    rw [hadd hi]
    omega
  · rintro ⟨hle, hlt⟩
    refine ⟨x.toNat - a.toNat, by omega, UInt32.toNat_inj.mp ?_⟩
    rw [hadd (by omega)]
    omega

theorem toNat_min (a b : UInt32) : (min a b).toNat = min a.toNat b.toNat := by
  show (if a ≤ b then a else b).toNat = _
  split
  · next h => rw [Nat.min_eq_left (UInt32.le_iff_toNat_le.mp h)]
  · next h => rw [Nat.min_eq_right (by rw [UInt32.le_iff_toNat_le] at h; omega)]

/-- The pixels of the two loops. -/
theorem range_pixel (x0 y0 w h : UInt32) (x' y' : Nat) :
    ((range y0 (min (y0 + h) fb.height)).any fun y =>
        (range x0 (min (x0 + w) fb.width)).any fun x => fb.pixel x y x' y') = true ↔
      fb.box x0 y0 w h x' y' = true := by
  have hw := fb.width.toNat_lt
  have hh := fb.height.toNat_lt
  have hx1 : (min (x0 + w) fb.width).toNat ≤ fb.width.toNat := by rw [toNat_min]; omega
  have hy1 : (min (y0 + h) fb.height).toNat ≤ fb.height.toNat := by rw [toNat_min]; omega
  simp only [List.any_eq_true, mem_range, box, box_iff]
  constructor
  · rintro ⟨y, hy, x, hx, hp⟩
    obtain ⟨rfl, rfl, -, -⟩ := decide_eq_true_iff.mp hp
    exact ⟨hx.1, hx.2, hy.1, hy.2⟩
  · rintro ⟨hx, hx', hy, hy'⟩
    have hxn : (UInt32.ofNat x').toNat = x' := by rw [UInt32.toNat_ofNat']; omega
    have hyn : (UInt32.ofNat y').toNat = y' := by rw [UInt32.toNat_ofNat']; omega
    refine ⟨UInt32.ofNat y', by omega, UInt32.ofNat x', by omega, decide_eq_true_iff.mpr ⟨hxn.symm, hyn.symm, ?_, ?_⟩⟩
    · rw [UInt32.lt_iff_toNat_lt]; omega
    · rw [UInt32.lt_iff_toNat_lt]; omega

section Ok

variable (hok : fb.Ok)

include hok

theorem fillRect_draws (x0 y0 w h color : UInt32) :
    fb.Draws line (fill (fb.box x0 y0 w h) color) (fun m => fb.fillRect line m x0 y0 w h color) := by
  have hloops : fb.Draws line _ _ := Draws.foldl (fun y => Draws.foldl (fun x => putPixel_draws hok x y color)
    (range x0 (min (x0 + w) fb.width))) (range y0 (min (y0 + h) fb.height))
  have hfill (p : Picture UInt32) : (range y0 (min (y0 + h) fb.height)).foldl (fun p y =>
      (range x0 (min (x0 + w) fb.width)).foldl (fun p x => fill (fb.pixel x y) color p) p) p =
        fill (fb.box x0 y0 w h) color p := by
    simp only [foldl_fill]
    exact fill_congr (range_pixel x0 y0 w h) color p
  exact ⟨hloops.coherent, fun m hm => (hloops.picture m hm).trans (hfill _), hloops.outside⟩

omit hok in
theorem box_screen : fb.box 0 0 fb.width fb.height = Raster.box 0 fb.width.toNat 0 fb.height.toNat := by
  simp only [box, UInt32.zero_add, toNat_min, Nat.min_self, UInt32.toNat_zero]

theorem clear_draws (color : UInt32) :
    fb.Draws line (fun p => fb.paint p (.clear color)) (fun m => fb.clear line m color) := by
  have h : fb.Draws line _ _ := fillRect_draws hok 0 0 fb.width fb.height color
  rw [box_screen] at h
  exact h

/-- Where rows move from. -/
theorem move_draws {n : Nat} (hn : n < fb.height.toNat) {m : Memory} (hm : Coherent line m) :
    let m' := m.memmove line fb.ptr (fb.ptr + n * fb.pitch.toNat) ((fb.height.toNat - n) * fb.pitch.toNat)
    Coherent line m' ∧ (∀ a, fb.Outside a → m'.visible line a = m.visible line a) ∧
      ∀ x y, x < fb.width.toNat → y + n < fb.height.toNat → fb.view line m' x y = fb.view line m x (y + n) := by
  have hsize : fb.ptr + (fb.height.toNat - n) * fb.pitch.toNat ≤ fb.ptr + fb.size := by
    rw [size, Nat.mul_comm fb.pitch.toNat]
    exact Nat.add_le_add_left (Nat.mul_le_mul_right _ (by omega)) _
  refine ⟨hm.storeAll _ _, fun a ha => ?_, fun x y hx hy => ?_⟩
  · rw [visible_memmove, if_neg]
    rcases ha with ha | ha <;> omega
  · have hrow := rowMajor_lt (hok.column hx) (show y < fb.height.toNat - n by omega)
    rw [view, view, if_pos ⟨hx, by omega⟩, if_pos ⟨hx, hy⟩]
    congr 2
    refine load_congr fun i hi => ?_
    rw [visible_memmove, if_pos (by rw [addr]; omega)]
    congr 1
    rw [addr, addr, Nat.add_mul]
    omega

theorem scrollUp_draws (rowsPx bg : UInt32) :
    fb.Draws line (fun p => fb.paint p (.scrollUp rowsPx bg)) (fun m => fb.scrollUp line m rowsPx bg) := by
  by_cases hall : rowsPx ≥ fb.height
  · simp only [scrollUp, if_pos hall]
    refine ⟨(clear_draws hok bg).coherent, fun m hm => ?_, (clear_draws hok bg).outside⟩
    rw [(clear_draws hok bg).picture m hm]
    rw [ge_iff_le, UInt32.le_iff_toNat_le] at hall
    funext x y
    by_cases hin : x < fb.width.toNat ∧ y < fb.height.toNat
    · have hbox : Raster.box 0 fb.width.toNat 0 fb.height.toNat x y = true := box_iff.mpr ⟨by omega, hin.1, by omega, hin.2⟩
      rw [paint, paint, fill, if_pos hbox, scroll, if_pos hin, if_neg (by omega)]
    · have hbox : Raster.box 0 fb.width.toNat 0 fb.height.toNat x y ≠ true := fun h =>
        hin ⟨(box_iff.mp h).2.1, (box_iff.mp h).2.2.2⟩
      rw [paint, paint, fill, if_neg hbox, scroll, if_neg hin]
  have hlt : rowsPx.toNat < fb.height.toNat := by
    rw [ge_iff_le, UInt32.le_iff_toNat_le] at hall
    omega
  have hrows : (fb.height - rowsPx).toNat = fb.height.toNat - rowsPx.toNat :=
    UInt32.toNat_sub_of_le _ _ (UInt32.le_of_lt (UInt32.lt_iff_toNat_lt.mpr hlt))
  have hstrip : fb.Draws line _ _ := fillRect_draws hok 0 (fb.height - rowsPx) fb.width rowsPx bg
  simp only [scrollUp, if_neg hall, hrows]
  refine ⟨fun m hm => hstrip.coherent _ (move_draws hok hlt hm).1, fun m hm => ?_, fun m hm a ha => ?_⟩
  · obtain ⟨hmoved, -, hview⟩ := move_draws hok hlt hm
    rw [hstrip.picture _ hmoved]
    funext x y
    have hbottom : (min (fb.height - rowsPx + rowsPx) fb.height).toNat = fb.height.toNat := by
      rw [UInt32.sub_add_cancel, toNat_min, Nat.min_self]
    have hright : (min (0 + fb.width) fb.width).toNat = fb.width.toNat := by
      rw [UInt32.zero_add, toNat_min, Nat.min_self]
    have hbox : fb.box 0 (fb.height - rowsPx) fb.width rowsPx x y = true ↔
        x < fb.width.toNat ∧ fb.height.toNat - rowsPx.toNat ≤ y ∧ y < fb.height.toNat := by
      rw [box, box_iff, hbottom, hright, hrows, UInt32.toNat_zero]
      omega
    rw [paint, fill, scroll]
    by_cases hin : x < fb.width.toNat ∧ y < fb.height.toNat
    · rw [if_pos hin]
      by_cases hy : y + rowsPx.toNat < fb.height.toNat
      · rw [if_neg (by rw [hbox]; omega), if_pos hy, hview x y hin.1 hy]
      · rw [if_pos (by rw [hbox]; omega), if_neg hy]
    · rw [if_neg (by rw [hbox]; omega), if_neg hin, view, view, if_neg hin, if_neg hin]
  · obtain ⟨hmoved, hframe, -⟩ := move_draws hok hlt hm
    rw [hstrip.outside _ hmoved a ha, hframe a ha]

theorem drawChar_draws (x y : UInt32) (c : Char) (scale fg : UInt32) :
    fb.Draws line (fb.paintChar x y c scale fg) (fun m => fb.drawChar line m x y c scale fg) := by
  have h : fb.Draws line _ _ := Draws.foldl (fun r : Console.Rect => fillRect_draws hok r.x0 r.y0 r.w r.h fg)
    (Console.drawChar (glyph c) x y scale)
  simp only [foldl_fill] at h
  exact h

theorem drawText_draws (x y : UInt32) (text : List Char) (scale fg : UInt32) :
    fb.Draws line (fun p => fb.paint p (.drawText x y text scale fg))
      (fun m => fb.drawText line m x y text scale fg) :=
  Draws.foldl (fun (c, i) =>
    drawChar_draws hok (x + UInt32.ofNat i * ((Console.glyphWidth + 1) * scale)) y c scale fg) _

end Ok

theorem flush_draws : fb.Draws line (fun p => p) (fun m => fb.flush line m) := by
  have hvis (m : Memory) (hm : Coherent line m) (a : Nat) : (fb.flush line m).visible line a = m.visible line a :=
    hm.visible_cleanInvalidateFrom _ _
  refine ⟨fun m hm => hm.cleanInvalidateFrom _ _, fun m hm => ?_, fun m hm a _ => hvis m hm a⟩
  funext x y
  rw [view, view, load_congr fun i _ => hvis m hm _]

/-- Every call draws on the picture what it is meant to. -/
theorem run_draws (hok : fb.Ok) (c : Command) : fb.Draws line (fun p => fb.paint p c) (fun m => fb.run line m c) := by
  cases c with
  | putPixel x y color => exact putPixel_draws hok x y color
  | fillRect x0 y0 w h color => exact fillRect_draws hok x0 y0 w h color
  | clear color => exact clear_draws hok color
  | scrollUp rowsPx bg => exact scrollUp_draws hok rowsPx bg
  | drawRectOutline x y w h thickness color =>
      exact (((fillRect_draws hok _ _ _ _ color).comp (fillRect_draws hok _ _ _ _ color)).comp
        (fillRect_draws hok _ _ _ _ color)).comp (fillRect_draws hok _ _ _ _ color)
  | drawChar x y c scale fg => exact drawChar_draws hok x y c scale fg
  | drawText x y text scale fg => exact drawText_draws hok x y text scale fg
  | flush => exact flush_draws

end Framebuffer

end Display

end Ferro
