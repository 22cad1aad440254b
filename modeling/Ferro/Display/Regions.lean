import Ferro.Display.Pixels

/-!
# Where a call draws

Every call but `scroll_up` fills one region of the picture with one colour. What a list of such calls leaves at a point
depends only on those that reach it.
-/

namespace Ferro

namespace Display

open Raster

/-- Does not move what is on the screen. -/
def Command.Still : Command → Prop
  | .scrollUp _ _ => False
  | _ => True

def Command.colour : Command → UInt32
  | .putPixel _ _ color => color
  | .fillRect _ _ _ _ color => color
  | .clear color => color
  | .scrollUp _ bg => bg
  | .drawRectOutline _ _ _ _ _ color => color
  | .drawChar _ _ _ _ fg => fg
  | .drawText _ _ _ _ fg => fg
  | .flush => 0

namespace Framebuffer

variable (fb : Framebuffer)

def charRegion (x y : UInt32) (c : Char) (scale : UInt32) : Region := fun x' y' =>
  (Console.drawChar (glyph c) x y scale).any fun r => fb.box r.x0 r.y0 r.w r.h x' y'

/-- The region that a call fills; one that scrolls has none. -/
def region : Command → Region
  | .putPixel x y _ => fb.pixel x y
  | .fillRect x0 y0 w h _ => fb.box x0 y0 w h
  | .clear _ => Raster.box 0 fb.width.toNat 0 fb.height.toNat
  | .scrollUp _ _ => fun _ _ => false
  | .drawRectOutline x y w h thickness _ => fun x' y' =>
    fb.box x y w thickness x' y' || fb.box x (y + saturatingSub h thickness) w thickness x' y' ||
      fb.box x y thickness h x' y' || fb.box (x + saturatingSub w thickness) y thickness h x' y'
  | .drawChar x y c scale _ => fb.charRegion x y c scale
  | .drawText x y text scale _ => fun x' y' =>
    text.zipIdx.any fun (c, i) => fb.charRegion (x + UInt32.ofNat i * ((Console.glyphWidth + 1) * scale)) y c scale x' y'
  | .flush => fun _ _ => false

variable {fb} {c : Command} {cs : List Command} {p q : Picture UInt32} {x y : Nat}

theorem paint_eq (hc : c.Still) (p : Picture UInt32) : fb.paint p c = fill (fb.region c) c.colour p := by
  cases c with
  | scrollUp rowsPx bg => exact hc.elim
  | drawRectOutline x y w h thickness color =>
      simp only [paint, fill_fill]
      rfl
  | drawText x y text scale fg => exact foldl_fill _ fg text.zipIdx p
  | flush => rfl
  | _ => rfl

/-- Nothing is drawn off the screen. -/
theorem paint_off (h : ¬ (x < fb.width.toNat ∧ y < fb.height.toNat)) (c : Command) (p : Picture UInt32) :
    fb.paint p c x y = p x y := by
  have hbox {x0 y0 w h : UInt32} : fb.box x0 y0 w h x y ≠ true := by
    intro hb
    rw [box, box_iff, toNat_min, toNat_min] at hb
    omega
  have hchar {x0 y0 : UInt32} {ch : Char} {scale : UInt32} : fb.charRegion x0 y0 ch scale x y ≠ true := by
    intro hc
    obtain ⟨r, -, hb⟩ := List.any_eq_true.mp hc
    exact hbox hb
  have hregion : fb.region c x y ≠ true := by
    cases c with
    | putPixel x0 y0 color =>
        intro hp
        obtain ⟨rfl, rfl, hx, hy⟩ := decide_eq_true_iff.mp hp
        exact h ⟨UInt32.lt_iff_toNat_lt.mp hx, UInt32.lt_iff_toNat_lt.mp hy⟩
    | fillRect x0 y0 w h color => exact hbox
    | clear color => exact fun hb => h ⟨(box_iff.mp hb).2.1, (box_iff.mp hb).2.2.2⟩
    | scrollUp rowsPx bg => exact Bool.false_ne_true
    | drawRectOutline x0 y0 w h thickness color =>
        simp only [region, Bool.or_eq_true, not_or, ne_eq]
        exact ⟨⟨⟨hbox, hbox⟩, hbox⟩, hbox⟩
    | drawChar x0 y0 ch scale fg => exact hchar
    | drawText x0 y0 text scale fg =>
        intro ht
        obtain ⟨_, -, hc⟩ := List.any_eq_true.mp ht
        exact hchar hc
    | flush => exact Bool.false_ne_true
  have hstill (hc : c.Still) : fb.paint p c x y = p x y := by rw [paint_eq hc, fill, if_neg hregion]
  cases c with
  | scrollUp rowsPx bg => exact if_neg h
  | _ => exact hstill trivial

theorem foldl_off (h : ¬ (x < fb.width.toNat ∧ y < fb.height.toNat)) (cs : List Command) (p : Picture UInt32) :
    cs.foldl fb.paint p x y = p x y := by
  induction cs generalizing p with
  | nil => rfl
  | cons c cs ih => rw [List.foldl_cons, ih, paint_off h]

/-- No call of the list draws at the point. -/
def Misses (fb : Framebuffer) (cs : List Command) (x y : Nat) : Prop :=
  ∀ c ∈ cs, c.Still ∧ fb.region c x y ≠ true

theorem foldl_misses (h : fb.Misses cs x y) (p : Picture UInt32) : cs.foldl fb.paint p x y = p x y := by
  induction cs generalizing p with
  | nil => rfl
  | cons c cs ih =>
      obtain ⟨hstill, hout⟩ := h c List.mem_cons_self
      rw [List.foldl_cons, ih fun c hc => h c (List.mem_cons_of_mem _ hc), paint_eq hstill, fill, if_neg hout]

/-- What is drawn at a point depends on the picture only there. -/
theorem foldl_congr (hcs : ∀ c ∈ cs, c.Still) (h : p x y = q x y) :
    cs.foldl fb.paint p x y = cs.foldl fb.paint q x y := by
  induction cs generalizing p q with
  | nil => exact h
  | cons c cs ih =>
      refine ih (fun c hc => hcs c (List.mem_cons_of_mem _ hc)) ?_
      rw [paint_eq (hcs c List.mem_cons_self), paint_eq (hcs c List.mem_cons_self), fill, fill, h]

/-- What covers the point hides what was drawn there. -/
theorem foldl_covered (hcs : ∀ c ∈ cs, c.Still) (hc : c.Still) (h : fb.region c x y = true) (p q : Picture UInt32) :
    (c :: cs).foldl fb.paint p x y = (c :: cs).foldl fb.paint q x y := by
  rw [List.foldl_cons, List.foldl_cons]
  refine foldl_congr hcs ?_
  rw [paint_eq hc, paint_eq hc, fill, fill, if_pos h, if_pos h]

/-! ## Texts -/

/-- A rectangle is drawn where it is, also if it would go on behind the edge. -/
theorem box_bounds {x0 y0 w h : UInt32} (hbox : fb.box x0 y0 w h x y = true) :
    (x0.toNat ≤ x ∧ x < (x0 + w).toNat ∧ x < fb.width.toNat) ∧ y0.toNat ≤ y ∧ y < (y0 + h).toNat ∧
      y < fb.height.toNat := by
  rw [box, box_iff, toNat_min, toNat_min] at hbox
  omega

theorem toNat_advance (a scale : UInt32) (i : Nat) (h : a.toNat + i * scale.toNat < 2 ^ 32) :
    (a + UInt32.ofNat i * scale).toNat = a.toNat + i * scale.toNat := by
  have hi : i * scale.toNat % 2 ^ 32 = i * scale.toNat := Nat.mod_eq_of_lt (by omega)
  have hmod : i % 2 ^ 32 * scale.toNat % 2 ^ 32 = i * scale.toNat := by rw [Nat.mod_mul_mod, hi]
  rw [UInt32.toNat_add, UInt32.toNat_mul, UInt32.toNat_ofNat', hmod, Nat.mod_eq_of_lt h]

/-- A character is drawn in its rows. -/
theorem charRegion_rows {x0 y0 scale : UInt32} {ch : Char} (hy : y0.toNat + 7 * scale.toNat < 2 ^ 32)
    (h : fb.charRegion x0 y0 ch scale x y = true) : y0.toNat ≤ y ∧ y < y0.toNat + 7 * scale.toNat := by
  simp only [charRegion, List.any_eq_true, Console.drawChar, List.mem_flatMap, List.mem_map, List.mem_filter,
    List.mem_range] at h
  obtain ⟨r, ⟨i, hi, j, -, rfl⟩, hbox⟩ := h
  have hle : (i + 1) * scale.toNat ≤ 7 * scale.toNat := Nat.mul_le_mul_right _ hi
  rw [Nat.succ_mul] at hle
  have hpos := toNat_advance y0 scale i (by omega)
  obtain ⟨-, hlo, hhi, -⟩ := box_bounds hbox
  dsimp only at hlo hhi
  rw [UInt32.toNat_add, hpos, Nat.mod_eq_of_lt (by omega)] at hhi
  omega

/-- A character is drawn in its columns. -/
theorem charRegion_columns {x0 y0 scale : UInt32} {ch : Char} (hx : x0.toNat + 6 * scale.toNat < 2 ^ 32)
    (h : fb.charRegion x0 y0 ch scale x y = true) : x0.toNat ≤ x ∧ x < x0.toNat + 6 * scale.toNat := by
  simp only [charRegion, List.any_eq_true, Console.drawChar, List.mem_flatMap, List.mem_map, List.mem_filter,
    List.mem_range] at h
  obtain ⟨r, ⟨i, hi, j, ⟨hj, -⟩, rfl⟩, hbox⟩ := h
  have hle : (j + 1) * scale.toNat ≤ 5 * scale.toNat := Nat.mul_le_mul_right _ hj
  rw [Nat.succ_mul] at hle
  have hpos := toNat_advance x0 scale j (by omega)
  obtain ⟨⟨hlo, hhi, -⟩, -⟩ := box_bounds hbox
  dsimp only at hlo hhi
  rw [UInt32.toNat_add, hpos, Nat.mod_eq_of_lt (by omega)] at hhi
  omega

theorem text_rows {x0 y0 scale fg : UInt32} {text : List Char} (hy : y0.toNat + 7 * scale.toNat < 2 ^ 32)
    (h : fb.region (.drawText x0 y0 text scale fg) x y = true) : y0.toNat ≤ y ∧ y < y0.toNat + 7 * scale.toNat := by
  obtain ⟨⟨ch, i⟩, -, h⟩ := List.any_eq_true.mp h
  exact charRegion_rows hy h

theorem text_columns {x0 y0 scale fg : UInt32} {text : List Char}
    (hx : x0.toNat + text.length * (6 * scale.toNat) < 2 ^ 32)
    (h : fb.region (.drawText x0 y0 text scale fg) x y = true) :
    x0.toNat ≤ x ∧ x < x0.toNat + text.length * (6 * scale.toNat) := by
  obtain ⟨⟨ch, i⟩, hmem, h⟩ := List.any_eq_true.mp h
  have hi : i < text.length := by simpa using (List.mem_zipIdx hmem).2.1
  have hle : (i + 1) * (6 * scale.toNat) ≤ text.length * (6 * scale.toNat) := Nat.mul_le_mul_right _ hi
  rw [Nat.succ_mul] at hle
  have hwidth : ((Console.glyphWidth + 1) * scale).toNat = 6 * scale.toNat := by
    have hsix : (Console.glyphWidth + 1).toNat = 6 := rfl
    rw [UInt32.toNat_mul, hsix, Nat.mod_eq_of_lt (by omega)]
  have hpos := toNat_advance x0 ((Console.glyphWidth + 1) * scale) i (by rw [hwidth]; omega)
  dsimp only at h
  have hcols := charRegion_columns (by rw [hpos, hwidth]; omega) h
  rw [hpos, hwidth] at hcols
  omega

end Framebuffer

end Display

end Ferro
