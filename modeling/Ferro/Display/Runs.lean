import Ferro.Display.Pixels

/-!
# Runs of drawing calls

Between two calls the cache may do as it likes. What the GPU scans out is memory, not the cache: it sees what was drawn
once the framebuffer has been flushed.
-/

namespace Ferro

/-- The lines of a range, of which one holds `a`. -/
theorem Cache.mem_lines {line addr len a : Nat} (hline : 0 < line) (hlo : addr ≤ a) (hhi : a < addr + len) :
    addr / line * line / line ≤ a / line ∧
      a / line < addr / line * line / line +
        ((addr + len + line - 1) / line * line - addr / line * line) / line := by
  have hlast : a / line + 1 ≤ (addr + len + line - 1) / line := by
    rw [← Nat.add_div_right _ hline]
    exact Nat.div_le_div_right (by omega)
  have hfirst : addr / line ≤ a / line := Nat.div_le_div_right hlo
  rw [Nat.mul_div_cancel _ hline, ← Nat.sub_mul, Nat.mul_div_cancel _ hline]
  omega

namespace Display

open Raster WriteBack

namespace Framebuffer

/-- Calls one after the other, with a cache that fetches and evicts lines between them. -/
inductive Run (fb : Framebuffer) (line : Nat) : Memory → List Command → Memory → Prop where
  | nil {m m'} (h : Drift line m m') : Run fb line m [] m'
  | cons {m m₁ m' c cs} (h : Drift line m m₁) (hr : Run fb line (fb.run line m₁ c) cs m') : Run fb line m (c :: cs) m'

/-- The picture that the GPU reads. -/
def scanout (fb : Framebuffer) (m : Memory) : Picture UInt32 := fun x y =>
  if x < fb.width.toNat ∧ y < fb.height.toNat then
    UInt32.ofNat (leNat ((List.range 4).map fun i => m.ram (fb.addr x y + i)))
  else
    0

/-- The GPU reads in the framebuffer what the CPU reads. -/
def Shown (fb : Framebuffer) (line : Nat) (m : Memory) : Prop :=
  ∀ a, fb.ptr ≤ a → a < fb.ptr + fb.size → WriteBack.Shown line m a

variable {fb : Framebuffer} {line : Nat} {m m' : Memory} {c : Command} {cs : List Command}

theorem Shown.scanout (hok : fb.Ok) (h : fb.Shown line m) : fb.scanout m = fb.view line m := by
  funext x y
  rw [Framebuffer.scanout, view]
  split
  · next hin =>
    have hlt := hok.addr_lt hin.1 hin.2
    congr 2
    refine List.map_congr_left fun i hi => ?_
    have hi := List.mem_range.mp hi
    exact h _ (by rw [addr]; omega) (by omega)
  · rfl

theorem Shown.drift (h : fb.Shown line m) (hc : Coherent line m) (hd : Drift line m m') : fb.Shown line m' :=
  fun a hlo hhi => hd.shown (hc a) (h a hlo hhi)

/-- A flush leaves no line of the framebuffer in the cache. -/
theorem flush_shown (hline : 0 < line) (m : Memory) : fb.Shown line (fb.flush line m) := by
  intro a hlo hhi
  refine shown_of_no_line ?_
  rw [flush, Cache.cleanAndInvalidateRange, line_cleanInvalidateFrom, if_pos (Cache.mem_lines hline hlo hhi)]

theorem view_congr (h : ∀ a, m'.visible line a = m.visible line a) : fb.view line m' = fb.view line m := by
  funext x y
  rw [view, view, load_congr fun i _ => h _]

/-- A run with a cache that does nothing by itself. -/
theorem Run.still (fb : Framebuffer) (line : Nat) (m : Memory) (cs : List Command) :
    fb.Run line m cs (cs.foldl (fb.run line) m) := by
  induction cs generalizing m with
  | nil => exact .nil .refl
  | cons c cs ih => exact .cons .refl (ih _)

theorem Run.draws (hok : fb.Ok) (h : fb.Run line m cs m') (hm : Coherent line m) :
    Coherent line m' ∧ fb.view line m' = cs.foldl fb.paint (fb.view line m) ∧
      ∀ a, fb.Outside a → m'.visible line a = m.visible line a := by
  induction h with
  | nil h => exact ⟨h.coherent hm, view_congr fun a => h.visible (hm a), fun a _ => h.visible (hm a)⟩
  | @cons m m₁ m' c cs h _ ih =>
      have hd : fb.Draws line _ _ := run_draws hok c
      obtain ⟨hcoh, hview, hout⟩ := ih (hd.coherent _ (h.coherent hm))
      refine ⟨hcoh, ?_, fun a ha => ?_⟩
      · rw [hview, hd.picture _ (h.coherent hm), view_congr fun a => h.visible (hm a), List.foldl_cons]
      · rw [hout a ha, hd.outside _ (h.coherent hm) a ha, h.visible (hm a)]

/-- The calls draw nothing, or a flush comes last. -/
def Flushed (cs : List Command) : Prop := cs = [] ∨ cs.getLast? = some .flush

theorem Run.shown (hok : fb.Ok) (hline : 0 < line) (h : fb.Run line m cs m') (hm : Coherent line m)
    (hlast : cs.getLast? = some .flush) : fb.Shown line m' := by
  induction h with
  | nil h => cases hlast
  | @cons m m₁ m' c cs h hr ih =>
      have hd : fb.Draws line _ _ := run_draws hok c
      have hcoh := hd.coherent _ (h.coherent hm)
      cases cs with
      | nil =>
          obtain rfl : c = .flush := by simpa using hlast
          cases hr with
          | nil hdrift => exact (flush_shown hline m₁).drift hcoh hdrift
      | cons c' cs => exact ih hcoh (by simpa using hlast)

theorem Run.shown_of_flushed (hok : fb.Ok) (hline : 0 < line) (h : fb.Run line m cs m') (hm : Coherent line m)
    (hs : fb.Shown line m) (hlast : Flushed cs) : fb.Shown line m' := by
  rcases hlast with rfl | hlast
  · cases h with
    | nil hd => exact hs.drift hm hd
  · exact h.shown hok hline hm hlast

/-- Whatever the calls and their arguments, and whatever the cache does between them, the CPU reads the picture that
the calls paint; nothing outside of the framebuffer is written; and after a flush the GPU reads the same picture. -/
theorem drawing_refines (hok : fb.Ok) (hline : 0 < line) (h : fb.Run line m cs m') (hm : Coherent line m) :
    fb.view line m' = cs.foldl fb.paint (fb.view line m) ∧
      (∀ a, fb.Outside a → m'.visible line a = m.visible line a) ∧
      (cs.getLast? = some .flush → fb.scanout m' = cs.foldl fb.paint (fb.view line m)) := by
  obtain ⟨-, hview, hout⟩ := h.draws hok hm
  exact ⟨hview, hout, fun hlast => by rw [(h.shown hok hline hm hlast).scanout hok, hview]⟩

/-- Two rectangles that leave the screen of 6 by 2 pixels, with rows of 32 bytes at an odd address. -/
theorem drawing_refines_small :
    let fb : Framebuffer := ⟨⟨6, 2⟩, 101, 32, 32⟩
    let cs : List Command := [.fillRect 4 1 9 9 7, .scrollUp 1 3, .flush]
    let m' := cs.foldl (fb.run 64) ⟨fun _ => 0, fun _ => none⟩
    fb.scanout m' 5 0 = 7 ∧ fb.scanout m' 5 1 = 3 ∧ fb.scanout m' 3 0 = 0 := by
  intro fb cs m'
  have h := (drawing_refines ⟨rfl, by decide⟩ (by decide) (Run.still fb 64 ⟨fun _ => 0, fun _ => none⟩ cs)
    fun _ _ h => by cases h).2.2 rfl
  rw [h]
  exact ⟨rfl, rfl, rfl⟩

end Framebuffer

end Display

end Ferro
