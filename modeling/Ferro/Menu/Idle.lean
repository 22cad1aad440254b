import Ferro.Display.Runs
import Ferro.Menu.Screens

/-!
# The loop of the boot manager (`ui::run`)

While nothing is pressed only the line with the uptime is drawn again.
-/

namespace Ferro

namespace Menu

open Display (Command)
open Raster

/-! ## The loop -/

/-- What a selected item draws, what it leaves of the system, and the time when it goes back to the menu. -/
structure Screen where
  commands : List Command
  sys : System
  back : UInt64

/-- A turn of the loop, with the readings of the ticks: for the picture, and behind it. -/
inductive Turn where
  | key (k : Key) (screen : Screen) (drawn after : UInt64)
  | idle (now drawn after : UInt64)

/-- `state` and `last_draw`, and the system. Of the last drawing, whether it was that of the line alone, and its time. -/
structure Loop where
  state : MenuState
  sys : System
  lastDraw : UInt64
  refreshed : Bool
  drawn : UInt64

variable (fb : Display.Framebuffer)

/-- `draw_menu`, and the ticks behind it. -/
def Loop.draw (state : MenuState) (sys : System) (drawn after : UInt64) : List Command × Loop :=
  (drawMenu fb state sys drawn, ⟨state, sys, after, false, drawn⟩)

/-- A turn. The last item, a reset, does not come back. -/
def Loop.turn (l : Loop) : Turn → Option (List Command × Loop)
  | .key .up _ drawn after => some (Loop.draw fb (moveUp l.state) l.sys drawn after)
  | .key .down _ drawn after => some (Loop.draw fb (moveDown l.state) l.sys drawn after)
  | .key .enter screen drawn after =>
    if l.state.selected.val = 4 then
      none
    else
      let (cs, l') := Loop.draw fb l.state screen.sys drawn after
      some (screen.commands ++ drawMenu fb l.state screen.sys screen.back ++ cs, l')
  | .key _ _ _ _ => some ([], l)
  | .idle now drawn after =>
    if now - l.lastDraw ≥ idleRedrawTicks then
      some (refreshUptime fb drawn, { l with lastDraw := after, refreshed := true, drawn })
    else
      some ([], l)

def Loop.turns (l : Loop) : List Turn → Option (List Command × Loop)
  | [] => some ([], l)
  | t :: ts =>
    match l.turn fb t with
    | none => none
    | some (cs, l) => (l.turns ts).map fun (cs', l) => (cs ++ cs', l)

/-- From the first picture on. -/
def run (sys : System) (drawn after : UInt64) (ts : List Turn) : Option (List Command × Loop) :=
  let (cs, l) := Loop.draw fb ⟨⟨0, by decide⟩⟩ sys drawn after
  (l.turns fb ts).map fun (cs', l) => (cs ++ cs', l)

/-- The time that a turn may show. -/
def Turn.shows : Turn → UInt64
  | .key _ _ drawn _ => drawn
  | .idle _ drawn _ => drawn

/-! ## Regions -/

/-- What is drawn for the uptime. -/
def window : Region := box 430 (fb.width.toNat - 20) 111 131

/-- The edge of the panel in the window. -/
def edge : Region := box (fb.width.toNat - 22) (fb.width.toNat - 20) 111 131

/-- At least as large as the screen that the firmware asks for, nearly. -/
structure Large : Prop where
  width : 800 ≤ fb.width.toNat
  height : 185 ≤ fb.height.toNat

variable {fb} {x y : Nat} {p q : Picture UInt32}

theorem toNat_sub {a b : UInt32} (h : b.toNat ≤ a.toNat) : (a - b).toNat = a.toNat - b.toNat :=
  UInt32.toNat_sub_of_le _ _ (UInt32.le_iff_toNat_le.mpr h)

theorem Large.panel_height (h : Large fb) : (fb.height - headerH - footerH - 24).toNat = fb.height.toNat - 114 := by
  have hh := h.height
  have h₁ : headerH.toNat = 50 := rfl
  have h₂ : footerH.toNat = 40 := rfl
  have h₃ : (24 : UInt32).toNat = 24 := rfl
  have e₁ : (fb.height - headerH).toNat = fb.height.toNat - 50 := toNat_sub (by omega)
  have e₂ : (fb.height - headerH - footerH).toNat = fb.height.toNat - 90 := by
    rw [toNat_sub (by omega)]
    omega
  rw [toNat_sub (by omega)]
  omega

/-- A rectangle that is left of `x`, right of it, above `y` or below it. -/
theorem box_misses {x0 y0 w h : UInt32}
    (hout : (x0 + w).toNat ≤ x ∨ x < x0.toNat ∨ (y0 + h).toNat ≤ y ∨ y < y0.toNat) : fb.box x0 y0 w h x y ≠ true := by
  intro hbox
  have := Display.Framebuffer.box_bounds hbox
  omega

theorem text_misses {x0 y0 fg : UInt32} {text : List Char} {scale : UInt32} (hy : y0.toNat + 7 * scale.toNat < 2 ^ 32)
    (hout : y0.toNat + 7 * scale.toNat ≤ y ∨ y < y0.toNat) :
    fb.region (.drawText x0 y0 text scale fg) x y ≠ true := by
  intro h
  have := Display.Framebuffer.text_rows hy h
  omega

theorem toNat_saturatingSub (a b : UInt32) :
    (Display.Framebuffer.saturatingSub a b).toNat = a.toNat - b.toNat := by
  rw [Display.Framebuffer.saturatingSub]
  split
  · next h => exact toNat_sub (UInt32.le_iff_toNat_le.mp h)
  · next h =>
      rw [UInt32.le_iff_toNat_le] at h
      exact (Nat.sub_eq_zero_of_le (by omega)).symm

theorem outline_misses {x0 y0 w h thickness color : UInt32}
    (hrows : (y0 + thickness).toNat ≤ y ∧ y < (y0 + Display.Framebuffer.saturatingSub h thickness).toNat)
    (hcols : (x0 + thickness).toNat ≤ x ∧ x < (x0 + Display.Framebuffer.saturatingSub w thickness).toNat) :
    fb.region (.drawRectOutline x0 y0 w h thickness color) x y ≠ true := by
  simp only [Display.Framebuffer.region, Bool.or_eq_true, not_or, ne_eq]
  exact ⟨⟨⟨box_misses (.inr (.inr (.inl hrows.1))), box_misses (.inr (.inr (.inr hrows.2)))⟩,
    box_misses (.inl hcols.1)⟩, box_misses (.inr (.inl hcols.2))⟩

/-- The chrome draws nothing in the window but the ground and the edge. -/
theorem chrome_misses (hl : Large fb) (title hint : List Char) (theme : Session.Theme) (hin : window fb x y = true)
    (hedge : edge fb x y ≠ true) : fb.Misses (drawChrome fb title hint theme).tail x y := by
  obtain ⟨hx, hx', hy, hy'⟩ := box_iff.mp hin
  have hw := hl.width
  have hh := hl.height
  have hltw := fb.width.toNat_lt
  have hlth := fb.height.toNat_lt
  have hedge : x < fb.width.toNat - 22 := by
    by_contra hge
    exact hedge (box_iff.mpr ⟨by omega, hx', hy, hy'⟩)
  have h₁ : footerH.toNat = 40 := rfl
  have h₂ : (2 : UInt32).toNat = 2 := rfl
  have h₃ : (12 : UInt32).toNat = 12 := rfl
  have h₄ : margin.toNat = 20 := rfl
  have h₅ : (2 * margin).toNat = 40 := rfl
  have h₆ : (headerH + 12).toNat = 62 := rfl
  have hfooter : (fb.height - footerH).toNat = fb.height.toNat - 40 := by rw [toNat_sub (by omega), h₁]
  have hhint : (fb.height - footerH + 12).toNat = fb.height.toNat - 28 := by
    rw [UInt32.toNat_add, hfooter]
    omega
  have hbottom : (headerH + 12 +
      Display.Framebuffer.saturatingSub (fb.height - headerH - footerH - 24) 2).toNat = fb.height.toNat - 54 := by
    rw [UInt32.toNat_add, toNat_saturatingSub, hl.panel_height]
    omega
  have hright : (margin + Display.Framebuffer.saturatingSub (fb.width - 2 * margin) 2).toNat = fb.width.toNat - 22 := by
    rw [UInt32.toNat_add, toNat_saturatingSub, toNat_sub (by omega)]
    omega
  clear h₁ h₃ h₄ h₅ h₆
  simp only [Display.Framebuffer.Misses, drawChrome, List.tail_cons, List.forall_mem_cons]
  refine ⟨⟨trivial, ?_⟩, ⟨trivial, ?_⟩, ⟨trivial, ?_⟩, ⟨trivial, ?_⟩, ⟨trivial, ?_⟩, ⟨trivial, ?_⟩, ⟨trivial, ?_⟩,
    ⟨trivial, ?_⟩, ⟨trivial, Bool.false_ne_true⟩, fun c hc => absurd hc List.not_mem_nil⟩
  · exact box_misses (.inr (.inr (.inl (Nat.le_trans (by decide) hy))))
  · exact text_misses (by decide) (.inl (Nat.le_trans (by decide) hy))
  · exact text_misses (by decide) (.inl (Nat.le_trans (by decide) hy))
  · exact box_misses (.inr (.inr (.inl (Nat.le_trans (by decide) hy))))
  · exact box_misses (.inr (.inr (.inr (by omega))))
  · exact box_misses (.inr (.inr (.inr (by omega))))
  · exact text_misses (by omega) (.inr (by omega))
  · exact outline_misses ⟨Nat.le_trans (by decide) hy, by omega⟩ ⟨Nat.le_trans (by decide) hx, by omega⟩

theorem chrome_window (hl : Large fb) (title hint : List Char) (theme : Session.Theme) (hin : window fb x y = true)
    (hedge : edge fb x y ≠ true) (p : Picture UInt32) :
    (drawChrome fb title hint theme).foldl fb.paint p x y = bg := by
  obtain ⟨hx, hx', hy, hy'⟩ := box_iff.mp hin
  have hh := hl.height
  have hclear : Raster.box 0 fb.width.toNat 0 fb.height.toNat x y = true :=
    box_iff.mpr ⟨by omega, by omega, by omega, by omega⟩
  have hcons : drawChrome fb title hint theme = .clear bg :: (drawChrome fb title hint theme).tail := rfl
  rw [hcons, List.foldl_cons, Display.Framebuffer.foldl_misses (chrome_misses hl title hint theme hin hedge)]
  exact if_pos hclear

theorem length_wrapLoop_le (maxChars fuel : Nat) (text : List Char) :
    (wrapLoop maxChars fuel text).length ≤ fuel := by
  induction fuel generalizing text with
  | zero => exact Nat.le_refl 0
  | succ fuel ih =>
      rw [wrapLoop]
      split
      · exact Nat.zero_le _
      · exact Nat.succ_le_succ (ih _)

/-- The items are left of the window. -/
theorem item_misses (s : MenuState) (theme : Session.Theme) {item : MenuItem} (hitem : item ∈ items) (i : Nat)
    (hx : 430 ≤ x) : fb.Misses (drawItem s theme item i) x y := by
  have hlabel : ∀ item ∈ items, item.label.length ≤ 20 := by decide
  have hlen := hlabel item hitem
  have htext (color : UInt32) (y0 : UInt32) :
      fb.region (.drawText (contentX + 20) y0 item.label 2 color) x y ≠ true := by
    have h₁ : (contentX + 20).toNat = 60 := rfl
    have h₂ : (2 : UInt32).toNat = 2 := rfl
    intro h
    have hcols := Display.Framebuffer.text_columns (by rw [h₁, h₂]; omega) h
    rw [h₁, h₂] at hcols
    omega
  intro c hc
  rcases List.mem_append.mp hc with hc | hc
  · split at hc
    · simp only [List.mem_cons, List.not_mem_nil, or_false] at hc
      rcases hc with rfl | rfl
      · exact ⟨trivial, box_misses (.inl (Nat.le_trans (by decide) hx))⟩
      · exact ⟨trivial, box_misses (.inl (Nat.le_trans (by decide) hx))⟩
    · cases hc
  · obtain rfl := List.mem_singleton.mp hc
    exact ⟨trivial, htext _ _⟩

/-- A description is below the window. -/
theorem description_misses {text : List Char} (htext : text.length ≤ 62) (hy : y < 131) :
    fb.Misses ((descriptionLines text).zipIdx.map fun (line, i) =>
      .drawText contentX (contentY + 4 + UInt32.ofNat items.length * (32 + 6) + 14 + UInt32.ofNat i * lineHeight 2) line
        2 dim) x y := by
  intro c hc
  obtain ⟨⟨line, i⟩, hmem, rfl⟩ := List.mem_map.mp hc
  have hi : i < 62 := by
    have hlt : i < (descriptionLines text).length := by simpa using (List.mem_zipIdx hmem).2.1
    have hle : (descriptionLines text).length ≤ text.length := length_wrapLoop_le _ _ _
    omega
  have h₁ : (contentY + 4 + UInt32.ofNat items.length * (32 + 6) + 14).toNat = 293 := rfl
  have h₂ : (lineHeight 2).toNat = 20 := rfl
  have h₃ : (2 : UInt32).toNat = 2 := rfl
  have hrow := Display.Framebuffer.toNat_advance (contentY + 4 + UInt32.ofNat items.length * (32 + 6) + 14)
    (lineHeight 2) i (by rw [h₁, h₂]; omega)
  rw [h₁, h₂] at hrow
  exact ⟨trivial, text_misses (by omega) (.inr (by omega))⟩

/-! ## The menu -/

/-- The calls between the chrome and the uptime. -/
def middle (fb : Display.Framebuffer) (s : MenuState) (sys : System) : List Command :=
  (items.zipIdx.flatMap fun (item, i) => drawItem s sys.settings.theme item i) ++
    ((descriptionLines (items.get s.selected).description).zipIdx.map fun (line, i) =>
      .drawText contentX (contentY + 4 + UInt32.ofNat items.length * (32 + 6) + 14 + UInt32.ofNat i * lineHeight 2) line
        2 dim) ++
    [.fillRect dividerX (headerH + 12) 2 (fb.height - headerH - footerH - 24) border] ++
    (drawStatusPanel sys 0).take 1

def uptime (ticks : UInt64) : Command := .drawText statusX uptimeLineY (uptimeLine ticks).text 2 fg

theorem paint_uptime (ticks : UInt64) (p : Picture UInt32) :
    fb.paint p (uptime ticks) x y = if fb.region (uptime ticks) x y = true then fg else p x y :=
  congrFun (congrFun (Display.Framebuffer.paint_eq (c := uptime ticks) trivial p) x) y

theorem drawMenu_eq (s : MenuState) (sys : System) (ticks : UInt64) :
    drawMenu fb s sys ticks =
      drawChrome fb "BOOT MANAGER".toList "ARROWS OR J/K: MOVE    ENTER: SELECT".toList sys.settings.theme ++
        middle fb s sys ++ uptime ticks :: ((drawStatusPanel sys 0).drop 2 ++ [.flush]) := by
  simp only [drawMenu, middle, List.append_assoc]
  rfl

theorem foldl_drawMenu (s : MenuState) (sys : System) (ticks : UInt64) (p : Picture UInt32) :
    (drawMenu fb s sys ticks).foldl fb.paint p =
      ((drawStatusPanel sys 0).drop 2 ++ [Command.flush]).foldl fb.paint (fb.paint
        ((drawChrome fb "BOOT MANAGER".toList "ARROWS OR J/K: MOVE    ENTER: SELECT".toList sys.settings.theme ++
          middle fb s sys).foldl fb.paint p) (uptime ticks)) := by
  rw [drawMenu_eq, List.foldl_append, List.foldl_cons]

theorem middle_misses (s : MenuState) (sys : System) (hin : window fb x y = true) :
    fb.Misses (middle fb s sys) x y := by
  obtain ⟨hx, -, hy, hy'⟩ := box_iff.mp hin
  have hdesc : ∀ item ∈ items, item.description.length ≤ 62 := by decide
  intro c hc
  rcases List.mem_append.mp hc with hc | hc
  · rcases List.mem_append.mp hc with hc | hc
    · rcases List.mem_append.mp hc with hc | hc
      · obtain ⟨⟨item, i⟩, hmem, hc⟩ := List.mem_flatMap.mp hc
        exact item_misses s _ (List.mem_of_getElem? (List.mk_mem_zipIdx_iff_getElem?.mp hmem)) i hx c hc
      · exact description_misses (hdesc _ (List.get_mem _ _)) hy' c hc
    · obtain rfl := List.mem_singleton.mp hc
      exact ⟨trivial, box_misses (.inl (Nat.le_trans (by decide) hx))⟩
  · obtain rfl := List.mem_singleton.mp hc
    exact ⟨trivial, text_misses (by decide) (.inl (Nat.le_trans (by decide) hy))⟩

/-- The rest of the panel is below the window. -/
theorem panel_misses (sys : System) (hin : window fb x y = true) :
    fb.Misses ((drawStatusPanel sys 0).drop 2 ++ [.flush]) x y := by
  obtain ⟨-, -, -, hy⟩ := box_iff.mp hin
  have htext (y0 color : UInt32) (text : List Char) (h : 131 ≤ y0.toNat ∧ y0.toNat + 7 * (2 : UInt32).toNat < 2 ^ 32) :
      (Command.drawText statusX y0 text 2 color).Still ∧
        fb.region (.drawText statusX y0 text 2 color) x y ≠ true :=
    ⟨trivial, text_misses h.2 (.inr (Nat.lt_of_lt_of_le hy h.1))⟩
  simp only [Display.Framebuffer.Misses, drawStatusPanel, List.drop_succ_cons, List.drop_zero, List.cons_append,
    List.nil_append, List.forall_mem_cons]
  exact ⟨htext _ _ _ (by decide), htext _ _ _ (by decide), htext _ _ _ (by decide), htext _ _ _ (by decide),
    htext _ _ _ (by decide), htext _ _ _ (by decide), htext _ _ _ (by decide), ⟨trivial, Bool.false_ne_true⟩,
    fun c hc => absurd hc List.not_mem_nil⟩

theorem Large.window_mem (hl : Large fb) : window fb 430 111 = true := by
  have := hl.width
  exact box_iff.mpr ⟨by omega, by omega, by omega, by omega⟩

theorem drawMenu_still (hl : Large fb) (s : MenuState) (sys : System) (ticks : UInt64) :
    ∀ c ∈ drawMenu fb s sys ticks, c.Still := by
  have hw := hl.width
  have hedge : edge fb 430 111 ≠ true := fun h => by
    have := (box_iff.mp h).1
    omega
  intro c hc
  rw [drawMenu_eq] at hc
  rcases List.mem_append.mp hc with hc | hc
  · rcases List.mem_append.mp hc with hc | hc
    · rcases List.mem_cons.mp hc with rfl | hc
      · trivial
      · exact (chrome_misses hl _ _ _ hl.window_mem hedge c hc).1
    · exact (middle_misses s sys hl.window_mem c hc).1
  · rcases List.mem_cons.mp hc with rfl | hc
    · trivial
    · exact (panel_misses sys hl.window_mem c hc).1

/-- A time that the line can show. -/
def Short (ticks : UInt64) : Prop := ticks.toNat < 10 ^ 19

instance (ticks : UInt64) : Decidable (Short ticks) := inferInstanceAs (Decidable (_ < _))

theorem length_write_le (pieces : List (List Char)) :
    (LineBuf.write pieces).text.length ≤ (pieces.map List.length).sum := by
  have h (lb : LineBuf) :
      (pieces.foldl LineBuf.writeStr lb).text.length ≤ lb.text.length + (pieces.map List.length).sum := by
    induction pieces generalizing lb with
    | nil => exact Nat.le_refl _
    | cons s pieces ih =>
        have hle := ih (lb.writeStr s)
        have hlen : (lb.writeStr s).text.length ≤ lb.text.length + s.length := by
          rw [LineBuf.writeStr, List.length_append, List.length_take]
          omega
        rw [List.foldl_cons, List.map_cons, List.sum_cons]
        omega
  have hnew := h LineBuf.new
  rwa [show LineBuf.new.text.length = 0 from rfl, Nat.zero_add] at hnew

theorem Short.length {ticks : UInt64} (h : Short ticks) : (uptimeLine ticks).text.length ≤ 29 := by
  have hsecs : (decimal (ticks / 100).toNat).length ≤ 17 := by
    refine (Nat.length_toDigits_le_iff (by decide) (by decide)).mpr ?_
    rw [UInt64.toNat_div]
    exact Nat.div_lt_of_lt_mul h
  have htenths : (decimal (ticks % 100 / 10).toNat).length ≤ 1 := by
    refine (Nat.length_toDigits_le_iff (by decide) (by decide)).mpr ?_
    rw [UInt64.toNat_div, UInt64.toNat_mod]
    exact Nat.div_lt_of_lt_mul (Nat.mod_lt _ (by decide))
  have hle : (uptimeLine ticks).text.length ≤ _ := length_write_le _
  have h₁ : "UPTIME   ".toList.length = 9 := rfl
  have h₂ : ".".toList.length = 1 := rfl
  have h₃ : "S".toList.length = 1 := rfl
  simp only [List.map_cons, List.map_nil, List.sum_cons, List.sum_nil, h₁, h₂, h₃] at hle
  omega

/-- The uptime is drawn in the window, and not on the edge. -/
theorem uptime_inside (hl : Large fb) {ticks : UInt64} (ht : Short ticks)
    (h : fb.region (uptime ticks) x y = true) : window fb x y = true ∧ edge fb x y ≠ true := by
  have hw := hl.width
  have hlen := ht.length
  have h₁ : statusX.toNat = 430 := rfl
  have h₂ : (2 : UInt32).toNat = 2 := rfl
  have h₃ : uptimeLineY.toNat = 111 := rfl
  have hcols := Display.Framebuffer.text_columns (by rw [h₁, h₂]; omega) h
  have hrows := Display.Framebuffer.text_rows (by rw [h₂, h₃]; omega) h
  rw [h₁, h₂] at hcols
  rw [h₂, h₃] at hrows
  refine ⟨box_iff.mpr ⟨by omega, by omega, by omega, by omega⟩, fun hedge => ?_⟩
  have := (box_iff.mp hedge).1
  omega

/-! ## The screen -/

/-- What the loop shows: the menu, drawn at once; but after the line was drawn alone, the edge is missing beside it. -/
def Loop.screen (fb : Display.Framebuffer) (l : Loop) : Picture UInt32 := fun x y =>
  if l.refreshed = true ∧ edge fb x y = true then bg
  else (drawMenu fb l.state l.sys l.drawn).foldl fb.paint (fun _ _ => 0) x y

/-- Black off the screen. -/
def Framed (fb : Display.Framebuffer) (p : Picture UInt32) : Prop :=
  ∀ x y, ¬ (x < fb.width.toNat ∧ y < fb.height.toNat) → p x y = 0

theorem Framed.foldl (hp : Framed fb p) (cs : List Command) : Framed fb (cs.foldl fb.paint p) := by
  intro x y h
  rw [Display.Framebuffer.foldl_off h, hp x y h]

/-- A whole menu hides what was on the screen. -/
theorem drawMenu_paint (hl : Large fb) (hp : Framed fb p) (s : MenuState) (sys : System) (ticks : UInt64) :
    (drawMenu fb s sys ticks).foldl fb.paint p = (drawMenu fb s sys ticks).foldl fb.paint fun _ _ => 0 := by
  funext x y
  by_cases hin : x < fb.width.toNat ∧ y < fb.height.toNat
  · have hcons : drawMenu fb s sys ticks = .clear bg :: (drawMenu fb s sys ticks).tail := rfl
    have hstill := drawMenu_still hl s sys ticks
    rw [hcons] at hstill ⊢
    have hclear : fb.region (.clear bg) x y = true := box_iff.mpr ⟨Nat.zero_le _, hin.1, Nat.zero_le _, hin.2⟩
    exact Display.Framebuffer.foldl_covered (fun c hc => hstill c (List.mem_cons_of_mem _ hc))
      (show (Command.clear bg).Still from trivial) hclear _ _
  · rw [Display.Framebuffer.foldl_off hin, Display.Framebuffer.foldl_off hin, hp x y hin]

/-- Outside of the window the menu is the same at all times. -/
theorem drawMenu_outside (hl : Large fb) {t t' : UInt64} (ht : Short t) (ht' : Short t') (hout : window fb x y ≠ true)
    (s : MenuState) (sys : System) (p : Picture UInt32) :
    (drawMenu fb s sys t).foldl fb.paint p x y = (drawMenu fb s sys t').foldl fb.paint p x y := by
  have hmiss {ticks : UInt64} (h : Short ticks) (q : Picture UInt32) : fb.paint q (uptime ticks) x y = q x y := by
    rw [paint_uptime, if_neg fun hr => hout (uptime_inside hl h hr).1]
  have hstill := drawMenu_still hl s sys t
  rw [drawMenu_eq] at hstill
  rw [foldl_drawMenu, foldl_drawMenu]
  refine Display.Framebuffer.foldl_congr (fun c hc => hstill c ?_) ?_
  · exact List.mem_append_right _ (List.mem_cons_of_mem _ hc)
  · rw [hmiss ht, hmiss ht']

/-- In the window, beside the edge, it is the uptime on the ground. -/
theorem drawMenu_inside (hl : Large fb) (hin : window fb x y = true) (hedge : edge fb x y ≠ true) (s : MenuState)
    (sys : System) (t : UInt64) (p : Picture UInt32) :
    (drawMenu fb s sys t).foldl fb.paint p x y = if fb.region (uptime t) x y = true then fg else bg := by
  rw [foldl_drawMenu, Display.Framebuffer.foldl_misses (panel_misses sys hin),
    paint_uptime, List.foldl_append, Display.Framebuffer.foldl_misses (middle_misses s sys hin),
    chrome_window hl _ _ _ hin hedge]

/-- The line alone. -/
theorem refreshUptime_paint (hl : Large fb) (t : UInt64) (p : Picture UInt32) :
    (refreshUptime fb t).foldl fb.paint p x y =
      if fb.region (uptime t) x y = true then fg else if window fb x y = true then bg else p x y := by
  have hw := hl.width
  have hlt := fb.width.toNat_lt
  have h₁ : margin.toNat = 20 := rfl
  have h₂ : statusX.toNat = 430 := rfl
  have hright : (statusX + (fb.width - margin - statusX)).toNat = fb.width.toNat - 20 := by
    have e₁ : (fb.width - margin).toNat = fb.width.toNat - 20 := by rw [toNat_sub (by omega), h₁]
    rw [UInt32.toNat_add, toNat_sub (by omega)]
    omega
  have hwindow : fb.box statusX uptimeLineY (fb.width - margin - statusX) (lineHeight 2) x y = true ↔
      window fb x y = true := by
    have hh := hl.height
    have h₃ : uptimeLineY.toNat = 111 := rfl
    have h₄ : (uptimeLineY + lineHeight 2).toNat = 131 := rfl
    rw [Display.Framebuffer.box, window, box_iff, box_iff, Display.Framebuffer.toNat_min, Display.Framebuffer.toNat_min,
      hright, h₂, h₃, h₄]
    omega
  have hline : (refreshUptime fb t).foldl fb.paint p = fb.paint
      (fill (fb.box statusX uptimeLineY (fb.width - margin - statusX) (lineHeight 2)) bg p) (uptime t) := rfl
  rw [hline, paint_uptime, fill]
  exact if_congr Iff.rfl rfl (if_congr hwindow rfl rfl)

theorem Loop.framed (hl : Large fb) (l : Loop) : Framed fb (l.screen fb) := by
  have hw := hl.width
  have hh := hl.height
  intro x y h
  have hedge : edge fb x y ≠ true := fun he => by
    have := box_iff.mp he
    omega
  rw [Loop.screen, if_neg fun he => hedge he.2, Display.Framebuffer.foldl_off h]

/-- A turn draws what the loop shows afterwards. -/
structure Turned (fb : Display.Framebuffer) (l : Loop) (cs : List Command) (l' : Loop) : Prop where
  screen : cs.foldl fb.paint (l.screen fb) = l'.screen fb
  short : Short l'.drawn
  flushed : Display.Framebuffer.Flushed cs

theorem Loop.screen_draw (hl : Large fb) (hp : Framed fb p) (state : MenuState) (sys : System) (drawn after : UInt64) :
    (Loop.draw fb state sys drawn after).1.foldl fb.paint p = (Loop.draw fb state sys drawn after).2.screen fb := by
  have hpaint := drawMenu_paint hl hp state sys drawn
  rw [Loop.draw, hpaint]
  funext x y
  rw [Loop.screen, if_neg fun h => Bool.false_ne_true h.1]

theorem flushed_append (cs cs' : List Command) : Display.Framebuffer.Flushed (cs ++ (cs' ++ [Command.flush])) :=
  .inr (by rw [← List.append_assoc, List.getLast?_concat])

theorem drawMenu_flushed (cs : List Command) (s : MenuState) (sys : System) (ticks : UInt64) :
    Display.Framebuffer.Flushed (cs ++ drawMenu fb s sys ticks) :=
  flushed_append cs _

theorem turn_draw (hl : Large fb) {l : Loop} (state : MenuState) (sys : System) {drawn : UInt64} (after : UInt64)
    (ht : Short drawn) (inner : List Command) :
    Turned fb l (inner ++ (Loop.draw fb state sys drawn after).1) (Loop.draw fb state sys drawn after).2 where
  screen := by rw [List.foldl_append, Loop.screen_draw hl ((l.framed hl).foldl inner)]
  short := ht
  flushed := drawMenu_flushed inner state sys drawn

/-- The line alone, on what the loop shows. -/
theorem turn_refresh (hl : Large fb) {l : Loop} (hd : Short l.drawn) {drawn : UInt64} (after : UInt64)
    (ht : Short drawn) :
    Turned fb l (refreshUptime fb drawn) { l with lastDraw := after, refreshed := true, drawn } := by
  refine ⟨?_, ht, flushed_append [] (refreshUptime fb drawn).dropLast⟩
  funext x y
  rw [refreshUptime_paint hl, Loop.screen, Loop.screen]
  by_cases hin : window fb x y = true
  · by_cases hedge : edge fb x y = true
    · rw [if_neg fun h => (uptime_inside hl ht h).2 hedge, if_pos hin, if_pos ⟨rfl, hedge⟩]
    · simp only [hin, hedge, if_true, Bool.false_eq_true, and_false, if_false, drawMenu_inside hl hin hedge]
  · have hedge : edge fb x y ≠ true := fun he => hin (box_iff.mpr (by
      have hw := hl.width
      have := box_iff.mp he
      omega))
    rw [if_neg fun h => hin (uptime_inside hl ht h).1, if_neg hin, if_neg fun h => hedge h.2,
      if_neg fun h => hedge h.2, drawMenu_outside hl hd ht hin]

theorem turn_none {l : Loop} (hd : Short l.drawn) : Turned fb l [] l := ⟨rfl, hd, .inl rfl⟩

theorem turn_screen (hl : Large fb) {l l' : Loop} {t : Turn} {cs : List Command} (h : l.turn fb t = some (cs, l'))
    (hd : Short l.drawn) (ht : Short t.shows) : Turned fb l cs l' := by
  cases t with
  | key k screen drawn after =>
      cases k with
      | up => cases h; exact turn_draw hl _ _ after ht []
      | down => cases h; exact turn_draw hl _ _ after ht []
      | left => cases h; exact turn_none hd
      | right => cases h; exact turn_none hd
      | back => cases h; exact turn_none hd
      | enter =>
          simp only [Loop.turn] at h
          split at h
          · cases h
          · cases h
            exact turn_draw hl _ _ after ht _
  | idle now drawn after =>
      simp only [Loop.turn] at h
      split at h
      · cases h; exact turn_refresh hl hd after ht
      · cases h; exact turn_none hd

theorem Turned.trans {l₁ l₂ l₃ : Loop} {cs cs' : List Command} (h : Turned fb l₁ cs l₂) (h' : Turned fb l₂ cs' l₃) :
    Turned fb l₁ (cs ++ cs') l₃ where
  screen := by rw [List.foldl_append, h.screen, h'.screen]
  short := h'.short
  flushed := by
    rcases h'.flushed with rfl | hlast
    · rw [List.append_nil]
      exact h.flushed
    · exact .inr (by rw [List.getLast?_append, hlast, Option.some_or])

theorem turns_screen (hl : Large fb) {l l' : Loop} {ts : List Turn} {cs : List Command}
    (h : l.turns fb ts = some (cs, l')) (hd : Short l.drawn) (hts : ∀ t ∈ ts, Short t.shows) : Turned fb l cs l' := by
  induction ts generalizing l cs with
  | nil => cases h; exact turn_none hd
  | cons t ts ih =>
      rw [Loop.turns] at h
      cases hturn : l.turn fb t with
      | none => rw [hturn] at h; cases h
      | some r =>
          obtain ⟨cs₁, l₁⟩ := r
          rw [hturn] at h
          obtain ⟨⟨cs₂, l₂⟩, hrest, he⟩ := Option.map_eq_some_iff.mp h
          cases he
          have hfirst := turn_screen hl hturn hd (hts t List.mem_cons_self)
          exact hfirst.trans (ih hrest hfirst.short fun t ht => hts t (List.mem_cons_of_mem _ ht))

/-- After any turns the GPU reads the menu as it would be drawn at once, with the selected item, the settings and the
time of the last drawing; only beside a line that was drawn alone the edge of the panel is missing. -/
theorem run_screen {line : Nat} {m m' : Memory} (hok : fb.Ok) (hline : 0 < line) (hl : Large fb)
    (hm : WriteBack.Coherent line m) {sys : System} {drawn after : UInt64} {ts : List Turn} {cs : List Command} {l : Loop}
    (hshort : Short drawn) (hts : ∀ t ∈ ts, Short t.shows) (h : run fb sys drawn after ts = some (cs, l))
    (hrun : fb.Run line m cs m') :
    fb.scanout m' = fun x y => if l.refreshed = true ∧ edge fb x y = true then bg
      else (drawMenu fb l.state l.sys l.drawn).foldl fb.paint (fun _ _ => 0) x y := by
  obtain ⟨⟨cs', l'⟩, hrest, he⟩ := Option.map_eq_some_iff.mp h
  cases he
  have hview : Framed fb (fb.view line m) := fun x y h => if_neg h
  have hfirst : (drawMenu fb ⟨⟨0, by decide⟩⟩ sys drawn).foldl fb.paint (fb.view line m) = _ :=
    Loop.screen_draw hl hview ⟨⟨0, by decide⟩⟩ sys drawn after
  have hturns := turns_screen hl hrest hshort hts
  obtain ⟨hcoherent, hpaint, -⟩ := hrun.draws hok hm
  rw [List.foldl_append, hfirst] at hpaint
  have hshown : fb.view line m' = l.screen fb := hpaint.trans hturns.screen
  have hlast : (drawMenu fb ⟨⟨0, by decide⟩⟩ sys drawn ++ cs').getLast? = some .flush := by
    rcases hturns.flushed with rfl | hlast
    · rw [List.append_nil]
      exact ((drawMenu_flushed [] _ _ _).resolve_left (List.cons_ne_nil _ _))
    · rw [List.getLast?_append, hlast, Option.some_or]
  rw [(hrun.shown hok hline hm hlast).scanout hok, hshown]
  rfl

/-- After 100 ms on a screen of 800 by 600 the edge is the ground. -/
theorem run_screen_first_refresh :
    let fb : Display.Framebuffer := ⟨⟨800, 600⟩, 0x3C100000, 3200, 32⟩
    let sys : System := ⟨false, ⟨true, .amber, true⟩, 19200000, 1, Variables.empty⟩
    ∃ cs l, run fb sys 0 0 [.idle 10 10 11] = some (cs, l) ∧
      fb.scanout (cs.foldl (fb.run 64) ⟨fun _ => 0, fun _ => none⟩) 778 111 = bg := by
  intro fb sys
  have hdue : (10 : UInt64) - 0 ≥ idleRedrawTicks := by decide
  have hturn : Loop.turn fb ⟨⟨⟨0, by decide⟩⟩, sys, 0, false, 0⟩ (.idle 10 10 11) =
    some (refreshUptime fb 10, ⟨⟨⟨0, by decide⟩⟩, sys, 11, true, 10⟩) := if_pos hdue
  have hrun : run fb sys 0 0 [.idle 10 10 11] = some (drawMenu fb ⟨⟨0, by decide⟩⟩ sys 0 ++ (refreshUptime fb 10 ++ []),
      ⟨⟨⟨0, by decide⟩⟩, sys, 11, true, 10⟩) := by
    simp only [run, Loop.draw, Loop.turns, hturn, Option.map_some]
  refine ⟨_, _, hrun, ?_⟩
  have hstill := Display.Framebuffer.Run.still fb 64 ⟨fun _ => 0, fun _ => none⟩
    (drawMenu fb ⟨⟨0, by decide⟩⟩ sys 0 ++ (refreshUptime fb 10 ++ []))
  have hok : fb.Ok := ⟨rfl, by decide⟩
  have h := run_screen hok (by decide) ⟨by decide, by decide⟩ (fun _ _ h => by cases h) (by decide)
    (fun t ht => by obtain rfl := List.mem_singleton.mp ht; decide) hrun hstill
  rw [h]
  exact if_pos ⟨rfl, by decide⟩

end Menu

end Ferro
