import Ferro.Console.Menu
import Ferro.Display.Regions
import Ferro.Services.Settings
import Ferro.Variables.Storage

/-!
# The screens of the boot manager (`ui.rs`)

A screen is the list of the calls that draw it. The numbers that are shown are read while it is drawn.
-/

namespace Ferro

namespace Menu

open Display (Command)

/-! ## Places and colours -/

def bg : UInt32 := 0x00121620

def headerBg : UInt32 := 0x00202A38

def border : UInt32 := 0x00354250

def fg : UInt32 := 0x00E0E6EC

def dim : UInt32 := 0x00707880

def headerH : UInt32 := 50

def footerH : UInt32 := 40

def margin : UInt32 := 20

def contentX : UInt32 := 40

def contentY : UInt32 := headerH + 35

def dividerX : UInt32 := 400

def statusX : UInt32 := dividerX + 30

def idleRedrawTicks : UInt64 := 10

def textWidth (text : List Char) (scale : UInt32) : UInt32 :=
  UInt32.ofNat text.length * (Console.glyphWidth + 1) * scale

def lineHeight (scale : UInt32) : UInt32 := (Console.glyphHeight + 3) * scale

def accent : Session.Theme → UInt32
  | .amber => 0x00FFA030
  | .cyan => 0x0030C8FF
  | .green => 0x0050E060

def selectBg : Session.Theme → UInt32
  | .amber => 0x002A3A4A
  | .cyan => 0x00163A44
  | .green => 0x00163A22

def themeName : Session.Theme → List Char
  | .amber => "AMBER".toList
  | .cyan => "CYAN".toList
  | .green => "GREEN".toList

/-! ## Texts -/

/-- A line of ASCII characters in a buffer of 80 bytes. -/
structure LineBuf where
  text : List Char
  fits : text.length ≤ 80

namespace LineBuf

def new : LineBuf := ⟨[], by decide⟩

/-- What does not fit is cut off. -/
def writeStr (lb : LineBuf) (s : List Char) : LineBuf where
  text := lb.text ++ s.take (80 - lb.text.length)
  fits := by
    have := lb.fits
    rw [List.length_append, List.length_take]
    omega

/-- `write!`, piece by piece. -/
def write (pieces : List (List Char)) : LineBuf := pieces.foldl writeStr new

end LineBuf

/-- `{}` of a number. -/
def decimal (n : Nat) : List Char := Nat.toDigits 10 n

def uptimeLine (ticks : UInt64) : LineBuf :=
  .write ["UPTIME   ".toList, decimal (ticks / 100).toNat, ".".toList, decimal (ticks % 100 / 10).toNat, "S".toList]

/-! ## Screens -/

/-- What the screens show, besides the time: the settings, what the CPU says of itself, and the variables. -/
structure System where
  keyboard : Bool
  settings : Settings
  freq : UInt64
  el : UInt64
  vars : Store

variable (fb : Display.Framebuffer)

def drawChrome (title hint : List Char) (theme : Session.Theme) : List Command :=
  let titleX := Display.Framebuffer.saturatingSub fb.width (textWidth title 2 + margin)
  let panelY := headerH + 12
  let panelH := fb.height - headerH - footerH - 24
  [.clear bg,
    .fillRect 0 0 fb.width headerH headerBg,
    .drawText margin 16 "FERRO UEFI".toList 3 (accent theme),
    .drawText titleX 19 title 2 fg,
    .fillRect 0 headerH fb.width 2 border,
    .fillRect 0 (fb.height - footerH) fb.width footerH headerBg,
    .fillRect 0 (fb.height - footerH) fb.width 2 border,
    .drawText margin (fb.height - footerH + 12) hint 2 dim,
    .drawRectOutline margin panelY (fb.width - 2 * margin) panelH 2 border,
    .flush]

structure MenuItem where
  label : List Char
  description : List Char

def items : List MenuItem :=
  [⟨"BOOT FROM SD".toList, "MOUNT THE SD CARD, LOAD SAVED VARIABLES, LIST WHAT'S ON IT".toList⟩,
    ⟨"SETTINGS".toList, "VERBOSE BOOT, ACCENT THEME, USB HID -- REAL UEFI VARIABLES".toList⟩,
    ⟨"SYSTEM INFO".toList, "CPU, TIMER, MMU, USB, AND NVRAM STATE, READ LIVE FROM HARDWARE".toList⟩,
    ⟨"SAVE VARIABLES TO SD".toList, "WRITE UEFI VARIABLES (INCLUDING SETTINGS) TO THE SD CARD".toList⟩,
    ⟨"REBOOT".toList, "ISSUE A WATCHDOG RESET".toList⟩]

/-- One of the five items. -/
structure MenuState where
  selected : Fin items.length

def moveUp (s : MenuState) : MenuState :=
  if h : s.selected.val = 0 then ⟨⟨4, by decide⟩⟩ else ⟨⟨s.selected.val - 1, by omega⟩⟩

def moveDown (s : MenuState) : MenuState := ⟨⟨(s.selected.val + 1) % items.length, Nat.mod_lt _ (by decide)⟩⟩

/-- `rfind`. -/
def rfind (c : Char) (text : List Char) : Option Nat :=
  (text.reverse.findIdx? (· == c)).map fun i => text.length - 1 - i

/-- The lines of a text, of at most `maxChars` characters. `fuel` is at least its length. -/
def wrapLoop (maxChars : Nat) : (fuel : Nat) → List Char → List (List Char)
  | 0, _ => []
  | fuel + 1, text =>
    if text.length = 0 then
      []
    else
      let stop := min maxChars text.length
      let cut := if stop < text.length then (rfind ' ' (text.take stop)).getD stop else stop
      text.take cut :: wrapLoop maxChars fuel (text.drop (if cut = 0 then stop else cut + 1))

def wrap (maxChars : Nat) (text : List Char) : List (List Char) := wrapLoop maxChars text.length text

/-- The lines of a description that fit in front of the divider. -/
def descriptionLines (text : List Char) : List (List Char) :=
  let descMaxW := dividerX - contentX - 20
  wrap (max (descMaxW / ((Console.glyphWidth + 1) * 2)) 1).toNat text

def drawStatusPanel (sys : System) (ticks : UInt64) : List Command :=
  let x := statusX
  let y := contentY
  let uptimeY := y + (lineHeight 2 + 6)
  let boardY := uptimeY + lineHeight 2
  let cpuY := boardY + lineHeight 2
  let timerY := cpuY + lineHeight 2
  let mmuY := timerY + lineHeight 2
  let inputY := mmuY + (lineHeight 2 + 6)
  let themeY := inputY + lineHeight 2
  let nvramY := themeY + (lineHeight 2 + 6)
  let inputLine :=
    if sys.keyboard then "INPUT    USB HID + UART".toList
    else if sys.settings.usbEnabled then "INPUT    UART ONLY (NO USB DEV)".toList
    else "INPUT    UART ONLY (USB DISABLED)".toList
  let (max, remaining, _) := Variables.storageInfo sys.vars
  let used := max - remaining
  [.drawText x y "SYSTEM STATUS".toList 2 (accent sys.settings.theme),
    .drawText x uptimeY (uptimeLine ticks).text 2 fg,
    .drawText x boardY "BOARD    PI 3 / BCM2837".toList 2 fg,
    .drawText x cpuY (LineBuf.write ["CPU      4X CORTEX-A53 EL".toList, decimal sys.el.toNat]).text 2 fg,
    .drawText x timerY
      (LineBuf.write ["TIMER    ".toList, decimal (sys.freq / 1000000).toNat, "MHZ".toList]).text 2 fg,
    .drawText x mmuY "MMU      ENABLED".toList 2 fg,
    .drawText x inputY inputLine 2 (if sys.keyboard then fg else dim),
    .drawText x themeY (LineBuf.write ["THEME    ".toList, themeName sys.settings.theme]).text 2 fg,
    .drawText x nvramY (LineBuf.write
      ["NVRAM    ".toList, decimal used.toNat, "/".toList, decimal max.toNat, " BYTES".toList]).text 2 fg]

def uptimeLineY : UInt32 := contentY + lineHeight 2 + 6

def refreshUptime (ticks : UInt64) : List Command :=
  let y := uptimeLineY
  let w := fb.width - margin - statusX
  [.fillRect statusX y w (lineHeight 2) bg, .drawText statusX y (uptimeLine ticks).text 2 fg, .flush]

/-- An item of the menu, with a bar behind the selected one. -/
def drawItem (s : MenuState) (theme : Session.Theme) (item : MenuItem) (i : Nat) : List Command :=
  let rowH := 32
  let y := contentY + 4 + UInt32.ofNat i * (rowH + 6)
  let selected := i = s.selected.val
  (if selected then
    [.fillRect contentX (y - 6) (dividerX - contentX - 20) rowH (selectBg theme),
      .fillRect contentX (y - 6) 4 rowH (accent theme)]
  else []) ++ [.drawText (contentX + 20) y item.label 2 (if selected then accent theme else fg)]

def drawMenu (s : MenuState) (sys : System) (ticks : UInt64) : List Command :=
  let descY := contentY + 4 + UInt32.ofNat items.length * (32 + 6) + 14
  drawChrome fb "BOOT MANAGER".toList "ARROWS OR J/K: MOVE    ENTER: SELECT".toList sys.settings.theme ++
    (items.zipIdx.flatMap fun (item, i) => drawItem s sys.settings.theme item i) ++
    ((descriptionLines (items.get s.selected).description).zipIdx.map fun (line, i) =>
      .drawText contentX (descY + UInt32.ofNat i * lineHeight 2) line 2 dim) ++
    [.fillRect dividerX (headerH + 12) 2 (fb.height - headerH - footerH - 24) border] ++
    drawStatusPanel sys ticks ++ [.flush]

end Menu

end Ferro
