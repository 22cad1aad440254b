import Ferro.Base.Transducer
import Ferro.Types

/-!
# Console output (`efi/console.rs`)

The text console on the framebuffer. What is drawn and sent is a list of effects; the pixels themselves are not part of
the state. The functions run behind `init`, so the framebuffer is there, and a string is its units in front of the NUL.
-/

namespace Ferro

namespace Console

/-! ## The framebuffer (`framebuffer.rs`) -/

structure Framebuffer where
  width : UInt32
  height : UInt32

def glyphWidth : UInt32 := 5

def glyphHeight : UInt32 := 7

def glyphScale : UInt32 := 2

def cellW : UInt32 := (glyphWidth + 1) * glyphScale

def cellH : UInt32 := (glyphHeight + 3) * glyphScale

/-- The arguments of `fill_rect`. -/
structure Rect where
  x0 : UInt32
  y0 : UInt32
  w : UInt32
  h : UInt32

/-- The rectangles that `draw_char` fills for the rows of a glyph. -/
def drawChar (rows : Bytes 7) (x y scale : UInt32) : List Rect :=
  (List.range 7).flatMap fun row =>
    ((List.range 5).filter fun col => (rows.nth row).toNat.testBit (5 - 1 - col)).map fun col =>
      ⟨x + UInt32.ofNat col * scale, y + UInt32.ofNat row * scale, scale, scale⟩

/-! ## State -/

/-- The fields of `OUT_MODE` that follow the console. -/
structure OutMode where
  attr : Int32
  cursorColumn : Int32
  cursorRow : Int32
  deriving DecidableEq

structure Screen where
  fb : Framebuffer
  /-- Whether there is a UART. -/
  uart : Bool
  cursorCol : Int32
  cursorRow : Int32
  attr : UInt64
  outMode : OutMode

inductive Effect where
  /-- `draw_char`. -/
  | glyph (x y : UInt32) (c : UInt8) (scale fg : UInt32)
  | scrollUp (rowsPx bg : UInt32)
  | clear (bg : UInt32)
  | flush
  /-- A byte for the UART. -/
  | putc (b : UInt8)
  deriving DecidableEq

def palette : List UInt32 :=
  [0x00000000, 0x000000C8, 0x0000A000, 0x0000A0A0, 0x00A00000, 0x00A000A0, 0x00A05000, 0x00A0A0A0,
    0x00505050, 0x005050FF, 0x0050FF50, 0x0050FFFF, 0x00FF5050, 0x00FF50FF, 0x00FFFF50, 0x00FFFFFF]

def fgBg (scr : Screen) : UInt32 × UInt32 :=
  (palette.getD (min (scr.attr &&& 0x0F).toNat 15) 0, palette.getD (min (scr.attr >>> 4 &&& 0x07).toNat 15) 0)

/-- Columns and rows. -/
def gridSize (fb : Framebuffer) : UInt32 × UInt32 := (fb.width / cellW, fb.height / cellH)

/-! ## Characters -/

def newline (scr : Screen) : List Effect × Screen :=
  let rows := (gridSize scr.fb).2
  if (scr.cursorRow + 1).toUInt32 ≥ rows then
    ([.scrollUp cellH (fgBg scr).2], { scr with cursorCol := 0, cursorRow := rows.toInt32 - 1 })
  else
    ([], { scr with cursorCol := 0, cursorRow := scr.cursorRow + 1 })

/-- The line break in front of a character behind the last column. -/
def wrap (scr : Screen) : List Effect × Screen :=
  if scr.cursorCol.toUInt32 ≥ (gridSize scr.fb).1 then newline scr else ([], scr)

def putChar (c : UInt8) (scr : Screen) : List Effect × Screen :=
  let (broken, scr) := wrap scr
  (broken ++ [.glyph (scr.cursorCol.toUInt32 * cellW) (scr.cursorRow.toUInt32 * cellH) c glyphScale (fgBg scr).1],
    { scr with cursorCol := scr.cursorCol + 1 })

/-- The copy for the UART. -/
def mirror (scr : Screen) (b : UInt8) : List Effect := if scr.uart then [.putc b] else []

/-- One unit of a string. -/
def putUnit (scr : Screen) (c : UInt16) : List Effect × Screen :=
  if c = 0x0D then
    (mirror scr 0x0D, { scr with cursorCol := 0 })
  else if c = 0x0A then
    ((newline scr).1 ++ mirror scr 0x0A, (newline scr).2)
  else if c = 0x08 then
    ([], if 0 < scr.cursorCol then { scr with cursorCol := scr.cursorCol - 1 } else scr)
  else if 0x20 ≤ c ∧ c ≤ 0x7E then
    ((putChar c.toUInt8 scr).1 ++ mirror scr c.toUInt8, (putChar c.toUInt8 scr).2)
  else
    ([], scr)

/-- The loop of `output_string`. -/
def units : Transducer Screen UInt16 Effect := ⟨putUnit⟩

/-! ## Calls -/

def syncMode (scr : Screen) : Screen :=
  { scr with outMode := ⟨scr.attr.toUInt32.toInt32, scr.cursorCol, scr.cursorRow⟩ }

def outputString (scr : Screen) (string : Option (List UInt16)) : EfiStatus × List Effect × Screen :=
  match string with
  | none => (.invalidParameter, [], scr)
  | some string =>
    let (drawn, scr) := units.run scr (string.takeWhile (· ≠ 0))
    (.success, drawn ++ [.flush], syncMode scr)

def setAttribute (scr : Screen) (attr : UInt64) : EfiStatus × List Effect × Screen :=
  (.success, [], syncMode { scr with attr })

def clearScreen (scr : Screen) : EfiStatus × List Effect × Screen :=
  (.success, [.clear (fgBg scr).2, .flush], syncMode { scr with cursorCol := 0, cursorRow := 0 })

def textReset (scr : Screen) : EfiStatus × List Effect × Screen := clearScreen scr

def setCursorPosition (scr : Screen) (column row : UInt64) : EfiStatus × List Effect × Screen :=
  if column.toUInt32 ≥ (gridSize scr.fb).1 ∨ row.toUInt32 ≥ (gridSize scr.fb).2 then
    (.invalidParameter, [], scr)
  else
    (.success, [], syncMode { scr with cursorCol := column.toUInt32.toInt32, cursorRow := row.toUInt32.toInt32 })

/-- `console::init`, on what is there already. -/
def init (scr : Screen) (fb : Framebuffer) (uart : Bool) : Screen :=
  { scr with fb, uart, cursorCol := 0, cursorRow := 0, attr := 0x07 }

inductive Call where
  | outputString (string : Option (List UInt16))
  | setCursorPosition (column row : UInt64)
  | setAttribute (attr : UInt64)
  | reset
  | clearScreen

def call (scr : Screen) : Call → EfiStatus × List Effect × Screen
  | .outputString string => outputString scr string
  | .setCursorPosition column row => setCursorPosition scr column row
  | .setAttribute attr => setAttribute scr attr
  | .reset => textReset scr
  | .clearScreen => clearScreen scr

/-- The calls of an application. -/
def calls : Transducer Screen Call Effect := ⟨fun scr c => (call scr c).2⟩

end Console

end Ferro
