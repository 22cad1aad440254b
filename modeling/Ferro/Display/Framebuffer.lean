import Ferro.Base.Coherence
import Ferro.Console.Output
import Ferro.Display.Font
import Ferro.Usb.Transfer

/-!
# Drawing on the framebuffer (`framebuffer.rs`)

The pixels are in memory that the CPU caches. The numbers of a call are any 32-bit numbers; sums and products wrap.
-/

namespace Ferro

namespace Display

structure Framebuffer extends Console.Framebuffer where
  ptr : Nat
  pitch : UInt32
  bpp : UInt32

namespace Framebuffer

variable (fb : Framebuffer) (line : Nat)

def size : Nat := fb.pitch.toNat * fb.height.toNat

def putPixel (m : Memory) (x y color : UInt32) : Memory :=
  if x ≥ fb.width ∨ y ≥ fb.height then
    m
  else
    let offset := y.toNat * fb.pitch.toNat + x.toNat * (fb.bpp.toNat / 8)
    m.storeAll line (fb.ptr + offset) (leBytes 4 color.toNat)

/-- `a..b`. -/
def range (a b : UInt32) : List UInt32 := (List.range (b.toNat - a.toNat)).map fun i => a + UInt32.ofNat i

def fillRect (m : Memory) (x0 y0 w h color : UInt32) : Memory :=
  let x1 := min (x0 + w) fb.width
  let y1 := min (y0 + h) fb.height
  (range y0 y1).foldl (fun m y => (range x0 x1).foldl (fun m x => fb.putPixel line m x y color) m) m

def clear (m : Memory) (color : UInt32) : Memory := fb.fillRect line m 0 0 fb.width fb.height color

def scrollUp (m : Memory) (rowsPx bg : UInt32) : Memory :=
  if rowsPx ≥ fb.height then
    fb.clear line m bg
  else
    let bytesPerRow := fb.pitch.toNat
    let moveRows := fb.height - rowsPx
    let m := m.memmove line fb.ptr (fb.ptr + rowsPx.toNat * bytesPerRow) (moveRows.toNat * bytesPerRow)
    fb.fillRect line m 0 moveRows fb.width rowsPx bg

/-- `saturating_sub`. -/
def saturatingSub (a b : UInt32) : UInt32 := if b ≤ a then a - b else 0

def drawRectOutline (m : Memory) (x y w h thickness color : UInt32) : Memory :=
  let m := fb.fillRect line m x y w thickness color
  let m := fb.fillRect line m x (y + saturatingSub h thickness) w thickness color
  let m := fb.fillRect line m x y thickness h color
  fb.fillRect line m (x + saturatingSub w thickness) y thickness h color

def flush (m : Memory) : Memory := Cache.cleanAndInvalidateRange line m fb.ptr fb.size

def drawChar (m : Memory) (x y : UInt32) (c : Char) (scale fg : UInt32) : Memory :=
  (Console.drawChar (glyph c) x y scale).foldl (fun m r => fb.fillRect line m r.x0 r.y0 r.w r.h fg) m

def drawText (m : Memory) (x y : UInt32) (text : List Char) (scale fg : UInt32) : Memory :=
  let advance := (Console.glyphWidth + 1) * scale
  text.zipIdx.foldl (fun m (c, i) => fb.drawChar line m (x + UInt32.ofNat i * advance) y c scale fg) m

end Framebuffer

/-- A call of the framebuffer. -/
inductive Command where
  | putPixel (x y color : UInt32)
  | fillRect (x0 y0 w h color : UInt32)
  | clear (color : UInt32)
  | scrollUp (rowsPx bg : UInt32)
  | drawRectOutline (x y w h thickness color : UInt32)
  | drawChar (x y : UInt32) (c : Char) (scale fg : UInt32)
  | drawText (x y : UInt32) (text : List Char) (scale fg : UInt32)
  | flush
  deriving DecidableEq

def Framebuffer.run (fb : Framebuffer) (line : Nat) (m : Memory) : Command → Memory
  | .putPixel x y color => fb.putPixel line m x y color
  | .fillRect x0 y0 w h color => fb.fillRect line m x0 y0 w h color
  | .clear color => fb.clear line m color
  | .scrollUp rowsPx bg => fb.scrollUp line m rowsPx bg
  | .drawRectOutline x y w h thickness color => fb.drawRectOutline line m x y w h thickness color
  | .drawChar x y c scale fg => fb.drawChar line m x y c scale fg
  | .drawText x y text scale fg => fb.drawText line m x y text scale fg
  | .flush => fb.flush line m

end Display

end Ferro
