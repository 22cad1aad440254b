import Ferro.Base.Coherence
import Ferro.Base.Tags
import Ferro.Base.Words
import Ferro.Display.Framebuffer

/-!
# The mailbox (`mailbox.rs`, `init` of `framebuffer.rs`)

A message is handed to the GPU by its address; the GPU answers in place and sends the address back. The GPU is on the far
side of the cache.
-/

namespace Ferro

namespace Mailbox

def channelProperty : UInt32 := 8

def gpuUncachedAlias : UInt32 := 0xC0000000

/-- The GPU, and what the cache does while the GPU works. -/
structure Gpu (line : Nat) where
  /-- What it writes over the message, by the word that it is sent and by memory. -/
  reply : UInt32 → (Nat → UInt8) → List UInt8
  /-- The words that it sends then, in order. -/
  sent : UInt32 → List UInt32
  before : Memory → Memory
  behind : Memory → Memory
  before_drift : ∀ m, WriteBack.Drift line m (before m)
  behind_drift : ∀ m, WriteBack.Drift line m (behind m)

/-- The address of the message and the channel. -/
def request (addr : Nat) (channel : UInt32) : UInt32 :=
  (addr.toUInt32 &&& ~~~0xF) ||| gpuUncachedAlias ||| (channel &&& 0xF)

/-- The message that a word of the mailbox is about, without the alias and the channel. -/
def messageAddr (word : UInt32) : Nat := (word &&& 0x3FFFFFF0).toNat

/-- Whether the GPU reports success, and the memory afterwards. `none` waits forever. -/
def call {line : Nat} (gpu : Gpu line) (m : Memory) (addr len : Nat) (channel : UInt32) : Option (Bool × Memory) :=
  let m := gpu.before (Cache.cleanAndInvalidateRange line m addr (len * 4))
  let word := request addr channel
  let m := gpu.behind (m.deviceWrite (messageAddr word) (gpu.reply word m.ram))
  if word ∈ gpu.sent word then
    let m := Cache.cleanAndInvalidateRange line m addr (len * 4)
    some (Words.read (m.visible line) (addr + 1 * 4) = 0x80000000, m)
  else
    none

end Mailbox

namespace Display

namespace Framebuffer

open Mailbox

def tagSetPhysWh : UInt32 := 0x00048003

def tagSetVirtWh : UInt32 := 0x00048004

def tagSetDepth : UInt32 := 0x00048005

def tagSetPixelOrder : UInt32 := 0x00048006

def tagAllocateBuffer : UInt32 := 0x00040001

def tagGetPitch : UInt32 := 0x00040008

def tagEnd : UInt32 := 0

def pixelOrderRgb : UInt32 := 0

def gpuAliasMask : UInt32 := 0x3FFFFFFF

/-- What is pushed up to `alloc_resp`. -/
def pushedSizes (width height depth : UInt32) : List UInt32 :=
  [0, 0] ++ [tagSetPhysWh, 8, 8, width, height] ++ [tagSetVirtWh, 8, 8, width, height] ++ [tagSetDepth, 4, 4, depth] ++
    [tagSetPixelOrder, 4, 4, pixelOrderRgb]

def pushed (width height depth : UInt32) : List UInt32 :=
  pushedSizes width height depth ++ [tagAllocateBuffer, 8, 8, 4096, 0] ++ [tagGetPitch, 4, 4, 0] ++ [tagEnd]

def allocResp (width height depth : UInt32) : Nat := (pushedSizes width height depth).length + 3

def pitchResp (width height depth : UInt32) : Nat :=
  (pushedSizes width height depth ++ [tagAllocateBuffer, 8, 8, 4096, 0]).length + 3

/-- `framebuffer::init`, with the message at `msg`. -/
def init {line : Nat} (gpu : Gpu line) (m : Memory) (msg : Nat) (width height depth : UInt32) :
    Option (Option Framebuffer × Memory) :=
  let words := pushed width height depth
  let m := m.storeAll line msg (Words.bytes words)
  let m := m.storeAll line msg (leBytes 4 (words.length * 4))
  match call gpu m msg words.length channelProperty with
  | none => none
  | some (false, m) => some (none, m)
  | some (true, m) =>
    let base := Words.read (m.visible line) (msg + allocResp width height depth * 4)
    let size := Words.read (m.visible line) (msg + (allocResp width height depth + 1) * 4)
    let pitch := Words.read (m.visible line) (msg + pitchResp width height depth * 4)
    let base := base &&& gpuAliasMask
    if base = 0 ∨ size = 0 ∨ pitch = 0 then
      some (none, m)
    else
      some (some ⟨⟨width, height⟩, base.toNat, pitch, depth⟩, m)

end Framebuffer

end Display

end Ferro
