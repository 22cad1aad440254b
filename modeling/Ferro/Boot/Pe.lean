import Ferro.Memory.Model

/-!
# The PE32+ loader (`pe.rs`)

`Mem` is the memory outside the firmware's own image; the statics of the firmware are not part of it.
-/

namespace Ferro

/-- The byte at each address. -/
abbrev Mem := UInt64 → UInt8

namespace Mem

/-- Stores the bytes from `addr` on. -/
def write (m : Mem) (addr : UInt64) (bytes : List UInt8) : Mem := fun a => bytes.getD (a - addr).toNat (m a)

/-- `write_bytes(addr, value, len)`. -/
def fill (m : Mem) (addr len : UInt64) (value : UInt8) : Mem := fun a => if a - addr < len then value else m a

/-- `copy(source, destination, len)`. -/
def copy (m : Mem) (destination source len : UInt64) : Mem := fun a =>
  if a - destination < len then m (source + (a - destination)) else m a

/-- The little-endian number in the `len` bytes from `addr` on. -/
def readLe (m : Mem) (addr : UInt64) (len : Nat) : Nat := leNat ((List.range len).map fun i => m (addr + .ofNat i))

end Mem

inductive PeError where
  | truncated
  | notDos
  | notPe
  | wrongMachine
  | notPe32Plus
  | allocationFailed
  | unsupportedRelocation (ty : Nat)
  deriving DecidableEq

structure LoadedPe where
  imageBase : UInt64
  imageSize : UInt64
  entryPoint : UInt64

namespace Pe

/-- `d.get(off..off + len)`. -/
def getBytes (d : List UInt8) (off len : Nat) : Option (List UInt8) :=
  if off + len ≤ d.length then some ((d.drop off).take len) else none

/-- `ru16`, `ru32` and `ru64`, for 2, 4 and 8 bytes. -/
def ru (len : Nat) (d : List UInt8) (off : Nat) : Except PeError Nat :=
  match getBytes d off len with
  | some s => .ok (leNat s)
  | none => .error .truncated

def ru16 : List UInt8 → Nat → Except PeError Nat := ru 2

def ru32 : List UInt8 → Nat → Except PeError Nat := ru 4

def ru64 : List UInt8 → Nat → Except PeError Nat := ru 8

/-- What `load` reads from the headers before it allocates the image. -/
structure Headers where
  numberOfSections : Nat
  sectionsOff : Nat
  addressOfEntryPoint : UInt64
  imageBase : UInt64
  sizeOfImage : UInt64
  baseRelocDir : Nat × Nat

/-- The part of `load` before the image is allocated. -/
def parseHeaders (data : List UInt8) : Except PeError Headers := do
  if data.length < 0x40 ∨ data.take 2 ≠ [0x4D, 0x5A] then
    .error .notDos
  let pe ← ru32 data 0x3C
  if getBytes data pe 4 ≠ some [0x50, 0x45, 0, 0] then
    .error .notPe
  let machine ← ru16 data (pe + 4)
  if machine ≠ 0xAA64 then
    .error .wrongMachine
  let numberOfSections ← ru16 data (pe + 6)
  let sizeOfOptionalHeader ← ru16 data (pe + 20)
  let opt := pe + 24
  let magic ← ru16 data opt
  if magic ≠ 0x020B then
    .error .notPe32Plus
  let addressOfEntryPoint ← ru32 data (opt + 16)
  let imageBase ← ru64 data (opt + 24)
  let sizeOfImage ← ru32 data (opt + 56)
  let numberOfRvaAndSizes ← ru32 data (opt + 108)
  let baseRelocDir ←
    if 5 < numberOfRvaAndSizes then do
      let dirOff := opt + 112 + 5 * 8
      let rva ← ru32 data dirOff
      let size ← ru32 data (dirOff + 4)
      pure (rva, size)
    else
      pure (0, 0)
  return ⟨numberOfSections, opt + sizeOfOptionalHeader, .ofNat addressOfEntryPoint, .ofNat imageBase,
    .ofNat sizeOfImage, baseRelocDir⟩

/-- The source bytes of the section at `s` in the file, and the RVA they go to. -/
def sectionAt (data : List UInt8) (s : Nat) : Except PeError (List UInt8 × UInt64) := do
  let virtualSize ← ru32 data (s + 8)
  let virtualAddress ← ru32 data (s + 12)
  let sizeOfRawData ← ru32 data (s + 16)
  let pointerToRawData ← ru32 data (s + 20)
  let copyLen := min sizeOfRawData virtualSize
  match getBytes data pointerToRawData copyLen with
  | some src => return (src, .ofNat virtualAddress)
  | none => .error .truncated

/-- Copies `n` sections from number `i` on: the result, and the memory afterwards. -/
def copySections (data : List UInt8) (sectionsOff : Nat) (loadBase : UInt64) :
    (n i : Nat) → Mem → Except PeError Unit × Mem
  | 0, _, m => (.ok (), m)
  | n + 1, i, m =>
    match sectionAt data (sectionsOff + i * 40) with
    | .error e => (.error e, m)
    | .ok (src, virtualAddress) => copySections data sectionsOff loadBase n (i + 1) (m.write (loadBase + virtualAddress) src)

/-- The entries of one relocation block, from number `i` on. -/
def relocEntries (loadBase delta blockAddr pageRva : UInt64) : (n i : Nat) → Mem → Except PeError Unit × Mem
  | 0, _, m => (.ok (), m)
  | n + 1, i, m =>
    let entry := m.readLe (blockAddr + 8 + .ofNat (i * 2)) 2
    let relocType := entry / 0x1000
    let offset := entry % 0x1000
    if relocType = 0 then
      relocEntries loadBase delta blockAddr pageRva n (i + 1) m
    else if relocType = 10 then
      let target := loadBase + pageRva + .ofNat offset
      let value : UInt64 := .ofNat (m.readLe target 8)
      relocEntries loadBase delta blockAddr pageRva n (i + 1) (m.write target (leBytes 8 (value + delta).toNat))
    else
      (.error (.unsupportedRelocation relocType), m)

/-- The blocks of the relocation directory. Every block has at least 8 bytes, so that a directory of `8 * fuel` bytes
or less is done when the fuel is. -/
def relocBlocks (loadBase delta dirEnd : UInt64) : (fuel : Nat) → (blockAddr : UInt64) → Mem →
    Except PeError Unit × Mem
  | 0, _, m => (.ok (), m)
  | fuel + 1, blockAddr, m =>
    if blockAddr < dirEnd then
      let pageRva : UInt64 := .ofNat (m.readLe blockAddr 4)
      let blockSize := m.readLe (blockAddr + 4) 4
      if blockSize < 8 then
        (.ok (), m)
      else
        match relocEntries loadBase delta blockAddr pageRva ((blockSize - 8) / 2) 0 m with
        | (.error e, m) => (.error e, m)
        | (.ok (), m) => relocBlocks loadBase delta dirEnd fuel (blockAddr + .ofNat blockSize) m
    else
      (.ok (), m)

def applyRelocations (dirRva dirSize : Nat) (loadBase delta : UInt64) (m : Mem) : Except PeError Unit × Mem :=
  let blockAddr := loadBase + .ofNat dirRva
  relocBlocks loadBase delta (blockAddr + .ofNat dirSize) (dirSize / 8 + 1) blockAddr m

/-- The result, and the allocator and the memory afterwards. -/
def load (data : List UInt8) (a : Allocator) (m : Mem) : Except PeError LoadedPe × Allocator × Mem :=
  match parseHeaders data with
  | .error e => (.error e, a, m)
  | .ok h =>
    let pages := (h.sizeOfImage + 0xFFF) / 0x1000
    match Memory.allocatePages a pages with
    | none => (.error .allocationFailed, a, m)
    | some (loadBase, a) =>
      match copySections data h.sectionsOff loadBase h.numberOfSections 0 (m.fill loadBase (pages * 0x1000) 0) with
      | (.error e, m) => (.error e, a, m)
      | (.ok (), m) =>
        let delta := loadBase - h.imageBase
        let (r, m) :=
          if delta ≠ 0 ∧ 0 < h.baseRelocDir.2 then
            applyRelocations h.baseRelocDir.1 h.baseRelocDir.2 loadBase delta m
          else
            (.ok (), m)
        match r with
        | .error e => (.error e, a, m)
        | .ok () => (.ok ⟨loadBase, pages * 0x1000, loadBase + h.addressOfEntryPoint⟩, a, m)

end Pe

end Ferro
