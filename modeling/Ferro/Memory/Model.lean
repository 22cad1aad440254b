import Ferro.Types

/-!
# The page allocator and the memory map (`efi/memory.rs`)

The firmware runs on one core, so the compare-and-exchange of `allocate_pages` succeeds at its first attempt. `u64`
arithmetic wraps, as it does in the release profile.
-/

namespace Ferro

/-- `EFI_PAGE_SIZE`. -/
def pageSize : UInt64 := 4096

/-- `RAM_LIMIT`, which is `PERIPHERAL_BASE`. -/
def ramLimit : UInt64 := 0x3F000000

/-- `BASE_ADDRESS` in `linker.ld`. -/
def firmwareStart : UInt64 := 0x80000

def localBase : UInt64 := 0x40000000

/-- The firmware image, placed by the linker at `firmwareStart` in RAM, with the addresses of two of its statics. -/
structure Image where
  firmwareEnd : UInt64
  systemTable : UInt64
  loadedImageProtocols : UInt64
  start_le : firmwareStart ≤ firmwareEnd
  le_limit : firmwareEnd ≤ ramLimit

/-- `NEXT_FREE_PAGE` and `GENERATION`. -/
structure Allocator where
  nextFreePage : UInt64
  generation : UInt64
  deriving DecidableEq

inductive MemoryType where
  | bootServicesCode
  | bootServicesData
  | conventionalMemory
  | memoryMappedIo
  deriving DecidableEq

structure EfiMemoryDescriptor where
  ty : MemoryType
  physicalStart : UInt64
  virtualStart : UInt64
  numberOfPages : UInt64
  attr : UInt64
  deriving DecidableEq

namespace Memory

def pageAlignUp (addr : UInt64) : UInt64 := (addr + pageSize - 1) &&& ~~~(pageSize - 1)

def init (image : Image) : Allocator := ⟨pageAlignUp image.firmwareEnd, 0⟩

def allocatePages (a : Allocator) (count : UInt64) : Option (UInt64 × Allocator) :=
  let base := a.nextFreePage
  let new := base + count * pageSize
  if ramLimit < new then
    none
  else
    some (base, ⟨new, a.generation + 1⟩)

/-- `push`, as a list of at most one region. -/
def region (start stop : UInt64) (ty : MemoryType) : List (UInt64 × UInt64 × MemoryType) :=
  if start < stop then [(start, stop, ty)] else []

def regions (image : Image) (bump fbBase fbSize : UInt64) : List (UInt64 × UInt64 × MemoryType) :=
  let firmwareEndAligned := pageAlignUp image.firmwareEnd
  let fbEndAligned := pageAlignUp (fbBase + fbSize)
  region 0 firmwareStart .conventionalMemory ++
  region firmwareStart firmwareEndAligned .bootServicesCode ++
  region firmwareEndAligned bump .bootServicesData ++
  region bump fbBase .conventionalMemory ++
  region fbBase fbEndAligned .memoryMappedIo ++
  region fbEndAligned ramLimit .conventionalMemory ++
  region ramLimit localBase .memoryMappedIo ++
  region localBase (localBase + 0x40000000) .memoryMappedIo

def descriptor (r : UInt64 × UInt64 × MemoryType) : EfiMemoryDescriptor where
  ty := r.2.2
  physicalStart := r.1
  virtualStart := r.1
  numberOfPages := (r.2.1 - r.1) / pageSize
  attr := 0

/-- The descriptors written to a buffer with room for `outLen` of them; their number is what the source returns. -/
def getMemoryMap (image : Image) (a : Allocator) (fbBase fbSize : UInt64) (outLen : Nat) :
    Option (List EfiMemoryDescriptor) :=
  let rs := regions image a.nextFreePage fbBase fbSize
  if outLen < rs.length then none else some (rs.map descriptor)

end Memory

end Ferro
