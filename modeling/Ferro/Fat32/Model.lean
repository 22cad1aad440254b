import Ferro.Base.Arr
import Ferro.Base.Prog

/-!
# The FAT32 driver (`fat32.rs`)

Mounting a volume, and reading, writing and listing files. Sector and cluster numbers are naturals, and `wrap32`
marks every place where the release build's `u32` arithmetic wraps. A loop that follows FAT links runs at most
`loopLimit` times: a `u32` walk that has not ended by then has come back to a cluster and never ends (`Stop.hang`).
-/

namespace Ferro

abbrev Sector := Bytes 512

abbrev DirEntry := Bytes 32

/-- An 8.3 short name, space padded. -/
abbrev Name := Bytes 11

def toAsciiUppercase (b : UInt8) : UInt8 := if 0x61 ≤ b ∧ b ≤ 0x7A then b - 0x20 else b

/-- A path component up to its first dot and behind it. -/
def splitDot (component : List UInt8) : List UInt8 × List UInt8 :=
  match component.findIdx? (· == 0x2E) with
  | some dot => (component.take dot, component.drop (dot + 1))
  | none => (component, [])

/-- The 8.3 name of a path component; `none` if it does not fit in 8 and 3 characters. -/
def to83 (component : List UInt8) : Option Name :=
  let (base, ext) := splitDot component
  if base.isEmpty || 8 < base.length || 3 < ext.length then
    none
  else
    some (((Arr.fill 0x20 : Name).put 0 (base.map toAsciiUppercase)).put 8 (ext.map toAsciiUppercase))

/-- The card, as the block last written to each block number. -/
abbrev Disk := Nat → Sector

/-- A `u32` sum or product, which wraps in the release profile. -/
def wrap32 (n : Nat) : Nat := n % 2 ^ 32

def sectorSize : Nat := 512

def endOfChain : Nat := 0x0FFFFFF8

def attrArchive : UInt8 := 0x20

def attrDirectory : UInt8 := 0x10

def loopLimit : Nat := 2 ^ 32

inductive SdError where
  | timeout
  | error (status : UInt32)
  | noCard
  deriving DecidableEq

inductive Fat32Error where
  | sd (e : SdError)
  | noMbrSignature
  | noFat32Partition
  | badBootSector
  | notFound
  | noSpace
  deriving DecidableEq

/-- How a call ends when it does not return `Ok`. -/
inductive Stop where
  | err (e : Fat32Error)
  | panic
  | hang
  deriving DecidableEq

/-- Code that reads and writes blocks of the card. `?` on a block operation is the failure of `runFaults`. -/
abbrev CardM := Prog Nat Sector Stop

def readBlock (lba : Nat) : CardM Sector := .read lba .ret

def writeBlock (lba : Nat) (sector : Sector) : CardM Unit := .write lba sector (.ret ())

structure Fat32 where
  partitionStartLba : UInt32
  sectorsPerCluster : UInt8
  reservedSectors : UInt16
  numFats : UInt8
  fatSizeSectors : UInt32
  rootCluster : UInt32
  deriving DecidableEq

/-! ## Directory entries -/

/-- The `i`-th 32-byte entry of a directory sector (`sector.chunks_exact(32)`). -/
def Arr.entry (sector : Sector) (i : Nat) : DirEntry := .ofList (sector.slice (i * 32) 32)

namespace DirEntry

def name (entry : DirEntry) : Name := .ofList (entry.slice 0 11)

def attr (entry : DirEntry) : UInt8 := entry.nth 11

/-- A long-name or volume-label entry, which every walk skips. -/
def skipped (entry : DirEntry) : Bool := entry.attr = 0x0F || entry.attr &&& 0x08 ≠ 0

def isDir (entry : DirEntry) : Bool := entry.attr &&& attrDirectory ≠ 0

def firstCluster (entry : DirEntry) : Nat := (leNat (entry.slice 20 2) <<< 16) ||| leNat (entry.slice 26 2)

def size (entry : DirEntry) : Nat := leNat (entry.slice 28 4)

end DirEntry

/-- The 32 bytes `write_file` puts into a directory slot; the timestamps are untracked and zero. -/
def entryBytes (name : Name) (firstCluster len : Nat) : List UInt8 :=
  name.toList ++ [attrArchive] ++ List.replicate 8 (0 : UInt8) ++ leBytes 2 ((firstCluster >>> 16) &&& 0xFFFF) ++
    List.replicate 4 (0 : UInt8) ++ leBytes 2 (firstCluster &&& 0xFFFF) ++ leBytes 4 len

namespace Fat32

/-! ## Mounting -/

/-- The bytes 0x55 0xAA at the end of the MBR and of a boot sector. -/
def hasSignature (sector : Sector) : Bool := sector.nth 510 = 0x55 && sector.nth 511 = 0xAA

/-- The start of the first FAT32 partition (type 0x0B or 0x0C) among the given MBR entries. -/
def findPartition (sector : Sector) : List Nat → Option Nat
  | [] => none
  | i :: is =>
    if sector.nth (446 + i * 16 + 4) = 0x0B || sector.nth (446 + i * 16 + 4) = 0x0C then
      some (leNat (sector.slice (446 + i * 16 + 8) 4))
    else
      findPartition sector is

def mount : CardM Fat32 := do
  let sector ← readBlock 0
  if !hasSignature sector then
    .fail (.err .noMbrSignature)
  else
    match findPartition sector (List.range 4) with
    | none => .fail (.err .noFat32Partition)
    | some partitionStartLba => do
      let boot ← readBlock partitionStartLba
      if !hasSignature boot then
        .fail (.err .badBootSector)
      else
        let bytesPerSector := leNat (boot.slice 11 2)
        let fatSizeSectors := leNat (boot.slice 36 4)
        if bytesPerSector ≠ sectorSize ∨ fatSizeSectors = 0 then
          .fail (.err .badBootSector)
        else
          return {
            partitionStartLba := .ofNat partitionStartLba
            sectorsPerCluster := boot.nth 13
            reservedSectors := .ofNat (leNat (boot.slice 14 2))
            numFats := boot.nth 16
            fatSizeSectors := .ofNat fatSizeSectors
            rootCluster := .ofNat (leNat (boot.slice 44 4)) }

variable (fs : Fat32)

/-! ## Geometry -/

def firstDataSector : Nat :=
  wrap32 (fs.partitionStartLba.toNat + fs.reservedSectors.toNat + fs.numFats.toNat * fs.fatSizeSectors.toNat)

def clusterSizeBytes : Nat := fs.sectorsPerCluster.toNat * sectorSize

def clusterToLba (cluster : Nat) : Nat :=
  wrap32 (fs.firstDataSector + wrap32 (cluster + 2 ^ 32 - 2) * fs.sectorsPerCluster.toNat)

/-- The bound of `find_free_cluster`'s scan. -/
def maxCluster : Nat := wrap32 (fs.fatSizeSectors.toNat * sectorSize / 4)

/-! ## The FAT -/

def fatEntry (cluster : Nat) : CardM Nat := do
  let fatOffset := wrap32 (cluster * 4)
  let fatSector := wrap32 (fs.partitionStartLba.toNat + fs.reservedSectors.toNat + fatOffset / sectorSize)
  let offsetInSector := fatOffset % sectorSize
  let sector ← readBlock fatSector
  return leNat (sector.slice offsetInSector 4) &&& 0x0FFFFFFF

/-- The read-modify-write of one FAT copy, which keeps the top four bits of the entry. -/
def setFatCopy (cluster value fatIdx : Nat) : CardM Unit := do
  let fatOffset := wrap32 (cluster * 4)
  let fatSector := wrap32 (fs.partitionStartLba.toNat + fs.reservedSectors.toNat +
    fatIdx * fs.fatSizeSectors.toNat + fatOffset / sectorSize)
  let offsetInSector := fatOffset % sectorSize
  let sector ← readBlock fatSector
  let existing := leNat (sector.slice offsetInSector 4)
  let newVal := (value &&& 0x0FFFFFFF) ||| (existing &&& 0xF0000000)
  writeBlock fatSector (sector.put offsetInSector (leBytes 4 newVal))

def setFatEntry (cluster value : Nat) : CardM Unit :=
  Prog.forRange (fs.setFatCopy cluster value) 0 fs.numFats.toNat

def zeroCluster (cluster : Nat) : CardM Unit :=
  Prog.forRange (fun s => writeBlock (wrap32 (fs.clusterToLba cluster + s)) (Arr.fill 0)) 0
    fs.sectorsPerCluster.toNat

/-- The scan of `find_free_cluster` with `n` clusters left up to `maxCluster`. -/
def findFreeFrom : (n cluster : Nat) → CardM Nat
  | 0, _ => .fail (.err .noSpace)
  | n + 1, cluster => do
    if (← fs.fatEntry cluster) = 0 then
      return cluster
    else
      findFreeFrom n (cluster + 1)

def findFreeCluster (start : Nat) : CardM Nat :=
  fs.findFreeFrom (fs.maxCluster - max start 2) (max start 2)

/-- The loop of `allocate_chain` with `n` clusters still to take. -/
def allocateLoop : (n first prev searchFrom : Nat) → CardM Nat
  | 0, first, _, _ => return first
  | n + 1, first, prev, searchFrom => do
    let c ← fs.findFreeCluster searchFrom
    fs.setFatEntry c endOfChain
    fs.zeroCluster c
    if first = 0 then
      allocateLoop n c c (wrap32 (c + 1))
    else
      fs.setFatEntry prev c
      allocateLoop n first c (wrap32 (c + 1))

def allocateChain (count : Nat) : CardM Nat := fs.allocateLoop count 0 0 2

def freeLoop : (fuel cluster : Nat) → CardM Unit
  | 0, _ => .fail .hang
  | fuel + 1, cluster => do
    if 2 ≤ cluster ∧ cluster < endOfChain then
      let next ← fs.fatEntry cluster
      fs.setFatEntry cluster 0
      freeLoop fuel next
    else
      return ()

def freeChainFrom (cluster : Nat) : CardM Unit := fs.freeLoop loopLimit cluster

def resizeLoop (first needed : Nat) : (fuel cluster count : Nat) → CardM Nat
  | 0, _, _ => .fail .hang
  | fuel + 1, cluster, count => do
    if count = needed then
      let next ← fs.fatEntry cluster
      if 2 ≤ next ∧ next < endOfChain then
        fs.freeChainFrom next
      fs.setFatEntry cluster endOfChain
      return first
    else
      let next ← fs.fatEntry cluster
      if next < 2 ∨ endOfChain ≤ next then
        let extra ← fs.allocateChain (wrap32 (needed + 2 ^ 32 - count))
        fs.setFatEntry cluster extra
        return first
      else
        resizeLoop first needed fuel next (wrap32 (count + 1))

def resizeChain (first needed : Nat) : CardM Nat := fs.resizeLoop first needed loopLimit first 1

/-! ## Writing a file -/

/-- What `write_file`'s directory search has seen: the matching entry as (sector, offset, first cluster), and the
first free slot as (sector, offset). -/
structure Search where
  found : Option (Nat × Nat × Nat) := none
  freeSlot : Option (Nat × Nat) := none
  deriving DecidableEq

def Search.noteFree (st : Search) (lba off : Nat) : Search :=
  if st.freeSlot.isNone then { st with freeSlot := some (lba, off) } else st

/-- The scan of the entries with the given indices in one directory sector. The flag is set when a `0x00` entry
ends the search. -/
def scanEntries (name : Name) (secLba : Nat) (sector : Sector) : List Nat → Search → Search × Bool
  | [], st => (st, false)
  | i :: is, st =>
    let entry := sector.entry i
    if entry.nth 0 = 0x00 then
      (st.noteFree secLba (i * 32), true)
    else if entry.nth 0 = 0xE5 then
      scanEntries name secLba sector is (st.noteFree secLba (i * 32))
    else if entry.skipped then
      scanEntries name secLba sector is st
    else if entry.name = name then
      scanEntries name secLba sector is { st with found := some (secLba, i * 32, entry.firstCluster) }
    else
      scanEntries name secLba sector is st

/-- The search of the last `n` sectors of a directory cluster. -/
def searchCluster (name : Name) (lba : Nat) : (n s : Nat) → Search → CardM (Search × Bool)
  | 0, _, st => return (st, false)
  | n + 1, s, st => do
    let secLba := wrap32 (lba + s)
    let sector ← readBlock secLba
    let (st, stop) := scanEntries name secLba sector (List.range 16) st
    if stop then
      return (st, true)
    else
      searchCluster name lba n (s + 1) st

/-- The directory search: what was seen, the last cluster visited, and whether the chain ended without a
terminating entry. -/
def searchLoop (name : Name) : (fuel dirCluster : Nat) → Search → CardM (Search × Nat × Bool)
  | 0, _, _ => .fail .hang
  | fuel + 1, dirCluster, st => do
    let (st, stop) ← searchCluster name (fs.clusterToLba dirCluster) fs.sectorsPerCluster.toNat 0 st
    if stop then
      return (st, dirCluster, false)
    else
      let next ← fs.fatEntry dirCluster
      if endOfChain ≤ next then
        return (st, dirCluster, true)
      else
        searchLoop name fuel next st

/-- A completely full root directory gets one more cluster, whose first entry becomes the free slot. -/
def extendRoot (st : Search) (lastDirCluster : Nat) (exhausted : Bool) : CardM (Option (Nat × Nat)) := do
  if st.found.isNone ∧ st.freeSlot.isNone ∧ exhausted then
    let newCluster ← fs.allocateChain 1
    fs.setFatEntry lastDirCluster newCluster
    return some (fs.clusterToLba newCluster, 0)
  else
    return st.freeSlot

def fitChain (found : Option (Nat × Nat × Nat)) (clustersNeeded : Nat) : CardM Nat :=
  match found with
  | some (_, _, oldFirst) =>
    if 2 ≤ oldFirst then fs.resizeChain oldFirst clustersNeeded else fs.allocateChain clustersNeeded
  | none => fs.allocateChain clustersNeeded

/-- The sector holding `data` from byte `written` on, zero filled. -/
def dataSector (data : List UInt8) (written : Nat) : Sector :=
  (Arr.fill 0 : Sector).put 0 ((data.drop written).take sectorSize)

/-- Writes the next sectors of one cluster and returns how many bytes are written in all. -/
def writeCluster (data : List UInt8) (lba : Nat) : (n s written : Nat) → CardM Nat
  | 0, _, written => return written
  | n + 1, s, written => do
    if data.length ≤ written then
      return written
    else
      writeBlock (wrap32 (lba + s)) (dataSector data written)
      writeCluster data lba n (s + 1) (written + min (data.length - written) sectorSize)

def writeLoop (data : List UInt8) : (fuel cluster written : Nat) → CardM Unit
  | 0, _, _ => .fail .hang
  | fuel + 1, cluster, written => do
    if written < data.length then
      let written ← writeCluster data (fs.clusterToLba cluster) fs.sectorsPerCluster.toNat 0 written
      if data.length ≤ written then
        return ()
      else
        let cluster ← fs.fatEntry cluster
        writeLoop data fuel cluster written
    else
      return ()

def writeEntry (name : Name) (slot : Nat × Nat) (firstCluster len : Nat) : CardM Unit := do
  let sector ← readBlock slot.1
  writeBlock slot.1 (sector.put slot.2 (entryBytes name firstCluster len))

def clustersNeeded (data : List UInt8) : Nat :=
  wrap32 (max ((data.length + fs.clusterSizeBytes - 1) / fs.clusterSizeBytes) 1)

def writeFile (name : Name) (data : List UInt8) : CardM Unit := do
  if fs.clusterSizeBytes = 0 then
    .fail .panic
  else
    let (st, lastDirCluster, exhausted) ← fs.searchLoop name loopLimit fs.rootCluster.toNat {}
    let freeSlot ← fs.extendRoot st lastDirCluster exhausted
    let firstCluster ← fs.fitChain st.found (fs.clustersNeeded data)
    fs.writeLoop data (data.length + 1) firstCluster 0
    match (st.found.map fun f => (f.1, f.2.1)).or freeSlot with
    | some slot => writeEntry name slot firstCluster data.length
    | none => .fail .panic

/-! ## Reading a file -/

/-- The first live entry with the given name among those of one directory sector; `some none` when a `0x00`
entry ends the directory first. -/
def findEntry (name : Name) (sector : Sector) : List Nat → Option (Option DirEntry)
  | [] => none
  | i :: is =>
    let entry := sector.entry i
    if entry.nth 0 = 0x00 then
      some none
    else if entry.nth 0 = 0xE5 || entry.skipped then
      findEntry name sector is
    else if entry.name = name then
      some (some entry)
    else
      findEntry name sector is

def findInCluster (name : Name) (lba : Nat) : (n s : Nat) → CardM (Option (Option DirEntry))
  | 0, _ => return none
  | n + 1, s => do
    let sector ← readBlock (wrap32 (lba + s))
    let r := findEntry name sector (List.range 16)
    if r.isSome then
      return r
    else
      findInCluster name lba n (s + 1)

def findLoop (name : Name) : (fuel cluster : Nat) → CardM (Nat × Nat × Bool)
  | 0, _ => .fail .hang
  | fuel + 1, cluster => do
    match ← findInCluster name (fs.clusterToLba cluster) fs.sectorsPerCluster.toNat 0 with
    | some (some entry) => return (entry.firstCluster, entry.size, entry.isDir)
    | some none => .fail (.err .notFound)
    | none =>
      let next ← fs.fatEntry cluster
      if endOfChain ≤ next then
        .fail (.err .notFound)
      else
        findLoop name fuel next

def findInDir (dirCluster : Nat) (name : Name) : CardM (Nat × Nat × Bool) :=
  fs.findLoop name loopLimit dirCluster

/-- Reads the next sectors of one cluster behind the bytes `out` read so far. -/
def readCluster (toRead lba : Nat) : (n s : Nat) → List UInt8 → CardM (List UInt8)
  | 0, _, out => return out
  | n + 1, s, out => do
    if toRead ≤ out.length then
      return out
    else
      let sector ← readBlock (wrap32 (lba + s))
      readCluster toRead lba n (s + 1) (out ++ sector.slice 0 (min (toRead - out.length) sectorSize))

def readLoop (toRead : Nat) : (fuel cluster : Nat) → List UInt8 → CardM (List UInt8)
  | 0, _, _ => .fail .hang
  | fuel + 1, cluster, out => do
    if out.length < toRead then
      let out ← readCluster toRead (fs.clusterToLba cluster) fs.sectorsPerCluster.toNat 0 out
      if toRead ≤ out.length then
        return out
      else
        let next ← fs.fatEntry cluster
        if endOfChain ≤ next then
          return out
        else
          readLoop toRead fuel next out
    else
      return out

/-- The bytes put into a buffer of `outLen` bytes; their number is what the source returns. -/
def readFrom (firstCluster fileSize outLen : Nat) : CardM (List UInt8) :=
  if firstCluster = 0 then
    return []
  else
    fs.readLoop (min fileSize outLen) loopLimit firstCluster []

def readFile (name : Name) (outLen : Nat) : CardM (List UInt8) := do
  let (firstCluster, size, _) ← fs.findInDir fs.rootCluster.toNat name
  fs.readFrom firstCluster size outLen

/-! ## Paths and listings -/

/-- `path.split(|&b| b == b'\\').filter(|c| !c.is_empty())`. -/
def components (path : List UInt8) : List (List UInt8) := (path.splitOn 0x5C).filter fun c => !c.isEmpty

/-- The walk of `resolve_from` over the remaining components, with the result so far. -/
def resolveLoop : List (List UInt8) → (dirCluster : Nat) → Nat × Nat × Bool → CardM (Nat × Nat × Bool)
  | [], _, result => return result
  | component :: rest, dirCluster, _ =>
    match to83 component with
    | none => .fail (.err .notFound)
    | some name => do
      let (firstCluster, size, isDir) ← fs.findInDir dirCluster name
      let dirCluster :=
        if isDir then (if firstCluster = 0 then fs.rootCluster.toNat else firstCluster) else dirCluster
      resolveLoop rest dirCluster (firstCluster, size, isDir)

/-- The first cluster and the size of the file or directory at a path, and whether it is a directory. -/
def resolveFrom (startCluster : Nat) (path : List UInt8) : CardM (Nat × Nat × Bool) :=
  fs.resolveLoop (components path) startCluster (startCluster, 0, true)

/-- The listing of the entries with the given indices in one directory sector, behind what is listed so far. At most
`cap` entries are listed. The flag is set when a `0x00` entry ends the directory. -/
def listEntries (cap : Nat) (sector : Sector) : List Nat → List (Name × Nat) → List (Name × Nat) × Bool
  | [], out => (out, false)
  | i :: is, out =>
    let entry := sector.entry i
    if entry.nth 0 = 0x00 then
      (out, true)
    else if entry.nth 0 = 0xE5 || entry.skipped then
      listEntries cap sector is out
    else if out.length < cap then
      listEntries cap sector is (out ++ [(entry.name, entry.size)])
    else
      listEntries cap sector is out

def listCluster (cap lba : Nat) : (n s : Nat) → List (Name × Nat) → CardM (List (Name × Nat) × Bool)
  | 0, _, out => return (out, false)
  | n + 1, s, out => do
    let sector ← readBlock (wrap32 (lba + s))
    let (out, stop) := listEntries cap sector (List.range 16) out
    if stop then
      return (out, true)
    else
      listCluster cap lba n (s + 1) out

def listLoop (cap : Nat) : (fuel cluster : Nat) → List (Name × Nat) → CardM (List (Name × Nat))
  | 0, _, _ => .fail .hang
  | fuel + 1, cluster, out => do
    let (out, stop) ← listCluster cap (fs.clusterToLba cluster) fs.sectorsPerCluster.toNat 0 out
    if stop then
      return out
    else
      let next ← fs.fatEntry cluster
      if endOfChain ≤ next then
        return out
      else
        listLoop cap fuel next out

/-- The names and sizes of the first `cap` entries of a directory. -/
def listDir (dirCluster cap : Nat) : CardM (List (Name × Nat)) := fs.listLoop cap loopLimit dirCluster []

end Fat32

end Ferro
