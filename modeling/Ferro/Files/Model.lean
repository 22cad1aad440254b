import Ferro.Base.Slots
import Ferro.Fat32.Model
import Ferro.Types

/-!
# The file protocol (`efi/file_protocol.rs`)

`EFI_SIMPLE_FILE_SYSTEM_PROTOCOL` and `EFI_FILE_PROTOCOL`, as functions of the open-file table, `SD_CONTEXT` and the
card. A `*mut FileProtocol` is given by the number of the table slot it points into, any number from 4 on standing
for a pointer that is none of them. Every call comes with the block operations that fail in it, counted from its
first one. A call that panics or never returns is `none`.
-/

namespace Ferro

def efiFileModeWrite : UInt64 := 0x0000000000000002

def efiFileModeCreate : UInt64 := 0x8000000000000000

def efiFileDirectory : UInt64 := 0x0000000000000010

def fileInfoGuid : EfiGuid := ⟨0x09576E92, 0x6D3F, 0x11D2, .ofList [0x8E, 0x39, 0x00, 0xA0, 0xC9, 0x69, 0x72, 0x3B]⟩

def maxOpenFiles : Nat := 4

def maxFileBytes : Nat := 65536

def maxDirEntries : Nat := 16

/-- The state of one open file or directory. `dirEntries` are the first `dir_count` of `dir_names` and `dir_sizes`. -/
structure OpenFile where
  inUse : Bool
  dirCluster : Option Nat
  name83 : Name
  data : Bytes maxFileBytes
  len : Nat
  pos : Nat
  dirty : Bool
  forWrite : Bool
  dirEntries : List (Name × Nat)
  dirIndex : Nat

def emptyFile : OpenFile where
  inUse := false
  dirCluster := none
  name83 := .fill 0x20
  data := .fill 0
  len := 0
  pos := 0
  dirty := false
  forWrite := false
  dirEntries := []
  dirIndex := 0

/-- `FILES`, `SD_CONTEXT` and the card. -/
structure Files where
  files : Arr OpenFile maxOpenFiles
  context : Option Fat32
  card : Disk

/-- The block operations that fail, by their number in the call. -/
abbrev Faults := Nat → Option SdError

/-- The error with which `?` ends card code at a failed operation. -/
def Faults.stop (faults : Faults) (i : Nat) : Option Stop := (faults i).map fun e => .err (.sd e)

/-- The result of card code that returns. -/
def Stop.returned {α : Type} : Except Stop α → Option (Except Fat32Error α)
  | .ok a => some (.ok a)
  | .error (.err e) => some (.error e)
  | .error .panic => none
  | .error .hang => none

/-! ## Names and paths -/

/-- The same as `to_8_3` of the driver. -/
def to83OrNone (component : List UInt8) : Option Name := to83 component

/-- The loop of `char16_path_to_ascii` at unit `i`, with room for `n` more characters. -/
def char16Loop (path : Ptr16) : (n i : Nat) → List UInt8 → Option (List UInt8)
  | n, i, out =>
    let c := path i
    if c = 0 then
      some out
    else
      match n with
      | 0 => none
      | n + 1 => char16Loop path n (i + 1) (out ++ [if c < 128 then c.toUInt8 else 0x3F])

def char16PathToAscii (path : Ptr16) : Option (List UInt8) := char16Loop path 128 0 []

def isRootPath (path : Ptr16) : Bool :=
  path 0 = 0 || (path 0 = 0x5C && path 1 = 0) || (path 0 = 0x2E && path 1 = 0)

/-- The directory that a path starts from, and the path from there: a leading `\` means the root. -/
def startOf (fs : Fat32) (parentDirCluster : Nat) (raw : List UInt8) : Nat × List UInt8 :=
  if raw.head? = some 0x5C then (fs.rootCluster.toNat, raw.tail) else (parentDirCluster, raw)

/-- The name that a nested file is shown under. -/
def lastComponent (path : List UInt8) : Name := ((path.splitOn 0x5C).getLast?.bind to83OrNone).getD (.fill 0x20)

/-- `EFI_FILE_INFO.FileName`, with its terminator. -/
def infoName (name83 : Name) : List UInt16 :=
  let base := ((name83.slice 0 8).filter (· ≠ 0x20)).map UInt8.toUInt16
  let ext := name83.slice 8 3
  let ext := if ext ≠ [0x20, 0x20, 0x20] then 0x2E :: (ext.filter (· ≠ 0x20)).map UInt8.toUInt16 else []
  base ++ ext ++ [0]

/-- The bytes of an `EFI_FILE_INFO`, or the number of bytes needed if they do not fit in `capacity`. -/
def writeFileInfo (capacity : UInt64) (name83 : Name) (size : Nat) (isDir : Bool) : Except Nat (List UInt8) :=
  let nameUnits := infoName name83
  let headerLen := 8 * 3 + 16 * 3 + 8
  let total := headerLen + nameUnits.length * 2
  if capacity.toNat < total then
    .error total
  else
    let attr : UInt64 := if isDir then efiFileDirectory else 0
    .ok (leBytes 8 total ++ leBytes 8 size ++ leBytes 8 size ++ List.replicate 48 0 ++ leBytes 8 attr.toNat ++
      nameUnits.flatMap fun unit => leBytes 2 unit.toNat)

namespace Files

/-- What a call returns and writes through its pointers. -/
inductive Reply where
  | just (status : EfiStatus)
  | opened (newHandle : Nat)
  | buffer (status : EfiStatus) (bufferSize : Nat) (buffer : List UInt8)
  | position (pos : Nat)
  /-- The result of a `write_file` that is not part of a protocol call; `none` if no volume is mounted. -/
  | wrote (result : Option (Except Fat32Error Unit))

def Reply.status : Reply → Option EfiStatus
  | just status => some status
  | opened _ => some .success
  | buffer status _ _ => some status
  | position _ => some .success
  | wrote _ => none

/-- The table before anything is opened. -/
def init (context : Option Fat32) (card : Disk) : Files := ⟨.fill emptyFile, context, card⟩

variable (s : Files)

/-- Runs card code from block operation number `i` of the call on. -/
def exec {α : Type} (faults : Faults) (i : Nat) (p : CardM α) : Option (Except Fat32Error α × Nat × Files) :=
  let (r, i, card) := p.runFaults (Faults.stop faults) i s.card
  (Stop.returned r).map fun r => (r, i, { s with card })

/-! ## Slots -/

def thisToIndex (this : Nat) : Option (Fin maxOpenFiles) :=
  if h : this < maxOpenFiles then
    if (s.files.get ⟨this, h⟩).inUse then some ⟨this, h⟩ else none
  else
    none

def setFile (i : Fin maxOpenFiles) (f : OpenFile) : Files := { s with files := s.files.set i f }

/-- A slot that is not in use, and the table with it taken and reset. -/
def allocSlot : Option (Fin maxOpenFiles × Files) :=
  (s.files.find? fun f => !f.inUse).map fun i => (i, s.setFile i { emptyFile with inUse := true })

/-! ## Opening -/

/-- The slot of the new directory handle; `none` if no slot is left. -/
def openDir (faults : Faults) (i : Nat) (fs : Fat32) (dirCluster : Nat) : Option (Option (Fin maxOpenFiles) × Files) :=
  match s.allocSlot with
  | none => some (none, s)
  | some (slot, s) => do
    let (r, _, s) ← s.exec faults i (fs.listDir dirCluster maxDirEntries)
    -- a listing that fails is empty
    let dirEntries := match r with
      | .ok entries => entries
      | .error _ => []
    return (some slot, s.setFile slot { s.files.get slot with
      dirCluster := some dirCluster
      dirEntries
      dirIndex := 0 })

/-- The reply to an open that ends with `openDir`. -/
def openedDir (faults : Faults) (i : Nat) (fs : Fat32) (dirCluster : Nat) : Option (Reply × Files) := do
  match ← s.openDir faults i fs dirCluster with
  | (none, s) => return (.just .outOfResources, s)
  | (some slot, s) => return (.opened slot, s)

def openVolume (faults : Faults) (root : OutPtr) : Option (Reply × Files) :=
  if !root then
    some (.just .invalidParameter, s)
  else
    match s.context with
    | none => some (.just .notFound, s)
    | some fs => s.openedDir faults 0 fs fs.rootCluster.toNat

/-- A file handle with the bytes `buf` read from the card. -/
def newFile (name83 : Name) (buf : List UInt8) (forWrite : Bool) : Reply × Files :=
  match s.allocSlot with
  | none => (.just .outOfResources, s)
  | some (slot, s) =>
    let f := s.files.get slot
    (.opened slot, s.setFile slot { f with
      name83
      data := f.data.put 0 buf
      len := buf.length
      pos := 0
      forWrite
      dirty := false })

/-- The branch of `file_open` for a single component under the root. -/
def openRootFile (faults : Faults) (fs : Fat32) (path : List UInt8) (openMode : UInt64) : Option (Reply × Files) :=
  match to83OrNone path with
  | none => some (.just .notFound, s)
  | some name => do
    let (r, i, s) ← s.exec faults 0 (fs.readFile name maxFileBytes)
    match r with
    | .ok buf => return s.newFile name buf (openMode &&& efiFileModeWrite ≠ 0)
    | .error _ =>
      if openMode &&& efiFileModeCreate ≠ 0 then
        let (r, _, s) ← s.exec faults i (fs.writeFile name [])
        match r with
        | .ok () => return s.newFile name [] (openMode &&& efiFileModeWrite ≠ 0)
        | .error _ => return (.just .unsupported, s)
      else
        return (.just .notFound, s)

/-- The branch of `file_open` for every other path. -/
def openPath (faults : Faults) (fs : Fat32) (startCluster : Nat) (path : List UInt8) (openMode : UInt64) :
    Option (Reply × Files) :=
  if openMode &&& (efiFileModeWrite ||| efiFileModeCreate) ≠ 0 then
    some (.just .writeProtected, s)
  else do
    let (r, i, s) ← s.exec faults 0 (fs.resolveFrom startCluster path)
    match r with
    | .error _ => return (.just .notFound, s)
    | .ok (firstCluster, size, isDir) =>
      if isDir then
        s.openedDir faults i fs (if firstCluster = 0 then fs.rootCluster.toNat else firstCluster)
      else
        let (r, _, s) ← s.exec faults i (fs.readFrom firstCluster size maxFileBytes)
        match r with
        | .error _ => return (.just .notFound, s)
        | .ok buf => return s.newFile (lastComponent path) buf false

def fileOpen (faults : Faults) (this : Nat) (newHandle : OutPtr) (fileName : Option Ptr16) (openMode : UInt64) :
    Option (Reply × Files) :=
  match fileName with
  | none => some (.just .invalidParameter, s)
  | some path =>
    if !newHandle then
      some (.just .invalidParameter, s)
    else
      match s.thisToIndex this with
      | none => some (.just .invalidParameter, s)
      | some parent =>
        match (s.files.get parent).dirCluster with
        | none => some (.just .unsupported, s)
        | some parentDirCluster =>
          match s.context with
          | none => some (.just .notFound, s)
          | some fs =>
            if isRootPath path then
              s.openedDir faults 0 fs parentDirCluster
            else
              match char16PathToAscii path with
              | none => some (.just .notFound, s)
              | some raw =>
                let (startCluster, path) := startOf fs parentDirCluster raw
                if !path.contains 0x5C && startCluster = fs.rootCluster.toNat then
                  s.openRootFile faults fs path openMode
                else
                  s.openPath faults fs startCluster path openMode

/-! ## Closing -/

def flushIfDirty (faults : Faults) (i : Fin maxOpenFiles) : Option Files :=
  let f := s.files.get i
  if f.forWrite && f.dirty then
    match s.context with
    | none => some (s.setFile i { f with dirty := false })
    | some fs => do
      -- what `write_file` returns is dropped
      let (_, _, s) ← s.exec faults 0 (fs.writeFile f.name83 (f.data.slice 0 f.len))
      return s.setFile i { f with dirty := false }
  else
    some s

def fileClose (faults : Faults) (this : Nat) : Option (Reply × Files) :=
  match s.thisToIndex this with
  | none => some (.just .invalidParameter, s)
  | some i => do
    let s ← s.flushIfDirty faults i
    return (.just .success, s.setFile i { s.files.get i with inUse := false })

def fileDelete (faults : Faults) (this : Nat) : Option (Reply × Files) := do
  let (_, s) ← s.fileClose faults this
  return (.just .warnDeleteFailure, s)

def fileFlush (faults : Faults) (this : Nat) : Option (Reply × Files) :=
  match s.thisToIndex this with
  | none => some (.just .invalidParameter, s)
  | some i => do
    let s ← s.flushIfDirty faults i
    return (.just .success, s)

/-! ## Reading and writing -/

/-- The next entry of a directory; every entry is shown as a directory. -/
def readDir (i : Fin maxOpenFiles) (bufferSize : UInt64) : Reply × Files :=
  let f := s.files.get i
  match f.dirEntries[f.dirIndex]? with
  | none => (.buffer .success 0 [], s)
  | some (name, size) =>
    match writeFileInfo bufferSize name size true with
    | .ok bytes => (.buffer .success bytes.length bytes, s.setFile i { f with dirIndex := f.dirIndex + 1 })
    | .error needed => (.buffer .bufferTooSmall needed [], s)

def fileRead (this : Nat) (bufferSize : Option UInt64) (buffer : OutPtr) : Reply × Files :=
  match bufferSize, buffer with
  | some bufferSize, true =>
    match s.thisToIndex this with
    | none => (.just .invalidParameter, s)
    | some i =>
      let f := s.files.get i
      if f.dirCluster.isSome then
        s.readDir i bufferSize
      else
        let remaining := f.len - f.pos
        let n := min remaining bufferSize.toNat
        (.buffer .success n (f.data.slice f.pos n), s.setFile i { f with pos := f.pos + n })
  | _, _ => (.just .invalidParameter, s)

def fileWrite (this : Nat) (bufferSize : Option UInt64) (buffer : Option Ptr8) : Option (Reply × Files) :=
  match bufferSize, buffer with
  | some n, some ptr =>
    match s.thisToIndex this with
    | none => some (.just .invalidParameter, s)
    | some i =>
      let f := s.files.get i
      if f.dirCluster.isSome then
        some (.just .unsupported, s)
      else if !f.forWrite then
        some (.just .writeProtected, s)
      else
        -- the sum is a `usize`
        let e := (f.pos + n.toNat) % 2 ^ 64
        if maxFileBytes < e then
          some (.just .outOfResources, s)
        else if e < f.pos then
          none
        else
          some (.just .success, s.setFile i { f with
            data := f.data.put f.pos (rawParts n.toNat (some ptr))
            pos := e
            len := max f.len e
            dirty := true })
  | _, _ => some (.just .invalidParameter, s)

def fileGetPosition (this : Nat) (position : OutPtr) : Reply :=
  if !position then
    .just .invalidParameter
  else
    match s.thisToIndex this with
    | none => .just .invalidParameter
    | some i => .position (s.files.get i).pos

def fileSetPosition (this : Nat) (position : UInt64) : Reply × Files :=
  match s.thisToIndex this with
  | none => (.just .invalidParameter, s)
  | some i =>
    let f := s.files.get i
    if f.dirCluster.isSome then
      if position = 0 then (.just .success, s.setFile i { f with dirIndex := 0 }) else (.just .unsupported, s)
    else if position = 0xFFFFFFFFFFFFFFFF then
      (.just .success, s.setFile i { f with pos := f.len })
    else if maxFileBytes < position.toNat then
      (.just .invalidParameter, s)
    else
      (.just .success, s.setFile i { f with pos := position.toNat })

/-- The buffer is written without a test for null. -/
def fileGetInfo (this : Nat) (informationType : Option EfiGuid) (bufferSize : Option UInt64) (buffer : OutPtr) :
    Option Reply :=
  match informationType, bufferSize with
  | some guid, some bufferSize =>
    match s.thisToIndex this with
    | none => some (.just .invalidParameter)
    | some i =>
      if guid ≠ fileInfoGuid then
        some (.just .unsupported)
      else
        let f := s.files.get i
        match writeFileInfo bufferSize f.name83 f.len f.dirCluster.isSome with
        | .ok bytes => if buffer then some (.buffer .success bytes.length bytes) else none
        | .error needed => some (.buffer .bufferTooSmall needed [])
  | _, _ => some (.just .invalidParameter)

/-- A `write_file` of another part of the firmware to the mounted volume. -/
def writeFile (faults : Faults) (name : Name) (data : List UInt8) : Option (Reply × Files) :=
  match s.context with
  | none => some (.wrote none, s)
  | some fs => do
    let (r, _, s) ← s.exec faults 0 (fs.writeFile name data)
    return (.wrote (some r), s)

/-! ## Runs -/

/-- A call of the protocol, or a write from elsewhere. Arguments that the source ignores are left out. -/
inductive Call where
  | openVolume (root : OutPtr)
  | fileOpen (this : Nat) (newHandle : OutPtr) (fileName : Option Ptr16) (openMode : UInt64)
  | fileClose (this : Nat)
  | fileDelete (this : Nat)
  | fileRead (this : Nat) (bufferSize : Option UInt64) (buffer : OutPtr)
  | fileWrite (this : Nat) (bufferSize : Option UInt64) (buffer : Option Ptr8)
  | fileGetPosition (this : Nat) (position : OutPtr)
  | fileSetPosition (this : Nat) (position : UInt64)
  | fileGetInfo (this : Nat) (informationType : Option EfiGuid) (bufferSize : Option UInt64) (buffer : OutPtr)
  | fileSetInfo (this : Nat)
  | fileFlush (this : Nat)
  | writeFile (name : Name) (data : List UInt8)

def step (faults : Faults) : Call → Option (Reply × Files)
  | .openVolume root => s.openVolume faults root
  | .fileOpen this newHandle fileName openMode => s.fileOpen faults this newHandle fileName openMode
  | .fileClose this => s.fileClose faults this
  | .fileDelete this => s.fileDelete faults this
  | .fileRead this bufferSize buffer => s.fileRead this bufferSize buffer
  | .fileWrite this bufferSize buffer => s.fileWrite this bufferSize buffer
  | .fileGetPosition this position => some (s.fileGetPosition this position, s)
  | .fileSetPosition this position => s.fileSetPosition this position
  | .fileGetInfo this informationType bufferSize buffer =>
    (s.fileGetInfo this informationType bufferSize buffer).map (·, s)
  | .fileSetInfo _ => some (.just .unsupported, s)
  | .fileFlush this => s.fileFlush faults this
  | .writeFile name data => s.writeFile faults name data

/-- One call of a run: the state before it, the operations that fail in it, the call, its reply, the state after it. -/
structure Made where
  before : Files
  faults : Faults
  call : Call
  reply : Reply
  after : Files

/-- The calls of the log are made one after the other, from `s` to `s'`, and each of them returns. -/
def Run : Files → List Made → Files → Prop
  | s, [], s' => s = s'
  | s, m :: log, s' => m.before = s ∧ s.step m.faults m.call = some (m.reply, m.after) ∧ Run m.after log s'

end Files

end Ferro
