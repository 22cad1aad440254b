import Ferro.Boot.Events
import Ferro.Boot.Pe
import Ferro.Boot.Protocols

/-!
# Boot services (`efi/boot_services.rs`)

Every entry of the table, as a function of the firmware's statics. A pointer that is only written through is given by
whether it is null (`OutPtr`), and what a call writes through it is part of its `Reply`. A call that panics or never
returns is `none`. Calls into an application (an image's entry point or unload function, a notify function) end in
the application: whatever it calls is a later call of the same run.
-/

namespace Ferro

/-- `crc32_ieee`, one bit. -/
def crcBit (crc : UInt32) : UInt32 :=
  let mask := 0 - (crc &&& 1)
  (crc >>> 1) ^^^ (0xEDB88320 &&& mask)

def crcByte (crc : UInt32) (byte : UInt8) : UInt32 := Nat.iterate crcBit 8 (crc ^^^ byte.toUInt32)

def crc32Ieee (data : List UInt8) : UInt32 := ~~~(data.foldl crcByte 0xFFFFFFFF)

def loadedImageProtocolGuid : EfiGuid :=
  ⟨0x5B1B31A1, 0x9562, 0x11D2, .ofList [0x8E, 0x3F, 0x00, 0xA0, 0xC9, 0x69, 0x72, 0x3B]⟩

def simpleTextOutputProtocolGuid : EfiGuid :=
  ⟨0x387477C2, 0x69C7, 0x11D2, .ofList [0x8E, 0x39, 0x00, 0xA0, 0xC9, 0x69, 0x72, 0x3B]⟩

/-- The fields of `EfiLoadedImageProtocol` that the boot services read or set. -/
structure LoadedImage where
  parentHandle : UInt64
  systemTable : UInt64
  imageBase : UInt64
  imageSize : UInt64
  unload : Option UInt64

def emptyLoadedImage : LoadedImage := ⟨0, 0, 0, 0, none⟩

/-- The size of an `EfiLoadedImageProtocol` in bytes. -/
def loadedImageSize : Nat := 96

/-- The size of an `EfiMemoryDescriptor` in bytes. -/
def descriptorBytes : UInt64 := 40

def maxConfigTableEntries : Nat := 8

/-- The statics the boot services work on, and the memory. -/
structure Boot where
  alloc : Allocator
  exited : Bool
  fbBase : UInt64
  fbSize : UInt64
  currentTpl : UInt64
  handles : Handles
  loadedImages : Arr LoadedImage maxHandles
  entryPoints : Arr UInt64 maxHandles
  events : Events.Table
  configTable : List (EfiGuid × UInt64)
  monotonicCount : UInt64
  mem : Mem

/-- What `GetMemoryMap` writes through its pointers. -/
structure MapOut where
  memoryMapSize : Option UInt64 := none
  memoryMap : Option (List EfiMemoryDescriptor) := none
  mapKey : Option UInt64 := none
  descriptorSize : Option UInt64 := none
  descriptorVersion : Option UInt32 := none

inductive Reply where
  /-- A function without a result. -/
  | void
  | tpl (old : UInt64)
  /-- A status, and the word written through the call's out-pointer, if any. -/
  | word (status : EfiStatus) (out : Option UInt64)
  | memoryMap (status : EfiStatus) (out : MapOut)
  | handles (status : EfiStatus) (bufferSize : Option UInt64) (buffer : Option (List UInt64))
  | buffer (status : EfiStatus) (buffer : Option UInt64) (count : Option UInt64)
  /-- The call goes on in code outside the firmware. -/
  | enters (entry : UInt64)

def Reply.status : Reply → Option EfiStatus
  | void => none
  | tpl _ => none
  | word st _ => some st
  | memoryMap st _ => some st
  | handles st _ _ => some st
  | buffer st _ _ => some st
  | enters _ => none

/-- A status and nothing else. -/
abbrev Reply.just (status : EfiStatus) : Reply := .word status none

namespace Boot

variable (image : Image) (s : Boot)

/-- The firmware after `efi::init` and `set_framebuffer_region`, before anything is allocated or installed. -/
def init (fbBase fbSize : UInt64) (mem : Mem) : Boot where
  alloc := Memory.init image
  exited := false
  fbBase := fbBase
  fbSize := fbSize
  currentTpl := 4
  handles := ProtocolDb.empty
  loadedImages := .fill emptyLoadedImage
  entryPoints := .fill 0
  events := Events.empty
  configTable := []
  monotonicCount := 0
  mem := mem

/-! ## Memory services -/

def raiseTpl (newTpl : UInt64) : Reply × Boot := (.tpl s.currentTpl, { s with currentTpl := newTpl })

def restoreTpl (oldTpl : UInt64) : Reply × Boot := (.void, { s with currentTpl := oldTpl })

def allocatePages (pages : UInt64) (memory : OutPtr) : Reply × Boot :=
  if s.exited then
    (.just .unsupported, s)
  else if !memory then
    (.just .invalidParameter, s)
  else
    match Memory.allocatePages s.alloc pages with
    | some (base, alloc) => (.word .success (some base), { s with alloc })
    | none => (.just .outOfResources, s)

/-- The pages that `AllocatePool` asks for. -/
def poolPages (size : UInt64) : UInt64 := max ((size + pageSize - 1) / pageSize) 1

def allocatePool (size : UInt64) (buffer : OutPtr) : Reply × Boot :=
  if s.exited then
    (.just .unsupported, s)
  else if !buffer then
    (.just .invalidParameter, s)
  else
    match Memory.allocatePages s.alloc (poolPages size) with
    | some (base, alloc) => (.word .success (some base), { s with alloc })
    | none => (.just .outOfResources, s)

/-- The memory map, as the 8 descriptors of `scratch` hold it. -/
def currentMap : Option (List EfiMemoryDescriptor) := Memory.getMemoryMap image s.alloc s.fbBase s.fbSize 8

def getMemoryMap (memoryMapSize : Option UInt64) (memoryMap mapKey descriptorSize descriptorVersion : OutPtr) : Reply :=
  match memoryMapSize with
  | none => .memoryMap .invalidParameter {}
  | some size =>
    match s.currentMap image with
    | none => .memoryMap .bufferTooSmall {}
    | some scratch =>
      let capacity := size / descriptorBytes
      let memoryMapSize := some (.ofNat scratch.length * descriptorBytes)
      if capacity < .ofNat scratch.length then
        .memoryMap .bufferTooSmall { memoryMapSize }
      else
        .memoryMap .success {
          memoryMapSize
          memoryMap := if memoryMap then some scratch else none
          mapKey := if mapKey then some s.alloc.generation else none
          descriptorSize := if descriptorSize then some descriptorBytes else none
          descriptorVersion := if descriptorVersion then some 1 else none }

/-! ## Protocol services -/

/-- `handle` is the handle the pointer points to. -/
def installProtocolInterface (handle : Option UInt64) (protocol : Option EfiGuid) (interface : UInt64) :
    Option (Reply × Boot) :=
  match handle, protocol with
  | some existing, some guid => do
    match ← ProtocolDb.findOrCreateHandle s.handles existing with
    | (none, handles) => return (.just .outOfResources, { s with handles })
    | (some index, handles) =>
      match ProtocolDb.install handles index guid interface with
      | (false, handles) => return (.just .outOfResources, { s with handles })
      | (true, handles) => return (.word .success (some (ProtocolDb.handleForIndex index)), { s with handles })
  | _, _ => some (.just .invalidParameter, s)

def reinstallProtocolInterface (handle : UInt64) (protocol : Option EfiGuid) (newInterface : UInt64) :
    Option (Reply × Boot) :=
  match protocol with
  | none => some (.just .invalidParameter, s)
  | some guid => do
    match ← ProtocolDb.indexOf s.handles handle with
    | none => return (.just .invalidParameter, s)
    | some index =>
      let (_, handles) := ProtocolDb.uninstall s.handles index guid
      match ProtocolDb.install handles index guid newInterface with
      | (false, handles) => return (.just .outOfResources, { s with handles })
      | (true, handles) => return (.just .success, { s with handles })

def uninstallProtocolInterface (handle : UInt64) (protocol : Option EfiGuid) : Option (Reply × Boot) :=
  match protocol with
  | none => some (.just .invalidParameter, s)
  | some guid => do
    match ← ProtocolDb.indexOf s.handles handle with
    | none => return (.just .invalidParameter, s)
    | some index =>
      match ProtocolDb.uninstall s.handles index guid with
      | (true, handles) => return (.just .success, { s with handles })
      | (false, handles) => return (.just .notFound, { s with handles })

def handleProtocol (handle : UInt64) (protocol : Option EfiGuid) (interface : OutPtr) : Option Reply :=
  match protocol, interface with
  | some guid, true => do
    match ← ProtocolDb.handleProtocol s.handles handle guid with
    | some iface => return .word .success (some iface)
    | none => return .just .notFound
  | _, _ => some (.just .invalidParameter)

def locateProtocol (protocol : Option EfiGuid) (interface : OutPtr) : Reply :=
  match protocol, interface with
  | some guid, true =>
    match ProtocolDb.locate s.handles guid with
    | some iface => .word .success (some iface)
    | none => .just .notFound
  | _, _ => .just .invalidParameter

def allHandles : UInt32 := 0

def byProtocol : UInt32 := 2

def locateHandle (searchType : UInt32) (protocol : Option EfiGuid) (bufferSize : Option UInt64) (buffer : OutPtr) :
    Reply :=
  match bufferSize, protocol with
  | some capacity, some guid =>
    if searchType ≠ byProtocol then
      .handles .invalidParameter none none
    else
      let found := ProtocolDb.handlesWith s.handles guid
      if found.length = 0 then
        .handles .notFound none none
      else
        let needed : UInt64 := .ofNat (found.length * 8)
        if capacity < needed then
          .handles .bufferTooSmall (some needed) none
        else
          .handles .success (some needed) (if buffer then some found else none)
  | _, _ => .handles .invalidParameter none none

/-- `handles_with` on an array `scratch`, which it fills from the front. -/
def fillScratch (scratch found : List UInt64) : List UInt64 := found ++ scratch.drop found.length

/-- The handles counted by `LocateHandleBuffer` and its `scratch` array, or the status it returns at once. -/
def searchHandles (searchType : UInt32) (protocol : Option EfiGuid) : Except EfiStatus (Nat × List UInt64) :=
  let scratch := List.replicate maxHandles 0
  if searchType = allHandles then
    let loaded := ProtocolDb.handlesWith s.handles loadedImageProtocolGuid
    let consoles := ProtocolDb.handlesWith s.handles simpleTextOutputProtocolGuid
    .ok (loaded.length + consoles.length, fillScratch (fillScratch scratch loaded) consoles)
  else
    match protocol with
    | none => .error .invalidParameter
    | some guid =>
      let found := ProtocolDb.handlesWith s.handles guid
      .ok (found.length, fillScratch scratch found)

/-- The pages for a buffer of `bytes` bytes. -/
def bufferPages (bytes : Nat) : UInt64 := max ((.ofNat bytes + pageSize - 1) / pageSize) 1

def locateHandleBuffer (searchType : UInt32) (protocol : Option EfiGuid) (numHandles buffer : OutPtr) :
    Option (Reply × Boot) :=
  if !numHandles || !buffer then
    some (.buffer .invalidParameter none none, s)
  else
    match s.searchHandles searchType protocol with
    | .error st => some (.buffer st none none, s)
    | .ok (count, scratch) =>
      if count = 0 then
        some (.buffer .notFound none none, s)
      else
        match Memory.allocatePages s.alloc (bufferPages (count * 8)) with
        | none => some (.buffer .outOfResources none none, s)
        | some (base, alloc) =>
          -- `scratch[..count]` panics behind the end of `scratch`
          if maxHandles < count then
            none
          else
            let mem := s.mem.write base ((scratch.take count).flatMap fun h => leBytes 8 h.toNat)
            some (.buffer .success (some base) (some (.ofNat count)), { s with alloc, mem })

def protocolsPerHandle (handle : UInt64) (protocolBuffer protocolBufferCount : OutPtr) : Option (Reply × Boot) :=
  if !protocolBuffer || !protocolBufferCount then
    some (.buffer .invalidParameter none none, s)
  else do
    match ← ProtocolDb.protocolsOnHandle s.handles handle with
    | none => return (.buffer .invalidParameter none none, s)
    | some guids =>
      let count := guids.length
      if count = 0 then
        return (.buffer .success (some 0) (some 0), s)
      else
        let ptrBytes := count * 8
        let guidsBytes := count * 16
        match Memory.allocatePages s.alloc (bufferPages (ptrBytes + guidsBytes)) with
        | none => return (.buffer .outOfResources none none, s)
        | some (base, alloc) =>
          let guidsOut := base + .ofNat ptrBytes
          let ptrs := (List.range count).flatMap fun i => leBytes 8 (guidsOut + .ofNat (i * 16)).toNat
          let mem := s.mem.write base (ptrs ++ guids.flatMap guidBytes)
          return (.buffer .success (some base) (some (.ofNat count)), { s with alloc, mem })

/-! ## Tables and counters -/

def installConfigurationTable (guid : Option EfiGuid) (table : UInt64) : Reply × Boot :=
  match guid with
  | none => (.just .invalidParameter, s)
  | some g =>
    match s.configTable.findIdx? fun e => e.1 = g with
    | some idx =>
      if table = 0 then
        (.just .success, { s with configTable := s.configTable.eraseIdx idx })
      else
        (.just .success, { s with configTable := s.configTable.set idx (g, table) })
    | none =>
      if table = 0 then
        (.just .notFound, s)
      else if maxConfigTableEntries ≤ s.configTable.length then
        (.just .outOfResources, s)
      else
        (.just .success, { s with configTable := s.configTable ++ [(g, table)] })

def getNextMonotonicCount (count : OutPtr) : Reply × Boot :=
  if !count then
    (.just .invalidParameter, s)
  else
    (.word .success (some s.monotonicCount), { s with monotonicCount := s.monotonicCount + 1 })

def unloadImage (imageHandle : UInt64) : Option Reply := do
  match ← ProtocolDb.indexOf s.handles imageHandle with
  | none => return .just .invalidParameter
  | some index =>
    match (s.loadedImages.get index).unload with
    | some f => return .enters f
    | none => return .just .unsupported

/-! ## Events -/

def createEvent (eventType : UInt32) (notifyFunction : Option UInt64) (notifyContext : UInt64) (event : OutPtr) :
    Reply × Boot :=
  if !event then
    (.just .invalidParameter, s)
  else
    let kind := if eventType &&& evtTimer ≠ 0 then Events.Kind.timer else .generic
    match Events.create s.events kind notifyFunction notifyContext with
    | (some e, events) => (.word .success (some e), { s with events })
    | (none, events) => (.just .outOfResources, { s with events })

def setTimer (clock : Events.Clock) (now event : UInt64) (timerType : UInt32) (triggerTime : UInt64) :
    Option (Reply × Boot) :=
  (Events.setTimer clock now s.events event timerType triggerTime).map fun (st, events) =>
    (.just st, { s with events })

def signalEvent (event : UInt64) : Reply × Boot :=
  let (st, events) := Events.signal s.events event
  (.just st, { s with events })

def closeEvent (event : UInt64) : Reply × Boot :=
  let (st, events) := Events.close s.events event
  (.just st, { s with events })

def checkEvent (r : Events.Reading) (event : UInt64) : Reply × Boot :=
  let (st, events) := Events.check r s.events event
  (.just st, { s with events })

/-- `event` is the array the pointer points to. -/
def waitForEvent (readings : List Events.Reading) (numberOfEvents : UInt64) (event : Option (Nat → UInt64))
    (index : OutPtr) : Option (Reply × Boot) :=
  match event with
  | none => some (.just .invalidParameter, s)
  | some ptr =>
    if !index || numberOfEvents = 0 then
      some (.just .invalidParameter, s)
    else if 8 < numberOfEvents then
      some (.just .invalidParameter, s)
    else
      (Events.wait readings s.events ((List.range numberOfEvents.toNat).map ptr)).map fun (r, events) =>
        match r with
        | .ok i => (.word .success (some (.ofNat i)), { s with events })
        | .error st => (.just st, { s with events })

/-! ## Images -/

/-- `sourceBuffer` is what the pointer points to. -/
def loadImage (parentImageHandle : UInt64) (sourceBuffer : Option Ptr8) (sourceSize : UInt64) (imageHandle : OutPtr) :
    Option (Reply × Boot) :=
  if s.exited then
    some (.just .unsupported, s)
  else
    match sourceBuffer with
    | none => some (.just .invalidParameter, s)
    | some ptr =>
      if !imageHandle || sourceSize = 0 then
        some (.just .invalidParameter, s)
      else
        match Pe.load (rawParts sourceSize.toNat (some ptr)) s.alloc s.mem with
        | (.error _, alloc, mem) => some (.just .unsupported, { s with alloc, mem })
        | (.ok loaded, alloc, mem) => do
          match ← ProtocolDb.findOrCreateHandle s.handles 0 with
          | (none, handles) => return (.just .outOfResources, { s with alloc, mem, handles })
          | (some index, handles) =>
            let entry : LoadedImage := { emptyLoadedImage with
              parentHandle := parentImageHandle
              systemTable := image.systemTable
              imageBase := loaded.imageBase
              imageSize := loaded.imageSize }
            let loadedImages := s.loadedImages.set index entry
            let entryPoints := s.entryPoints.set index loaded.entryPoint
            let interface := image.loadedImageProtocols + .ofNat (index.val * loadedImageSize)
            match ProtocolDb.install handles index loadedImageProtocolGuid interface with
            | (false, handles) =>
              return (.just .outOfResources, { s with alloc, mem, handles, loadedImages, entryPoints })
            | (true, handles) =>
              return (.word .success (some (ProtocolDb.handleForIndex index)),
                { s with alloc, mem, handles, loadedImages, entryPoints })

def startImage (imageHandle : UInt64) : Option Reply :=
  if s.exited then
    some (.just .unsupported)
  else do
    match ← ProtocolDb.indexOf s.handles imageHandle with
    | none => return .just .invalidParameter
    | some index =>
      let entry := s.entryPoints.get index
      if entry = 0 then
        return .just .invalidParameter
      else
        return .enters entry

def exitBootServices (mapKey : UInt64) : Reply × Boot :=
  if s.exited then
    (.just .success, s)
  else if mapKey ≠ s.alloc.generation then
    (.just .invalidParameter, s)
  else
    (.just .success, { s with exited := true })

/-! ## The rest -/

/-- The result is written through `crc32`. -/
def calculateCrc32 (data : Option Ptr8) (dataSize : UInt64) (crc32 : OutPtr) : Reply :=
  match data, crc32 with
  | some ptr, true => .word .success (some (crc32Ieee (rawParts dataSize.toNat (some ptr))).toUInt64)
  | _, _ => .just .invalidParameter

/-- `Stall` waits for the tick counter and changes nothing. -/
def stall (clock : Events.Clock) (microseconds : UInt64) : Option Reply :=
  (Events.microsToTicks clock microseconds).map fun _ => .just .success

end Boot

/-! ## The table -/

/-- The entries that are `stub`. -/
inductive Stub where
  | registerProtocolNotify
  | locateDevicePath
  | exit
  | connectController
  | disconnectController
  | openProtocolInformation
  | installMultipleProtocolInterfaces
  | uninstallMultipleProtocolInterfaces

/-- A call of a table entry, with its arguments and what the hardware shows it. Arguments that the source ignores are
left out. -/
inductive Call where
  | raiseTpl (newTpl : UInt64)
  | restoreTpl (oldTpl : UInt64)
  | allocatePages (pages : UInt64) (memory : OutPtr)
  | freePages (memory pages : UInt64)
  | getMemoryMap (memoryMapSize : Option UInt64) (memoryMap mapKey descriptorSize descriptorVersion : OutPtr)
  | allocatePool (size : UInt64) (buffer : OutPtr)
  | freePool (buffer : UInt64)
  | createEvent (eventType : UInt32) (notifyFunction : Option UInt64) (notifyContext : UInt64) (event : OutPtr)
  | setTimer (clock : Events.Clock) (now event : UInt64) (timerType : UInt32) (triggerTime : UInt64)
  | waitForEvent (readings : List Events.Reading) (numberOfEvents : UInt64) (event : Option (Nat → UInt64))
      (index : OutPtr)
  | signalEvent (event : UInt64)
  | closeEvent (event : UInt64)
  | checkEvent (r : Events.Reading) (event : UInt64)
  | installProtocolInterface (handle : Option UInt64) (protocol : Option EfiGuid) (interface : UInt64)
  | reinstallProtocolInterface (handle : UInt64) (protocol : Option EfiGuid) (newInterface : UInt64)
  | uninstallProtocolInterface (handle : UInt64) (protocol : Option EfiGuid)
  | handleProtocol (handle : UInt64) (protocol : Option EfiGuid) (interface : OutPtr)
  | locateHandle (searchType : UInt32) (protocol : Option EfiGuid) (bufferSize : Option UInt64) (buffer : OutPtr)
  | installConfigurationTable (guid : Option EfiGuid) (table : UInt64)
  | loadImage (parentImageHandle : UInt64) (sourceBuffer : Option Ptr8) (sourceSize : UInt64) (imageHandle : OutPtr)
  | startImage (imageHandle : UInt64)
  | unloadImage (imageHandle : UInt64)
  | exitBootServices (mapKey : UInt64)
  | getNextMonotonicCount (count : OutPtr)
  | stall (clock : Events.Clock) (microseconds : UInt64)
  | setWatchdogTimer (timeout : UInt64)
  | openProtocol (handle : UInt64) (protocol : Option EfiGuid) (interface : OutPtr)
  | closeProtocol
  | protocolsPerHandle (handle : UInt64) (protocolBuffer protocolBufferCount : OutPtr)
  | locateHandleBuffer (searchType : UInt32) (protocol : Option EfiGuid) (numHandles buffer : OutPtr)
  | locateProtocol (protocol : Option EfiGuid) (interface : OutPtr)
  | calculateCrc32 (data : Option Ptr8) (dataSize : UInt64) (crc32 : OutPtr)
  | copyMem (destination source length : UInt64)
  | setMem (buffer size : UInt64) (value : UInt8)
  | createEventEx (eventType : UInt32) (notifyFunction : Option UInt64) (notifyContext : UInt64) (event : OutPtr)
  | stub (entry : Stub)

namespace Boot

/-- One call: the reply and the statics afterwards. -/
def step (image : Image) (s : Boot) : Call → Option (Reply × Boot)
  | .raiseTpl newTpl => s.raiseTpl newTpl
  | .restoreTpl oldTpl => s.restoreTpl oldTpl
  | .allocatePages pages memory => s.allocatePages pages memory
  | .freePages _ _ => some (.just .success, s)
  | .getMemoryMap memoryMapSize memoryMap mapKey descriptorSize descriptorVersion =>
    some (s.getMemoryMap image memoryMapSize memoryMap mapKey descriptorSize descriptorVersion, s)
  | .allocatePool size buffer => s.allocatePool size buffer
  | .freePool _ => some (.just .success, s)
  | .createEvent eventType notifyFunction notifyContext event =>
    s.createEvent eventType notifyFunction notifyContext event
  | .setTimer clock now event timerType triggerTime => s.setTimer clock now event timerType triggerTime
  | .waitForEvent readings numberOfEvents event index => s.waitForEvent readings numberOfEvents event index
  | .signalEvent event => s.signalEvent event
  | .closeEvent event => s.closeEvent event
  | .checkEvent r event => s.checkEvent r event
  | .installProtocolInterface handle protocol interface => s.installProtocolInterface handle protocol interface
  | .reinstallProtocolInterface handle protocol newInterface =>
    s.reinstallProtocolInterface handle protocol newInterface
  | .uninstallProtocolInterface handle protocol => s.uninstallProtocolInterface handle protocol
  | .handleProtocol handle protocol interface => (s.handleProtocol handle protocol interface).map (·, s)
  | .locateHandle searchType protocol bufferSize buffer => some (s.locateHandle searchType protocol bufferSize buffer, s)
  | .installConfigurationTable guid table => s.installConfigurationTable guid table
  | .loadImage parentImageHandle sourceBuffer sourceSize imageHandle =>
    s.loadImage image parentImageHandle sourceBuffer sourceSize imageHandle
  | .startImage imageHandle => (s.startImage imageHandle).map (·, s)
  | .unloadImage imageHandle => (s.unloadImage imageHandle).map (·, s)
  | .exitBootServices mapKey => s.exitBootServices mapKey
  | .getNextMonotonicCount count => s.getNextMonotonicCount count
  | .stall clock microseconds => (stall clock microseconds).map (·, s)
  | .setWatchdogTimer _ => some (.just .success, s)
  | .openProtocol handle protocol interface => (s.handleProtocol handle protocol interface).map (·, s)
  | .closeProtocol => some (.just .success, s)
  | .protocolsPerHandle handle protocolBuffer protocolBufferCount =>
    s.protocolsPerHandle handle protocolBuffer protocolBufferCount
  | .locateHandleBuffer searchType protocol numHandles buffer =>
    s.locateHandleBuffer searchType protocol numHandles buffer
  | .locateProtocol protocol interface => some (s.locateProtocol protocol interface, s)
  | .calculateCrc32 data dataSize crc32 => some (calculateCrc32 data dataSize crc32, s)
  | .copyMem destination source length => some (.void, { s with mem := s.mem.copy destination source length })
  | .setMem buffer size value => some (.void, { s with mem := s.mem.fill buffer size value })
  | .createEventEx eventType notifyFunction notifyContext event =>
    s.createEvent eventType notifyFunction notifyContext event
  | .stub _ => some (.just .unsupported, s)

/-- One call of a run: the statics before it, the call, its reply, and the statics after it. -/
structure Made where
  before : Boot
  call : Call
  reply : Reply
  after : Boot

/-- The calls of the log are made one after the other, from `s` to `s'`, and each of them returns. -/
def Run (image : Image) : Boot → List Made → Boot → Prop
  | s, [], s' => s = s'
  | s, m :: log, s' => m.before = s ∧ s.step image m.call = some (m.reply, m.after) ∧ Run image m.after log s'

end Boot

end Ferro
