import Ferro.Base.Splice
import Ferro.Files.Model

/-!
# What an open file is

A file handle is a byte file in memory: its bytes and a position.
-/

namespace Ferro

structure ByteFile where
  bytes : List UInt8
  pos : Nat

namespace ByteFile

variable (b : ByteFile)

/-- The next `n` bytes, or as many as there are. -/
def read (n : Nat) : List UInt8 × ByteFile :=
  let out := (b.bytes.drop b.pos).take n
  (out, { b with pos := b.pos + out.length })

/-- Writes at the position; a gap behind the end is filled with zeros. A file holds at most 65536 bytes. -/
def write (data : List UInt8) : Option ByteFile :=
  if 65536 < b.pos + data.length then none else some ⟨splice 0 b.bytes b.pos data, b.pos + data.length⟩

/-- The largest `u64` is the end of the file, and every other position is at most 65536. -/
def seek (position : UInt64) : Option ByteFile :=
  if position = 0xFFFFFFFFFFFFFFFF then some { b with pos := b.bytes.length }
  else if 65536 < position.toNat then none
  else some { b with pos := position.toNat }

/-- The reply and the file after a call of `Read`, `Write`, `GetPosition`, `SetPosition` or `Flush`. -/
def step : Files.Call → Option (Files.Reply × ByteFile)
  | .fileRead _ (some n) true =>
    let (out, b') := b.read n.toNat
    some (.buffer .success out.length out, b')
  | .fileRead _ _ _ => some (.just .invalidParameter, b)
  | .fileWrite _ (some n) (some ptr) =>
    match b.write (rawParts n.toNat (some ptr)) with
    | none => some (.just .outOfResources, b)
    | some b' => some (.just .success, b')
  | .fileWrite _ _ _ => some (.just .invalidParameter, b)
  | .fileGetPosition _ true => some (.position b.pos, b)
  | .fileGetPosition _ false => some (.just .invalidParameter, b)
  | .fileSetPosition _ position =>
    match b.seek position with
    | none => some (.just .invalidParameter, b)
    | some b' => some (.just .success, b')
  | .fileFlush _ => some (.just .success, b)
  | _ => none

end ByteFile

namespace Files

/-- The volume and the path when `Open` takes its branch for a single component under the root. -/
def rootPath (s : Files) (this : Nat) (path : Ptr16) : Option (Fat32 × List UInt8) := do
  let parent ← s.thisToIndex this
  let parentDirCluster ← (s.files.get parent).dirCluster
  let fs ← s.context
  if isRootPath path then
    none
  else
    let raw ← char16PathToAscii path
    let (startCluster, path) := startOf fs parentDirCluster raw
    if !path.contains 0x5C && startCluster = fs.rootCluster.toNat then some (fs, path) else none

/-- The handle a call is made on. -/
def Call.this : Call → Option Nat
  | .openVolume _ => none
  | .fileOpen this _ _ _ => some this
  | .fileClose this => some this
  | .fileDelete this => some this
  | .fileRead this _ _ => some this
  | .fileWrite this _ _ => some this
  | .fileGetPosition this _ => some this
  | .fileSetPosition this _ => some this
  | .fileGetInfo this _ _ _ => some this
  | .fileSetInfo this => some this
  | .fileFlush this => some this
  | .writeFile _ _ => none

/-- The calls that a byte file answers. -/
def Call.plain : Call → Bool
  | .fileRead _ _ _ => true
  | .fileWrite _ _ _ => true
  | .fileGetPosition _ _ => true
  | .fileSetPosition _ _ => true
  | .fileFlush _ => true
  | _ => false

/-- Buffers are at most `isize::MAX` bytes long. -/
def Call.Sized : Call → Prop
  | .fileRead _ (some n) _ => n.toNat < 2 ^ 63
  | .fileWrite _ (some n) _ => n.toNat < 2 ^ 63
  | _ => True

/-- A `write_file` call, and the number of its first block operation. -/
structure Write where
  fs : Fat32
  name : Name
  data : List UInt8
  start : Nat

/-- The result of a `write_file`, the number of operations so far, and the card it leaves. -/
def Write.run (w : Write) (faults : Faults) (card : Disk) : Except Stop Unit × Nat × Disk :=
  (w.fs.writeFile w.name w.data).runFaults faults.stop w.start card

/-- No block operation of the `write_file` fails. -/
def Write.Quiet (w : Write) (faults : Faults) (card : Disk) : Prop :=
  ∀ j < (w.fs.writeFile w.name w.data).ops card, faults (w.start + j) = none

/-- The `write_file` of a handle that is flushed. -/
def flushWrite (s : Files) (this : Nat) : Option Write := do
  let i ← s.thisToIndex this
  let fs ← s.context
  let f := s.files.get i
  if f.forWrite && f.dirty then some ⟨fs, f.name83, f.data.slice 0 f.len, 0⟩ else none

/-- The `write_file` of an open that does not find its file. -/
def createWrite (s : Files) (faults : Faults) (fs : Fat32) (path : List UInt8) (openMode : UInt64) : Option Write := do
  let name ← to83OrNone path
  let (r, i, _) ← s.exec faults 0 (fs.readFile name maxFileBytes)
  match r with
  | .ok _ => none
  | .error _ => if openMode &&& efiFileModeCreate ≠ 0 then some ⟨fs, name, [], i⟩ else none

/-- The `write_file` that a call makes. -/
def request (s : Files) (faults : Faults) : Call → Option Write
  | .fileOpen this true (some path) openMode => do
    let (fs, path) ← s.rootPath this path
    s.createWrite faults fs path openMode
  | .fileClose this => s.flushWrite this
  | .fileDelete this => s.flushWrite this
  | .fileFlush this => s.flushWrite this
  | .writeFile name data => s.context.map fun fs => ⟨fs, name, data, 0⟩
  | _ => none

/-- No block operation fails. -/
def noFaults : Faults := fun _ => none

theorem noFaults_none (i : Nat) : noFaults i = none := rfl

namespace Made

variable (m : Made)

/-- No block operation of the call fails. -/
def Working : Prop := ∀ i, m.faults i = none

/-- The `write_file` of the call. -/
def request : Option Write := m.before.request m.faults m.call

/-- What the `write_file` of the call returns. -/
def result : Option (Except Stop Unit) := m.request.map fun w => (w.run m.faults m.before.card).1

/-- The data that the call writes to the file `name` with success. -/
def saved (name : Name) : Option (List UInt8) :=
  m.request.bind fun w => if w.name = name ∧ (w.run m.faults m.before.card).1.isOk then some w.data else none

end Made

/-- The results of the `write_file` calls made on the handle. -/
def resultsOn (this : Nat) (log : List Made) : List (Except Stop Unit) :=
  log.filterMap fun m => if m.call.this = some this then m.result else none

/-- The data last written to the file `name` with success, and `c` if there is none. -/
def lastSaved (name : Name) : List Made → List UInt8 → List UInt8
  | [], c => c
  | m :: log, c => lastSaved name log ((m.saved name).getD c)

/-- In the log, the calls made on the handle take the byte file from `b` to `b'`, with the replies of the byte file. -/
def Refines (this : Nat) : ByteFile → List Made → ByteFile → Prop
  | b, [], b' => b = b'
  | b, m :: log, b' =>
    if m.call.this = some this then
      ∃ b₁, b.step m.call = some (m.reply, b₁) ∧ Refines this b₁ log b'
    else
      Refines this b log b'

end Files

end Ferro
