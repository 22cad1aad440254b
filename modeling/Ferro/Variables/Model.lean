import Ferro.Base.Slots
import Ferro.Types

/-!
# The UEFI variable store (`efi/variables.rs`)

A name is passed as a pointer to CHAR16 units, which is modelled by the units found from there on. A buffer is a list
of bytes, and a call that fills one returns its new contents.
-/

namespace Ferro

def maxVariables : Nat := 32

/-- CHAR16 units, not counting the null terminator. -/
def maxNameUnits : Nat := 32

def maxDataLen : Nat := 512

structure Variable where
  inUse : Bool
  name : Arr UInt16 maxNameUnits
  nameLen : Nat
  guid : EfiGuid
  attributes : UInt32
  data : Bytes maxDataLen
  dataLen : Nat
  deriving DecidableEq

def emptyVar : Variable where
  inUse := false
  name := .fill 0
  nameLen := 0
  guid := ⟨0, 0, 0, .fill 0⟩
  attributes := 0
  data := .fill 0
  dataLen := 0

instance : Inhabited Variable := ⟨emptyVar⟩

/-- The contents of `VARS`. -/
abbrev Store := Arr Variable maxVariables

inductive VarError where
  | notFound
  | invalidParameter
  | bufferTooSmall (needed : Nat)
  | outOfResources
  deriving DecidableEq

namespace Variables

/-- `VARS` at boot. -/
def empty : Store := .fill emptyVar

/-- The loop of `read_name` at unit `i`, with `n` units left up to `max`. -/
def readNameLoop (ptr : Ptr16) : (n i : Nat) → Arr UInt16 maxNameUnits → Option (Arr UInt16 maxNameUnits × Nat)
  | 0, i, buf => if ptr i = 0 then some (buf, i) else none
  | n + 1, i, buf => if ptr i = 0 then some (buf, i) else readNameLoop ptr n (i + 1) (buf.put i [ptr i])

def readName (ptr : Ptr16) (max : Nat) : Option (Arr UInt16 maxNameUnits × Nat) := readNameLoop ptr max 0 (.fill 0)

def namesEq (a : Arr UInt16 maxNameUnits) (aLen : Nat) (b : Arr UInt16 maxNameUnits) (bLen : Nat) : Bool :=
  aLen = bLen && a.slice 0 aLen = b.slice 0 bLen

/-- The test by which `get` and `set` look for a variable. -/
def isNamed (guid : EfiGuid) (name : Arr UInt16 maxNameUnits) (nameLen : Nat) (v : Variable) : Bool :=
  v.inUse && v.guid = guid && namesEq v.name v.nameLen name nameLen

/-- The attributes and the data length, and the buffer afterwards. -/
def get (vars : Store) (namePtr : Ptr16) (guid : EfiGuid) (dataBuf : List UInt8) :
    Except VarError (UInt32 × Nat) × List UInt8 :=
  match readName namePtr maxNameUnits with
  | none => (.error .invalidParameter, dataBuf)
  | some (name, nameLen) =>
    match vars.find? (isNamed guid name nameLen) with
    | none => (.error .notFound, dataBuf)
    | some i =>
      let v := vars.get i
      if dataBuf.length < v.dataLen then
        (.error (.bufferTooSmall v.dataLen), dataBuf)
      else
        (.ok (v.attributes, v.dataLen), v.data.slice 0 v.dataLen ++ dataBuf.drop v.dataLen)

/-- Sets a variable, or deletes it when the data is empty: the result and the store afterwards. -/
def set (vars : Store) (namePtr : Ptr16) (guid : EfiGuid) (attributes : UInt32) (data : List UInt8) :
    Except VarError Unit × Store :=
  match readName namePtr maxNameUnits with
  | none => (.error .invalidParameter, vars)
  | some (name, nameLen) =>
    if maxDataLen < data.length then
      (.error .outOfResources, vars)
    else
      let existing := vars.find? (isNamed guid name nameLen)
      if data = [] then
        match existing with
        | some i => (.ok (), vars.set i emptyVar)
        | none => (.error .notFound, vars)
      else
        match existing with
        | some i =>
          let v := vars.get i
          (.ok (), vars.set i { v with attributes, data := v.data.put 0 data, dataLen := data.length })
        | none =>
          match vars.find? fun v => !v.inUse with
          | none => (.error .outOfResources, vars)
          | some i =>
            let slot := vars.get i
            (.ok (), vars.set i ⟨true, name, nameLen, guid, attributes, slot.data.put 0 data, data.length⟩)

/-- The units written to a name buffer of `outLen` units, terminator included, and the GUID, of the variable behind the
given one. An empty name starts the enumeration. -/
def getNext (vars : Store) (prevNamePtr : Ptr16) (prevGuid : EfiGuid) (outLen : Nat) :
    Except VarError (List UInt16 × EfiGuid) :=
  match readName prevNamePtr maxNameUnits with
  | none => .error .invalidParameter
  | some (prevName, prevLen) =>
    let startIndex :=
      if prevLen = 0 then some 0 else (vars.find? (isNamed prevGuid prevName prevLen)).map fun pos => pos.val + 1
    match startIndex with
    | none => .error .invalidParameter
    | some startIndex =>
      match (vars.toList.drop startIndex).find? (·.inUse) with
      | none => .error .notFound
      | some v =>
        if outLen < v.nameLen + 1 then
          .error (.bufferTooSmall (v.nameLen + 1))
        else
          .ok (v.name.slice 0 v.nameLen ++ [0], v.guid)

/-! ## The saved form -/

/-- `b"FVR1"`. -/
def magic : List UInt8 := [0x46, 0x56, 0x52, 0x31]

/-- The bytes `serialize` writes for a variable. -/
def varBytes (v : Variable) : List UInt8 :=
  leBytes 2 v.nameLen ++ (v.name.slice 0 v.nameLen).flatMap (fun unit => leBytes 2 unit.toNat) ++ guidBytes v.guid ++
    leBytes 4 v.attributes.toNat ++ leBytes 4 v.dataLen ++ v.data.slice 0 v.dataLen

/-- The loop of `serialize` with the variables `out` written so far behind the 8 bytes of the header, and their
number. -/
def serializeLoop (bufLen : Nat) : List Variable → (out : List UInt8) → (count : Nat) → Option (List UInt8 × Nat)
  | [], out, count => some (out, count)
  | v :: vs, out, count =>
    if !v.inUse then
      serializeLoop bufLen vs out count
    else
      let entryLen := 2 + v.nameLen * 2 + 16 + 4 + 4 + v.dataLen
      if bufLen < 8 + out.length + entryLen then
        none
      else
        serializeLoop bufLen vs (out ++ varBytes v) (count + 1)

/-- The bytes written to a buffer of `bufLen` bytes; their number is what the source returns. -/
def serialize (vars : Store) (bufLen : Nat) : Option (List UInt8) :=
  if bufLen < 8 then
    none
  else
    match serializeLoop bufLen vars.toList [] 0 with
    | none => none
    | some (out, count) => some (magic ++ leBytes 4 count ++ out)

/-- `buf[pos..pos + len]`. -/
def bytesAt (buf : List UInt8) (pos len : Nat) : List UInt8 := (buf.drop pos).take len

/-- `buf[pos..pos + len]` as a little-endian number. -/
def leAt (buf : List UInt8) (pos len : Nat) : Nat := leNat (bytesAt buf pos len)

def guidAt (buf : List UInt8) (pos : Nat) : EfiGuid where
  data1 := .ofNat (leAt buf pos 4)
  data2 := .ofNat (leAt buf (pos + 4) 2)
  data3 := .ofNat (leAt buf (pos + 6) 2)
  data4 := .ofList (bytesAt buf (pos + 8) 8)

/-- One variable as read back by `deserialize`. -/
structure Parsed where
  name : List UInt16
  guid : EfiGuid
  attributes : UInt32
  data : List UInt8

/-- The NUL-terminated buffer `name_nt`. -/
def Parsed.namePtr (p : Parsed) : Ptr16 := fun i => p.name.getD i 0

/-- Reads the variable at `pos` and returns the position behind it, or `none` where the loop of `deserialize` is
left. -/
def parseAt (buf : List UInt8) (pos : Nat) : Option (Parsed × Nat) :=
  if buf.length < pos + 2 then
    none
  else
    let nameLen := leAt buf pos 2
    let pos := pos + 2
    if maxNameUnits < nameLen ∨ buf.length < pos + nameLen * 2 then
      none
    else
      let name := (List.range nameLen).map fun i => UInt16.ofNat (leAt buf (pos + 2 * i) 2)
      let pos := pos + 2 * nameLen
      if buf.length < pos + 16 + 4 + 4 then
        none
      else
        let guid := guidAt buf pos
        let attributes := UInt32.ofNat (leAt buf (pos + 16) 4)
        let dataLen := leAt buf (pos + 20) 4
        let pos := pos + 24
        if maxDataLen < dataLen ∨ buf.length < pos + dataLen then
          none
        else
          some (⟨name, guid, attributes, bytesAt buf pos dataLen⟩, pos + dataLen)

/-- The loop of `deserialize` with `n` variables to come: how many were loaded, and the store. -/
def deserializeLoop (buf : List UInt8) : (n pos loaded : Nat) → Store → Nat × Store
  | 0, _, loaded, vars => (loaded, vars)
  | n + 1, pos, loaded, vars =>
    match parseAt buf pos with
    | none => (loaded, vars)
    | some (p, pos) =>
      match set vars p.namePtr p.guid p.attributes p.data with
      | (.ok (), vars) => deserializeLoop buf n pos (loaded + 1) vars
      | (.error _, vars) => deserializeLoop buf n pos loaded vars

/-- The number of variables loaded and the store afterwards; `none` leaves the store as it is. -/
def deserialize (buf : List UInt8) (vars : Store) : Option (Nat × Store) :=
  if buf.length < 8 ∨ bytesAt buf 0 4 ≠ magic then
    none
  else
    some (deserializeLoop buf (leAt buf 4 4) 8 0 vars)

end Variables

end Ferro
