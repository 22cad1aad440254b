import Ferro.Variables.Model

/-!
# What the variable store is for

A map from (name, GUID) to (attributes, data) with at most `maxVariables` keys.
-/

namespace Ferro

/-- A NUL-terminated string of CHAR16 units, somewhere in memory. -/
structure CStr16 where
  mem : Ptr16
  terminated : ∃ i, mem i = 0

namespace CStr16

def len (s : CStr16) : Nat := Nat.find s.terminated

/-- The units before the terminator. -/
def units (s : CStr16) : List UInt16 := (List.range s.len).map s.mem

end CStr16

/-- Name and GUID. -/
abbrev Key := List UInt16 × EfiGuid

/-- Attributes and data. -/
abbrev Value := UInt32 × List UInt8

abbrev VarMap := Key → Option Value

namespace VarMap

variable (m : VarMap)

def keys : Set Key := {k | (m k).isSome}

/-- What `get` returns and leaves in the buffer. -/
def get (key : Key) (buf : List UInt8) : Except VarError (UInt32 × Nat) × List UInt8 :=
  if maxNameUnits < key.1.length then
    (.error .invalidParameter, buf)
  else
    match m key with
    | none => (.error .notFound, buf)
    | some (attributes, data) =>
      if buf.length < data.length then
        (.error (.bufferTooSmall data.length), buf)
      else
        (.ok (attributes, data.length), data ++ buf.drop data.length)

/-- What `set` returns, and the map afterwards. -/
noncomputable def set (key : Key) (value : Value) : Except VarError Unit × VarMap :=
  if maxNameUnits < key.1.length then
    (.error .invalidParameter, m)
  else if value.2 = [] then
    if m key = none then (.error .notFound, m) else (.ok (), Function.update m key none)
  else if maxDataLen < value.2.length ∨ (m key = none ∧ m.keys.ncard = maxVariables) then
    (.error .outOfResources, m)
  else
    (.ok (), Function.update m key (some value))

/-- The first map overridden by the second. -/
def override (m' : VarMap) : VarMap := fun k => (m' k).or (m k)

end VarMap

/-! ## The map in a store -/

/-- The key and value a slot holds. -/
def Variable.entry (v : Variable) : Option (Key × Value) :=
  if v.inUse then some ((v.name.slice 0 v.nameLen, v.guid), (v.attributes, v.data.slice 0 v.dataLen)) else none

/-- The lengths are in the arrays' bounds, the name is NUL-free and the data is not empty. -/
structure Variable.Bounded (v : Variable) : Prop where
  nameLen_le : v.nameLen ≤ maxNameUnits
  name_ne : 0 ∉ v.name.slice 0 v.nameLen
  dataLen_pos : 1 ≤ v.dataLen
  dataLen_le : v.dataLen ≤ maxDataLen

namespace Variables

def toMap (vars : Store) : VarMap := Slots.toMap Variable.entry vars

/-- The number of variables. -/
def count (vars : Store) : Nat := (Slots.entries Variable.entry vars).length

/-- No two slots in use have the same name and GUID, and what they hold is in its bounds. -/
structure Valid (vars : Store) : Prop where
  unique : Slots.Unique Variable.entry vars
  bounded {i} : (vars.get i).inUse → (vars.get i).Bounded

/-- The stores that calls can lead to. -/
inductive Reachable : Store → Prop where
  | empty : Reachable empty
  | set {vars} (h : Reachable vars) (name : CStr16) (guid : EfiGuid) (attributes : UInt32) (data : List UInt8) :
      Reachable (set vars name.mem guid attributes data).2

end Variables

end Ferro
