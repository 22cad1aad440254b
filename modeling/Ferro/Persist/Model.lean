import Ferro.Fat32.Model
import Ferro.Variables.Model

/-!
# Saving the variable store to the card (`persist.rs`)

`save` and `load` read and write the card only; the store they work on is an argument, and the store after a `load`
is part of its result.
-/

namespace Ferro

/-- `FERRO.VAR`. -/
def varFileName : Name := .ofList [0x46, 0x45, 0x52, 0x52, 0x4F, 0x20, 0x20, 0x20, 0x56, 0x41, 0x52]

def maxBytes : Nat := 8192

inductive PersistError where
  | tooLarge
  | sd (e : SdError)
  | fat32 (e : Fat32Error)
  | notOurData
  deriving DecidableEq

/-- How a call ends when it does not return `Ok`. -/
inductive PersistStop where
  | err (e : PersistError)
  | panic
  | hang
  deriving DecidableEq

/-- `From<Fat32Error> for PersistError`. -/
def PersistStop.ofStop : Stop → PersistStop
  | .err e => .err (.fat32 e)
  | .panic => .panic
  | .hang => .hang

abbrev PersistM := Prog Nat Sector PersistStop

namespace Persist

/-- Returns the number of bytes written. -/
def save (fs : Fat32) (vars : Store) : PersistM Nat :=
  match Variables.serialize vars maxBytes with
  | none => .fail (.err .tooLarge)
  | some buf => do
    (fs.writeFile varFileName buf).mapError .ofStop
    return buf.length

/-- Returns the number of variables loaded and the store with them merged in; if it fails, the store is as it was. -/
def load (fs : Fat32) (vars : Store) : PersistM (Nat × Store) := do
  let buf ← (fs.readFile varFileName maxBytes).mapError .ofStop
  match Variables.deserialize buf vars with
  | none => .fail (.err .notOurData)
  | some r => return r

end Persist

end Ferro
