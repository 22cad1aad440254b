import Ferro.Variables.Lemmas.Store

/-!
# What the variable store guarantees
-/

namespace Ferro

namespace Variables

/-! ## A bounded map -/

inductive Call where
  | set (name : CStr16) (guid : EfiGuid) (attributes : UInt32) (data : List UInt8)
  | get (name : CStr16) (guid : EfiGuid) (dataBuf : List UInt8)

inductive Result where
  | set (r : Except VarError Unit)
  | get (r : Except VarError (UInt32 × Nat)) (dataBuf : List UInt8)

def call (vars : Store) : Call → Result × Store
  | .set name guid attributes data =>
    let (r, vars) := set vars name.mem guid attributes data
    (.set r, vars)
  | .get name guid dataBuf =>
    let (r, dataBuf) := get vars name.mem guid dataBuf
    (.get r dataBuf, vars)

/-- A sequence of calls: the results and the store afterwards. -/
def calls (vars : Store) : List Call → List Result × Store
  | [] => ([], vars)
  | c :: cs =>
    let (r, vars) := call vars c
    let (rs, vars) := calls vars cs
    (r :: rs, vars)

/-- The call on the map. -/
noncomputable def mapCall (m : VarMap) : Call → Result × VarMap
  | .set name guid attributes data =>
    let (r, m) := m.set (name.units, guid) (attributes, data)
    (.set r, m)
  | .get name guid dataBuf =>
    let (r, dataBuf) := m.get (name.units, guid) dataBuf
    (.get r dataBuf, m)

noncomputable def mapCalls (m : VarMap) : List Call → List Result × VarMap
  | [] => ([], m)
  | c :: cs =>
    let (r, m) := mapCall m c
    let (rs, m) := mapCalls m cs
    (r :: rs, m)

/-- What one call with its result does to the value of `key`. -/
def noteSet (key : Key) (value : Option Value) : Call × Result → Option Value
  | (.set name guid attributes data, .set (.ok ())) =>
    if (name.units, guid) = key then (if data = [] then none else some (attributes, data)) else value
  | _ => value

/-- The value of the last successful non-empty `set` of `key`, if no successful delete of it came later. -/
def lastSet (key : Key) (history : List (Call × Result)) : Option Value := history.foldl (noteSet key) none

variable {vars : Store}

theorem Valid.call (hv : Valid vars) (c : Call) : Valid (call vars c).2 ∧
    mapCall (toMap vars) c = ((Variables.call vars c).1, toMap (Variables.call vars c).2) := by
  cases c with
  | set name guid attributes data =>
      obtain ⟨hv', he⟩ := hv.set_eq (s := name) guid attributes data
      exact ⟨hv', by simp only [mapCall, he, Variables.call]⟩
  | get name guid dataBuf => exact ⟨hv, by simp only [mapCall, ← hv.get_eq, Variables.call]⟩

theorem noteSet_mapCall (key : Key) (m : VarMap) (c : Call) :
    noteSet key (m key) (c, (mapCall m c).1) = (mapCall m c).2 key := by
  cases c with
  | get name guid dataBuf => rfl
  | set name guid attributes data =>
      rcases m.set_cases (name.units, guid) (attributes, data) with ⟨e, he⟩ | ⟨_, he⟩
      · simp only [mapCall, he, noteSet]
      · simp only [mapCall, he, noteSet, Function.update_apply, eq_comm (a := key)]

theorem Valid.calls (hv : Valid vars) (cs : List Call) : Valid (calls vars cs).2 ∧
    mapCalls (toMap vars) cs = ((Variables.calls vars cs).1, toMap (Variables.calls vars cs).2) ∧
    ∀ key, (cs.zip (Variables.calls vars cs).1).foldl (noteSet key) (toMap vars key) =
      toMap (Variables.calls vars cs).2 key := by
  induction cs generalizing vars with
  | nil => exact ⟨hv, rfl, fun _ => rfl⟩
  | cons c cs ih =>
      obtain ⟨hv', he⟩ := hv.call c
      obtain ⟨hvs, hes, hkeys⟩ := ih hv'
      refine ⟨hvs, ?_, fun key => ?_⟩
      · simp only [mapCalls, he, hes, Variables.calls]
      · have hnote := noteSet_mapCall key (toMap vars) c
        simp only [he] at hnote
        simp only [Variables.calls, List.zip_cons_cons, List.foldl_cons, hnote, hkeys]

/-- Any calls return what they return on a bounded map, a key has the value last set, and no two slots hold the same
key. -/
theorem calls_refine (cs : List Call) :
    mapCalls (fun _ => none) cs = ((calls empty cs).1, toMap (calls empty cs).2) ∧
      (∀ key, toMap (calls empty cs).2 key = lastSet key (cs.zip (calls empty cs).1)) ∧
      Slots.Unique Variable.entry (calls empty cs).2 := by
  obtain ⟨hv, he, hkeys⟩ := valid_empty.calls cs
  rw [toMap_empty] at he hkeys
  exact ⟨he, fun key => (hkeys key).symm, hv.unique⟩

end Variables

end Ferro
