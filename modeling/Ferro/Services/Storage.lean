import Ferro.Services.Enumeration
import Ferro.Variables.Storage

/-!
# What is left for variables (`query_variable_info`)

Over a run, what the service reports is the account of the variables that can be enumerated.
-/

namespace Ferro

open Variables

namespace Session

/-- The status, and what the three pointers point to afterwards. -/
def queryVariableInfo (vars : Store) (_attributes : UInt32)
    (maxStorage remainingStorage maxVariableSize : Option UInt64) :
    EfiStatus × Option UInt64 × Option UInt64 × Option UInt64 :=
  let (total, remaining, maxSingle) := storageInfo vars
  (.success, maxStorage.map fun _ => total, remainingStorage.map fun _ => remaining,
    maxVariableSize.map fun _ => maxSingle)

variable {s s' : Session} {name : CStr16} {guid : EfiGuid} {attributes : UInt32} {dataSize : Nat} {data : Option Ptr8}
  {status : EfiStatus}

/-- The data of a call that is not refused for its pointers. -/
theorem length_rawParts_of_some (h : ¬ (0 < dataSize ∧ data.isNone)) : (rawParts dataSize data).length = dataSize := by
  cases data with
  | none =>
      have hzero : dataSize = 0 := Nat.eq_zero_of_not_pos fun hpos => h ⟨hpos, rfl⟩
      rw [hzero]
      rfl
  | some ptr => simp [rawParts]

/-- What a call does to the storage. -/
theorem setVariable_used (hv : Valid s.vars)
    (h : s.setVariable (some name.mem) (some guid) attributes dataSize data = some (status, s')) :
    (status = .success → used s'.vars + Slots.weight size (toMap s.vars (name.units, guid)) = used s.vars + dataSize) ∧
      (status ≠ .success → used s'.vars = used s.vars) := by
  have hvars : s'.vars = nextVars s (.setVariable (some name) (some guid) attributes dataSize data) := setVariable_vars h
  have hcall := h
  by_cases hnull : 0 < dataSize ∧ data.isNone
  · simp only [setVariable, if_pos hnull] at hcall
    cases hcall
    exact ⟨fun hok => absurd hok (by decide), fun _ => rfl⟩
  · simp only [nextVars, setCall, if_neg hnull] at hvars
    rw [hvars]
    refine ⟨fun hok => ?_, fun hne => ?_⟩
    · rw [hok] at h
      rw [hv.used_set (setVariable_success h).1, length_rawParts_of_some hnull]
    · simp only [setVariable, if_neg hnull] at hcall
      cases hset : Variables.set s.vars name.mem guid attributes (rawParts dataSize data) with
      | mk r vars =>
          have hfirst := congrArg Prod.fst hset
          have hsecond := congrArg Prod.snd hset
          cases r with
          | error e => rw [← hsecond, hv.used_set_error hfirst]
          | ok u =>
              rw [hset] at hcall
              dsimp only at hcall
              split at hcall
              · obtain ⟨⟨_, _⟩, -, he⟩ := Option.map_eq_some_iff.mp hcall
                cases he
                exact absurd rfl hne
              · cases hcall
                exact absurd rfl hne

end Session

end Ferro
